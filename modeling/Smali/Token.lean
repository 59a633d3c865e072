import Smali.Literal
import Smali.Position

/-!
# Tokens

* `TokenKind`       the kinds of tokens;
* `Classification`  how a highlighter shows a token;
* `Token`           a piece of a line with its kind and its place.

A token's `start` is a byte offset into its line, and its text is the slice of the line there.
-/

namespace Smali

inductive TokenKind where
  | keyword
  | identifier
  | register
  | number
  | hexNumber
  | string
  | comment
  | delimiter
  /-- the name of a label, without its colon -/
  | label
  | whitespace
  /-- text that is no lexeme; it runs to the end of the line -/
  | error
deriving DecidableEq, Repr

inductive Classification where
  | keyword
  | comment
  | identifier
  | string
  | number
  | text
deriving DecidableEq, Repr

namespace TokenKind

def classification : TokenKind → Classification
  | .keyword => .keyword
  | .comment => .comment
  | .identifier | .register | .label => .identifier
  | .string => .string
  | .number | .hexNumber => .number
  | .delimiter | .whitespace | .error => .text

/-- whether tokens of the kind stand outside the statement -/
def isTrivia : TokenKind → Bool
  | .whitespace | .comment => true
  | _ => false

/-- the name in listings and dumps -/
def tag : TokenKind → Text
  | .keyword => "Keyword".toList
  | .identifier => "Identifier".toList
  | .register => "Register".toList
  | .number => "Number".toList
  | .hexNumber => "HexNumber".toList
  | .string => "String".toList
  | .comment => "Comment".toList
  | .delimiter => "Delimiter".toList
  | .label => "Label".toList
  | .whitespace => "Whitespace".toList
  | .error => "Error".toList

end TokenKind

structure Token where
  kind : TokenKind
  text : Text
  /-- the offset of the first byte in the line -/
  start : Nat
  line : Nat
  /-- the width that the suffix of a number declares -/
  width : Option Width
  /-- whether the token is punctuation that only groups others -/
  transient : Bool
deriving DecidableEq, Repr

namespace Token

/-- the length in bytes -/
def size (t : Token) : Nat :=
  Text.size t.text

/-- the offset after the last byte -/
def stop (t : Token) : Nat :=
  t.start + t.size

def span (t : Token) : Span :=
  Span.onLine t.line t.start t.stop

def isSignificant (t : Token) : Bool :=
  !t.kind.isTrivia

def isDelimiter (t : Token) (text : Text) : Bool :=
  t.kind == .delimiter && t.text == text

/-- whether the text starts with a dot -/
def isDotted (t : Token) : Bool :=
  t.text.head? == some '.'

/-- whether the token is a keyword that starts with a dot -/
def isDirective (t : Token) : Bool :=
  t.kind == .keyword && t.isDotted

/-- whether the token is a word, be it a keyword such as `public` or not -/
def isWord (t : Token) : Bool :=
  (t.kind == .identifier || t.kind == .keyword) && !t.isDotted

/-- whether byte `offset` of the line belongs to the token -/
def covers (t : Token) (offset : Nat) : Bool :=
  decide (t.start ≤ offset) && decide (offset < t.stop)

end Token
end Smali
