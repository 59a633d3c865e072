import Smali.Block
import Smali.Error
import Smali.Position

/-!
# Diagnostics

A problem in a source text never stops the parser: it is a diagnostic of the statement it concerns.

* `Problem`             the causes;
* `Problem.category`    whether a problem is one of lexemes, of the statement or of blocks;
* `Problem.message`     the wording;
* `Diagnostic`          a problem with its place and, where there is one, the pattern that was expected.
-/

namespace Smali

inductive Problem where
  | unterminatedString
  | unterminatedChar
  | unexpectedChar (c : Char)
  | unexpectedEnd
  /-- something else, or nothing, stands where `what` should -/
  | expected (what : Text) (found : Option Text)
  /-- text after the end of the statement -/
  | trailing (found : Text)
  | unknownDirective (word : Text)
  | unknownInstruction (word : Text)
  /-- a token that starts no statement -/
  | unexpectedStart (found : Text)
  /-- a descriptor that ends inside a token -/
  | malformed (what : Text)
  | invalid (what : Text)
  | invalidIndex (literal : Text)
  | elementWidth
  | odexOnly (mnemonic : Text)
  /-- a token that its own reader refuses -/
  | unreadable (cause : Error)
  /-- an end without an open block -/
  | unmatched (kind : BlockKind)
  /-- a block without an end -/
  | unterminated (kind : BlockKind)
deriving DecidableEq, Repr

namespace Problem

inductive Category where
  | lexical
  | syntactic
  | unterminated
deriving DecidableEq, Repr

def category : Problem → Category
  | .unterminatedString | .unterminatedChar | .unexpectedChar _ | .unexpectedEnd => .lexical
  | .unterminated _ => .unterminated
  | _ => .syntactic

def Category.describe : Category → Text
  | .lexical => "lexical error".toList
  | .syntactic => "syntax error".toList
  | .unterminated => "unterminated block".toList

open Text in
def message : Problem → Text
  | .unterminatedString => "unterminated string literal".toList
  | .unterminatedChar => "unterminated character literal".toList
  | .unexpectedChar c => "unexpected character ".toList ++ quoted [c]
  | .unexpectedEnd => "unexpected end of line".toList
  | .expected what (some found) => "expected ".toList ++ what ++ ", found ".toList ++ quoted found
  | .expected what none => "expected ".toList ++ what ++ " before end of line".toList
  | .trailing found => "unexpected ".toList ++ quoted found ++ ", expected end of line".toList
  | .unknownDirective word => "unknown directive ".toList ++ quoted word
  | .unknownInstruction word => "unknown instruction ".toList ++ quoted word
  | .unexpectedStart found => "unexpected ".toList ++ quoted found ++ " at start of statement".toList
  | .malformed what => "malformed ".toList ++ what
  | .invalid what => "invalid ".toList ++ what
  | .invalidIndex literal => "invalid index ".toList ++ quoted literal
  | .elementWidth => "array element width must be 1, 2, 4 or 8".toList
  | .odexOnly mnemonic => quoted mnemonic ++ " is only valid in odex files".toList
  | .unreadable cause => cause.message
  | .unmatched kind => kind.closer ++ " without an open block".toList
  | .unterminated kind => "missing ".toList ++ kind.closer

end Problem

structure Diagnostic where
  problem : Problem
  span : Span
  /-- the pattern of the statement that was expected -/
  expecting : Option Text
deriving DecidableEq, Repr

namespace Diagnostic

def category (d : Diagnostic) : Problem.Category :=
  d.problem.category

def message (d : Diagnostic) : Text :=
  d.problem.message

/-- place, category and message -/
def render (d : Diagnostic) : Text :=
  d.span.render ++ ": ".toList ++ d.category.describe ++ ": ".toList ++ d.message

end Diagnostic
end Smali
