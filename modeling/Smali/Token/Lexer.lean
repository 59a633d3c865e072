import Smali.Access
import Smali.Catalog
import Smali.Token
import Smali.Token.Lexeme

/-!
# From a line to its tokens

A lexer stands between two characters of a line.  What a piece of text is depends on the tokens before
it, on the characters directly before it and on the catalog, which says which words are mnemonics.

* `LexContext`       what the tokens before decide;
* `LexState`         a place in a line that can be kept, and taken up again on the same line or on
                     an edited one by `Lexer.resume`;
* `Lexer.lex`        the next token and the lexer after it;
* `Lexer.next`       the next token, with whitespace passed over when it is not wanted;
* `Lexer.take`, `Lexer.drain`  some of the tokens that are left, one by one, and all of them;
* `tokenize`         the tokens of a line without whitespace.
-/

namespace Smali

/-- what the tokens before a place decide about the text after it -/
structure LexContext where
  /-- the number of tokens that are neither whitespace nor comment -/
  significant : Nat
  /-- the directive that the line starts with -/
  directive : Option Directive
  /-- whether the last of them was `.end` or `.restart` -/
  afterEnd : Bool
  /-- whether the last token was the colon of a label -/
  labelNext : Bool
deriving DecidableEq, Repr

namespace LexContext

/-- the context at the start of a line -/
def start : LexContext := ⟨0, none, false, false⟩

/-- whether the word is a modifier after the directive of the line -/
def isModifier (ctx : LexContext) (w : Text) : Bool :=
  match ctx.directive with
  | some .classDecl | some .field | some .method => AccessFlags.isModifier w
  | some .annot => (Visibility.ofWord? w).isSome
  | _ => false

/-- `v` or `p` and at least one digit -/
def isRegister : Text → Bool
  | c :: d :: r => (c == 'v' || c == 'p') && (d :: r).all isDigit
  | _ => false

/-- the words that are keywords in every place -/
def isConstant (w : Text) : Bool :=
  w == "null".toList || w == "true".toList || w == "false".toList

/-- the kind of a word -/
def wordKind (catalog : Catalog) (ctx : LexContext) (w : Text) : TokenKind :=
  if ctx.afterEnd && ((BlockKind.ofEndWord? w).isSome || w == "local".toList) then .keyword
  else if isRegister w then .register
  else if ctx.significant == 0 && (catalog.instruction? w).isSome then .keyword
  else if ctx.isModifier w || isConstant w then .keyword
  else .identifier

/-- the context after a token; `labelNext` says whether it was the colon of a label -/
def record (ctx : LexContext) (t : Token) (labelNext : Bool) : LexContext :=
  if t.kind.isTrivia then { ctx with labelNext }
  else
    { significant := ctx.significant + 1
      directive :=
        if ctx.significant == 0 && t.isDirective then Directive.ofKeyword? t.text
        else ctx.directive
      afterEnd := t.kind == .keyword && (t.text == ".end".toList || t.text == ".restart".toList)
      labelNext }

end LexContext

/-- a place between two tokens of a line -/
structure LexState where
  /-- the offset in bytes -/
  offset : Nat
  line : Nat
  context : LexContext
deriving DecidableEq, Repr

/-- the start of line `line` -/
def LexState.start (line : Nat) : LexState := ⟨0, line, .start⟩

/-- what is cut off the start of a text: everything about a token but its place -/
structure Piece where
  kind : TokenKind
  width : Option Width
  transient : Bool
  /-- whether the piece is the colon of a label -/
  labelNext : Bool
  /-- the text after the piece -/
  rest : Text
deriving DecidableEq, Repr

namespace Piece

/-- the punctuation that only groups tokens -/
def isTransient (p : Text) : Bool :=
  ["\x7b", "\x7d", "[", "]", ":", ","].any fun s => s.toList == p

/-- the width that the last character of a number declares -/
def width? (suffix? : Char → Option Width) (t : Text) : Option Width :=
  t.getLast?.bind suffix?

/-- the piece of a lexeme with text `t` -/
def ofLexeme (catalog : Catalog) (ctx : LexContext) (k : Lexeme) (t rest : Text) : Piece :=
  match k with
  | .whitespace => ⟨.whitespace, none, false, false, rest⟩
  | .comment => ⟨.comment, none, false, false, rest⟩
  | .string => ⟨.string, none, false, false, rest⟩
  | .number => ⟨.number, width? Width.ofSuffix? t, false, false, rest⟩
  | .hexNumber => ⟨.hexNumber, width? Width.ofIntegerSuffix? t, false, false, rest⟩
  | .punctuation => ⟨.delimiter, none, isTransient t, false, rest⟩
  | .directive =>
    ⟨if (Directive.ofKeyword? t).isSome then .keyword else .identifier, none, false, false, rest⟩
  | .word => ⟨ctx.wordKind catalog t, none, false, false, rest⟩

/-- whether the text before, which is given backwards, ends in an arrow -/
def afterArrow : Text → Bool
  | '>' :: '-' :: _ => true
  | _ => false

/-- A colon opens a label when a word follows it and it stands at the start of the line, after a blank,
an opening brace, a comma, two dots or an arrow.  The text before is given backwards. -/
def atLabel (behind : Text) : Text → Bool
  | ':' :: c :: _ =>
    isWordChar c &&
      match behind with
      | [] => true
      | b :: r => b == '\x7b' || b == ',' || isBlank b || (b == '.' && r.head? == some '.') ||
          afterArrow (b :: r)
  | _ => false

/-- after an arrow a word is the name of a member, even one that is spelled like a number -/
def memberName (behind t : Text) : Option (Lexeme × Text) :=
  if afterArrow behind then (Scan.word t).map fun rest => (.word, rest) else none

/-- The piece at the start of `t`, where `behind` is the text before it, backwards: the name of a label
after its colon, the colon of a label, a lexeme, or all of `t` when there is none. -/
def cut (catalog : Catalog) (ctx : LexContext) (behind t : Text) : Piece :=
  match (if ctx.labelNext then Scan.word t else none) with
  | some rest => ⟨.label, none, false, false, rest⟩
  | none =>
    if atLabel behind t then ⟨.delimiter, none, true, true, t.tail⟩
    else
      match (memberName behind t).or (Lexeme.scan t) with
      | some (k, rest) => ofLexeme catalog ctx k (taken t rest) rest
      | none => ⟨.error, none, false, false, []⟩

theorem rest_ofLexeme (catalog : Catalog) (ctx : LexContext) (k : Lexeme) (t rest : Text) :
    (ofLexeme catalog ctx k t rest).rest = rest := by
  cases k <;> rfl

theorem advances_memberName {behind t rest : Text} {k : Lexeme}
    (h : memberName behind t = some (k, rest)) : rest <:+ t ∧ rest.length < t.length := by
  simp only [memberName, Option.ite_none_right_eq_some, Option.map_eq_some_iff, Prod.mk.injEq] at h
  obtain ⟨-, r, hr, -, rfl⟩ := h
  exact Scan.advances_word _ _ hr

/-- a piece has at least one character, and what is left is an end of the text -/
theorem advances_cut (catalog : Catalog) (ctx : LexContext) (behind t : Text) (ht : t ≠ []) :
    (cut catalog ctx behind t).rest <:+ t ∧ (cut catalog ctx behind t).rest.length < t.length := by
  unfold cut
  split
  · rename_i rest h
    simp only [Option.ite_none_right_eq_some] at h
    exact Scan.advances_word _ _ h.2
  · split
    · refine ⟨List.tail_suffix t, ?_⟩
      have := List.length_pos_iff.2 ht
      simp only [List.length_tail]
      omega
    · split
      · rename_i k rest h
        rw [rest_ofLexeme]
        simp only [Option.or_eq_some_iff] at h
        rcases h with h | ⟨-, h⟩
        · exact advances_memberName h
        · exact Lexeme.advances_scan h
      · exact ⟨List.nil_suffix, List.length_pos_iff.2 ht⟩

end Piece

/-- a lexer between two characters of a line -/
structure Lexer where
  /-- the text before, backwards -/
  behind : Text
  /-- the text after -/
  rest : Text
  line : Nat
  context : LexContext
deriving DecidableEq, Repr

namespace Lexer

/-- takes up a kept state on a line; an offset beyond the end is the end, and one inside a character is
the end of that character -/
def resume (line : Text) (s : LexState) : Lexer :=
  ⟨(Text.takeBytes s.offset line).reverse, Text.dropBytes s.offset line, s.line, s.context⟩

/-- the lexer at the start of a line -/
def start (line : Text) (number : Nat) : Lexer :=
  ⟨[], line, number, .start⟩

/-- the offset of the lexer in bytes -/
def offset (l : Lexer) : Nat :=
  Text.size l.behind

/-- the state to keep -/
def state (l : Lexer) : LexState :=
  ⟨l.offset, l.line, l.context⟩

/-- the token of a piece that the lexer stands before -/
def token (l : Lexer) (p : Piece) : Token :=
  { kind := p.kind
    text := taken l.rest p.rest
    start := l.offset
    line := l.line
    width := p.width
    transient := p.transient }

/-- the lexer after a piece -/
def after (l : Lexer) (p : Piece) : Lexer :=
  { behind := (taken l.rest p.rest).reverse ++ l.behind
    rest := p.rest
    line := l.line
    context := l.context.record (l.token p) p.labelNext }

/-- the next token and the lexer after it; none at the end of the line -/
def lex (catalog : Catalog) (l : Lexer) : Option (Token × Lexer) :=
  if l.rest.isEmpty then none
  else
    let p := Piece.cut catalog l.context l.behind l.rest
    some (l.token p, l.after p)

theorem length_lt_of_lex {catalog : Catalog} {l l' : Lexer} {t : Token}
    (h : l.lex catalog = some (t, l')) : l'.rest.length < l.rest.length := by
  simp only [lex, Option.ite_none_left_eq_some, Option.some.injEq, Prod.mk.injEq] at h
  obtain ⟨hne, -, rfl⟩ := h
  exact (Piece.advances_cut catalog l.context l.behind l.rest (by simpa using hne)).2

/-- whether a token is wanted -/
def wants (keepBlanks : Bool) (t : Token) : Bool :=
  keepBlanks || t.kind != .whitespace

/-- the next token that is wanted, and the lexer after it -/
def next (catalog : Catalog) (keepBlanks : Bool) (l : Lexer) : Option (Token × Lexer) :=
  match h : l.lex catalog with
  | none => none
  | some (t, l') =>
    have := length_lt_of_lex h
    if wants keepBlanks t then some (t, l') else l'.next catalog keepBlanks
termination_by l.rest.length

theorem length_lt_of_next {catalog : Catalog} {keepBlanks : Bool} {l l' : Lexer} {t : Token}
    (h : l.next catalog keepBlanks = some (t, l')) : l'.rest.length < l.rest.length := by
  rw [next] at h
  split at h
  · cases h
  · rename_i u m hlex
    have hlt := length_lt_of_lex hlex
    split at h
    · cases h
      exact hlt
    · exact Nat.lt_trans (length_lt_of_next h) hlt
termination_by l.rest.length

/-- the lexer at the end of the line, after all tokens that are left -/
def finish (catalog : Catalog) (l : Lexer) : Lexer :=
  match h : l.lex catalog with
  | none => l
  | some (_, l') =>
    have := length_lt_of_lex h
    l'.finish catalog
termination_by l.rest.length

/-- takes up to `n` wanted tokens; past the last one, the lexer is at the end of the line -/
def take (catalog : Catalog) (keepBlanks : Bool) : Nat → Lexer → List Token × Lexer
  | 0, l => ([], l)
  | n + 1, l =>
    match l.next catalog keepBlanks with
    | none => ([], l.finish catalog)
    | some (t, l') =>
      let (ts, last) := take catalog keepBlanks n l'
      (t :: ts, last)

/-- takes all wanted tokens that are left -/
def drain (catalog : Catalog) (keepBlanks : Bool) (l : Lexer) : List Token × Lexer :=
  match h : l.next catalog keepBlanks with
  | none => ([], l.finish catalog)
  | some (t, l') =>
    have := length_lt_of_next h
    let (ts, last) := l'.drain catalog keepBlanks
    (t :: ts, last)
termination_by l.rest.length

end Lexer

/-- the tokens of a line, with or without whitespace -/
def tokenizeWith (catalog : Catalog) (keepBlanks : Bool) (line : Text) (number : Nat) : List Token :=
  ((Lexer.start line number).drain catalog keepBlanks).1

/-- the tokens of a line without whitespace -/
def tokenize (catalog : Catalog) (line : Text) (number : Nat) : List Token :=
  tokenizeWith catalog false line number

end Smali
