import Smali.Line.Directive
import Smali.Line.Entry
import Smali.Line.Instruction
import Smali.Token.Lexer

/-!
# From a line to its statement

* `ParseOptions`      what is accepted and what is kept;
* `LineParser.statement`  chooses how a line is read, by its first token and the innermost open block;
* `parseLine`         the statement of a line.
-/

namespace Smali

structure ParseOptions where
  /-- accept the instructions of optimized files -/
  odex : Bool
  /-- keep a statement for each blank line of a document -/
  keepBlankLines : Bool
deriving DecidableEq, Repr

namespace ParseOptions

def standard : ParseOptions := ⟨true, false⟩

end ParseOptions

/-- what the parsing of every line depends on -/
structure Language where
  catalog : Catalog
  options : ParseOptions

namespace LineParser

/-- the keywords that start a value inside an array of values -/
def isValueKeyword (t : Token) : Bool :=
  t.text == ".enum".toList || t.text == ".subannotation".toList

/-- a line that is neither a directive nor inside a table, an annotation or an array of values -/
def codeLine (language : Language) (head : Token) : LineParser Unit :=
  if head.isDotted && head.kind == .identifier then
    read (Reader.fail (.unknownDirective head.text))
  else if head.isDelimiter ":".toList then do
    setKind .label
    add Reader.label
    finish
  else
    match if head.kind == .keyword then language.catalog.instruction? head.text else none with
    | some entry => instruction language.options.odex entry head
    | none =>
      if head.isWord then read (Reader.fail (.unknownInstruction head.text))
      else read (Reader.fail (.unexpectedStart head.text))

/-- a line whose first token is `head`, inside the blocks of `stack` -/
def statement (language : Language) (stack : BlockStack) (head : Token) : LineParser Unit :=
  if head.isDirective && !(stack.innermost? == some .valueArray && isValueKeyword head) then
    directive language.catalog head
  else
    match stack.innermost? with
    | some .arrayData => arrayEntry
    | some .packedSwitch => packedSwitchEntry
    | some .sparseSwitch => sparseSwitchEntry
    | some .annot | some .subannot => element
    | some .valueArray => arrayElement
    | _ => codeLine language head

end LineParser

/-- what is wrong with a token that is no lexeme -/
def Token.problem (t : Token) : Problem :=
  match t.text with
  | [] => .unexpectedEnd
  | c :: _ =>
    if c = '"' then .unterminatedString
    else if c = '\'' then .unterminatedChar
    else .unexpectedChar c

/-- the span from the first token to the last one -/
def lineSpan (tokens : List Token) (number : Nat) : Span :=
  match tokens.head?, tokens.getLast? with
  | some first, some last => first.span.cover last.span
  | _, _ => Span.onLine number 0 0

/-- the statement of a draft that was finished, or that has a fault -/
def Draft.complete (d : Draft) (base : Statement) (error : Option Diagnostic) : Statement :=
  { base with
    kind := if error.isSome then .error else d.kind
    keyword := d.keyword
    opcode := d.opcode
    operands := d.operands
    error
    opens := d.opens
    closes := d.closes }

/-- The statement of line `number` inside the blocks of `stack`.  A line with a token that is no lexeme
is not read any further. -/
def parseLine (language : Language) (stack : BlockStack) (line : Text) (number : Nat) : Statement :=
  let tokens := tokenize language.catalog line number
  let comment := (tokens.find? fun t => t.kind == .comment).map Token.text
  let base := { Statement.bare .blank tokens (lineSpan tokens number) with comment }
  match tokens.filter Token.isSignificant with
  | [] => if comment.isSome then { base with kind := .comment } else base
  | head :: more =>
    match (head :: more).find? fun t => t.kind == .error with
    | some bad => { base with kind := .error, error := some ⟨bad.problem, bad.span, none⟩ }
    | none =>
      let stop := ((head :: more).getLast?.map Token.stop).getD 0
      match LineParser.statement language stack head (Draft.start ⟨line, number, head :: more, stop⟩) with
      | .ok _ d => d.complete base none
      | .error e d => d.complete base (some e)

end Smali
