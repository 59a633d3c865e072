import Smali.Catalog
import Smali.Diagnostic
import Smali.Operand
import Smali.Token

/-!
# Statements

A `Statement` is one line with what was read from it.  A line that could not be read is a statement,
too: it keeps the operands before the fault and has the fault in `error`.
-/

namespace Smali

inductive StatementKind where
  | instruction
  | directive (d : Directive)
  /-- the definition of a label -/
  | label
  /-- a line inside a table, an annotation or an array of values -/
  | entry
  | comment
  | blank
  | error
deriving DecidableEq, Repr

structure Statement where
  kind : StatementKind
  /-- the mnemonic or the keyword as it is written -/
  keyword : Option Text
  /-- the entry of the catalog -/
  opcode : Option Entry
  operands : List Operand
  /-- all tokens of the line but whitespace -/
  tokens : List Token
  /-- the comment at the end of the line -/
  comment : Option Text
  span : Span
  error : Option Diagnostic
  /-- the block that the line opens -/
  opens : Option BlockKind
  /-- the block that the line closes -/
  closes : Option BlockKind
deriving Repr

namespace Statement

/-- a statement of some kind about which nothing else is known -/
def bare (kind : StatementKind) (tokens : List Token) (span : Span) : Statement :=
  { kind
    keyword := none
    opcode := none
    operands := []
    tokens
    comment := none
    span
    error := none
    opens := none
    closes := none }

/-- the mnemonic of the statement or of its entry -/
def mnemonic? (s : Statement) : Option Text :=
  match s.kind with
  | .instruction => s.keyword
  | _ => s.opcode.map Entry.mnemonic

/-- the name of the label that the statement defines -/
def label? (s : Statement) : Option Text :=
  match s.kind, s.operands with
  | .label, ⟨.label name, _⟩ :: _ => some name
  | _, _ => none

/-- the directive of the entry, or else the one of the keyword; a malformed line has it, too -/
def directive? (s : Statement) : Option Directive :=
  (s.opcode.bind Entry.directive?).or (s.keyword.bind Directive.ofKeyword?)

/-- whether the statement belongs to the class itself -/
def isTopLevel (s : Statement) : Bool :=
  s.directive?.any Directive.isTopLevel

end Statement
end Smali
