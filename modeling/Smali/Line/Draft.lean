import Smali.Line.Reader
import Smali.Statement

/-!
# Statements in the making

While a line is read, what is known of its statement is a `Draft`.  A `LineParser` changes the draft
and may fail; the draft at that point stays, so a statement keeps the operands before a fault.

* `LineParser.read`   runs a reader on the tokens that are left;
* `LineParser.add`    runs a reader and appends its operand;
* `LineParser.expecting`  adds the pattern of an entry to a diagnostic.
-/

namespace Smali

structure Draft where
  kind : StatementKind
  keyword : Option Text
  opcode : Option Entry
  operands : List Operand
  opens : Option BlockKind
  closes : Option BlockKind
  /-- the tokens that are left -/
  cursor : Cursor
deriving Repr

namespace Draft

/-- the draft before anything is read -/
def start (cursor : Cursor) : Draft :=
  { kind := .blank
    keyword := none
    opcode := none
    operands := []
    opens := none
    closes := none
    cursor }

end Draft

/-- changes a draft; after a failure the draft is the one at the fault -/
abbrev LineParser := EStateM Diagnostic Draft

namespace LineParser

variable {α : Type}

/-- runs a reader on the tokens that are left -/
def read (r : Reader α) : LineParser α := fun d =>
  match r d.cursor with
  | .ok (a, cursor) => .ok a { d with cursor }
  | .error e => .error e d

/-- appends an operand -/
def push (o : Operand) : LineParser Unit :=
  modify fun d => { d with operands := d.operands ++ [o] }

/-- reads an operand and appends it -/
def add (r : Reader Operand) : LineParser Unit := do
  push (← read r)

/-- appends the operand that is made of what a reader of descriptors gives -/
def addDescriptor (what : Text) (read? : Text → Option (α × Text)) (f : α → OperandValue) :
    LineParser Unit :=
  add do
    let (a, span) ← Reader.descriptor what read?
    return ⟨f a, span⟩

def setKind (kind : StatementKind) : LineParser Unit :=
  modify fun d => { d with kind }

def setOpens (kind : BlockKind) : LineParser Unit :=
  modify fun d => { d with opens := some kind }

def setCloses (kind : BlockKind) : LineParser Unit :=
  modify fun d => { d with closes := some kind }

/-- the next token -/
def peek? : LineParser (Option Token) := do
  return (← get).cursor.tokens.head?

/-- passes over a delimiter, if it comes next -/
def eat (text : Text) : LineParser Bool :=
  read (Reader.eat text)

/-- nothing may be left -/
def finish : LineParser Unit :=
  read Reader.finish

/-- a failure of `p` cites the pattern of the entry -/
def expecting (entry : Option Entry) (p : LineParser α) : LineParser α := fun d =>
  match p d with
  | .ok a d => .ok a d
  | .error e d =>
    match entry with
    | some entry => .error { e with expecting := some entry.pattern } d
    | none => .error e d

end LineParser
end Smali
