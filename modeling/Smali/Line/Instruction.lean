import Smali.Line.Draft

/-!
# Instructions

One routine reads every instruction: it walks the operand places of the shape of its entry, with commas
between them.
-/

namespace Smali
namespace LineParser

/-- a reference to a field, or to a method -/
def reference (kind : OperandKind) : Reader Operand := do
  let (r, span) ← Reader.descriptor kind.describe Reference.read?
  if r.member.isField == (kind == .field) then
    return ⟨.reference r, span⟩
  else
    Reader.failAt span (.expected kind.describe (some r.render))

/-- the operand of a place -/
def operand (kind : OperandKind) : Reader Operand :=
  match kind with
  | .register => Reader.register
  | .registerList => Reader.registerList
  | .registerRange => Reader.registerRange
  | .literal => Reader.literal
  | .string => Reader.string
  | .label => Reader.label
  | .index => Reader.index
  | .type => do
    let (type, span) ← Reader.descriptor kind.describe TypeDescriptor.read?
    return ⟨.type type, span⟩
  | .proto => do
    let (p, span) ← Reader.descriptor kind.describe Prototype.read?
    return ⟨.prototype p, span⟩
  | .field => reference .field
  | .method => reference .method

/-- operands that each have a comma before them -/
def moreOperands : List OperandKind → LineParser Unit
  | [] => return
  | k :: ks => do
    let _ ← read (Reader.delimiter ",".toList)
    add (operand k)
    moreOperands ks

/-- operands with commas between them -/
def operands : List OperandKind → LineParser Unit
  | [] => return
  | k :: ks => do
    add (operand k)
    moreOperands ks

/-- the instruction of `entry`, whose mnemonic is the token `head`; `odex` says whether the ones of
optimized files are accepted -/
def instruction (odex : Bool) (entry : Entry) (head : Token) : LineParser Unit := do
  read Reader.advance
  modify fun d =>
    { d with kind := .instruction, keyword := some head.text, opcode := some entry }
  expecting (some entry) do
    if entry.isOdexOnly && !odex then
      read (Reader.failAt head.span (.odexOnly entry.mnemonic))
    operands entry.operandKinds
    finish

end LineParser
end Smali
