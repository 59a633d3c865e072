import Smali.Text

/-!
# Operand shapes

The operand lists of the instruction formats.

* `OperandKind`         one place in an operand list;
* `Shape.operands`      the places of a shape, in order;
* `Shape.describe`      the places in words.
-/

namespace Smali

inductive OperandKind where
  | register
  /-- registers one by one in braces -/
  | registerList
  /-- a first and a last register in braces -/
  | registerRange
  | literal
  | string
  | type
  | field
  | method
  | label
  /-- an index into a table of an optimized file, such as `field@0x12` -/
  | index
  | proto
deriving DecidableEq, Repr

namespace OperandKind

def describe : OperandKind → Text
  | .register => "register".toList
  | .registerList => "register list".toList
  | .registerRange => "register range".toList
  | .literal => "literal".toList
  | .string => "string".toList
  | .type => "type descriptor".toList
  | .field => "field reference".toList
  | .method => "method reference".toList
  | .label => "label".toList
  | .index => "index".toList
  | .proto => "method prototype".toList

end OperandKind

inductive Shape where
  | none
  | reg
  | regReg
  | regRegReg
  | regLiteral
  | regRegLiteral
  | regString
  | regType
  | regRegType
  | regField
  | regRegField
  | regLabel
  | regRegLabel
  | label
  | regListType
  | regRangeType
  | regListMethod
  | regRangeMethod
  | regListMethodProto
  | regRangeMethodProto
  | regProto
  | regListIndex
  | regRangeIndex
  | regRegIndex
deriving DecidableEq, Repr

namespace Shape

def operands : Shape → List OperandKind
  | .none => []
  | .reg => [.register]
  | .regReg => [.register, .register]
  | .regRegReg => [.register, .register, .register]
  | .regLiteral => [.register, .literal]
  | .regRegLiteral => [.register, .register, .literal]
  | .regString => [.register, .string]
  | .regType => [.register, .type]
  | .regRegType => [.register, .register, .type]
  | .regField => [.register, .field]
  | .regRegField => [.register, .register, .field]
  | .regLabel => [.register, .label]
  | .regRegLabel => [.register, .register, .label]
  | .label => [.label]
  | .regListType => [.registerList, .type]
  | .regRangeType => [.registerRange, .type]
  | .regListMethod => [.registerList, .method]
  | .regRangeMethod => [.registerRange, .method]
  | .regListMethodProto => [.registerList, .method, .proto]
  | .regRangeMethodProto => [.registerRange, .method, .proto]
  | .regProto => [.register, .proto]
  | .regListIndex => [.registerList, .index]
  | .regRangeIndex => [.registerRange, .index]
  | .regRegIndex => [.register, .register, .index]

/-- the places of the shape in words -/
def describe (s : Shape) : Text :=
  match s.operands with
  | [] => "no operands".toList
  | ks => ", ".toList.intercalate (ks.map OperandKind.describe)

end Shape
end Smali
