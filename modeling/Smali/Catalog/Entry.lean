import Smali.Catalog.Shape
import Smali.Directive
import Smali.Text.Numeral

/-!
# The rows of the catalog

Every instruction and directive has a row with its pattern, such as `move vx,vy`, and the texts that
completion and hover show.  The mnemonic is the pattern up to the first space.

* `Entry`         one row;
* `Entry.flags`   what its pattern and its role say about it;
* `Entry.fault?`  the cause that makes it unusable;
* `Entry.rank`    its place in the order of the catalog.
-/

namespace Smali

namespace Entry

/-- what a row stands for -/
inductive Role where
  | instruction (shape : Shape)
  | directive (d : Directive)
deriving DecidableEq, Repr

/-- properties of a row that its pattern and its role decide -/
inductive Flag where
  | odexOnly
  | branch
  | invoke
  /-- works on pairs of registers -/
  | wide
  | directive
  /-- opens a block -/
  | block
deriving DecidableEq, Repr

namespace Flag

def bit : Flag → Nat
  | .odexOnly => 0x01
  | .branch => 0x02
  | .invoke => 0x04
  | .wide => 0x08
  | .directive => 0x10
  | .block => 0x20

def name : Flag → Text
  | .odexOnly => "ODEX_ONLY".toList
  | .branch => "BRANCH".toList
  | .invoke => "INVOKE".toList
  | .wide => "WIDE".toList
  | .directive => "DIRECTIVE".toList
  | .block => "BLOCK".toList

end Flag
end Entry

structure Entry where
  /-- the byte of an instruction in two hexadecimal digits; a directive has no use for it -/
  code : Text
  pattern : Text
  role : Entry.Role
  description : String
  sample : String
  /-- whether an instruction is only found in optimized files; a directive has no use for it -/
  optimized : Bool
deriving DecidableEq, Repr

namespace Entry

/-- the row of an instruction -/
def op (code pattern : String) (shape : Shape) (description sample : String) : Entry :=
  ⟨code.toList, pattern.toList, .instruction shape, description, sample, false⟩

/-- the row of an instruction that is only found in optimized files -/
def odex (code pattern : String) (shape : Shape) (description sample : String) : Entry :=
  ⟨code.toList, pattern.toList, .instruction shape, description, sample, true⟩

/-- the row of a directive -/
def dir (pattern : String) (d : Directive) (description sample : String) : Entry :=
  ⟨[], pattern.toList, .directive d, description, sample, false⟩

/-- the pattern up to the first space -/
def mnemonic (e : Entry) : Text :=
  e.pattern.takeWhile (· != ' ')

/-- the pattern after the first space -/
def operandPattern (e : Entry) : Text :=
  (e.pattern.dropWhile (· != ' ')).drop 1

/-- the byte that two bytes of text denote in base sixteen; a plus sign may take the place of the
first digit -/
def byte? (code : Text) : Option Nat :=
  if Text.size code = 2 then Numeral.unsigned? 16 code else none

/-- the byte of an instruction -/
def opcode? (e : Entry) : Option Nat :=
  match e.role with
  | .instruction _ => byte? e.code
  | .directive _ => none

def shape? (e : Entry) : Option Shape :=
  match e.role with
  | .instruction shape => some shape
  | .directive _ => none

/-- the operand places of an instruction; none for a directive -/
def operandKinds (e : Entry) : List OperandKind :=
  (e.shape?.map Shape.operands).getD []

def directive? (e : Entry) : Option Directive :=
  match e.role with
  | .instruction _ => none
  | .directive d => some d

def isDirective (e : Entry) : Bool :=
  e.directive?.isSome

def isOdexOnly (e : Entry) : Bool :=
  !e.isDirective && e.optimized

/-- jumps and switches -/
def isBranch (m : Text) : Bool :=
  "goto".toList.isPrefixOf m || "if-".toList.isPrefixOf m || "-switch".toList.isSuffixOf m

def isInvoke (m : Text) : Bool :=
  "invoke-".toList.isPrefixOf m || "execute-inline".toList.isPrefixOf m

def isWide (m : Text) : Bool :=
  Text.hasInfix "-wide".toList m || Text.hasInfix "long".toList m ||
    Text.hasInfix "double".toList m

/-- whether the directive opens a block, always or once its end is met -/
def isBlock (d : Directive) : Bool :=
  d.opens?.isSome || d == .field || d == .param

/-- the flags of a row, in the order of their bits -/
def flags (e : Entry) : List Flag :=
  match e.role with
  | .instruction _ =>
    (if e.optimized then [.odexOnly] else []) ++
      (if isBranch e.mnemonic then [.branch] else []) ++
      (if isInvoke e.mnemonic then [.invoke] else []) ++
      (if isWide e.mnemonic then [.wide] else [])
  | .directive d => .directive :: (if isBlock d then [.block] else [])

/-- the flags as bits -/
def flagBits (e : Entry) : Nat :=
  e.flags.foldr (fun f n => f.bit + n) 0

/-- the cause that makes a row unusable -/
def fault? (e : Entry) : Option Error :=
  if e.mnemonic.isEmpty then some (.emptyPattern e.code)
  else
    match e.role with
    | .instruction _ => if (byte? e.code).isSome then none else some (.invalidCode e.pattern e.code)
    | .directive _ => none

/-- the place of a row in the catalog: instructions by their byte, then the directives -/
def rank (e : Entry) : Nat :=
  match e.role with
  | .instruction _ => (byte? e.code).getD 0
  | .directive _ => 256

end Entry
end Smali
