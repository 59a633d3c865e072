import Smali.Access
import Smali.Descriptor.Reference
import Smali.Literal
import Smali.Position
import Smali.Register

/-!
# Operands

* `OperandValue`  what an operand denotes;
* `Operand`       a value with its place.
-/

namespace Smali

/-- a value with its place -/
structure Located (α : Type) where
  value : α
  span : Span
deriving DecidableEq, Repr

inductive OperandValue where
  | register (r : Register)
  | registerList (rs : List Register)
  | registerRange (r : RegisterRange)
  | literal (l : Literal)
  /-- the text between the quotes, with its escapes as they are -/
  | string (t : Text)
  /-- the text between the single quotes -/
  | char (t : Text)
  | label (name : Text)
  /-- the labels around the guarded instructions of a handler -/
  | labelRange (first last : Text)
  | type (t : TypeDescriptor)
  | reference (r : Reference)
  /-- the member that a field or method directive declares -/
  | member (m : Member)
  | prototype (p : Prototype)
  /-- an index into the table `kind` of an optimized file -/
  | index (kind : Text) (value : Nat)
  | flags (f : AccessFlags)
  | visibility (v : Visibility)
  | identifier (name : Text)
  | null
  | boolean (b : Bool)
  | enumValue (r : Reference)
  | array (elements : List (Located OperandValue))
deriving Repr

/-- an operand with its place -/
abbrev Operand := Located OperandValue

end Smali
