import Smali.Binary64.Decimal
import Smali.Error

/-!
# Numeric literals

A literal is an integer in base ten or sixteen, or a floating point number, with an optional letter
for its width: `0x10`, `-0x1L`, `12t`, `1.5f`.  Integers have 64 bits; in base sixteen the digits
give the bit pattern, so `0xffffffffffffffffL` is `-1`.

* `Literal.parse`   reads the whole of a text;
* `Literal.render`  writes a literal;
* `Literal.toInt?`  its value when it is a whole number of 64 bits.
-/

namespace Smali

/-- the width that a suffix declares -/
inductive Width where
  | byte
  | short
  | int
  | long
  | float
  | double
deriving DecidableEq, Repr

namespace Width

def ofSuffix? (c : Char) : Option Width :=
  if c = 't' ∨ c = 'T' then some .byte
  else if c = 's' ∨ c = 'S' then some .short
  else if c = 'l' ∨ c = 'L' then some .long
  else if c = 'f' ∨ c = 'F' then some .float
  else if c = 'd' ∨ c = 'D' then some .double
  else none

/-- the number of bytes of a value -/
def bytes : Width → Nat
  | .byte => 1
  | .short => 2
  | .int | .float => 4
  | .long | .double => 8

def isFloating : Width → Bool
  | .float | .double => true
  | _ => false

/-- the suffixes of integers: in base sixteen the others are digits -/
def ofIntegerSuffix? (c : Char) : Option Width :=
  (ofSuffix? c).filter fun w => !w.isFloating

/-- the suffix as it is written -/
def suffix : Width → Text
  | .byte => ['t']
  | .short => ['s']
  | .int => []
  | .long => ['L']
  | .float => ['f']
  | .double => ['d']

/-- the digits of a literal and the width of its last character, when that is a suffix -/
def cut (suffix? : Char → Option Width) (t : Text) : Text × Option Width :=
  match t.getLast?.bind suffix? with
  | some w => (t.dropLast, some w)
  | none => (t, none)

end Width

namespace Literal

/-- the value of a literal -/
inductive Value where
  | int (v : Int64)
  | float (x : Binary64)
deriving DecidableEq, Repr

end Literal

structure Literal where
  value : Literal.Value
  /-- the width of the suffix -/
  width : Option Width
  /-- whether the literal is in base sixteen -/
  hex : Bool
deriving DecidableEq, Repr

namespace Literal

/-- what follows `0x` or `0X` -/
def hexDigits? : Text → Option Text
  | '0' :: 'x' :: r => some r
  | '0' :: 'X' :: r => some r
  | _ => none

/-- the literal after a `0x` and an optional minus sign before it -/
def parseHex? (negative : Bool) (t : Text) : Option Literal :=
  let (digits, width) := Width.cut Width.ofIntegerSuffix? t
  match Numeral.unsigned? 16 digits with
  | some n =>
    if n < 0x10000000000000000 then
      let v := Int64.ofNat n
      some ⟨.int (if negative then -v else v), width, true⟩
    else none
  | none => none

/-- the numbers that are written as words -/
def word? (t : Text) : Option Binary64 :=
  if t = "Infinity".toList then some Binary64.infinity
  else if t = "NaN".toList then some Binary64.nan
  else none

/-- whether the digits are those of a floating point number -/
def hasPointOrExponent (t : Text) : Bool :=
  t.any fun c => c == '.' || c == 'e' || c == 'E'

/-- a floating point number after an optional minus sign -/
def parseFloat? (negative : Bool) (digits : Text) : Option Value :=
  let x := (word? digits).or (Binary64.parse? digits)
  x.map fun x => .float (if negative then x.neg else x)

/-- whether 64 bits hold an integer with its sign -/
def isInt64 (i : Int) : Bool :=
  decide (-0x8000000000000000 ≤ i) && decide (i ≤ 0x7fffffffffffffff)

/-- an integer of 64 bits in base ten after an optional minus sign -/
def parseInt? (negative : Bool) (digits : Text) : Option Value :=
  match Numeral.unsigned? 10 digits with
  | some n =>
    let v : Int := if negative then -(n : Int) else n
    if isInt64 v then some (.int (Int64.ofInt v)) else none
  | none => none

/-- the literal in base ten after an optional minus sign -/
def parseDecimal? (negative : Bool) (t : Text) : Option Literal :=
  let (digits, width) := Width.cut Width.ofSuffix? t
  let floating :=
    width.any Width.isFloating || (word? digits).isSome || hasPointOrExponent digits
  let value := if floating then parseFloat? negative digits else parseInt? negative digits
  value.map fun v => ⟨v, width, false⟩

/-- a literal after an optional minus sign -/
def parseBody? (negative : Bool) (t : Text) : Option Literal :=
  match hexDigits? t with
  | some digits => parseHex? negative digits
  | none => parseDecimal? negative t

/-- the literal that is the whole of a text -/
def parse? : Text → Option Literal
  | '-' :: r => parseBody? true r
  | t => parseBody? false t

def parse (t : Text) : Except Error Literal :=
  match parse? t with
  | some l => .ok l
  | none => .error (.invalidLiteral t)

/-- the width of the suffix, or the one that a literal without a suffix has -/
def effectiveWidth (l : Literal) : Width :=
  l.width.getD <|
    match l.value with
    | .int _ => .int
    | .float _ => .float

/-- the value as an integer of 64 bits, when it is whole and in range -/
def toInt? (l : Literal) : Option Int :=
  match l.value with
  | .int v => some v.toInt
  | .float x => x.toInt?.filter isInt64

/-- the value as an integer from `low` up to `high` -/
def toIntIn? (low high : Int) (l : Literal) : Option Int :=
  l.toInt?.filter fun i => decide (low ≤ i) && decide (i ≤ high)

/-- the value as a floating point number -/
def toBinary64 (l : Literal) : Binary64 :=
  match l.value with
  | .int v => Binary64.ofInt v.toInt
  | .float x => x

/-- the text of an integer in the base it was written in -/
def renderInt (hex : Bool) (i : Int) : Text :=
  if hex then
    if i < 0 then "-0x".toList ++ Numeral.hex i.natAbs else "0x".toList ++ Numeral.hex i.natAbs
  else Numeral.integer i

def render (l : Literal) : Text :=
  let digits :=
    match l.value with
    | .int v => renderInt l.hex v.toInt
    | .float x => x.render
  digits ++ (l.width.map Width.suffix).getD []

end Literal
end Smali
