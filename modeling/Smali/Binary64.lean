/-!
# Binary floating point numbers of 64 bits

A number is its sign and the 63 bits below the sign, read as a natural number, its `magnitude`.
Read so, the magnitudes grow with the absolute values, the infinity comes after the largest finite
number and the not-a-number patterns come last.

* `significand`, `scale`  the absolute value of a finite number is `significand * 2 ^ scale` in
                          units of `2 ^ (-1074)`;
* `nearest num den`       the magnitude nearest to the quotient `num / den`, a tie going to the even
                          one, and the infinity beyond the largest finite number.

Everything is computed in natural numbers, so each value can be checked by evaluation.
-/

namespace Smali

structure Binary64 where
  negative : Bool
  magnitude : Nat
deriving DecidableEq, Repr

namespace Binary64

/-- a power of two -/
def pow2 (n : Nat) : Nat := Nat.pow 2 n

/-- the magnitude of the infinities -/
def infinite : Nat := 2047 * pow2 52

def infinity : Binary64 := ⟨false, infinite⟩

/-- the quiet pattern without a payload -/
def nan : Binary64 := ⟨false, infinite + pow2 51⟩

def neg (x : Binary64) : Binary64 := ⟨!x.negative, x.magnitude⟩

def isNan (x : Binary64) : Bool := decide (infinite < x.magnitude)

def isFinite (x : Binary64) : Bool := decide (x.magnitude < infinite)

def isZero (x : Binary64) : Bool := x.magnitude == 0

/-- the 64 bits as a number -/
def bits (x : Binary64) : Nat :=
  (if x.negative then pow2 63 else 0) + x.magnitude

/-- the leading bit, which is not stored, and the stored fraction -/
def significand (x : Binary64) : Nat :=
  if x.magnitude < pow2 52 then x.magnitude else pow2 52 + x.magnitude % pow2 52

/-- the exponent above the least one -/
def scale (x : Binary64) : Nat :=
  x.magnitude / pow2 52 - 1

/-- the absolute value of a finite number in units of `2 ^ (-1074)` -/
def units (x : Binary64) : Nat :=
  x.significand * pow2 x.scale

/-- the natural number nearest to `num / den`; a tie goes to the even one -/
def roundQuotient (num den : Nat) : Nat :=
  let q := num / den
  let r := num % den
  if 2 * r < den then q
  else if den < 2 * r then q + 1
  else q + q % 2

/-- The magnitude nearest to `num / den`.  The scale is chosen so that the rounded significand has
53 bits, or is below that at the least scale; when rounding carries into a 54th bit, the sum is
the magnitude of the next scale. -/
def nearest (num den : Nat) : Nat :=
  let s := Nat.log2 (num * pow2 1074 / den) - 52
  min infinite (s * pow2 52 + roundQuotient (num * pow2 1074) (den * pow2 s))

/-- the number nearest to an integer -/
def ofInt (i : Int) : Binary64 :=
  ⟨decide (i < 0), nearest i.natAbs 1⟩

/-- the integer that a finite number is equal to, if it is one -/
def toInt? (x : Binary64) : Option Int :=
  if x.isFinite && x.units % pow2 1074 == 0 then
    let n : Nat := x.units / pow2 1074
    some (if x.negative then -(n : Int) else n)
  else none

end Binary64
end Smali
