import Smali.Binary64
import Smali.Text.Numeral

/-!
# Floating point numbers in decimal

* `Decimal`            a coefficient times a power of ten;
* `Decimal.nearest`    the magnitude nearest to a decimal;
* `Binary64.parse?`    reads a number: an optional sign, then `inf`, `infinity` or `nan` in any case,
                       or digits with an optional point and an optional exponent;
* `Binary64.shortest`  the decimal with the fewest digits that is read back as the same number, of
                       those the nearest one;
* `Binary64.render`    its text, always positional, without a fraction when there is none.
-/

namespace Smali

/-- the number `coefficient * 10 ^ exponent` -/
structure Decimal where
  coefficient : Nat
  exponent : Int
deriving DecidableEq, Repr

namespace Decimal

/-- a power of ten -/
def pow10 (n : Nat) : Nat := Nat.pow 10 n

/-- the number of decimal digits -/
def digitCount (n : Nat) : Nat :=
  (Numeral.decimal n).length

/-- The magnitude nearest to a decimal.  A decimal of at least `10 ^ 310` is beyond every finite
number and one below `10 ^ (-330)` rounds to zero, so no larger power of ten is ever formed. -/
def nearest (d : Decimal) : Nat :=
  let top : Int := digitCount d.coefficient + d.exponent
  if d.coefficient = 0 ∨ top < -330 then 0
  else if 310 < top then Binary64.infinite
  else if 0 ≤ d.exponent then Binary64.nearest (d.coefficient * pow10 d.exponent.toNat) 1
  else Binary64.nearest d.coefficient (pow10 (-d.exponent).toNat)

/-- the fraction without the zeros at its end -/
def trimZeros (t : Text) : Text :=
  (t.reverse.dropWhile (· == '0')).reverse

/-- the positional text of a decimal: no exponent, no zeros at the end of the fraction, and no point
when the fraction is empty -/
def render (d : Decimal) : Text :=
  let digits := Numeral.decimal d.coefficient
  if 0 ≤ d.exponent then digits ++ List.replicate d.exponent.toNat '0'
  else
    let places := (-d.exponent).toNat
    let padded := List.replicate (places + 1 - digits.length) '0' ++ digits
    let whole := padded.take (padded.length - places)
    match trimZeros (padded.drop (padded.length - places)) with
    | [] => whole
    | fraction => whole ++ '.' :: fraction

/-! ## reading -/

/-- an optional sign before digits, as in an exponent -/
def signed? : Text → Option Int
  | '+' :: r => (Numeral.value? 10 r).map Int.ofNat
  | '-' :: r => (Numeral.value? 10 r).map fun n => -(n : Int)
  | t => (Numeral.value? 10 t).map Int.ofNat

/-- the exponent after the digits: nothing, or `e` with a signed number -/
def exponent? : Text → Option Int
  | [] => some 0
  | c :: r => if c = 'e' ∨ c = 'E' then signed? r else none

/-- digits with an optional point, at least one digit in all, and an optional exponent -/
def parse? (t : Text) : Option Decimal :=
  let whole := t.takeWhile isDigit
  let rest := t.dropWhile isDigit
  let (fraction, rest) :=
    match rest with
    | '.' :: r => (r.takeWhile isDigit, r.dropWhile isDigit)
    | _ => ([], rest)
  match Numeral.value? 10 (whole ++ fraction), exponent? rest with
  | some n, some e => some ⟨n, e - fraction.length⟩
  | _, _ => none

end Decimal

namespace Binary64

/-- a number without its sign -/
def parseUnsigned? (t : Text) : Option Nat :=
  let lower := t.map Char.toLower
  if lower = "inf".toList ∨ lower = "infinity".toList then some infinite
  else if lower = "nan".toList then some nan.magnitude
  else (Decimal.parse? t).map Decimal.nearest

/-- a number with an optional sign -/
def parse? : Text → Option Binary64
  | '-' :: r => (parseUnsigned? r).map fun m => ⟨true, m⟩
  | '+' :: r => (parseUnsigned? r).map fun m => ⟨false, m⟩
  | t => (parseUnsigned? t).map fun m => ⟨false, m⟩

/-! ## writing -/

/-- the least `k` with `num / den < 10 ^ k`, for a positive quotient -/
def decimalExponent (num den : Nat) : Int :=
  if den ≤ num then Decimal.digitCount (num / den)
  else 1 - (Decimal.digitCount ((den + num - 1) / num - 1) : Int)

/-- which of two equally near neighbours comes first -/
inductive Tie where
  | up
  | even
deriving DecidableEq, Repr

/-- the neighbours of `num / den` among the multiples of `10 ^ exponent`, the nearer one first -/
def neighbours (tie : Tie) (num den : Nat) (exponent : Int) : List Decimal :=
  let n := if 0 ≤ exponent then num else num * Decimal.pow10 (-exponent).toNat
  let d := if 0 ≤ exponent then den * Decimal.pow10 exponent.toNat else den
  let lower : Decimal := ⟨n / d, exponent⟩
  let upper : Decimal := ⟨n / d + 1, exponent⟩
  if n % d = 0 then [lower]
  else if 2 * (n % d) < d then [lower, upper]
  else if 2 * (n % d) = d ∧ tie = .even ∧ n / d % 2 = 0 then [lower, upper]
  else [upper, lower]

/-- The decimal with the fewest digits that is read back as `x`, for a finite `x` other than zero.
For each number of digits up to seventeen the two neighbours of the value are tried.  The exact value,
which is always read back, is there for the case that none is. -/
def shortest (tie : Tie) (x : Binary64) : Decimal :=
  let top := decimalExponent x.units (pow2 1074)
  let candidates := (List.range 17).flatMap fun (n : Nat) =>
    neighbours tie x.units (pow2 1074) (top - (n + 1 : Nat))
  match candidates.find? fun d => d.nearest == x.magnitude with
  | some d => d
  | none => ⟨x.units * Nat.pow 5 1074, -1074⟩

/-- the text of a number, a tie going up; every not-a-number has the same text -/
def render (x : Binary64) : Text :=
  if x.isNan then "NaN".toList
  else
    let digits :=
      if x.isZero then ['0']
      else if x.isFinite then (x.shortest .up).render
      else "inf".toList
    if x.negative then '-' :: digits else digits

end Binary64
end Smali
