import Smali.Text

/-!
# Numerals

Natural numbers written with digits in base ten or sixteen.

* `Numeral.value? base t`     the number that a nonempty run of digits denotes;
* `Numeral.unsigned? base t`  the same, with an optional leading `+`;
* `Numeral.decimal n`, `Numeral.hex n`  the digits of a number, lower case in base sixteen;
* `Numeral.integer i`         an integer in base ten, with `-` when it is negative.
-/

namespace Smali
namespace Numeral

/-- the value of a digit in a base up to sixteen -/
def digit? (base : Nat) (c : Char) : Option Nat :=
  let n := c.toNat
  let v :=
    if isDigit c then some (n - '0'.toNat)
    else if 'a' ≤ c ∧ c ≤ 'f' then some (n - 'a'.toNat + 10)
    else if 'A' ≤ c ∧ c ≤ 'F' then some (n - 'A'.toNat + 10)
    else none
  v.filter (· < base)

/-- reads digits from the left, starting from the number read so far -/
def accumulate (base : Nat) : Nat → Text → Option Nat
  | acc, [] => some acc
  | acc, c :: r =>
    match digit? base c with
    | some d => accumulate base (acc * base + d) r
    | none => none

/-- the number denoted by a nonempty run of digits -/
def value? (base : Nat) : Text → Option Nat
  | [] => none
  | t => accumulate base 0 t

/-- a nonempty run of digits after an optional `+` -/
def unsigned? (base : Nat) : Text → Option Nat
  | '+' :: r => value? base r
  | t => value? base t

/-- the digits of a number in base ten -/
def decimal (n : Nat) : Text :=
  Nat.toDigits 10 n

/-- the digits of a number in base sixteen, in lower case -/
def hex (n : Nat) : Text :=
  Nat.toDigits 16 n

/-- an integer in base ten -/
def integer (i : Int) : Text :=
  if i < 0 then '-' :: decimal i.natAbs else decimal i.natAbs

end Numeral
end Smali
