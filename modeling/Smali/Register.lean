import Smali.Error
import Smali.Text.Numeral

/-!
# Registers

A method sees its registers as locals `v0`, `v1`, ... and its parameters as `p0`, `p1`, ...; their
numbers have sixteen bits.

* `Register.read?`   a register at the start of a text, with what follows it;
* `Register.parse`   a register that is the whole of a text;
* `RegisterRange`    the registers from one to another, as in `{v0 .. v6}`.
-/

namespace Smali

inductive Register where
  | var (number : Fin 65536)
  | param (number : Fin 65536)
deriving DecidableEq, Repr

namespace Register

def number : Register → Fin 65536
  | .var n | .param n => n

def isParameter : Register → Bool
  | .var _ => false
  | .param _ => true

def render : Register → Text
  | .var n => 'v' :: Numeral.decimal n
  | .param n => 'p' :: Numeral.decimal n

/-- the number of a register, when its digits denote one below 65536 -/
def number? (digits : Text) : Option (Fin 65536) :=
  match Numeral.value? 10 digits with
  | some n => if h : n < 65536 then some ⟨n, h⟩ else none
  | none => none

/-- `v` or `p` and all digits that follow -/
def read? : Text → Option (Register × Text)
  | c :: r =>
    let digits := r.takeWhile isDigit
    let rest := r.dropWhile isDigit
    if c = 'v' then (number? digits).map fun n => (.var n, rest)
    else if c = 'p' then (number? digits).map fun n => (.param n, rest)
    else none
  | [] => none

def parse (t : Text) : Except Error Register :=
  match read? t with
  | some (r, []) => .ok r
  | _ => .error (.invalidRegister t)

end Register

/-- the registers from `first` to `last` -/
structure RegisterRange where
  first : Register
  last : Register
deriving DecidableEq, Repr

namespace RegisterRange

/-- the number of registers: none when the range runs backwards or mixes locals and parameters -/
def size (r : RegisterRange) : Nat :=
  if r.first.isParameter = r.last.isParameter then r.last.number + 1 - r.first.number else 0

def render (r : RegisterRange) : Text :=
  "\x7b".toList ++ r.first.render ++ " .. ".toList ++ r.last.render ++ "\x7d".toList

end RegisterRange
end Smali
