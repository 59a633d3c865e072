import Mathlib.Data.List.TakeWhile
import Smali.Literal
import Smali.Register

/-!
# Numbers and their text

The digits of a number denote that number, so registers are read back from their text.

* `Numeral.value?_toDigits`   the digits of a number, in a base up to sixteen, denote it;
* `Register.parse_render`     a register is read back from its text;
* `Literal.IsInteger`         integers with no suffix or with one of integers;
* `Literal.exists_render`     the text of an integer is its sign, its magnitude and its suffix.
-/

namespace Smali
namespace Numeral

/-! ## digits -/

theorem digit?_digitChar (base : Nat) {d : Nat} (hd : d < 16) (hb : d < base) :
    digit? base d.digitChar = some d := by
  have h : ∀ e : Fin 16, digit? 16 e.val.digitChar = some e.val := by decide
  have h16 : digit? 16 d.digitChar = some d := h ⟨d, hd⟩
  unfold digit? at h16 ⊢
  dsimp only at h16 ⊢
  obtain ⟨hv, -⟩ := Option.filter_eq_some_iff.mp h16
  rw [hv]
  simp [hb]

theorem exists_digit?_of_isDigit {c : Char} (hc : isDigit c = true) : ∃ d, digit? 10 c = some d := by
  have hv : digit? 10 c = (some (c.toNat - '0'.toNat)).filter (· < 10) := by
    unfold digit?
    dsimp only
    rw [if_pos hc]
  rw [isDigit, Bool.and_eq_true_iff, decide_eq_true_iff, decide_eq_true_iff] at hc
  have hle : c.toNat ≤ '9'.toNat := hc.2
  have hzero : '0'.toNat = 48 := rfl
  have hnine : '9'.toNat = 57 := rfl
  refine ⟨c.toNat - '0'.toNat, ?_⟩
  rw [hv, Option.filter_some, if_pos (decide_eq_true (by omega))]

theorem exists_digit?_of_isHexDigit {c : Char} (hc : isHexDigit c = true) : ∃ d, digit? 16 c = some d := by
  have hletter : ∀ a b : Char, a ≤ c → c ≤ b → a.toNat ≤ c.toNat ∧ c.toNat ≤ b.toNat := fun _ _ ha hb => ⟨ha, hb⟩
  have hnumbers : '0'.toNat = 48 ∧ '9'.toNat = 57 ∧ 'a'.toNat = 97 ∧ 'f'.toNat = 102 ∧ 'A'.toNat = 65 ∧
      'F'.toNat = 70 := ⟨rfl, rfl, rfl, rfl, rfl, rfl⟩
  have hsmall : ∀ n, n < 16 → ∃ d, (some n).filter (fun m => decide (m < 16)) = some d := by
    intro n hn
    exact ⟨n, by rw [Option.filter_some, if_pos (decide_eq_true hn)]⟩
  simp only [isHexDigit, isDigit, Bool.or_eq_true, Bool.and_eq_true, decide_eq_true_eq] at hc
  unfold digit?
  dsimp only
  split
  · rename_i h
    simp only [isDigit, Bool.and_eq_true, decide_eq_true_eq] at h
    have := hletter _ _ h.1 h.2
    exact hsmall _ (by omega)
  · rename_i hdigit
    simp only [isDigit, Bool.and_eq_true, decide_eq_true_eq] at hdigit
    split
    · rename_i h
      have := hletter _ _ h.1 h.2
      exact hsmall _ (by omega)
    · rename_i hlower
      have hupper := (hc.resolve_left (not_or.mpr ⟨hdigit, hlower⟩))
      rw [if_pos hupper]
      have := hletter _ _ hupper.1 hupper.2
      exact hsmall _ (by omega)

theorem accumulate_append (base acc : Nat) (s t : Text) :
    accumulate base acc (s ++ t) = (accumulate base acc s).bind fun n => accumulate base n t := by
  induction s generalizing acc with
  | nil => rfl
  | cons c s ih =>
    rw [List.cons_append, accumulate, accumulate]
    cases digit? base c with
    | none => rfl
    | some d => exact ih _

theorem value?_of_ne_nil {base : Nat} {s : Text} (hs : s ≠ []) : value? base s = accumulate base 0 s := by
  cases s with
  | nil => exact absurd rfl hs
  | cons c s => rfl

/-- a run of digits denotes a number -/
theorem exists_value? {base : Nat} {s : Text} (hne : s ≠ []) (hs : ∀ c ∈ s, ∃ d, digit? base c = some d) :
    ∃ n, value? base s = some n := by
  have hall : ∀ acc, ∃ n, accumulate base acc s = some n := by
    clear hne
    induction s with
    | nil => exact fun acc => ⟨acc, rfl⟩
    | cons c s ih =>
      intro acc
      obtain ⟨⟨d, hd⟩, hs⟩ := List.forall_mem_cons.mp hs
      rw [accumulate, hd]
      exact ih hs _
  rw [value?_of_ne_nil hne]
  exact hall 0

section
variable {base : Nat} (h1 : 1 < base) (h16 : base ≤ 16)
include h1 h16

theorem accumulate_toDigits (n : Nat) : accumulate base 0 (Nat.toDigits base n) = some n := by
  induction n using Nat.strongRecOn with
  | ind n ih =>
    by_cases hn : n < base
    · have hd : digit? base n.digitChar = some n := digit?_digitChar base (by omega) hn
      rw [Nat.toDigits_of_lt_base hn, accumulate, hd]
      show some (0 * base + n) = some n
      rw [Nat.zero_mul, Nat.zero_add]
    · have hlt : n / base < n := Nat.div_lt_self (by omega) h1
      have hmod : n % base < base := Nat.mod_lt _ (by omega)
      have hd : digit? base (n % base).digitChar = some (n % base) :=
        digit?_digitChar base (by omega) hmod
      rw [Nat.toDigits_of_base_le h1 (by omega), accumulate_append, ih _ hlt, Option.bind_some,
        accumulate, hd]
      show some (n / base * base + n % base) = some n
      rw [Nat.mul_comm, Nat.div_add_mod]

theorem value?_toDigits (n : Nat) : value? base (Nat.toDigits base n) = some n := by
  have h := accumulate_toDigits h1 h16 n
  cases hd : Nat.toDigits base n with
  | nil => exact absurd hd Nat.toDigits_ne_nil
  | cons c r =>
    rw [hd] at h
    exact h

theorem exists_digitChar {n : Nat} {c : Char} (hc : c ∈ Nat.toDigits base n) :
    ∃ d < base, c = d.digitChar := by
  induction n using Nat.strongRecOn with
  | ind n ih =>
    by_cases hn : n < base
    · rw [Nat.toDigits_of_lt_base hn, List.mem_singleton] at hc
      exact ⟨n, hn, hc⟩
    · rw [Nat.toDigits_of_base_le h1 (by omega), List.mem_append, List.mem_singleton] at hc
      rcases hc with hc | hc
      · exact ih _ (Nat.div_lt_self (by omega) h1) hc
      · exact ⟨n % base, Nat.mod_lt _ (by omega), hc⟩

theorem isHexDigit_of_mem {n : Nat} {c : Char} (hc : c ∈ Nat.toDigits base n) : isHexDigit c = true := by
  have h : ∀ e : Fin 16, isHexDigit e.val.digitChar = true := by decide
  obtain ⟨d, hd, rfl⟩ := exists_digitChar h1 h16 hc
  exact h ⟨d, by omega⟩

end

theorem isDigit_of_mem {n : Nat} {c : Char} (hc : c ∈ Nat.toDigits 10 n) : isDigit c = true := by
  have h : ∀ e : Fin 10, isDigit e.val.digitChar = true := by decide
  obtain ⟨d, hd, rfl⟩ := exists_digitChar (by omega) (by omega) hc
  exact h ⟨d, hd⟩

end Numeral

/-! ## registers -/

namespace Register

theorem number?_decimal (n : Fin 65536) : number? (Numeral.decimal n) = some n := by
  have h : Numeral.value? 10 (Numeral.decimal n) = some n.val :=
    Numeral.value?_toDigits (by omega) (by omega) n
  rw [number?, h]
  show (if h : n.val < 65536 then some (⟨n.val, h⟩ : Fin 65536) else none) = some n
  rw [dif_pos n.isLt]

theorem parse_render (r : Register) : parse r.render = .ok r := by
  have take : ∀ n, (Numeral.decimal n).takeWhile isDigit = Numeral.decimal n := by
    intro n
    rw [List.takeWhile_eq_self_iff]
    exact fun c hc => Numeral.isDigit_of_mem hc
  have drop : ∀ n, (Numeral.decimal n).dropWhile isDigit = [] := by
    intro n
    rw [List.dropWhile_eq_nil_iff]
    exact fun c hc => Numeral.isDigit_of_mem hc
  cases r with
  | var n =>
    simp only [render, parse, read?, take, drop, number?_decimal]
    rfl
  | param n =>
    simp only [render, parse, read?, take, drop, number?_decimal]
    rfl

end Register
/-! ## integer literals -/

namespace Literal

/-- an integer, with no suffix or with one of integers -/
structure IsInteger (l : Literal) : Prop where
  value : ∃ v, l.value = .int v
  width : l.width = none ∨ l.width = some .byte ∨ l.width = some .short ∨ l.width = some .long

/-- the text of the suffix -/
def suffix (l : Literal) : Text :=
  (l.width.map Width.suffix).getD []

theorem parse?_of_head {t : Text} (h : t.head? ≠ some '-') : parse? t = parseBody? false t := by
  unfold parse?
  split
  · exact absurd rfl h
  · rfl

theorem hexDigits?_eq_none {t : Text} (h : ∀ c ∈ t, c ≠ 'x' ∧ c ≠ 'X') : hexDigits? t = none := by
  unfold hexDigits?
  split
  · exact absurd rfl (h 'x' (by simp)).1
  · exact absurd rfl (h 'X' (by simp)).2
  · rfl

/-- the text of a magnitude -/
def magnitude (hex : Bool) (n : Nat) : Text :=
  if hex then '0' :: 'x' :: Numeral.hex n else Numeral.decimal n

/-- the sign, the magnitude and the suffix -/
theorem exists_render {l : Literal} (hl : l.IsInteger) : ∃ v : Int64, l.value = .int v ∧
    l.render = (if v.toInt < 0 then ['-'] else []) ++ (magnitude l.hex v.toInt.natAbs ++ l.suffix) := by
  obtain ⟨v, hv⟩ := hl.value
  have hrender : l.render = renderInt l.hex v.toInt ++ l.suffix := by
    rw [render, hv]
    rfl
  refine ⟨v, hv, ?_⟩
  rw [hrender, renderInt, magnitude, Numeral.integer, ← List.append_assoc]
  congr 1
  cases l.hex <;> by_cases hneg : v.toInt < 0 <;> simp [hneg]

theorem mem_suffix {l : Literal} (hl : l.IsInteger) {c : Char} (hc : c ∈ l.suffix) :
    c = 't' ∨ c = 's' ∨ c = 'L' := by
  rcases hl.width with hw | hw | hw | hw <;> rw [suffix, hw] at hc <;> simp_all [Width.suffix]

theorem exists_magnitude_eq_cons (hex : Bool) (n : Nat) (t : Text) :
    ∃ c r, magnitude hex n ++ t = c :: r ∧ isDigit c = true := by
  cases hex with
  | true => exact ⟨'0', 'x' :: (Numeral.hex n ++ t), rfl, rfl⟩
  | false =>
    obtain ⟨c, r, hd⟩ := List.exists_cons_of_ne_nil (Nat.toDigits_ne_nil : Nat.toDigits 10 n ≠ [])
    have hc : isDigit c = true := Numeral.isDigit_of_mem (n := n) (by rw [hd]; exact List.mem_cons_self)
    refine ⟨c, r ++ t, ?_, hc⟩
    show Nat.toDigits 10 n ++ t = _
    rw [hd, List.cons_append]

end Literal
end Smali
