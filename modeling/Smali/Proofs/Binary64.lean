import Mathlib.Tactic.Ring
import Smali.Binary64

/-!
# Rounding to floating point numbers

`Binary64.nearest` takes a quotient to a magnitude.  It depends on the value of the quotient alone, and it takes the
value of a finite number back to that number.

* `Binary64.roundQuotient_scale`, `Binary64.nearest_scale`  a factor of both parts of the quotient cancels;
* `Binary64.nearest_eq_of_exact`  a value of at most 53 bits is not rounded;
* `Binary64.nearest_units`        the value of a finite number is rounded to that number;
* `Binary64.IsWhole`              the finite numbers that are integers;
* `Binary64.isWhole_of_nearest`   a finite number that is nearest to an integer is itself one.
-/

namespace Smali
namespace Binary64

/-! ## powers of two -/

theorem pow2_add (m n : Nat) : pow2 (m + n) = pow2 m * pow2 n :=
  Nat.pow_add 2 m n

theorem pow2_pos (n : Nat) : 0 < pow2 n :=
  Nat.two_pow_pos n

theorem pow2_le {m n : Nat} (h : m ≤ n) : pow2 m ≤ pow2 n :=
  Nat.pow_le_pow_right (by omega) h

theorem pow2_52 : pow2 52 = 4503599627370496 := rfl

theorem infinite_eq : infinite = 9218868437227405312 := rfl

/-! ## quotients -/

theorem roundQuotient_scale (num den : Nat) {c : Nat} (hc : 0 < c) :
    roundQuotient (num * c) (den * c) = roundQuotient num den := by
  unfold roundQuotient
  dsimp only
  rw [Nat.mul_div_mul_right _ _ hc, Nat.mul_mod_mul_right, ← Nat.mul_assoc]
  simp only [Nat.mul_lt_mul_right hc]

theorem roundQuotient_mul (q : Nat) {den : Nat} (hden : 0 < den) : roundQuotient (q * den) den = q := by
  unfold roundQuotient
  rw [Nat.mul_div_cancel _ hden, Nat.mul_mod_left]
  simp only [Nat.mul_zero, hden, if_true]

/-- rounding goes to one of the two neighbours -/
theorem roundQuotient_bounds (num den : Nat) :
    num / den ≤ roundQuotient num den ∧ roundQuotient num den ≤ num / den + 1 := by
  unfold roundQuotient
  dsimp only
  split
  · omega
  · split <;> omega

/-- **Only the value of the quotient counts.** -/
theorem nearest_scale (num den : Nat) {c : Nat} (hc : 0 < c) : nearest (num * c) (den * c) = nearest num den := by
  have hnum : num * c * pow2 1074 = num * pow2 1074 * c := Nat.mul_right_comm _ _ _
  unfold nearest
  dsimp only
  rw [hnum, Nat.mul_div_mul_right _ _ hc, Nat.mul_right_comm den c, roundQuotient_scale _ _ hc]

/-! ## values that are not rounded -/

/-- the scale that is chosen for a value of at most 53 bits is its own -/
theorem log2_sub_eq {m s : Nat} (hm : m < pow2 53) (hs : pow2 52 ≤ m ∨ s = 0) : Nat.log2 (m * pow2 s) - 52 = s := by
  rcases hs with hs | rfl
  · have hne : m * pow2 s ≠ 0 := Nat.mul_ne_zero (by have := pow2_pos 52; omega) (Nat.ne_of_gt (pow2_pos s))
    have hlog : Nat.log2 (m * pow2 s) = 52 + s := by
      refine (Nat.log2_eq_iff hne).mpr ⟨?_, ?_⟩
      · show pow2 (52 + s) ≤ m * pow2 s
        rw [pow2_add]
        exact Nat.mul_le_mul_right _ hs
      · show m * pow2 s < pow2 (52 + s + 1)
        rw [show 52 + s + 1 = 53 + s from by omega, pow2_add]
        exact Nat.mul_lt_mul_of_pos_right hm (pow2_pos s)
    omega
  · show Nat.log2 (m * 1) - 52 = 0
    rw [Nat.mul_one]
    by_cases h0 : m = 0
    · rw [h0]
      rfl
    · have := (Nat.log2_lt h0).mpr hm
      omega

/-- a value of at most 53 bits is not rounded -/
theorem nearest_eq_of_exact {num den m s : Nat} (hden : 0 < den) (hm : m < pow2 53) (hs : pow2 52 ≤ m ∨ s = 0)
    (h : num * pow2 1074 = m * pow2 s * den) : nearest num den = min infinite (s * pow2 52 + m) := by
  have hround : roundQuotient (m * pow2 s * den) (den * pow2 s) = m := by
    rw [Nat.mul_assoc, Nat.mul_comm (pow2 s) den]
    exact roundQuotient_mul m (Nat.mul_pos hden (pow2_pos s))
  unfold nearest
  dsimp only
  rw [h, Nat.mul_div_cancel _ hden, log2_sub_eq hm hs, hround]

section
variable (x : Binary64)

theorem significand_lt : x.significand < pow2 53 := by
  have h53 : pow2 53 = 2 * pow2 52 := rfl
  have hmod := Nat.mod_lt x.magnitude (pow2_pos 52)
  unfold significand
  split <;> omega

/-- at the least scale alone the leading bit may be missing -/
theorem le_significand : pow2 52 ≤ x.significand ∨ x.scale = 0 := by
  unfold significand scale
  split
  · rename_i h
    right
    rw [Nat.div_eq_of_lt h]
  · exact .inl (Nat.le_add_right _ _)

/-- the magnitude is put together from the scale and the significand -/
theorem scale_add_significand : x.scale * pow2 52 + x.significand = x.magnitude := by
  unfold significand scale
  rw [pow2_52]
  split <;> omega

theorem scale_le (hx : x.isFinite = true) : x.scale ≤ 2045 := by
  have hlt : x.magnitude < infinite := of_decide_eq_true hx
  rw [infinite_eq] at hlt
  unfold scale
  rw [pow2_52]
  omega

end

/-- **The value of a finite number is rounded to that number.** -/
theorem nearest_units {x : Binary64} (hx : x.isFinite = true) : nearest x.units (pow2 1074) = x.magnitude := by
  have hlt : x.magnitude < infinite := of_decide_eq_true hx
  have hexact : x.units * pow2 1074 = x.significand * pow2 x.scale * pow2 1074 := rfl
  rw [nearest_eq_of_exact (pow2_pos 1074) x.significand_lt x.le_significand hexact, scale_add_significand]
  exact Nat.min_eq_right (Nat.le_of_lt hlt)

theorem units_lt {x : Binary64} (hx : x.isFinite = true) : x.units < pow2 1024 * pow2 1074 := by
  have hs : pow2 x.scale ≤ pow2 2045 := pow2_le (x.scale_le hx)
  calc x.units < pow2 53 * pow2 x.scale := Nat.mul_lt_mul_of_pos_right x.significand_lt (pow2_pos _)
    _ ≤ pow2 53 * pow2 2045 := Nat.mul_le_mul_left _ hs
    _ = pow2 1024 * pow2 1074 := by rw [← pow2_add, ← pow2_add]

theorem units_eq_zero_iff {x : Binary64} : x.units = 0 ↔ x.magnitude = 0 := by
  have hsum := x.scale_add_significand
  have hpos := pow2_pos x.scale
  constructor
  · intro h
    have hm : x.significand = 0 := (Nat.mul_eq_zero.mp h).resolve_right (by omega)
    rcases x.le_significand with hle | hs
    · rw [pow2_52] at hle
      omega
    · rw [hm, hs] at hsum
      omega
  · intro h
    have hm : x.significand = 0 := by omega
    rw [units, hm, Nat.zero_mul]

/-! ## integers -/

/-- the number is finite and an integer -/
def IsWhole (x : Binary64) : Prop :=
  x.isFinite = true ∧ pow2 1074 ∣ x.units

theorem toInt?_eq_none_iff {x : Binary64} : x.toInt? = none ↔ ¬ x.IsWhole := by
  unfold toInt? IsWhole
  rw [Nat.dvd_iff_mod_eq_zero]
  split
  · rename_i h
    rw [Bool.and_eq_true_iff, beq_iff_eq] at h
    exact iff_of_false nofun fun hn => hn h
  · rename_i h
    rw [Bool.and_eq_true_iff, beq_iff_eq] at h
    exact iff_of_true rfl h

/-- The value of a magnitude above the least scale.  When the significand has grown to a 54th bit, the magnitude is
that of half the significand at the next scale. -/
theorem units_eq {x : Binary64} {s r : Nat} (hx : x.magnitude = s * pow2 52 + r) (hlow : pow2 52 ≤ r)
    (hhigh : r ≤ pow2 53) : x.units = r * pow2 s := by
  have h53 : pow2 53 = 2 * pow2 52 := rfl
  have hlarge : ¬ x.magnitude < pow2 52 := by
    rw [hx]
    exact Nat.not_lt.mpr (Nat.le_trans hlow (Nat.le_add_left _ _))
  unfold units significand scale
  rw [if_neg hlarge]
  rcases Nat.eq_or_lt_of_le hhigh with rfl | hr
  · have hmag : x.magnitude = (s + 2) * pow2 52 := by rw [hx, h53]; ring
    rw [hmag, Nat.mul_mod_left, Nat.mul_div_cancel _ (pow2_pos 52), Nat.add_zero, h53]
    show pow2 52 * pow2 (s + 1) = 2 * pow2 52 * pow2 s
    rw [pow2_add]
    show pow2 52 * (pow2 s * 2) = _
    ring
  · have hmag : x.magnitude = (r - pow2 52) + (s + 1) * pow2 52 := by
      rw [hx, Nat.succ_mul]
      omega
    have hsmall : r - pow2 52 < pow2 52 := by omega
    rw [hmag, Nat.add_mul_mod_self_right, Nat.mod_eq_of_lt hsmall, Nat.add_mul_div_right _ _ (pow2_pos 52),
      Nat.div_eq_of_lt hsmall, Nat.zero_add, Nat.add_sub_cancel, Nat.add_sub_cancel' hlow]

/-- the rounded quotient at the scale that is chosen for it has 53 bits, or has just got a 54th one -/
theorem roundQuotient_log2 {N : Nat} (hN : pow2 52 ≤ N) :
    pow2 52 ≤ roundQuotient N (pow2 (Nat.log2 N - 52)) ∧ roundQuotient N (pow2 (Nat.log2 N - 52)) ≤ pow2 53 := by
  have hne : N ≠ 0 := by have := pow2_pos 52; omega
  have hlog : 52 ≤ Nat.log2 N := (Nat.le_log2 hne).mpr hN
  obtain ⟨s, hs⟩ : ∃ s, Nat.log2 N = 52 + s := ⟨Nat.log2 N - 52, by omega⟩
  obtain ⟨hlow, hhigh⟩ := (Nat.log2_eq_iff hne).mp hs
  have hdiv : pow2 52 ≤ N / pow2 s ∧ N / pow2 s < pow2 53 := by
    constructor
    · rw [Nat.le_div_iff_mul_le (pow2_pos s), ← pow2_add]
      exact hlow
    · rw [Nat.div_lt_iff_lt_mul (pow2_pos s), ← pow2_add, show 53 + s = 52 + s + 1 from by omega]
      exact hhigh
  rw [hs, Nat.add_sub_cancel_left]
  have hbounds := roundQuotient_bounds N (pow2 s)
  omega

/-- **A finite number that is nearest to an integer is an integer.** -/
theorem isWhole_of_nearest {x : Binary64} {n : Nat} (hx : x.isFinite = true) (h : x.magnitude = nearest n 1) :
    x.IsWhole := by
  refine ⟨hx, ?_⟩
  by_cases hn : n = 0
  · have hzero : nearest 0 1 = 0 := by decide +kernel
    rw [hn, hzero, ← units_eq_zero_iff] at h
    rw [h]
    exact Nat.dvd_zero _
  · have hlarge : pow2 1074 ≤ n * pow2 1074 := Nat.le_mul_of_pos_left _ (Nat.pos_of_ne_zero hn)
    have hmag : x.magnitude = (Nat.log2 (n * pow2 1074) - 52) * pow2 52 +
        roundQuotient (n * pow2 1074) (pow2 (Nat.log2 (n * pow2 1074) - 52)) := by
      have hlt : x.magnitude < infinite := of_decide_eq_true hx
      unfold nearest at h
      dsimp only at h
      rw [Nat.div_one, Nat.one_mul] at h
      omega
    obtain ⟨hlow, hhigh⟩ := roundQuotient_log2 (Nat.le_trans (pow2_le (by omega)) hlarge)
    rw [units_eq hmag hlow hhigh]
    generalize Nat.log2 (n * pow2 1074) - 52 = s
    rcases Nat.le_total 1074 s with hs | hs
    · obtain ⟨k, rfl⟩ := Nat.exists_eq_add_of_le hs
      rw [pow2_add]
      exact Nat.dvd_mul_left_of_dvd (Nat.dvd_mul_right _ _) _
    · -- nothing is rounded when the unit of the last bit is below one
      obtain ⟨k, hk⟩ := Nat.exists_eq_add_of_le hs
      have hexact : n * pow2 1074 = n * pow2 k * pow2 s := by
        rw [hk, pow2_add]
        ring
      rw [hexact, roundQuotient_mul _ (pow2_pos s), ← hexact]
      exact Nat.dvd_mul_left _ _

end Binary64
end Smali
