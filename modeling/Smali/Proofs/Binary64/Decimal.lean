import Mathlib.Data.List.Range
import Smali.Binary64.Decimal
import Smali.Proofs.Binary64
import Smali.Proofs.Literal

/-!
# Floating point numbers and their decimal text

A finite number is written with the fewest digits that are read back as that number.  Here it is shown that they are
read back, and which of the texts have a point.

* `Decimal.shift`          the same decimal with more digits; it has the same nearest number (`Decimal.nearest_shift`);
* `Decimal.exists_render`  the text of a decimal is a run of digits, and a point and more digits unless the decimal is
                           an integer; both together denote the decimal;
* `Decimal.nearest_parse?_render`  a decimal that is read back from its text has the same nearest number;
* `Binary64.nearest_shortest`  the shortest decimal of a number is nearest to that number;
* `Binary64.isWhole_shortest_iff`  it is an integer exactly when the number is one;
* `Binary64.parse?_digits` a number is read back from its digits.
-/

namespace Smali
namespace Numeral

/-! ## zeros around digits -/

theorem accumulate_zeros (acc k : Nat) : accumulate 10 acc (List.replicate k '0') = some (acc * 10 ^ k) := by
  induction k generalizing acc with
  | zero => rw [Nat.pow_zero, Nat.mul_one]; rfl
  | succ k ih =>
    show accumulate 10 (acc * 10 + 0) (List.replicate k '0') = _
    rw [ih, Nat.pow_succ]
    congr 1
    ring

theorem value?_zeros_append (k : Nat) {s : Text} (hs : s ≠ []) :
    value? 10 (List.replicate k '0' ++ s) = value? 10 s := by
  rw [value?_of_ne_nil hs, value?_of_ne_nil (List.append_ne_nil_of_right_ne_nil _ hs), accumulate_append,
    accumulate_zeros, Nat.zero_mul]
  rfl

theorem value?_append_zeros {s : Text} {n : Nat} (h : value? 10 s = some n) (k : Nat) :
    value? 10 (s ++ List.replicate k '0') = some (n * 10 ^ k) := by
  have hs : s ≠ [] := by
    rintro rfl
    cases h
  rw [value?_of_ne_nil hs] at h
  rw [value?_of_ne_nil (List.append_ne_nil_of_left_ne_nil hs _), accumulate_append, h]
  exact accumulate_zeros n k

/-- the last digit is the remainder modulo ten -/
theorem mod_ten_of_value? {s : Text} {c : Char} {n : Nat} (h : value? 10 (s ++ [c]) = some n) :
    digit? 10 c = some (n % 10) := by
  rw [value?_of_ne_nil (List.append_ne_nil_of_right_ne_nil _ (List.cons_ne_nil _ _)), accumulate_append] at h
  obtain ⟨m, -, h⟩ := Option.bind_eq_some_iff.mp h
  rw [accumulate] at h
  cases hd : digit? 10 c with
  | none =>
    rw [hd] at h
    cases h
  | some d =>
    rw [hd] at h
    have hlt : d < 10 := of_decide_eq_true (Option.filter_eq_some_iff.mp hd).2
    obtain rfl : m * 10 + d = n := Option.some.inj h
    rw [Nat.mul_add_mod_self_right, Nat.mod_eq_of_lt hlt]

theorem digit?_eq_zero {c : Char} (h : digit? 10 c = some 0) : c = '0' := by
  obtain ⟨hv, -⟩ := Option.filter_eq_some_iff.mp h
  split at hv
  · rename_i hc
    rw [isDigit, Bool.and_eq_true_iff, decide_eq_true_iff, decide_eq_true_iff] at hc
    have hle : '0'.toNat ≤ c.toNat := hc.1
    apply Char.toNat_inj.mp
    have := Option.some.inj hv
    omega
  · split at hv
    · have := Option.some.inj hv
      omega
    · split at hv
      · have := Option.some.inj hv
        omega
      · cases hv

end Numeral

namespace Decimal

/-! ## the same decimal with more digits -/

theorem pow10_pos (n : Nat) : 0 < pow10 n :=
  Nat.pow_pos (by omega)

theorem pow10_add (m n : Nat) : pow10 (m + n) = pow10 m * pow10 n :=
  Nat.pow_add 10 m n

theorem digitCount_mul_pow10 {n : Nat} (hn : n ≠ 0) (k : Nat) : digitCount (n * pow10 k) = digitCount n + k := by
  induction k with
  | zero => rw [show n * pow10 0 = n from Nat.mul_one n, Nat.add_zero]
  | succ k ih =>
    have hpos : 0 < n * pow10 k := Nat.mul_pos (Nat.pos_of_ne_zero hn) (pow10_pos k)
    have hmul : n * pow10 (k + 1) = n * pow10 k * 10 := (Nat.mul_assoc n (pow10 k) 10).symm
    unfold digitCount Numeral.decimal at ih ⊢
    rw [hmul, Nat.toDigits_of_base_le (by omega) (by omega), Nat.mul_div_cancel _ (by omega), List.length_append, ih]
    rfl

theorem digitCount_pos (n : Nat) : 0 < digitCount n :=
  List.length_pos_iff.mpr Nat.toDigits_ne_nil

theorem digitCount_le_iff {n k : Nat} (hk : 0 < k) : digitCount n ≤ k ↔ n < pow10 k :=
  Nat.length_toDigits_le_iff (by omega) hk

/-- the same decimal with `k` more digits -/
def shift (k : Nat) (d : Decimal) : Decimal :=
  ⟨d.coefficient * pow10 k, d.exponent - k⟩

/-- **More digits of the same decimal do not change the number that is nearest to it.** -/
theorem nearest_shift (k : Nat) (d : Decimal) : (d.shift k).nearest = d.nearest := by
  obtain ⟨c, e⟩ := d
  by_cases hc : c = 0
  · unfold nearest shift
    simp only [hc, Nat.zero_mul, true_or, if_true]
  · have hck : c * pow10 k ≠ 0 := Nat.mul_ne_zero hc (Nat.ne_of_gt (pow10_pos k))
    have htop : (digitCount (c * pow10 k) : Int) + (e - k) = digitCount c + e := by
      rw [digitCount_mul_pow10 hc]
      omega
    unfold nearest shift
    dsimp only
    rw [htop]
    simp only [hc, hck, false_or]
    split
    · rfl
    · split
      · rfl
      · -- the power of ten goes from one part of the quotient to the other one
        split
        · rename_i he
          rw [if_pos (by omega), Nat.mul_assoc, ← pow10_add]
          congr 3
          omega
        · rename_i he
          split
          · rename_i he0
            have hk : k = e.toNat + (-(e - k)).toNat := by omega
            calc Binary64.nearest (c * pow10 k) (pow10 (-(e - k)).toNat)
                = Binary64.nearest (c * pow10 e.toNat * pow10 (-(e - k)).toNat) (1 * pow10 (-(e - k)).toNat) := by
                  rw [Nat.one_mul, Nat.mul_assoc, ← pow10_add, ← hk]
              _ = _ := Binary64.nearest_scale _ _ (pow10_pos _)
          · have hk : (-(e - k)).toNat = (-e).toNat + k := by omega
            rw [hk, pow10_add]
            exact Binary64.nearest_scale _ _ (pow10_pos k)

/-! ## the text -/

/-- a point and the digits after it, if there are any -/
def pointed : Text → Text
  | [] => []
  | fraction => '.' :: fraction

/-- the decimal is an integer -/
def IsWhole (d : Decimal) : Prop :=
  0 ≤ d.exponent ∨ pow10 (-d.exponent).toNat ∣ d.coefficient

/-- zeros are taken off the end up to a digit that is none -/
theorem exists_trimZeros (t : Text) :
    ∃ k, t = trimZeros t ++ List.replicate k '0' ∧ (trimZeros t).getLast? ≠ some '0' := by
  have hzeros : t.reverse.takeWhile (· == '0') =
      List.replicate (t.reverse.takeWhile (· == '0')).length '0' := by
    rw [List.eq_replicate_iff]
    exact ⟨rfl, fun c hc => eq_of_beq (List.mem_takeWhile_imp (p := (· == '0')) hc)⟩
  refine ⟨(t.reverse.takeWhile (· == '0')).length, ?_, ?_⟩
  · have h := congrArg List.reverse (List.takeWhile_append_dropWhile (p := (· == '0')) (l := t.reverse))
    rw [List.reverse_append, List.reverse_reverse] at h
    conv_lhs => rw [← h, hzeros, List.reverse_replicate]
    rfl
  · rw [trimZeros, List.getLast?_reverse]
    intro h
    have hhead := List.head?_dropWhile_not (· == '0') t.reverse
    rw [h] at hhead
    cases hhead

/-- a number whose last digit is not zero is no multiple of ten -/
theorem not_ten_dvd {s : Text} {n : Nat} (hs : s ≠ []) (hlast : s.getLast? ≠ some '0')
    (h : Numeral.value? 10 s = some n) : ¬ 10 ∣ n := by
  obtain ⟨r, c, rfl⟩ := (List.eq_nil_or_concat' s).resolve_left hs
  intro hdvd
  have hd := Numeral.mod_ten_of_value? h
  rw [Nat.mod_eq_zero_of_dvd hdvd] at hd
  rw [Numeral.digit?_eq_zero hd, List.getLast?_concat] at hlast
  exact hlast rfl

theorem isDigit_of_mem_padded {n k : Nat} : ∀ c ∈ List.replicate k '0' ++ Numeral.decimal n, isDigit c = true := by
  intro c hc
  rcases List.mem_append.mp hc with hc | hc
  · rw [List.eq_of_mem_replicate hc]
    rfl
  · exact Numeral.isDigit_of_mem hc

/-- The digits before and after the point of the text of a decimal.  Together they denote the decimal, up to zeros at its
end; there are none after the point exactly when the decimal is an integer. -/
structure Layout (d : Decimal) (whole fraction : Text) : Prop where
  isDigit : ∀ c ∈ whole ++ fraction, isDigit c = true
  whole_ne_nil : whole ≠ []
  denotes : ∃ n k, Numeral.value? 10 (whole ++ fraction) = some n ∧
    (Decimal.mk n (-fraction.length) = d.shift k ∨ d = (Decimal.mk n (-fraction.length)).shift k)
  fraction_eq_nil_iff : fraction = [] ↔ d.IsWhole

theorem layout_of_nonneg {c : Nat} {e : Int} (he : 0 ≤ e) :
    Layout ⟨c, e⟩ (Numeral.decimal c ++ List.replicate e.toNat '0') [] where
  isDigit := by
    intro x hx
    rw [List.append_nil] at hx
    rcases List.mem_append.mp hx with hx | hx
    · exact Numeral.isDigit_of_mem hx
    · rw [List.eq_of_mem_replicate hx]
      rfl
  whole_ne_nil := List.append_ne_nil_of_left_ne_nil Nat.toDigits_ne_nil _
  denotes := by
    have hvalue : Numeral.value? 10 (Numeral.decimal c) = some c := Numeral.value?_toDigits (by omega) (by omega) c
    refine ⟨c * 10 ^ e.toNat, e.toNat, ?_, .inl ?_⟩
    · rw [List.append_nil]
      exact Numeral.value?_append_zeros hvalue _
    · rw [shift]
      congr 1
      simp only [List.length_nil]
      omega
  fraction_eq_nil_iff := iff_of_true rfl (.inl he)

/-- the digits of a coefficient, cut where the point goes, without the zeros at the end -/
theorem layout_of_cut {c : Nat} {whole tail : Text} (hdigits : ∀ x ∈ whole ++ tail, isDigit x = true)
    (hwhole : whole ≠ []) (htail : tail ≠ []) (hvalue : Numeral.value? 10 (whole ++ tail) = some c) :
    Layout ⟨c, -tail.length⟩ whole (trimZeros tail) := by
  obtain ⟨k, hk, hlast⟩ := exists_trimZeros tail
  generalize trimZeros tail = fraction at hk hlast
  have hlength : tail.length = fraction.length + k := by rw [hk, List.length_append, List.length_replicate]
  have hall : ∀ x ∈ whole ++ fraction, isDigit x = true := by
    intro x hx
    apply hdigits
    rw [hk, ← List.append_assoc]
    exact List.mem_append_left _ hx
  have hne : whole ++ fraction ≠ [] := List.append_ne_nil_of_left_ne_nil hwhole fraction
  obtain ⟨n, hn⟩ := Numeral.exists_value? hne fun x hx => Numeral.exists_digit?_of_isDigit (hall x hx)
  have hc : c = n * pow10 k := by
    have h := Numeral.value?_append_zeros hn k
    rw [List.append_assoc, ← hk, hvalue] at h
    exact Option.some.inj h
  have hplaces : (-(-(tail.length : Int))).toNat = fraction.length + k := by omega
  refine ⟨hall, hwhole, ⟨n, k, hn, .inr ?_⟩, ?_⟩
  · rw [shift, hc]
    congr 1
    show -(tail.length : Int) = -(fraction.length : Int) - k
    omega
  · constructor
    · rintro rfl
      right
      show pow10 (-(-(tail.length : Int))).toNat ∣ c
      rw [hplaces, List.length_nil, Nat.zero_add, hc]
      exact Nat.dvd_mul_left _ _
    · intro hd
      have hpos : 0 < tail.length := List.length_pos_iff.mpr htail
      have hdvd : pow10 (-(-(tail.length : Int))).toNat ∣ c := hd.resolve_left fun h => by
        have : (0 : Int) ≤ -(tail.length : Int) := h
        omega
      rw [hplaces, hc, pow10_add] at hdvd
      replace hdvd := Nat.dvd_of_mul_dvd_mul_right (pow10_pos k) hdvd
      -- the last digit after the point is not zero, so ten does not divide the digits
      by_contra hfraction
      refine not_ten_dvd hne ?_ hn (Nat.dvd_trans (dvd_pow_self 10 ?_) hdvd)
      · rw [List.getLast?_append_of_ne_nil _ hfraction]
        exact hlast
      · rwa [Ne, List.length_eq_zero_iff]

/-- **The text of a decimal** is a run of digits, and a point and more digits unless it is an integer. -/
theorem exists_render (d : Decimal) : ∃ whole fraction,
    d.render = whole ++ pointed fraction ∧ d.Layout whole fraction := by
  obtain ⟨c, e⟩ := d
  by_cases he : 0 ≤ e
  · refine ⟨_, [], ?_, layout_of_nonneg he⟩
    rw [render, if_pos he]
    exact (List.append_nil _).symm
  · obtain ⟨p, hp, rfl⟩ : ∃ p : Nat, (-e).toNat = p ∧ e = -p := ⟨(-e).toNat, rfl, by omega⟩
    have hpadded : Numeral.value? 10 (List.replicate (p + 1 - (Numeral.decimal c).length) '0' ++ Numeral.decimal c) =
        some c :=
      (Numeral.value?_zeros_append _ Nat.toDigits_ne_nil).trans (Numeral.value?_toDigits (by omega) (by omega) c)
    have hlength : p < (List.replicate (p + 1 - (Numeral.decimal c).length) '0' ++ Numeral.decimal c).length := by
      rw [List.length_append, List.length_replicate]
      omega
    have hdigits := isDigit_of_mem_padded (n := c) (k := p + 1 - (Numeral.decimal c).length)
    rw [render, if_neg he]
    dsimp only
    rw [hp]
    generalize List.replicate (p + 1 - (Numeral.decimal c).length) '0' ++ Numeral.decimal c = padded at *
    rw [← List.take_append_drop (padded.length - p) padded] at hpadded hdigits
    have hdrop : (padded.drop (padded.length - p)).length = p := by
      rw [List.length_drop]
      omega
    have htake : (padded.take (padded.length - p)).length = padded.length - p := by
      rw [List.length_take]
      omega
    refine ⟨padded.take (padded.length - p), trimZeros (padded.drop (padded.length - p)), ?_, ?_⟩
    · cases trimZeros (padded.drop (padded.length - p)) with
      | nil => exact (List.append_nil _).symm
      | cons x fraction => rfl
    · have hcut := layout_of_cut hdigits (List.ne_nil_of_length_pos (by omega)) (List.ne_nil_of_length_pos (by omega))
        hpadded
      rwa [hdrop] at hcut

/-! ## reading -/

theorem takeWhile_of_head? {p : Char → Bool} {digits t : Text} (hdigits : ∀ c ∈ digits, p c = true)
    (ht : ∀ c ∈ t.head?, p c = false) :
    (digits ++ t).takeWhile p = digits ∧ (digits ++ t).dropWhile p = t := by
  rw [List.takeWhile_append_of_pos hdigits, List.dropWhile_append_of_pos hdigits]
  cases t with
  | nil => exact ⟨List.append_nil _, rfl⟩
  | cons c t =>
    have hc : ¬ p c = true := by rw [ht c rfl]; exact Bool.false_ne_true
    rw [List.takeWhile_cons_of_neg hc, List.dropWhile_cons_of_neg hc]
    exact ⟨List.append_nil _, rfl⟩

/-- digits with a point among them and an exponent after them are read as the decimal that they denote -/
theorem parse?_parts {whole fraction exponent : Text} {n : Nat} {i : Int}
    (hdigits : ∀ c ∈ whole ++ fraction, isDigit c = true) (hn : Numeral.value? 10 (whole ++ fraction) = some n)
    (hexponent : ∀ c ∈ exponent.head?, isDigit c = false ∧ c ≠ '.') (hi : exponent? exponent = some i) :
    parse? (whole ++ (pointed fraction ++ exponent)) = some ⟨n, i - fraction.length⟩ := by
  have hwhole : ∀ c ∈ whole, isDigit c = true := fun c hc => hdigits c (List.mem_append_left _ hc)
  have hfraction : ∀ c ∈ fraction, isDigit c = true := fun c hc => hdigits c (List.mem_append_right _ hc)
  unfold parse?
  cases fraction with
  | nil =>
    obtain ⟨htake, hdrop⟩ := takeWhile_of_head? hwhole fun c hc => (hexponent c hc).1
    have hpoint : ∀ r, exponent ≠ '.' :: r := by
      rintro r rfl
      exact (hexponent '.' rfl).2 rfl
    rw [List.append_nil] at hn
    simp only [pointed, List.nil_append, htake, hdrop, List.append_nil, hn, hi]
  | cons x fraction =>
    have hrest : whole ++ (pointed (x :: fraction) ++ exponent) = whole ++ '.' :: (x :: fraction ++ exponent) := rfl
    obtain ⟨htake, hdrop⟩ := takeWhile_of_head? (t := '.' :: (x :: fraction ++ exponent)) hwhole fun c hc => by
      obtain rfl := Option.some.inj hc
      rfl
    obtain ⟨htake', hdrop'⟩ := takeWhile_of_head? hfraction fun c hc => (hexponent c hc).1
    simp only [hrest, htake, hdrop, htake', hdrop', hn, hi]

/-- **A decimal is read back from its text**, or one with the same nearest number. -/
theorem nearest_parse?_render (d : Decimal) : ∃ d', parse? d.render = some d' ∧ d'.nearest = d.nearest := by
  obtain ⟨whole, fraction, hrender, hlayout⟩ := exists_render d
  obtain ⟨n, k, hn, hshift⟩ := hlayout.denotes
  refine ⟨⟨n, -fraction.length⟩, ?_, ?_⟩
  · have hnone : exponent? [] = some 0 := rfl
    have hparse := parse?_parts hlayout.isDigit hn (fun _ hc => by cases hc) hnone
    rwa [List.append_nil, ← hrender, Int.zero_sub] at hparse
  · rcases hshift with h | h
    · rw [h, nearest_shift]
    · rw [h, nearest_shift]

/-! ## integers -/

theorem exists_nearest_of_isWhole {d : Decimal} (hd : d.IsWhole) :
    d.nearest = 0 ∨ d.nearest = Binary64.infinite ∨ ∃ n, d.nearest = Binary64.nearest n 1 := by
  obtain ⟨c, e⟩ := d
  unfold nearest
  dsimp only
  split
  · exact .inl rfl
  · split
    · exact .inr (.inl rfl)
    · split
      · exact .inr (.inr ⟨_, rfl⟩)
      · rename_i he
        obtain ⟨n, rfl⟩ : pow10 (-e).toNat ∣ c := hd.resolve_left he
        refine .inr (.inr ⟨n, ?_⟩)
        have hscale := Binary64.nearest_scale n 1 (pow10_pos (-e).toNat)
        rwa [Nat.one_mul, Nat.mul_comm n] at hscale

/-- **A decimal that is equal to a finite number has that number as its nearest one.** -/
theorem nearest_of_eq {x : Binary64} (hx : x.isFinite = true) (h0 : x.magnitude ≠ 0) {c p : Nat}
    (h : c * Binary64.pow2 1074 = x.units * pow10 p) : (Decimal.mk c (-p)).nearest = x.magnitude := by
  have hunits : 0 < x.units := Nat.pos_of_ne_zero fun hu => h0 (Binary64.units_eq_zero_iff.mp hu)
  have hc : c ≠ 0 := by
    rintro rfl
    rw [Nat.zero_mul] at h
    exact absurd h (Nat.ne_of_lt (Nat.mul_pos hunits (pow10_pos p)))
  -- no number is beyond the bounds where the power of ten is not formed
  have hhigh : digitCount c ≤ 310 + p := by
    rw [digitCount_le_iff (by omega), pow10_add]
    apply Nat.lt_of_mul_lt_mul_right (a := Binary64.pow2 1074)
    have h1024 : Binary64.pow2 1024 ≤ pow10 310 := by decide +kernel
    calc c * Binary64.pow2 1074 = x.units * pow10 p := h
      _ < Binary64.pow2 1024 * Binary64.pow2 1074 * pow10 p :=
        Nat.mul_lt_mul_of_pos_right (Binary64.units_lt hx) (pow10_pos p)
      _ ≤ pow10 310 * Binary64.pow2 1074 * pow10 p := Nat.mul_le_mul_right _ (Nat.mul_le_mul_right _ h1024)
      _ = pow10 310 * pow10 p * Binary64.pow2 1074 := Nat.mul_right_comm _ _ _
  have hlow : p ≤ digitCount c + 330 := by
    by_contra hlt
    have hcount : c < pow10 (digitCount c) := (digitCount_le_iff (digitCount_pos c)).mp (Nat.le_refl _)
    have h324 : Binary64.pow2 1074 ≤ pow10 324 := by decide +kernel
    have hp : pow10 (digitCount c) * pow10 324 ≤ pow10 p := by
      rw [← pow10_add]
      exact Nat.pow_le_pow_right (by omega) (by omega)
    have hlt : c * Binary64.pow2 1074 < pow10 p :=
      calc c * Binary64.pow2 1074 ≤ c * pow10 324 := Nat.mul_le_mul_left _ h324
        _ < pow10 (digitCount c) * pow10 324 := Nat.mul_lt_mul_of_pos_right hcount (pow10_pos _)
        _ ≤ pow10 p := hp
    have hge : pow10 p ≤ x.units * pow10 p := Nat.le_mul_of_pos_left _ hunits
    omega
  unfold nearest
  dsimp only
  rw [if_neg (by omega), if_neg (by omega)]
  split
  · rename_i hp
    have hzero : (-(p : Int)).toNat = 0 := by omega
    have hone : pow10 p = 1 := by rw [show p = 0 from by omega]; rfl
    have hscale := Binary64.nearest_scale c 1 (Binary64.pow2_pos 1074)
    rw [Nat.one_mul, h, hone, Nat.mul_one, Binary64.nearest_units hx] at hscale
    rw [hzero, hscale]
    exact congrArg (Binary64.nearest · 1) (Nat.mul_one c)
  · rw [show (-(-(p : Int))).toNat = p from by omega, ← Binary64.nearest_units hx,
      ← Binary64.nearest_scale c (pow10 p) (Binary64.pow2_pos 1074), h, Nat.mul_comm (pow10 p)]
    exact Binary64.nearest_scale _ _ (pow10_pos p)

end Decimal

namespace Binary64

/-! ## the shortest decimal -/

theorem exponent_of_mem_neighbours {tie : Tie} {num den : Nat} {e : Int} {d : Decimal}
    (hd : d ∈ neighbours tie num den e) : d.exponent = e := by
  unfold neighbours at hd
  dsimp only at hd
  generalize (if 0 ≤ e then num else _) = n at hd
  generalize (if 0 ≤ e then _ else den) = m at hd
  split at hd
  · rw [List.mem_singleton.mp hd]
  · split at hd
    · rcases List.mem_pair.mp hd with rfl | rfl <;> rfl
    · split at hd
      · rcases List.mem_pair.mp hd with rfl | rfl <;> rfl
      · rcases List.mem_pair.mp hd with rfl | rfl <;> rfl

/-- the decimals that are tried, those with fewer digits first -/
def candidates (tie : Tie) (x : Binary64) (digits : List Nat) : List Decimal :=
  digits.flatMap fun n => neighbours tie x.units (pow2 1074) (decimalExponent x.units (pow2 1074) - (n + 1 : Nat))

theorem shortest_eq (tie : Tie) (x : Binary64) :
    x.shortest tie = ((candidates tie x (List.range 17)).find? fun d => d.nearest == x.magnitude).getD
      ⟨x.units * Nat.pow 5 1074, -1074⟩ := by
  unfold shortest candidates
  dsimp only
  split
  · rename_i h
    rw [h]
    rfl
  · rename_i h
    rw [h]
    rfl

theorem pow10_eq (n : Nat) : Decimal.pow10 n = Nat.pow 5 n * pow2 n :=
  Nat.mul_pow 5 2 n

section
variable {x : Binary64} (hx : x.isFinite = true) (h0 : x.magnitude ≠ 0)
include hx h0

/-- the exact value, for the case that no shorter decimal is found -/
theorem nearest_exact : (Decimal.mk (x.units * Nat.pow 5 1074) (-1074)).nearest = x.magnitude := by
  have hexact : ∀ n, x.units * Nat.pow 5 n * pow2 n = x.units * Decimal.pow10 n := by
    intro n
    rw [pow10_eq, Nat.mul_assoc]
  exact Decimal.nearest_of_eq hx h0 (hexact 1074)

/-- **The shortest decimal of a number is nearest to that number.** -/
theorem nearest_shortest (tie : Tie) : (x.shortest tie).nearest = x.magnitude := by
  rw [shortest_eq]
  cases h : (candidates tie x (List.range 17)).find? fun d => d.nearest == x.magnitude with
  | none => exact nearest_exact hx h0
  | some d =>
    have hfound := List.find?_some h
    rw [Option.getD_some]
    exact beq_iff_eq.mp hfound

theorem exists_candidate_of_isWhole (tie : Tie) (hw : pow2 1074 ∣ x.units) :
    ∃ top : Nat, 0 < top ∧ decimalExponent x.units (pow2 1074) = top ∧
      ∃ d ∈ neighbours tie x.units (pow2 1074) 0, d.nearest = x.magnitude := by
  obtain ⟨v, hv⟩ := hw
  have hunits : x.units ≠ 0 := fun hu => h0 (units_eq_zero_iff.mp hu)
  have hle : pow2 1074 ≤ x.units := Nat.le_of_dvd (Nat.pos_of_ne_zero hunits) ⟨v, hv⟩
  have hdiv : x.units / pow2 1074 = v := by rw [hv, Nat.mul_div_cancel_left _ (pow2_pos 1074)]
  refine ⟨Decimal.digitCount v, Decimal.digitCount_pos v, ?_, ⟨v, 0⟩, ?_, ?_⟩
  · rw [decimalExponent, if_pos hle, hdiv]
  · have hone : Decimal.pow10 (0 : Int).toNat = 1 := rfl
    have hmod : x.units % pow2 1074 = 0 := Nat.mod_eq_zero_of_dvd ⟨v, hv⟩
    unfold neighbours
    simp only [Int.le_refl, if_true, hone, Nat.mul_one, hmod, hdiv]
    exact List.mem_singleton_self _
  · have hone : Decimal.pow10 0 = 1 := rfl
    apply Decimal.nearest_of_eq hx h0 (p := 0)
    rw [hone, Nat.mul_one, hv, Nat.mul_comm]

/-- **The shortest decimal is an integer exactly when the number is one.** -/
theorem isWhole_shortest_iff (tie : Tie) : (x.shortest tie).IsWhole ↔ x.IsWhole := by
  constructor
  · intro hd
    have hnearest := nearest_shortest hx h0 tie
    have hlt : x.magnitude < infinite := of_decide_eq_true hx
    rcases Decimal.exists_nearest_of_isWhole hd with h | h | ⟨n, h⟩
    · exact absurd (hnearest.symm.trans h) h0
    · omega
    · exact isWhole_of_nearest hx (hnearest.symm.trans h)
  · rintro ⟨-, hw⟩
    obtain ⟨top, htop, hexp, d, hd, hnearest⟩ := exists_candidate_of_isWhole hx h0 tie hw
    -- the candidates with at most `top` digits are integers, and one of them fits
    have hwhole : ∀ l, (∀ n ∈ l, n < top) → ∀ d ∈ candidates tie x l, d.IsWhole := by
      intro l hl d hd
      obtain ⟨n, hn, hd⟩ := List.mem_flatMap.mp hd
      left
      rw [exponent_of_mem_neighbours hd, hexp]
      have := hl n hn
      omega
    rw [shortest_eq]
    rcases Nat.le_total top 17 with hle | hle
    · have hrange : List.range 17 = List.range top ++ (List.range (17 - top)).map (top + ·) := by
        rw [← List.range_add, Nat.add_sub_cancel' hle]
      have hmem : d ∈ candidates tie x (List.range top) := by
        refine List.mem_flatMap.mpr ⟨top - 1, List.mem_range.mpr (by omega), ?_⟩
        rw [hexp, show (top : Int) - ((top - 1 + 1 : Nat) : Int) = 0 from by omega]
        exact hd
      have hsome : ((candidates tie x (List.range top)).find? fun d => d.nearest == x.magnitude).isSome := by
        rw [List.find?_isSome]
        exact ⟨d, hmem, beq_iff_eq.mpr hnearest⟩
      obtain ⟨e, he⟩ := Option.isSome_iff_exists.mp hsome
      rw [hrange, candidates, List.flatMap_append, List.find?_append, ← candidates, he]
      exact hwhole _ (fun n hn => List.mem_range.mp hn) e (List.mem_of_find?_eq_some he)
    · cases h : (candidates tie x (List.range 17)).find? fun d => d.nearest == x.magnitude with
      | none =>
        right
        obtain ⟨v, hv⟩ := hw
        refine ⟨v, ?_⟩
        show x.units * Nat.pow 5 1074 = Decimal.pow10 1074 * v
        generalize 1074 = k at hv ⊢
        rw [hv, pow10_eq, Nat.mul_comm (Nat.pow 5 k), Nat.mul_right_comm]
      | some e =>
        refine hwhole _ (fun n hn => ?_) e (List.mem_of_find?_eq_some h)
        have := List.mem_range.mp hn
        omega

end

/-! ## the text of a number -/

/-- the text of a number without its sign -/
def digits (x : Binary64) : Text :=
  if x.isZero then ['0'] else if x.isFinite then (x.shortest .up).render else "inf".toList

theorem render_eq {x : Binary64} (hx : x.isNan = false) :
    x.render = if x.negative then '-' :: x.digits else x.digits := by
  unfold render
  rw [if_neg (by rw [hx]; exact Bool.false_ne_true)]
  rfl

/-- **The text of a finite number** is a run of digits, and a point and more digits unless it is an integer. -/
theorem exists_digits {x : Binary64} (hx : x.isFinite = true) : ∃ whole fraction,
    x.digits = whole ++ Decimal.pointed fraction ∧ (∀ c ∈ whole ++ fraction, isDigit c = true) ∧ whole ≠ [] ∧
      (fraction = [] ↔ x.IsWhole) := by
  unfold digits
  by_cases h0 : x.magnitude = 0
  · refine ⟨['0'], [], ?_, ?_, List.cons_ne_nil _ _, iff_of_true rfl ⟨hx, ?_⟩⟩
    · rw [if_pos (by rw [isZero, h0]; rfl)]
      rfl
    · intro c hc
      rw [List.mem_singleton.mp hc]
      rfl
    · rw [units_eq_zero_iff.mpr h0]
      exact Nat.dvd_zero _
  · rw [if_neg (by rw [isZero, beq_iff_eq]; exact h0), if_pos hx]
    obtain ⟨whole, fraction, hrender, hlayout⟩ := (x.shortest .up).exists_render
    exact ⟨whole, fraction, hrender, hlayout.isDigit, hlayout.whole_ne_nil,
      hlayout.fraction_eq_nil_iff.trans (isWhole_shortest_iff hx h0 .up)⟩

/-- a text that starts with a digit is read as a decimal -/
theorem parse?_of_isDigit {c : Char} (hc : isDigit c = true) (t : Text) :
    parse? (c :: t) = (Decimal.parse? (c :: t)).map fun d => ⟨false, d.nearest⟩ := by
  have hlower : c.toLower ≠ 'i' ∧ c.toLower ≠ 'n' := by
    have hall : ∀ n < 58, 48 ≤ n → (Char.ofNat n).toLower ≠ 'i' ∧ (Char.ofNat n).toLower ≠ 'n' := by decide
    rw [isDigit, Bool.and_eq_true_iff, decide_eq_true_iff, decide_eq_true_iff] at hc
    have hlow : 48 ≤ c.toNat := hc.1
    have hhigh : c.toNat ≤ 57 := hc.2
    have h := hall c.toNat (by omega) hlow
    rwa [Char.ofNat_toNat] at h
  have hunsigned : parseUnsigned? (c :: t) = (Decimal.parse? (c :: t)).map Decimal.nearest := by
    unfold parseUnsigned?
    dsimp only
    rw [if_neg, if_neg]
    · intro h
      exact hlower.2 (List.cons.inj h).1
    · rintro (h | h)
      · exact hlower.1 (List.cons.inj h).1
      · exact hlower.1 (List.cons.inj h).1
  unfold parse?
  split
  · rename_i h
    obtain ⟨rfl, -⟩ := List.cons.inj h
    cases hc
  · rename_i h
    obtain ⟨rfl, -⟩ := List.cons.inj h
    cases hc
  · rw [hunsigned, Option.map_map]
    rfl

theorem magnitude_of_not_isFinite {x : Binary64} (hnan : x.isNan = false) (hx : x.isFinite = false) :
    x.magnitude = infinite := by
  have h1 : ¬ infinite < x.magnitude := of_decide_eq_false hnan
  have h2 : ¬ x.magnitude < infinite := of_decide_eq_false hx
  omega

/-- **A number is read back from its text without the sign.** -/
theorem parse?_digits {x : Binary64} (hx : x.isNan = false) : parse? x.digits = some ⟨false, x.magnitude⟩ := by
  cases hf : x.isFinite with
  | false =>
    have hmag := magnitude_of_not_isFinite hx hf
    have hinf : parse? "inf".toList = some ⟨false, infinite⟩ := by decide +kernel
    unfold digits
    rw [if_neg (by rw [isZero, hmag]; decide), hf, hmag]
    exact hinf
  | true =>
    by_cases h0 : x.magnitude = 0
    · have hzero : parse? ['0'] = some ⟨false, 0⟩ := by decide +kernel
      unfold digits
      rw [if_pos (by rw [isZero, h0]; rfl), h0]
      exact hzero
    · obtain ⟨d, hd, hnearest⟩ := (x.shortest .up).nearest_parse?_render
      have hdigits : x.digits = (x.shortest .up).render := by
        unfold digits
        rw [if_neg (by rw [isZero, beq_iff_eq]; exact h0), if_pos hf]
      obtain ⟨whole, fraction, hrender, hlayout⟩ := (x.shortest .up).exists_render
      obtain ⟨c, w, rfl⟩ := List.exists_cons_of_ne_nil hlayout.whole_ne_nil
      have hc : isDigit c = true := hlayout.isDigit c List.mem_cons_self
      rw [hdigits, hrender, List.cons_append, parse?_of_isDigit hc, ← List.cons_append, ← hrender, hd, Option.map_some,
        hnearest, nearest_shortest hf h0]

end Binary64
end Smali
