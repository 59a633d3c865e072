import Mathlib.Data.Int.ModEq
import Mathlib.Data.Nat.Digits.Defs
import Smali.Proofs.Literal

/-!
# Which texts are integers

The integer literals are exactly the texts of two forms, and each has one value.

* `Numeral.Denotes base s n`   the digits `s` denote `n`, by the positional value of digit lists;
* `Numeral.unsigned?_eq_some_iff`  a number is a run of digits with an optional plus sign before it;
* `Width.Suffix`               the texts of the suffixes of integers;
* `Literal.IntegerText`        the two forms: a bit pattern in base sixteen, or a number in base ten;
* `Literal.parse_eq_ok_int_iff`  the texts of these forms are read as integers, and no others;
* `Literal.parse_render`       an integer is read back from its text;
* `Literal.cut_suffixed`       a suffix is one byte at the end of what it is cut off from;
* `Literal.parse_integer`      all of this, and that an integer that was read is read back from its text.
-/

namespace Smali

/-- a character that may be there or not -/
def Text.mark (c : Char) (there : Bool) : Text :=
  if there then [c] else []

namespace Numeral

/-! ## digits -/

/-- the character is the digit `d`; letters may be of either case -/
def Digit (base : Nat) (c : Char) (d : Nat) : Prop :=
  d < base ∧ (c = d.digitChar ∨ c = d.digitChar.toUpper)

/-- The nonempty run of digits `s`, with the most significant first, denotes `n`.  Zeros may lead. -/
def Denotes (base : Nat) (s : Text) (n : Nat) : Prop :=
  s ≠ [] ∧ ∃ ds, List.Forall₂ (Digit base) s ds ∧ n = Nat.ofDigits base ds.reverse

theorem Denotes.exists_digit {base : Nat} {s : Text} {n : Nat} (h : Denotes base s n) :
    ∀ c ∈ s, ∃ d, Digit base c d := by
  obtain ⟨-, ds, hds, -⟩ := h
  induction hds with
  | nil => exact List.forall_mem_nil _
  | cons hd _ ih => exact List.forall_mem_cons.mpr ⟨⟨_, hd⟩, ih⟩

theorem toNat_lt_of_digit? {base : Nat} {c : Char} {d : Nat} (h : digit? base c = some d) : c.toNat < 128 := by
  obtain ⟨hv, -⟩ := Option.filter_eq_some_iff.mp h
  have hle : ∀ a b : Char, a ≤ b → a.toNat ≤ b.toNat := fun _ _ h => h
  have hnine : '9'.toNat = 57 := rfl
  have hlower : 'f'.toNat = 102 := rfl
  have hupper : 'F'.toNat = 70 := rfl
  split at hv
  · rename_i hc
    rw [isDigit, Bool.and_eq_true_iff, decide_eq_true_iff, decide_eq_true_iff] at hc
    have := hle _ _ hc.2
    omega
  · split at hv
    · rename_i hc
      have := hle _ _ hc.2
      omega
    · split at hv
      · rename_i hc
        have := hle _ _ hc.2
        omega
      · cases hv

section
variable {base : Nat} (hbase : base ≤ 16)
include hbase

theorem digit?_eq_filter (c : Char) : digit? base c = (digit? 16 c).filter (· < base) := by
  unfold digit?
  dsimp only
  rw [Option.filter_filter]
  congr 1
  funext d
  by_cases h : d < base
  · simp [h, Nat.lt_of_lt_of_le h hbase]
  · simp [h]

theorem digit?_eq_some_iff {c : Char} {d : Nat} : digit? base c = some d ↔ Digit base c d := by
  rw [digit?_eq_filter hbase, Option.filter_eq_some_iff, decide_eq_true_iff]
  constructor
  · rintro ⟨h, hlt⟩
    -- all digits are among the first 128 characters
    have hall : ∀ n < 128, ∀ d ∈ digit? 16 (Char.ofNat n),
        Char.ofNat n = d.digitChar ∨ Char.ofNat n = d.digitChar.toUpper := by
      decide +kernel
    have hc := hall c.toNat (toNat_lt_of_digit? h) d
    rw [Char.ofNat_toNat] at hc
    exact ⟨hlt, hc h⟩
  · rintro ⟨hlt, hc⟩
    have hall : ∀ e : Fin 16, digit? 16 e.val.digitChar = some e.val ∧ digit? 16 e.val.digitChar.toUpper = some e.val := by
      decide
    obtain ⟨hlower, hupper⟩ := hall ⟨d, Nat.lt_of_lt_of_le hlt hbase⟩
    refine ⟨?_, hlt⟩
    rcases hc with rfl | rfl
    · exact hlower
    · exact hupper

theorem accumulate_eq_some_iff {s : Text} {acc n : Nat} :
    accumulate base acc s = some n ↔
      ∃ ds, List.Forall₂ (Digit base) s ds ∧ n = Nat.ofDigits base ds.reverse + base ^ ds.length * acc := by
  induction s generalizing acc with
  | nil =>
    rw [accumulate, Option.some.injEq]
    constructor
    · rintro rfl
      exact ⟨[], .nil, by simp⟩
    · rintro ⟨ds, hds, rfl⟩
      cases hds
      simp
  | cons c s ih =>
    -- the digits before `d` count `base` times as much after it
    have hstep : ∀ (d : Nat) (ds : List Nat),
        Nat.ofDigits base (d :: ds).reverse + base ^ (d :: ds).length * acc =
          Nat.ofDigits base ds.reverse + base ^ ds.length * (acc * base + d) := by
      intro d ds
      rw [Nat.ofDigits_reverse_cons, List.length_cons, Nat.pow_succ]
      ring
    rw [accumulate]
    cases hd : digit? base c with
    | none =>
      refine iff_of_false (Option.some_ne_none n).symm ?_
      rintro ⟨ds, hds, -⟩
      cases hds with
      | cons hdigit _ =>
        rw [(digit?_eq_some_iff hbase).mpr hdigit] at hd
        cases hd
    | some d =>
      have hdigit := (digit?_eq_some_iff hbase).mp hd
      dsimp only
      rw [ih]
      constructor
      · rintro ⟨ds, hds, rfl⟩
        exact ⟨d :: ds, .cons hdigit hds, (hstep d ds).symm⟩
      · rintro ⟨ds, hds, rfl⟩
        cases hds with
        | @cons _ e _ ds he hds =>
          rw [(digit?_eq_some_iff hbase).mpr he] at hd
          obtain rfl := Option.some.inj hd
          exact ⟨ds, hds, hstep e ds⟩

theorem value?_eq_some_iff {s : Text} {n : Nat} : value? base s = some n ↔ Denotes base s n := by
  cases s with
  | nil => exact iff_of_false nofun fun h => h.1 rfl
  | cons c s =>
    have hvalue : value? base (c :: s) = accumulate base 0 (c :: s) := rfl
    rw [hvalue, accumulate_eq_some_iff hbase]
    simp only [Nat.mul_zero, Nat.add_zero]
    exact ⟨fun h => ⟨List.cons_ne_nil _ _, h⟩, fun h => h.2⟩

/-- a number is a run of digits, with an optional plus sign before it -/
theorem unsigned?_eq_some_iff {t : Text} {n : Nat} :
    unsigned? base t = some n ↔ ∃ plus s, t = Text.mark '+' plus ++ s ∧ Denotes base s n := by
  constructor
  · intro h
    unfold unsigned? at h
    split at h
    · exact ⟨true, _, rfl, (value?_eq_some_iff hbase).mp h⟩
    · exact ⟨false, _, rfl, (value?_eq_some_iff hbase).mp h⟩
  · rintro ⟨plus, s, rfl, hs⟩
    cases plus with
    | true => exact (value?_eq_some_iff hbase).mpr hs
    | false =>
      show unsigned? base s = some n
      unfold unsigned?
      split
      · obtain ⟨d, hd⟩ := hs.exists_digit '+' List.mem_cons_self
        exact absurd ((digit?_eq_some_iff hbase).mpr hd) nofun
      · exact (value?_eq_some_iff hbase).mpr hs

end
end Numeral

/-! ## suffixes -/

namespace Width

/-- the letters of the suffixes of integers, with the widths that they declare -/
def integerLetters : List (Char × Width) :=
  [('t', .byte), ('T', .byte), ('s', .short), ('S', .short), ('l', .long), ('L', .long)]

/-- one of the letters, or nothing -/
inductive Suffix : Text → Option Width → Prop
  | none : Suffix [] none
  | letter {c : Char} {w : Width} (h : (c, w) ∈ integerLetters) : Suffix [c] (some w)

theorem mem_integerLetters {c : Char} {w : Width} :
    (c, w) ∈ integerLetters ↔ ofSuffix? c = some w ∧ w.isFloating = false := by
  constructor
  · intro h
    have hall : ∀ p ∈ integerLetters, ofSuffix? p.1 = some p.2 ∧ p.2.isFloating = false := by decide
    exact hall _ h
  · rintro ⟨h, hw⟩
    unfold ofSuffix? at h
    split_ifs at h with ht hs hl hf hd
    · obtain rfl := Option.some.inj h
      rcases ht with rfl | rfl <;> decide
    · obtain rfl := Option.some.inj h
      rcases hs with rfl | rfl <;> decide
    · obtain rfl := Option.some.inj h
      rcases hl with rfl | rfl <;> decide
    · obtain rfl := Option.some.inj h
      cases hw
    · obtain rfl := Option.some.inj h
      cases hw

theorem ofIntegerSuffix?_eq_some_iff {c : Char} {w : Width} :
    ofIntegerSuffix? c = some w ↔ (c, w) ∈ integerLetters := by
  rw [mem_integerLetters, ofIntegerSuffix?, Option.filter_eq_some_iff, Bool.not_eq_true']

theorem Suffix.isFloating {t : Text} {width : Option Width} (h : Suffix t width) : width.any isFloating = false := by
  cases h with
  | none => rfl
  | letter h => exact (mem_integerLetters.mp h).2

theorem Suffix.exists_of_mem {t : Text} {width : Option Width} (h : Suffix t width) {c : Char} (hc : c ∈ t) :
    ∃ w, (c, w) ∈ integerLetters := by
  cases h with
  | none => cases hc
  | letter h =>
    obtain rfl := List.mem_singleton.mp hc
    exact ⟨_, h⟩

/-- the two ways in which a suffix is looked for -/
theorem cut_eq_iff {suffix? : Char → Option Width} {t digits : Text} {width : Option Width} :
    cut suffix? t = (digits, width) ↔
      (t = digits ∧ width = none ∧ digits.getLast?.bind suffix? = none) ∨
        ∃ c w, t = digits ++ [c] ∧ width = some w ∧ suffix? c = some w := by
  unfold cut
  cases hlast : t.getLast?.bind suffix? with
  | none =>
    rw [Prod.mk.injEq]
    constructor
    · rintro ⟨rfl, rfl⟩
      exact .inl ⟨rfl, rfl, hlast⟩
    · rintro (⟨rfl, rfl, -⟩ | ⟨c, w, rfl, -, hc⟩)
      · exact ⟨rfl, rfl⟩
      · rw [List.getLast?_concat, Option.bind_some, hc] at hlast
        cases hlast
  | some w =>
    rw [Prod.mk.injEq]
    constructor
    · rintro ⟨rfl, rfl⟩
      obtain ⟨c, hc, hw⟩ := Option.bind_eq_some_iff.mp hlast
      obtain ⟨digits, rfl⟩ := List.getLast?_eq_some_iff.mp hc
      exact .inr ⟨c, w, by rw [List.dropLast_concat], rfl, hw⟩
    · rintro (⟨rfl, rfl, hnone⟩ | ⟨c, w', rfl, rfl, hc⟩)
      · rw [hnone] at hlast
        cases hlast
      · rw [List.getLast?_concat, Option.bind_some, hc] at hlast
        exact ⟨List.dropLast_concat, hlast.symm⟩

/-- a suffix that is cut off is one of integers, unless the width is one of floating point numbers -/
theorem exists_suffix_of_cut {suffix? : Char → Option Width} {t digits : Text} {width : Option Width}
    (h : cut suffix? t = (digits, width))
    (hsuffix : ∀ c w, width = some w → suffix? c = some w → (c, w) ∈ integerLetters) :
    ∃ suffix, t = digits ++ suffix ∧ Suffix suffix width := by
  rcases cut_eq_iff.mp h with ⟨rfl, rfl, -⟩ | ⟨c, w, rfl, rfl, hc⟩
  · exact ⟨[], (List.append_nil _).symm, .none⟩
  · exact ⟨[c], rfl, .letter (hsuffix c w rfl hc)⟩

/-- the suffix is cut off when the last digit is not taken for one -/
theorem cut_of_suffix {suffix? : Char → Option Width} {digits suffix : Text} {width : Option Width}
    (hs : Suffix suffix width) (hsuffix : ∀ c w, (c, w) ∈ integerLetters → suffix? c = some w)
    (hdigits : digits.getLast?.bind suffix? = none) : cut suffix? (digits ++ suffix) = (digits, width) := by
  rw [cut_eq_iff]
  cases hs with
  | none => exact .inl ⟨List.append_nil _, rfl, hdigits⟩
  | letter h => exact .inr ⟨_, _, rfl, rfl, hsuffix _ _ h⟩

theorem utf8Size_of_ofSuffix? {c : Char} {w : Width} (h : ofSuffix? c = some w) : c.utf8Size = 1 := by
  unfold ofSuffix? at h
  split_ifs at h with ht hs hl hf hd
  · rcases ht with rfl | rfl <;> rfl
  · rcases hs with rfl | rfl <;> rfl
  · rcases hl with rfl | rfl <;> rfl
  · rcases hf with rfl | rfl <;> rfl
  · rcases hd with rfl | rfl <;> rfl

end Width

/-! ## literals -/

namespace Literal

/-- a magnitude with its sign -/
def signed (negative : Bool) (m : Nat) : Int :=
  if negative then -(m : Int) else m

/-- The texts of integers after an optional minus sign.  In base sixteen the digits give 64 bits; in base ten the
value itself has to fit in them. -/
inductive IntegerBody (negative : Bool) : Text → Literal → Prop
  | hex {x : Char} {plus : Bool} {digits suffix : Text} {m : Nat} {v : Int64} {width : Option Width}
      (hx : x = 'x' ∨ x = 'X') (hdigits : Numeral.Denotes 16 digits m) (hm : m < 2 ^ 64)
      (hv : v.toInt ≡ signed negative m [ZMOD 2 ^ 64]) (hsuffix : Width.Suffix suffix width) :
      IntegerBody negative ('0' :: x :: (Text.mark '+' plus ++ digits ++ suffix)) ⟨.int v, width, true⟩
  | decimal {plus : Bool} {digits suffix : Text} {m : Nat} {v : Int64} {width : Option Width}
      (hdigits : Numeral.Denotes 10 digits m) (hm : m < 2 ^ 63 ∨ negative = true ∧ m = 2 ^ 63)
      (hv : v.toInt = signed negative m) (hsuffix : Width.Suffix suffix width) :
      IntegerBody negative (Text.mark '+' plus ++ digits ++ suffix) ⟨.int v, width, false⟩

/-- the texts of integers -/
def IntegerText (s : Text) (l : Literal) : Prop :=
  ∃ negative t, s = Text.mark '-' negative ++ t ∧ IntegerBody negative t l

theorem ofInt_eq_iff_modEq {a : Int} {v : Int64} : Int64.ofInt a = v ↔ v.toInt ≡ a [ZMOD 2 ^ 64] := by
  rw [Int64.ofInt_eq_iff_bmod_eq_toInt]
  constructor
  · intro h
    rw [← h]
    exact Int.bmod_emod
  · intro h
    have hself : v.toInt.bmod (2 ^ 64) = v.toInt := (Int64.ofInt_eq_iff_bmod_eq_toInt _ _).mp (Int64.ofInt_toInt v)
    rw [← hself, ← Int.emod_bmod a, ← Int.emod_bmod v.toInt]
    exact congrArg (fun i => Int.bmod i (2 ^ 64)) h.symm

/-! ### base sixteen -/

theorem ofInt_signed (negative : Bool) (m : Nat) :
    Int64.ofInt (signed negative m) = if negative then -Int64.ofNat m else Int64.ofNat m := by
  cases negative with
  | true =>
    show Int64.ofInt (-(m : Int)) = -Int64.ofNat m
    rw [Int64.ofInt_neg, Int64.ofInt_eq_ofNat]
  | false => exact Int64.ofInt_eq_ofNat

/-- the last digit of a magnitude is no suffix -/
theorem getLast?_bind_eq_none {base m : Nat} {digits : Text} {plus : Bool} {suffix? : Char → Option Width}
    (hdigits : Numeral.Denotes base digits m) (hnone : ∀ c d, Numeral.Digit base c d → suffix? c = none) :
    (Text.mark '+' plus ++ digits).getLast?.bind suffix? = none := by
  obtain ⟨d, hd⟩ := hdigits.exists_digit _ (List.getLast_mem hdigits.1)
  rw [List.getLast?_append, List.getLast?_eq_some_getLast hdigits.1, Option.some_or, Option.bind_some]
  exact hnone _ d hd

theorem integerBody_of_parseHex? {negative : Bool} {x : Char} (hx : x = 'x' ∨ x = 'X') {t : Text} {l : Literal}
    (h : parseHex? negative t = some l) : IntegerBody negative ('0' :: x :: t) l := by
  obtain ⟨digits, width, hcut⟩ : ∃ digits width, Width.cut Width.ofIntegerSuffix? t = (digits, width) := ⟨_, _, rfl⟩
  obtain ⟨suffix, rfl, hsuffix⟩ := Width.exists_suffix_of_cut hcut fun c w _ hc =>
    Width.ofIntegerSuffix?_eq_some_iff.mp hc
  simp only [parseHex?, hcut] at h
  cases hn : Numeral.unsigned? 16 digits with
  | none =>
    rw [hn] at h
    cases h
  | some m =>
    rw [hn] at h
    obtain ⟨hm, hl⟩ := Option.ite_none_right_eq_some.mp h
    obtain ⟨plus, s, rfl, hs⟩ := (Numeral.unsigned?_eq_some_iff (Nat.le_refl 16)).mp hn
    obtain rfl := Option.some.inj hl
    exact .hex hx hs hm (ofInt_eq_iff_modEq.mp (ofInt_signed negative m)) hsuffix

/-- no digit of base sixteen is a suffix of integers -/
theorem getLast?_hex_eq_none (plus : Bool) {digits : Text} {m : Nat} (hdigits : Numeral.Denotes 16 digits m) :
    (Text.mark '+' plus ++ digits).getLast?.bind Width.ofIntegerSuffix? = none := by
  refine getLast?_bind_eq_none hdigits ?_
  rintro c d ⟨hd, hc⟩
  have hall : ∀ e : Fin 16, Width.ofIntegerSuffix? e.val.digitChar = none ∧
      Width.ofIntegerSuffix? e.val.digitChar.toUpper = none := by decide
  rcases hc with rfl | rfl
  · exact (hall ⟨d, hd⟩).1
  · exact (hall ⟨d, hd⟩).2

/-- digits in base sixteen are read when 64 bits hold them -/
theorem parseHex?_digits {negative plus : Bool} {digits suffix : Text} {m : Nat} {width : Option Width}
    (hdigits : Numeral.Denotes 16 digits m) (hsuffix : Width.Suffix suffix width) :
    parseHex? negative (Text.mark '+' plus ++ digits ++ suffix) =
      if m < 2 ^ 64 then some ⟨.int (Int64.ofInt (signed negative m)), width, true⟩ else none := by
  have hcut := Width.cut_of_suffix hsuffix (fun c w hc => Width.ofIntegerSuffix?_eq_some_iff.mpr hc)
    (getLast?_hex_eq_none plus hdigits)
  have hn : Numeral.unsigned? 16 (Text.mark '+' plus ++ digits) = some m :=
    (Numeral.unsigned?_eq_some_iff (Nat.le_refl 16)).mpr ⟨plus, digits, rfl, hdigits⟩
  simp only [parseHex?, hcut, hn, ofInt_signed]
  rfl

theorem parseHex?_of_denotes {negative plus : Bool} {digits suffix : Text} {m : Nat} {v : Int64} {width : Option Width}
    (hdigits : Numeral.Denotes 16 digits m) (hm : m < 2 ^ 64) (hv : v.toInt ≡ signed negative m [ZMOD 2 ^ 64])
    (hsuffix : Width.Suffix suffix width) :
    parseHex? negative (Text.mark '+' plus ++ digits ++ suffix) = some ⟨.int v, width, true⟩ := by
  rw [parseHex?_digits hdigits hsuffix, if_pos hm, ofInt_eq_iff_modEq.mpr hv]

/-! ### base ten -/

theorem isInt64_signed {negative : Bool} {m : Nat} :
    isInt64 (signed negative m) = true ↔ m < 2 ^ 63 ∨ negative = true ∧ m = 2 ^ 63 := by
  rw [isInt64, Bool.and_eq_true_iff, decide_eq_true_iff, decide_eq_true_iff]
  cases negative <;> simp only [signed, if_true, Bool.false_eq_true, if_false, true_and, false_and, or_false] <;> omega

theorem integerBody_of_parseDecimal? {negative : Bool} {t : Text} {l : Literal} {v : Int64}
    (h : parseDecimal? negative t = some l) (hv : l.value = .int v) : IntegerBody negative t l := by
  obtain ⟨digits, width, hcut⟩ : ∃ digits width, Width.cut Width.ofSuffix? t = (digits, width) := ⟨_, _, rfl⟩
  simp only [parseDecimal?, hcut, Option.map_eq_some_iff] at h
  obtain ⟨value, hvalue, rfl⟩ := h
  obtain rfl : value = .int v := hv
  split at hvalue
  · -- a floating point number is no integer
    obtain ⟨x, -, hx⟩ := Option.map_eq_some_iff.mp hvalue
    cases hx
  · rename_i hfloating
    rw [Bool.not_eq_true, Bool.or_eq_false_iff, Bool.or_eq_false_iff] at hfloating
    obtain ⟨suffix, rfl, hsuffix⟩ := Width.exists_suffix_of_cut hcut fun c w hw hc => by
      have hwidth := hfloating.1.1
      rw [hw] at hwidth
      exact Width.mem_integerLetters.mpr ⟨hc, hwidth⟩
    unfold parseInt? at hvalue
    cases hn : Numeral.unsigned? 10 digits with
    | none =>
      rw [hn] at hvalue
      cases hvalue
    | some m =>
      rw [hn] at hvalue
      obtain ⟨hm, hl⟩ := Option.ite_none_right_eq_some.mp hvalue
      obtain ⟨plus, s, rfl, hs⟩ := (Numeral.unsigned?_eq_some_iff (by decide)).mp hn
      obtain rfl : Int64.ofInt (signed negative m) = v := Value.int.inj (Option.some.inj hl)
      refine .decimal hs (isInt64_signed.mp hm) ?_ hsuffix
      have hbounds : isInt64 (signed negative m) = true := hm
      rw [isInt64, Bool.and_eq_true_iff, decide_eq_true_iff, decide_eq_true_iff] at hbounds
      exact Int64.toInt_ofInt_of_le (by omega) (by omega)

theorem mem_decimal (plus : Bool) {digits : Text} {m : Nat} (hdigits : Numeral.Denotes 10 digits m) :
    ∀ c ∈ Text.mark '+' plus ++ digits, c ∈ "+0123456789".toList := by
  intro c hc
  rcases List.mem_append.mp hc with hc | hc
  · cases plus with
    | true =>
      obtain rfl := List.mem_singleton.mp hc
      decide
    | false => cases hc
  · obtain ⟨d, hd, hc⟩ := hdigits.exists_digit c hc
    have hall : ∀ e : Fin 10, e.val.digitChar ∈ "+0123456789".toList ∧
        e.val.digitChar.toUpper ∈ "+0123456789".toList := by decide
    rcases hc with rfl | rfl
    · exact (hall ⟨d, hd⟩).1
    · exact (hall ⟨d, hd⟩).2

/-- digits in base ten are read when 64 bits hold them with their sign -/
theorem parseInt?_digits {negative plus : Bool} {digits : Text} {m : Nat} (hdigits : Numeral.Denotes 10 digits m) :
    parseInt? negative (Text.mark '+' plus ++ digits) =
      if isInt64 (signed negative m) then some (.int (Int64.ofInt (signed negative m))) else none := by
  have hn : Numeral.unsigned? 10 (Text.mark '+' plus ++ digits) = some m :=
    (Numeral.unsigned?_eq_some_iff (by decide)).mpr ⟨plus, digits, rfl, hdigits⟩
  simp only [parseInt?, hn]
  rfl

theorem parseDecimal?_of_denotes {negative plus : Bool} {digits suffix : Text} {m : Nat} {v : Int64}
    {width : Option Width} (hdigits : Numeral.Denotes 10 digits m) (hm : m < 2 ^ 63 ∨ negative = true ∧ m = 2 ^ 63)
    (hv : v.toInt = signed negative m) (hsuffix : Width.Suffix suffix width) :
    parseDecimal? negative (Text.mark '+' plus ++ digits ++ suffix) = some ⟨.int v, width, false⟩ := by
  have hlast : (Text.mark '+' plus ++ digits).getLast?.bind Width.ofSuffix? = none := by
    refine getLast?_bind_eq_none hdigits ?_
    rintro c d ⟨hd, hc⟩
    have hall : ∀ e : Fin 10, Width.ofSuffix? e.val.digitChar = none ∧
        Width.ofSuffix? e.val.digitChar.toUpper = none := by decide
    rcases hc with rfl | rfl
    · exact (hall ⟨d, hd⟩).1
    · exact (hall ⟨d, hd⟩).2
  have hcut := Width.cut_of_suffix hsuffix (fun c w hc => (Width.mem_integerLetters.mp hc).1) hlast
  have hint : parseInt? negative (Text.mark '+' plus ++ digits) = some (.int v) := by
    rw [parseInt?_digits hdigits, if_pos (isInt64_signed.mpr hm), ← hv, Int64.ofInt_toInt]
  -- nothing in the digits makes them a floating point number
  have hmem := mem_decimal plus hdigits
  have hword : word? (Text.mark '+' plus ++ digits) = none := by
    unfold word?
    rw [if_neg, if_neg]
    · intro h
      rw [h] at hmem
      exact absurd (hmem 'N' (by decide)) (by decide)
    · intro h
      rw [h] at hmem
      exact absurd (hmem 'I' (by decide)) (by decide)
  have hpoint : hasPointOrExponent (Text.mark '+' plus ++ digits) = false := by
    rw [hasPointOrExponent, List.any_eq_false]
    intro c hc
    have hall : "+0123456789".toList.any (fun c => c == '.' || c == 'e' || c == 'E') = false := by decide
    exact List.any_eq_false.mp hall c (hmem c hc)
  simp only [parseDecimal?, hcut, hsuffix.isFloating, hword, hpoint, Option.isSome_none, Bool.or_false,
    Bool.false_eq_true, if_false, hint, Option.map_some]

/-! ### both -/

theorem hexDigits?_eq_some {t digits : Text} (h : hexDigits? t = some digits) :
    ∃ x, (x = 'x' ∨ x = 'X') ∧ t = '0' :: x :: digits := by
  unfold hexDigits? at h
  split at h
  · obtain rfl := Option.some.inj h
    exact ⟨'x', .inl rfl, rfl⟩
  · obtain rfl := Option.some.inj h
    exact ⟨'X', .inr rfl, rfl⟩
  · cases h

theorem parseBody?_eq_some_int_iff {negative : Bool} {t : Text} {l : Literal} :
    (parseBody? negative t = some l ∧ ∃ v, l.value = .int v) ↔ IntegerBody negative t l := by
  constructor
  · rintro ⟨h, v, hv⟩
    unfold parseBody? at h
    cases hhex : hexDigits? t with
    | none =>
      rw [hhex] at h
      exact integerBody_of_parseDecimal? h hv
    | some digits =>
      rw [hhex] at h
      obtain ⟨x, hx, rfl⟩ := hexDigits?_eq_some hhex
      exact integerBody_of_parseHex? hx h
  · intro h
    refine ⟨?_, by cases h <;> exact ⟨_, rfl⟩⟩
    unfold parseBody?
    cases h with
    | @hex x plus digits suffix m v width hx hdigits hm hv hsuffix =>
      have hhex : hexDigits? ('0' :: x :: (Text.mark '+' plus ++ digits ++ suffix)) =
          some (Text.mark '+' plus ++ digits ++ suffix) := by
        rcases hx with rfl | rfl <;> rfl
      rw [hhex]
      exact parseHex?_of_denotes hdigits hm hv hsuffix
    | @decimal plus digits suffix m v width hdigits hm hv hsuffix =>
      have hhex : hexDigits? (Text.mark '+' plus ++ digits ++ suffix) = none := by
        apply hexDigits?_eq_none
        intro c hc
        rcases List.mem_append.mp hc with hc | hc
        · have hall : "+0123456789".toList.all (fun c => c != 'x' && c != 'X') = true := by decide
          have hne := List.all_eq_true.mp hall c (mem_decimal _ hdigits c hc)
          rwa [Bool.and_eq_true_iff, bne_iff_ne, bne_iff_ne] at hne
        · obtain ⟨w, hw⟩ := hsuffix.exists_of_mem hc
          constructor <;> rintro rfl <;> revert hw <;> cases w <;> decide
      rw [hhex]
      exact parseDecimal?_of_denotes hdigits hm hv hsuffix

/-- only a minus sign is taken off before the digits -/
theorem IntegerBody.head?_ne {negative : Bool} {t : Text} {l : Literal} (h : IntegerBody negative t l) :
    t.head? ≠ some '-' := by
  cases h with
  | hex => exact nofun
  | @decimal plus digits suffix _ _ _ hdigits _ _ _ =>
    obtain ⟨c, s, hs⟩ : ∃ c s, Text.mark '+' plus ++ digits = c :: s :=
      List.exists_cons_of_ne_nil (List.append_ne_nil_of_right_ne_nil _ hdigits.1)
    have hc := mem_decimal plus hdigits c (by rw [hs]; exact List.mem_cons_self)
    rw [hs]
    intro h
    obtain rfl := Option.some.inj h
    exact absurd hc (by decide)

/-- **Integers are exactly the texts of the two forms**, and the value of each is the one that its digits denote. -/
theorem parse_eq_ok_int_iff {s : Text} {l : Literal} :
    (parse s = .ok l ∧ ∃ v, l.value = .int v) ↔ IntegerText s l := by
  have hok : parse s = .ok l ↔ parse? s = some l := by
    unfold parse
    cases parse? s with
    | none => exact iff_of_false nofun nofun
    | some l' => rw [Except.ok.injEq, Option.some.injEq]
  rw [hok]
  constructor
  · rintro ⟨h, hv⟩
    unfold parse? at h
    split at h
    · exact ⟨true, _, rfl, parseBody?_eq_some_int_iff.mp ⟨h, hv⟩⟩
    · exact ⟨false, _, rfl, parseBody?_eq_some_int_iff.mp ⟨h, hv⟩⟩
  · rintro ⟨negative, t, rfl, h⟩
    obtain ⟨hparse, hv⟩ := parseBody?_eq_some_int_iff.mpr h
    refine ⟨?_, hv⟩
    cases negative with
    | true => exact hparse
    | false => exact (parse?_of_head h.head?_ne).trans hparse

theorem IntegerText.isInteger {s : Text} {l : Literal} (h : IntegerText s l) : l.IsInteger := by
  obtain ⟨negative, t, -, h⟩ := h
  have hwidth : ∀ {suffix width}, Width.Suffix suffix width →
      width = none ∨ width = some .byte ∨ width = some .short ∨ width = some .long := by
    intro suffix width hs
    cases hs with
    | none => exact .inl rfl
    | @letter c w h =>
      have hall : ∀ p ∈ Width.integerLetters, p.2 = .byte ∨ p.2 = .short ∨ p.2 = .long := by decide
      rcases hall _ h with hw | hw | hw <;> simp_all
  cases h with
  | hex _ _ _ _ hsuffix => exact ⟨⟨_, rfl⟩, hwidth hsuffix⟩
  | decimal _ _ _ hsuffix => exact ⟨⟨_, rfl⟩, hwidth hsuffix⟩

/-- the text of an integer has one of the two forms -/
theorem integerText_render {l : Literal} (hl : l.IsInteger) : IntegerText l.render l := by
  obtain ⟨v, hv, hrender⟩ := exists_render hl
  have hlow := v.le_toInt
  have hhigh := v.toInt_lt
  have hsuffix : Width.Suffix l.suffix l.width := by
    rcases hl.width with hw | hw | hw | hw <;> rw [suffix, hw]
    · exact .none
    · exact .letter (by decide)
    · exact .letter (by decide)
    · exact .letter (by decide)
  have hsigned : v.toInt = signed (decide (v.toInt < 0)) v.toInt.natAbs := by
    rw [signed]
    split
    · rename_i hneg
      rw [decide_eq_true_iff] at hneg
      omega
    · rename_i hneg
      rw [decide_eq_true_iff] at hneg
      omega
  have hdenotes : ∀ base, 1 < base → base ≤ 16 →
      Numeral.Denotes base (Nat.toDigits base v.toInt.natAbs) v.toInt.natAbs :=
    fun base h1 h16 => (Numeral.value?_eq_some_iff h16).mp (Numeral.value?_toDigits h1 h16 _)
  refine ⟨decide (v.toInt < 0), magnitude l.hex v.toInt.natAbs ++ l.suffix, ?_, ?_⟩
  · rw [hrender, Text.mark]
    simp only [decide_eq_true_iff]
  · obtain ⟨value, width, hex⟩ := l
    obtain rfl : value = .int v := hv
    cases hex with
    | true =>
      show IntegerBody _ ('0' :: 'x' :: (Text.mark '+' false ++ Numeral.hex v.toInt.natAbs ++ _)) _
      exact .hex (.inl rfl) (hdenotes 16 (by decide) (by decide)) (by omega) (by rw [← hsigned]) hsuffix
    | false =>
      show IntegerBody _ (Text.mark '+' false ++ Numeral.decimal v.toInt.natAbs ++ _) _
      refine .decimal (hdenotes 10 (by decide) (by decide)) ?_ hsigned hsuffix
      rw [decide_eq_true_iff]
      omega

/-- **An integer literal is read back from its text**, also when it is the least one, whose magnitude has no
positive counterpart. -/
theorem parse_render {l : Literal} (hl : l.IsInteger) : parse l.render = .ok l :=
  (parse_eq_ok_int_iff.mpr (integerText_render hl)).1

/-! ### the place of the suffix -/

/-- the part of a text that a suffix is cut off from: what follows `0x`, or all of it -/
def suffixed (t : Text) : Text :=
  (hexDigits? t).getD t

/-- the width that a last character declares; in base sixteen some letters are digits -/
def suffixWidth? (t : Text) : Char → Option Width :=
  if (hexDigits? t).isSome then Width.ofIntegerSuffix? else Width.ofSuffix?

/-- a suffix at the end of the text is one at the end of the part that it is cut off from -/
theorem getLast?_suffixed (t : Text) :
    (suffixed t).getLast?.bind (suffixWidth? t) = t.getLast?.bind (suffixWidth? t) := by
  unfold suffixed suffixWidth?
  cases h : hexDigits? t with
  | none => rfl
  | some digits =>
    obtain ⟨x, hx, rfl⟩ := hexDigits?_eq_some h
    cases digits with
    | nil => rcases hx with rfl | rfl <;> rfl
    | cons c digits => rfl

/-- **A suffix is one byte**, so the text without it ends where a character ends. -/
theorem cut_suffixed {t : Text} {w : Width} (h : t.getLast?.bind (suffixWidth? t) = some w) :
    0 < Text.size (suffixed t) ∧ Text.isBoundary (Text.size (suffixed t) - 1) (suffixed t) = true ∧
      Width.cut (suffixWidth? t) (suffixed t) =
        (Text.takeBytes (Text.size (suffixed t) - 1) (suffixed t), some w) := by
  rw [← getLast?_suffixed, Option.bind_eq_some_iff] at h
  obtain ⟨c, hc, hw⟩ := h
  obtain ⟨digits, hdigits⟩ := List.getLast?_eq_some_iff.mp hc
  have hsize : c.utf8Size = 1 := by
    apply Width.utf8Size_of_ofSuffix? (w := w)
    unfold suffixWidth? at hw
    split at hw
    · exact (Option.filter_eq_some_iff.mp hw).1
    · exact hw
  have hlen : Text.size (suffixed t) = Text.size digits + 1 := by
    rw [hdigits, Text.size_append, Text.size_cons, hsize, Text.size_nil]
  rw [hlen, hdigits, Nat.add_sub_cancel, Text.takeBytes_size]
  exact ⟨Nat.succ_pos _, Text.isBoundary_size _ _, Width.cut_eq_iff.mpr (.inr ⟨c, w, rfl, rfl, hw⟩)⟩

/-- **What is read as an integer.**  A text is read as an integer exactly when it has one of the two forms, and as
the one that its digits denote; its own text is read back as the same literal; and where the last character declares
a width, what is left without its one byte are whole characters. -/
theorem parse_integer (s : Text) :
    (∀ l, (parse s = .ok l ∧ ∃ v, l.value = .int v) ↔ IntegerText s l) ∧
    (∀ l v, parse s = .ok l → l.value = .int v → parse l.render = .ok l) ∧
    ∀ negative t, s = Text.mark '-' negative ++ t → ∀ w, t.getLast?.bind (suffixWidth? t) = some w →
      0 < Text.size (suffixed t) ∧ Text.isBoundary (Text.size (suffixed t) - 1) (suffixed t) = true ∧
        Width.cut (suffixWidth? t) (suffixed t) =
          (Text.takeBytes (Text.size (suffixed t) - 1) (suffixed t), some w) := by
  refine ⟨fun l => parse_eq_ok_int_iff, fun l v h hv => ?_, fun _ _ _ _ => cut_suffixed⟩
  exact parse_render (parse_eq_ok_int_iff.mp ⟨h, v, hv⟩).isInteger

/-- the least integer, which is its own negative, with a plus sign before its digits -/
theorem parse_integer_least :
    let s := "-0X+8000000000000000s".toList
    let l : Literal := ⟨.int Int64.minValue, some .short, true⟩
    IntegerText s l ∧ parse s = .ok l ∧ parse l.render = .ok l ∧
      Width.cut (suffixWidth? s.tail) (suffixed s.tail) = ("+8000000000000000".toList, some .short) := by
  intro s l
  have hs : parse s = .ok l := by decide +kernel
  obtain ⟨hform, hback, hcut⟩ := parse_integer s
  exact ⟨(hform l).mp ⟨hs, _, rfl⟩, hs, hback l _ hs rfl, (hcut true s.tail rfl .short rfl).2.2⟩

end Literal
end Smali
