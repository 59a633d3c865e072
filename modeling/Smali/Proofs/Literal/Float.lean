import Smali.Proofs.Binary64.Decimal
import Smali.Proofs.Literal.Integer

/-!
# Floating point literals and their text

A floating point number is written without a trace of its kind when it is an integer, and an infinite one is written
as `inf`, which is no number without a suffix.  So a literal is read back from its text only where the text shows what
the literal is.

* `Width.Ends`               the texts of all suffixes;
* `Decimal.Spells`           digits, with a fraction and an exponent where there are any;
* `Literal.parse?_of_spells`  how a literal of such digits is read;
* `Literal.Same`             two literals are the same, every not-a-number being the same;
* `Literal.Shows`            the text of the literal shows what it is;
* `Literal.reads_back_iff`   exactly these literals are read back from their text.
-/

namespace Smali

/-! ## suffixes -/

namespace Width

/-- one of the letters of the suffixes, or nothing -/
inductive Ends : Text → Option Width → Prop
  | none : Ends [] none
  | letter {c : Char} {w : Width} (h : ofSuffix? c = some w) : Ends [c] (some w)

/-- the letters of the suffixes, with the widths that they declare -/
def letters : List (Char × Width) :=
  integerLetters ++ [('f', .float), ('F', .float), ('d', .double), ('D', .double)]

theorem mem_letters {c : Char} {w : Width} (h : ofSuffix? c = some w) : (c, w) ∈ letters := by
  unfold ofSuffix? at h
  split_ifs at h with ht hs hl hf hd
  · obtain rfl := Option.some.inj h
    rcases ht with rfl | rfl <;> decide
  · obtain rfl := Option.some.inj h
    rcases hs with rfl | rfl <;> decide
  · obtain rfl := Option.some.inj h
    rcases hl with rfl | rfl <;> decide
  · obtain rfl := Option.some.inj h
    rcases hf with rfl | rfl <;> decide
  · obtain rfl := Option.some.inj h
    rcases hd with rfl | rfl <;> decide

theorem ofSuffix?_of_isDigit {c : Char} (hc : isDigit c = true) : ofSuffix? c = none := by
  cases h : ofSuffix? c with
  | none => rfl
  | some w =>
    have hall : ∀ p ∈ letters, isDigit p.1 = false := by decide
    rw [hall _ (mem_letters h)] at hc
    cases hc

section
variable {t : Text} {width : Option Width} (h : Ends t width)
include h

theorem Ends.suffix (hwidth : width.any isFloating = false) : Suffix t width := by
  cases h with
  | none => exact .none
  | letter h => exact .letter (mem_integerLetters.mpr ⟨h, hwidth⟩)

theorem Ends.ne_x : ∀ c ∈ t, c ≠ 'x' ∧ c ≠ 'X' := by
  have hall : ∀ p ∈ letters, p.1 ≠ 'x' ∧ p.1 ≠ 'X' := by decide
  cases h with
  | none => exact List.forall_mem_nil _
  | letter h => exact List.forall_mem_singleton.mpr (hall _ (mem_letters h))

theorem cut_of_ends {digits : Text} (hdigits : digits.getLast?.bind ofSuffix? = none) :
    cut ofSuffix? (digits ++ t) = (digits, width) := by
  rw [cut_eq_iff]
  cases h with
  | none => exact .inl ⟨List.append_nil _, rfl, hdigits⟩
  | letter h => exact .inr ⟨_, _, rfl, rfl, h⟩

end
end Width

/-! ## digits with a fraction and an exponent -/

namespace Decimal

/-- the texts of exponents -/
inductive Exponent : Text → Prop
  | absent : Exponent []
  | present {e : Char} {sign digits : Text} (he : e = 'e' ∨ e = 'E') (hsign : sign = [] ∨ sign = ['+'] ∨ sign = ['-'])
      (hne : digits ≠ []) (hdigits : ∀ c ∈ digits, isDigit c = true) : Exponent (e :: (sign ++ digits))

/-- The digits `whole` are followed by `rest`, which is an optional fraction and an optional exponent. -/
structure Spells (whole rest : Text) : Prop where
  ne_nil : whole ≠ []
  isDigit : ∀ c ∈ whole, isDigit c = true
  rest : ∃ fraction exponent, rest = pointed fraction ++ exponent ∧ (∀ c ∈ fraction, Smali.isDigit c = true) ∧
    Exponent exponent

theorem spells_pointed {whole fraction : Text} (hne : whole ≠ []) (h : ∀ c ∈ whole ++ fraction, isDigit c = true) :
    Spells whole (pointed fraction) where
  ne_nil := hne
  isDigit := fun c hc => h c (List.mem_append_left _ hc)
  rest := ⟨fraction, [], (List.append_nil _).symm, fun c hc => h c (List.mem_append_right _ hc), .absent⟩

theorem exists_signed? {sign digits : Text} (hsign : sign = [] ∨ sign = ['+'] ∨ sign = ['-']) (hne : digits ≠ [])
    (hdigits : ∀ c ∈ digits, isDigit c = true) : ∃ i, signed? (sign ++ digits) = some i := by
  obtain ⟨n, hn⟩ := Numeral.exists_value? hne fun c hc => Numeral.exists_digit?_of_isDigit (hdigits c hc)
  obtain ⟨c, r, rfl⟩ := List.exists_cons_of_ne_nil hne
  have hc : isDigit c = true := hdigits c List.mem_cons_self
  rcases hsign with rfl | rfl | rfl
  · refine ⟨n, ?_⟩
    show signed? (c :: r) = _
    unfold signed?
    split
    · rename_i h
      obtain ⟨rfl, -⟩ := List.cons.inj h
      cases hc
    · rename_i h
      obtain ⟨rfl, -⟩ := List.cons.inj h
      cases hc
    · rw [hn]
      rfl
  · exact ⟨n, congrArg (Option.map Int.ofNat) hn⟩
  · refine ⟨-n, ?_⟩
    show (Numeral.value? 10 (c :: r)).map (fun n => -(n : Int)) = _
    rw [hn]
    rfl

theorem Exponent.exists_exponent? {t : Text} (h : Exponent t) : ∃ i, exponent? t = some i := by
  cases h with
  | absent => exact ⟨0, rfl⟩
  | present he hsign hne hdigits =>
    rw [exponent?, if_pos he]
    exact exists_signed? hsign hne hdigits

/-- an exponent does not go on with the digits or the point before it -/
theorem Exponent.head? {t : Text} (h : Exponent t) : ∀ c ∈ t.head?, isDigit c = false ∧ c ≠ '.' := by
  cases h with
  | absent => exact nofun
  | present he =>
    intro c hc
    obtain rfl := Option.some.inj hc
    rcases he with rfl | rfl <;> decide

/-- **Digits with a fraction and an exponent are read as a decimal.** -/
theorem Spells.exists_parse? {whole rest : Text} (h : Spells whole rest) : ∃ d, parse? (whole ++ rest) = some d := by
  obtain ⟨fraction, exponent, rfl, hfraction, hexponent⟩ := h.rest
  obtain ⟨i, hi⟩ := hexponent.exists_exponent?
  have hall : ∀ c ∈ whole ++ fraction, Smali.isDigit c = true := by
    intro c hc
    rcases List.mem_append.mp hc with hc | hc
    · exact h.isDigit c hc
    · exact hfraction c hc
  obtain ⟨n, hn⟩ := Numeral.exists_value? (List.append_ne_nil_of_left_ne_nil h.ne_nil fraction)
    fun c hc => Numeral.exists_digit?_of_isDigit (hall c hc)
  exact ⟨_, parse?_parts hall hn hexponent.head? hi⟩

section
variable {whole rest : Text} (h : Spells whole rest)
include h

theorem Spells.exists_cons : ∃ c t, whole ++ rest = c :: t ∧ Smali.isDigit c = true := by
  obtain ⟨c, w, rfl⟩ := List.exists_cons_of_ne_nil h.ne_nil
  exact ⟨c, w ++ rest, rfl, h.isDigit c List.mem_cons_self⟩

theorem Spells.mem_rest : ∀ c ∈ rest, Smali.isDigit c = true ∨ c ∈ ".eE+-".toList := by
  obtain ⟨fraction, exponent, rfl, hfraction, hexponent⟩ := h.rest
  intro c hc
  rcases List.mem_append.mp hc with hc | hc
  · cases fraction with
    | nil => cases hc
    | cons x fraction =>
      rcases List.mem_cons.mp hc with rfl | hc
      · right; decide
      · exact .inl (hfraction c hc)
  · cases hexponent with
    | absent => cases hc
    | present he hsign _ hdigits =>
      rcases List.mem_cons.mp hc with rfl | hc
      · right
        rcases he with rfl | rfl <;> decide
      · rcases List.mem_append.mp hc with hc | hc
        · right
          rcases hsign with rfl | rfl | rfl
          · cases hc
          · rw [List.mem_singleton.mp hc]; decide
          · rw [List.mem_singleton.mp hc]; decide
        · exact .inl (hdigits c hc)

/-- the last character is a digit -/
theorem Spells.exists_getLast? : ∃ c, (whole ++ rest).getLast? = some c ∧ Smali.isDigit c = true := by
  have hlast : ∀ {t : Text} (s : Text), t ≠ [] → (∀ c ∈ t, Smali.isDigit c = true) →
      ∃ c, (s ++ t).getLast? = some c ∧ Smali.isDigit c = true := by
    intro t s ht hd
    refine ⟨t.getLast ht, ?_, hd _ (List.getLast_mem ht)⟩
    rw [List.getLast?_append_of_ne_nil _ ht, List.getLast?_eq_some_getLast ht]
  obtain ⟨fraction, exponent, rfl, hfraction, hexponent⟩ := h.rest
  cases hexponent with
  | absent =>
    rw [List.append_nil]
    cases fraction with
    | nil => exact (List.append_nil whole).symm ▸ hlast [] h.ne_nil h.isDigit
    | cons x fraction =>
      have := hlast (whole ++ ['.']) (List.cons_ne_nil x fraction) hfraction
      rwa [List.append_assoc] at this
  | @present e sign digits he _ hne hdigits =>
    have := hlast (whole ++ (pointed fraction ++ e :: sign)) hne hdigits
    rwa [List.append_assoc, List.append_assoc] at this

/-- a fraction or an exponent is seen by its first character -/
theorem Spells.hasPointOrExponent : Literal.hasPointOrExponent (whole ++ rest) = !rest.isEmpty := by
  have hwhole : Literal.hasPointOrExponent whole = false := by
    rw [Literal.hasPointOrExponent, List.any_eq_false]
    intro c hc hmark
    have hdigit := h.isDigit c hc
    simp only [Bool.or_eq_true, beq_iff_eq] at hmark
    rcases hmark with (rfl | rfl) | rfl <;> cases hdigit
  obtain ⟨fraction, exponent, rfl, -, hexponent⟩ := h.rest
  show (whole ++ _).any _ = _
  rw [List.any_append]
  show (Literal.hasPointOrExponent whole || _) = _
  rw [hwhole, Bool.false_or]
  cases fraction with
  | nil =>
    cases hexponent with
    | absent => rfl
    | present he => rcases he with rfl | rfl <;> rfl
  | cons x fraction => rfl

end
end Decimal

namespace Literal

theorem word?_of_isDigit {c : Char} (hc : isDigit c = true) (t : Text) : word? (c :: t) = none := by
  unfold word?
  rw [if_neg, if_neg]
  · intro h
    obtain ⟨rfl, -⟩ := List.cons.inj h
    cases hc
  · intro h
    obtain ⟨rfl, -⟩ := List.cons.inj h
    cases hc

/-- **How a literal of such digits is read**: as a floating point number when it has a fraction, an exponent or the
suffix of one, and else as an integer. -/
theorem parse?_of_spells {whole rest suffix : Text} {width : Option Width} (h : Decimal.Spells whole rest)
    (hs : Width.Ends suffix width) (negative : Bool) :
    parse? (Text.mark '-' negative ++ (whole ++ rest ++ suffix)) =
      (if width.any Width.isFloating || !rest.isEmpty then parseFloat? negative (whole ++ rest)
        else parseInt? negative (whole ++ rest)).map fun v => ⟨v, width, false⟩ := by
  obtain ⟨c, t, hc, hdigit⟩ := h.exists_cons
  have hhex : hexDigits? (whole ++ rest ++ suffix) = none := by
    apply hexDigits?_eq_none
    intro x hx
    rcases List.mem_append.mp hx with hx | hx
    · have hne : isDigit x = true ∨ x ∈ ".eE+-".toList := by
        rcases List.mem_append.mp hx with hx | hx
        · exact .inl (h.isDigit x hx)
        · exact h.mem_rest x hx
      constructor
      · rintro rfl
        revert hne
        decide
      · rintro rfl
        revert hne
        decide
    · exact hs.ne_x x hx
  have hcut : Width.cut Width.ofSuffix? (whole ++ rest ++ suffix) = (whole ++ rest, width) := by
    apply Width.cut_of_ends hs
    obtain ⟨x, hx, hd⟩ := h.exists_getLast?
    rw [hx, Option.bind_some, Width.ofSuffix?_of_isDigit hd]
  have hword : word? (whole ++ rest) = none := hc ▸ word?_of_isDigit hdigit t
  have hbody : parse? (Text.mark '-' negative ++ (whole ++ rest ++ suffix)) =
      parseBody? negative (whole ++ rest ++ suffix) := by
    cases negative with
    | true => rfl
    | false =>
      apply parse?_of_head
      rw [hc]
      intro hminus
      obtain rfl := Option.some.inj hminus
      cases hdigit
  rw [hbody, parseBody?, hhex]
  simp only [parseDecimal?, hcut, hword, Option.isSome_none, Bool.or_false, h.hasPointOrExponent]

/-- such digits are read as a floating point number -/
theorem parseFloat?_of_spells {whole rest : Text} (h : Decimal.Spells whole rest) (negative : Bool) :
    ∃ x, parseFloat? negative (whole ++ rest) = some (.float x) := by
  obtain ⟨d, hd⟩ := h.exists_parse?
  obtain ⟨c, t, hc, hdigit⟩ := h.exists_cons
  rw [hc] at hd ⊢
  unfold parseFloat?
  rw [word?_of_isDigit hdigit, Binary64.parse?_of_isDigit hdigit, hd]
  exact ⟨_, rfl⟩

/-! ## literals that are read back from their text -/

namespace Value

/-- the same value; every not-a-number is the same -/
def Same : Value → Value → Prop
  | .int v, .int w => v = w
  | .float x, .float y => x = y ∨ x.isNan = true ∧ y.isNan = true
  | _, _ => False

end Value

/-- the same literal, but for the pattern of a not-a-number -/
structure Same (l m : Literal) : Prop where
  width : l.width = m.width
  hex : l.hex = m.hex
  value : l.value.Same m.value

/-- The text of the literal shows what it is.  That of an integer does; that of a floating point number does when it has
the suffix of one or a point, which it has unless the number is an integer or infinite, and when it is `NaN`. -/
def Shows (l : Literal) : Prop :=
  match l.value with
  | .int _ => True
  | .float x => l.width.any Width.isFloating = true ∨ x.isNan = true ∨ x.isFinite = true ∧ x.toInt? = none

theorem parse_eq_ok_iff {s : Text} {l : Literal} : parse s = .ok l ↔ parse? s = some l := by
  unfold parse
  cases parse? s with
  | none => exact iff_of_false nofun nofun
  | some m => rw [Except.ok.injEq, Option.some.injEq]

/-- a text that is read as a floating point number is in base ten, and its suffix is written as one letter -/
theorem ends_of_parse_float {s : Text} {l : Literal} (h : parse s = .ok l) {x : Binary64} (hx : l.value = .float x) :
    l.hex = false ∧ Width.Ends l.suffix l.width := by
  have hends : ∀ {t digits : Text} {width : Option Width}, Width.cut Width.ofSuffix? t = (digits, width) →
      Width.Ends ((width.map Width.suffix).getD []) width := by
    intro t digits width hcut
    rcases Width.cut_eq_iff.mp hcut with ⟨-, rfl, -⟩ | ⟨c, w, -, rfl, hc⟩
    · exact .none
    · have hall : ∀ p ∈ Width.letters, ∃ c, Width.suffix p.2 = [c] ∧ Width.ofSuffix? c = some p.2 := by
        have : ∀ p ∈ Width.letters, (Width.suffix p.2).map Width.ofSuffix? = [some p.2] := by decide
        intro p hp
        obtain ⟨c, hc, hw⟩ := List.map_eq_singleton_iff.mp (this p hp)
        exact ⟨c, hc, hw⟩
      obtain ⟨c', hc', hw⟩ := hall _ (Width.mem_letters hc)
      show Width.Ends (Width.suffix w) (some w)
      rw [hc']
      exact .letter hw
  have hbody : ∀ {negative t}, parseBody? negative t = some l → l.hex = false ∧ Width.Ends l.suffix l.width := by
    intro negative t hparse
    unfold parseBody? at hparse
    split at hparse
    · -- numbers in base sixteen are integers
      rename_i digits hhex
      obtain ⟨y, hy, -⟩ := hexDigits?_eq_some hhex
      obtain ⟨-, v, hv⟩ := parseBody?_eq_some_int_iff.mpr (integerBody_of_parseHex? hy hparse)
      rw [hx] at hv
      cases hv
    · unfold parseDecimal? at hparse
      obtain ⟨v, -, rfl⟩ := Option.map_eq_some_iff.mp hparse
      exact ⟨rfl, hends rfl⟩
  rw [parse_eq_ok_iff] at h
  unfold parse? at h
  split at h
  · exact hbody h
  · exact hbody h

theorem exists_of_parseInt? {negative : Bool} {digits : Text} {v : Value} (h : parseInt? negative digits = some v) :
    ∃ i, v = .int i := by
  unfold parseInt? at h
  split at h
  · obtain ⟨-, h⟩ := Option.ite_none_right_eq_some.mp h
    exact ⟨_, (Option.some.inj h).symm⟩
  · cases h

theorem render_float {l : Literal} {x : Binary64} (hx : l.value = .float x) : l.render = x.render ++ l.suffix := by
  rw [render, hx]
  rfl

/-- the width that is meant without a suffix is not declared by one -/
theorem width_ne_int {l : Literal} (hends : Width.Ends l.suffix l.width) : l.width ≠ some .int := by
  intro hw
  rw [suffix, hw] at hends
  cases hends

section
variable {l : Literal} {x : Binary64} (hx : l.value = .float x) (hends : Width.Ends l.suffix l.width)
include hx hends

theorem parse?_render_nan (hnan : x.isNan = true) : parse? l.render = some ⟨.float .nan, l.width, false⟩ := by
  have hall : ∀ width : Option Width, width ≠ some .int →
      parse? ("NaN".toList ++ (width.map Width.suffix).getD []) = some ⟨.float .nan, width, false⟩ := by
    intro width hw
    cases width with
    | none => decide +kernel
    | some w =>
      cases w with
      | int => exact absurd rfl hw
      | _ => decide +kernel
  rw [render_float hx, Binary64.render, if_pos hnan]
  exact hall _ (width_ne_int hends)

/-- what is written for the infinite numbers is read only with a suffix of floating point numbers behind it -/
theorem parse?_render_infinite (hnan : x.isNan = false) (hf : x.isFinite = false) :
    parse? l.render = if l.width.any Width.isFloating then some ⟨.float x, l.width, false⟩ else none := by
  have hall : ∀ (negative : Bool) (width : Option Width), width ≠ some .int →
      parse? ((if negative then '-' :: "inf".toList else "inf".toList) ++ (width.map Width.suffix).getD []) =
        if width.any Width.isFloating then some ⟨.float ⟨negative, Binary64.infinite⟩, width, false⟩ else none := by
    intro negative width hw
    cases width with
    | none => cases negative <;> decide +kernel
    | some w =>
      cases w with
      | int => exact absurd rfl hw
      | _ => cases negative <;> decide +kernel
  have hmag := Binary64.magnitude_of_not_isFinite hnan hf
  have hdigits : x.digits = "inf".toList := by
    unfold Binary64.digits
    rw [if_neg (by rw [Binary64.isZero, hmag]; decide), hf]
    rfl
  have hself : x = ⟨x.negative, Binary64.infinite⟩ := by rw [← hmag]
  rw [render_float hx, Binary64.render_eq hnan, hdigits]
  conv_rhs => rw [hself]
  exact hall _ _ (width_ne_int hends)

/-- a finite number is read back when it has a point or the suffix of a floating point number, and else as an integer -/
theorem parse?_render_finite (hf : x.isFinite = true) :
    parse? l.render = if l.width.any Width.isFloating = true ∨ x.toInt? = none then some ⟨.float x, l.width, false⟩
      else (parseInt? x.negative x.digits).map fun v => ⟨v, l.width, false⟩ := by
  have hlt : x.magnitude < Binary64.infinite := of_decide_eq_true hf
  have hnan : x.isNan = false := decide_eq_false (by omega)
  obtain ⟨whole, fraction, hdigits, hall, hne, hwhole⟩ := Binary64.exists_digits hf
  have hspells := Decimal.spells_pointed hne hall
  have hrender : l.render = Text.mark '-' x.negative ++ (x.digits ++ l.suffix) := by
    rw [render_float hx, Binary64.render_eq hnan]
    cases x.negative <;> rfl
  have hfloat : parseFloat? x.negative x.digits = some (.float x) := by
    obtain ⟨c, t, hc, hdigit⟩ := hspells.exists_cons
    unfold parseFloat?
    dsimp only
    rw [Binary64.parse?_digits hnan, hdigits, hc, word?_of_isDigit hdigit]
    obtain ⟨negative, magnitude⟩ := x
    cases negative <;> rfl
  have hfloating : (l.width.any Width.isFloating || !(Decimal.pointed fraction).isEmpty) = true ↔
      l.width.any Width.isFloating = true ∨ x.toInt? = none := by
    rw [Binary64.toInt?_eq_none_iff, ← hwhole]
    cases fraction <;> simp [Decimal.pointed]
  rw [hrender, hdigits, parse?_of_spells hspells hends, ← hdigits, hfloat]
  simp only [hfloating]
  split <;> rfl

end

theorem shows_iff_of_float {l : Literal} {x : Binary64} (hx : l.value = .float x) : l.Shows ↔
    l.width.any Width.isFloating = true ∨ x.isNan = true ∨ x.isFinite = true ∧ x.toInt? = none := by
  rw [Shows, hx]

/-- the text of a floating point number is read as that number where it shows what it is, and else never as a floating
point number -/
theorem parse?_render_float {l : Literal} {x : Binary64} (hx : l.value = .float x)
    (hends : Width.Ends l.suffix l.width) :
    (l.Shows → ∃ y, parse? l.render = some ⟨.float y, l.width, false⟩ ∧ Value.Same (.float x) (.float y)) ∧
      (¬ l.Shows → ∀ m, parse? l.render = some m → ∃ v, m.value = .int v) := by
  have hshows := shows_iff_of_float hx
  cases hnan : x.isNan with
  | true =>
    refine ⟨fun _ => ⟨.nan, parse?_render_nan hx hends hnan, .inr ⟨hnan, by decide⟩⟩, fun hnot => ?_⟩
    exact absurd (hshows.mpr (.inr (.inl hnan))) hnot
  | false =>
    cases hf : x.isFinite with
    | true =>
      rw [hnan, hf] at hshows
      simp only [Bool.false_eq_true, false_or, true_and] at hshows
      rw [hshows, parse?_render_finite hx hends hf]
      refine ⟨fun hyes => ⟨x, if_pos hyes, .inl rfl⟩, fun hnot m hm => ?_⟩
      rw [if_neg hnot] at hm
      obtain ⟨v, hv, rfl⟩ := Option.map_eq_some_iff.mp hm
      exact exists_of_parseInt? hv
    | false =>
      rw [hnan, hf] at hshows
      simp only [Bool.false_eq_true, false_and, or_false] at hshows
      rw [hshows, parse?_render_infinite hx hends hnan hf]
      refine ⟨fun hyes => ⟨x, if_pos hyes, .inl rfl⟩, fun hnot m hm => ?_⟩
      rw [if_neg hnot] at hm
      cases hm

/-- **Which literals are read back from their text.**  A literal that was read is read back, up to the pattern of a
not-a-number, exactly when its text shows what it is; otherwise the text is that of an integer or of no literal. -/
theorem reads_back_iff {s : Text} {l : Literal} (h : parse s = .ok l) :
    ((∃ m, parse l.render = .ok m ∧ l.Same m) ↔ l.Shows) ∧
      (¬ l.Shows → ∀ m, parse l.render = .ok m → ∃ v, m.value = .int v) := by
  cases hl : l.value with
  | int v =>
    have hshows : l.Shows := by rw [Shows, hl]; trivial
    have hread : parse l.render = .ok l := parse_render (parse_eq_ok_int_iff.mp ⟨h, v, hl⟩).isInteger
    have hsame : l.Same l := ⟨rfl, rfl, by rw [hl]; rfl⟩
    exact ⟨iff_of_true ⟨l, hread, hsame⟩ hshows, fun hnot => absurd hshows hnot⟩
  | float x =>
    obtain ⟨hhex, hends⟩ := ends_of_parse_float h hl
    obtain ⟨hyes, hno⟩ := parse?_render_float hl hends
    simp only [parse_eq_ok_iff]
    refine ⟨⟨?_, ?_⟩, hno⟩
    · rintro ⟨m, hm, -, -, hvalue⟩
      by_contra hnot
      obtain ⟨v, hv⟩ := hno hnot m hm
      rw [hl, hv] at hvalue
      exact hvalue
    · intro hshows
      obtain ⟨y, hy, hsame⟩ := hyes hshows
      exact ⟨_, hy, rfl, hhex, by rw [hl]; exact hsame⟩

/-- the number nearest to a power of ten is an integer, and only the suffix shows its kind -/
theorem reads_back_largePower :
    let l : Literal := ⟨.float ⟨false, 0x44b52d02c7e14af6⟩, some .float, false⟩
    parse "1e23F".toList = .ok l ∧ l.Shows ∧ ∃ m, parse l.render = .ok m ∧ l.Same m := by
  intro l
  have hparse : parse "1e23F".toList = .ok l := by decide +kernel
  have hshows : l.Shows := .inl rfl
  exact ⟨hparse, hshows, (reads_back_iff hparse).1.mpr hshows⟩

/-- a floating point number that is an integer and has no suffix is read back as an integer -/
theorem not_reads_back_one :
    let l : Literal := ⟨.float ⟨false, 0x3ff0000000000000⟩, none, false⟩
    parse "1.0".toList = .ok l ∧ parse l.render = .ok ⟨.int 1, none, false⟩ ∧
      ¬ ∃ m, parse l.render = .ok m ∧ l.Same m := by
  intro l
  have hread : parse l.render = .ok ⟨.int 1, none, false⟩ := by decide +kernel
  refine ⟨by decide +kernel, hread, ?_⟩
  rintro ⟨m, hm, -, -, hvalue⟩
  rw [hread] at hm
  obtain rfl := Except.ok.inj hm
  exact hvalue

end Literal
end Smali
