import Smali.Proofs.Descriptor
import Smali.Proofs.Literal.Float
import Smali.Proofs.Token.Layout

/-!
# Tokens of numbers and registers

The lexer and the readers of values each have their own account of what a number is.  Here the texts that the lexer
takes for numbers and registers are described once, and the readers are run on them.

* `Register.parse_eq_ok_iff`  a letter and digits are a register when sixteen bits hold the number;
* `Literal.HexText`           a number in base sixteen, with the magnitude that its digits denote;
* `Literal.NumberText`        a number in base ten, or one of the two that are written as words;
* `Literal.WholeText`         the digits of an integer with its suffix, and nothing else;
* `Scan.exists_of_hexNumber`, `Scan.exists_of_decimalNumber`  what the scans take has these forms;
* `tokenizeWith_numbers`      what the readers make of each register and each number of a line.
-/

namespace Smali
namespace Numeral

theorem Denotes.isDigit {s : Text} {n : Nat} (h : Denotes 10 s n) : ∀ c ∈ s, isDigit c = true := by
  intro c hc
  obtain ⟨d, hd, hc⟩ := h.exists_digit c hc
  have hall : ∀ e : Fin 10, Smali.isDigit e.val.digitChar = true ∧ Smali.isDigit e.val.digitChar.toUpper = true := by
    decide
  rcases hc with rfl | rfl
  · exact (hall ⟨d, hd⟩).1
  · exact (hall ⟨d, hd⟩).2

theorem exists_denotes {s : Text} (hne : s ≠ []) (hs : ∀ c ∈ s, isDigit c = true) : ∃ n, Denotes 10 s n := by
  obtain ⟨n, hn⟩ := exists_value? hne fun c hc => exists_digit?_of_isDigit (hs c hc)
  exact ⟨n, (value?_eq_some_iff (by decide)).mp hn⟩

theorem exists_denotes_hex {s : Text} (hne : s ≠ []) (hs : ∀ c ∈ s, isHexDigit c = true) : ∃ n, Denotes 16 s n := by
  obtain ⟨n, hn⟩ := exists_value? hne fun c hc => exists_digit?_of_isHexDigit (hs c hc)
  exact ⟨n, (value?_eq_some_iff (by decide)).mp hn⟩

end Numeral

/-! ## registers -/

namespace Register

/-- the register of a letter and a number -/
def ofLetter (c : Char) (n : Fin 65536) : Register :=
  if c = 'v' then .var n else .param n

/-- a letter and digits are a register when sixteen bits hold the number -/
theorem parse_eq_ok_iff {c : Char} {digits : Text} {n : Nat} (hc : c = 'v' ∨ c = 'p')
    (hdigits : Numeral.Denotes 10 digits n) {r : Register} :
    parse (c :: digits) = .ok r ↔ ∃ h : n < 65536, r = ofLetter c ⟨n, h⟩ := by
  have htake : digits.takeWhile isDigit = digits := List.takeWhile_eq_self_iff.mpr hdigits.isDigit
  have hdrop : digits.dropWhile isDigit = [] := List.dropWhile_eq_nil_iff.mpr hdigits.isDigit
  have hvalue : Numeral.value? 10 digits = some n := (Numeral.value?_eq_some_iff (by decide)).mpr hdigits
  have hread : read? (c :: digits) = (number? digits).map fun k => (ofLetter c k, []) := by
    rcases hc with rfl | rfl
    · simp only [read?, htake, hdrop, ofLetter, if_true]
    · simp only [read?, htake, hdrop, ofLetter]
      rfl
  rw [parse, hread, number?, hvalue]
  by_cases h : n < 65536
  · simp only [dif_pos h, Option.map_some, Except.ok.injEq]
    constructor
    · intro hr
      exact ⟨h, hr.symm⟩
    · rintro ⟨_, hr⟩
      exact hr.symm
  · simp only [dif_neg h, Option.map_none]
    constructor
    · rintro ⟨⟩
    · rintro ⟨hlt, -⟩
      exact absurd hlt h

end Register

/-! ## literals -/

theorem Width.Suffix.ends {t : Text} {width : Option Width} (h : Suffix t width) : Ends t width := by
  cases h with
  | none => exact .none
  | letter h => exact .letter (mem_integerLetters.mp h).1

namespace Literal

/-- a number in base sixteen, whose digits denote the magnitude `m` -/
inductive HexText (negative : Bool) (m : Nat) : Text → Option Width → Prop
  | mk {x : Char} {digits suffix : Text} {width : Option Width} (hx : x = 'x' ∨ x = 'X')
      (hdigits : Numeral.Denotes 16 digits m) (hsuffix : Width.Suffix suffix width) :
      HexText negative m (Text.mark '-' negative ++ '0' :: x :: (digits ++ suffix)) width

/-- the digits of an integer and its suffix: no fraction, no exponent, no suffix of floating point numbers -/
inductive WholeText (negative : Bool) (m : Nat) : Text → Option Width → Prop
  | mk {digits suffix : Text} {width : Option Width} (hdigits : Numeral.Denotes 10 digits m)
      (hsuffix : Width.Suffix suffix width) :
      WholeText negative m (Text.mark '-' negative ++ (digits ++ suffix)) width

/-- what may follow the numbers that are written as words -/
def wordEnds : List (Text × Option Width) :=
  [([], none), (['f'], some .float), (['F'], some .float), (['d'], some .double), (['D'], some .double)]

/-- a number in base ten, or one of the two that are written as words -/
inductive NumberText : Text → Option Width → Prop
  | numeral (negative : Bool) {whole rest suffix : Text} {width : Option Width} (h : Decimal.Spells whole rest)
      (hsuffix : Width.Ends suffix width) : NumberText (Text.mark '-' negative ++ (whole ++ rest ++ suffix)) width
  | word (negative : Bool) {word suffix : Text} {width : Option Width}
      (h : word = "Infinity".toList ∨ word = "NaN".toList) (hsuffix : (suffix, width) ∈ wordEnds) :
      NumberText (Text.mark '-' negative ++ (word ++ suffix)) width

/-- **A number in base sixteen is read when 64 bits hold its magnitude.** -/
theorem parse?_of_hexText {negative : Bool} {m : Nat} {t : Text} {width : Option Width}
    (h : HexText negative m t width) :
    parse? t = if m < 2 ^ 64 then some ⟨.int (Int64.ofInt (signed negative m)), width, true⟩ else none := by
  obtain ⟨hx, hdigits, hsuffix⟩ := h
  rename_i x digits suffix
  have hbody : parse? (Text.mark '-' negative ++ '0' :: x :: (digits ++ suffix)) =
      parseBody? negative ('0' :: x :: (digits ++ suffix)) := by
    cases negative <;> rfl
  have hhex : hexDigits? ('0' :: x :: (digits ++ suffix)) = some (digits ++ suffix) := by
    rcases hx with rfl | rfl <;> rfl
  rw [hbody, parseBody?, hhex]
  show parseHex? negative (Text.mark '+' false ++ digits ++ suffix) = _
  exact parseHex?_digits hdigits hsuffix

/-- **The digits of an integer are read when 64 bits hold it with its sign.** -/
theorem parse?_of_wholeText {negative : Bool} {m : Nat} {t : Text} {width : Option Width}
    (h : WholeText negative m t width) :
    parse? t =
      if isInt64 (signed negative m) then some ⟨.int (Int64.ofInt (signed negative m)), width, false⟩ else none := by
  obtain ⟨hdigits, hsuffix⟩ := h
  rename_i digits suffix
  have hspells : Decimal.Spells digits (Decimal.pointed []) :=
    Decimal.spells_pointed hdigits.1 (by rw [List.append_nil]; exact hdigits.isDigit)
  have hread := parse?_of_spells hspells hsuffix.ends negative
  have hint : parseInt? negative (Text.mark '+' false ++ digits) = _ := parseInt?_digits hdigits
  have hrest : (Decimal.pointed []).isEmpty = true := rfl
  have hfloating : ¬ (false || !(Decimal.pointed []).isEmpty) = true := by rw [hrest]; decide
  rw [hsuffix.isFloating, if_neg hfloating, show digits ++ Decimal.pointed [] = Text.mark '+' false ++ digits from List.append_nil _, hint]
    at hread
  refine hread.trans ?_
  split <;> rfl

/-- a number with digits is read unless it is an integer that does not fit -/
theorem parse?_of_numeral (negative : Bool) {whole rest suffix : Text} {width : Option Width}
    (h : Decimal.Spells whole rest) (hsuffix : Width.Ends suffix width) :
    (∃ v, parse? (Text.mark '-' negative ++ (whole ++ rest ++ suffix)) = some ⟨v, width, false⟩) ∨
      ∃ m, WholeText negative m (Text.mark '-' negative ++ (whole ++ rest ++ suffix)) width := by
  rw [parse?_of_spells h hsuffix]
  cases hfloating : width.any Width.isFloating || !rest.isEmpty with
  | true =>
    obtain ⟨x, hx⟩ := parseFloat?_of_spells h negative
    refine .inl ⟨.float x, ?_⟩
    rw [if_pos rfl, hx]
    rfl
  | false =>
    obtain ⟨hwidth, hrest⟩ := Bool.or_eq_false_iff.mp hfloating
    obtain rfl : rest = [] := by simpa using hrest
    obtain ⟨m, hm⟩ := Numeral.exists_denotes h.ne_nil h.isDigit
    rw [List.append_nil]
    exact .inr ⟨m, .mk hm (hsuffix.suffix hwidth)⟩

/-- the words are read with every suffix that the lexer takes with them -/
theorem exists_parse?_word {word suffix : Text} {width : Option Width}
    (h : word = "Infinity".toList ∨ word = "NaN".toList) (hsuffix : (suffix, width) ∈ wordEnds) (negative : Bool) :
    Piece.width? Width.ofSuffix? (Text.mark '-' negative ++ (word ++ suffix)) = width ∧
      ∃ v, parse? (Text.mark '-' negative ++ (word ++ suffix)) = some ⟨v, width, false⟩ := by
  have hall : ∀ p ∈ wordEnds, ∀ word ∈ ["Infinity".toList, "NaN".toList], ∀ negative,
      Piece.width? Width.ofSuffix? (Text.mark '-' negative ++ (word ++ p.1)) = p.2 ∧
        (parse? (Text.mark '-' negative ++ (word ++ p.1))).map (fun l => (l.width, l.hex)) = some (p.2, false) := by
    decide +kernel
  obtain ⟨hlast, hparse⟩ := hall _ hsuffix word (by simpa using h) negative
  obtain ⟨l, hl, he⟩ := Option.map_eq_some_iff.mp hparse
  obtain ⟨rfl, hhex⟩ := Prod.mk.inj he
  exact ⟨hlast, l.value, by rw [hl, ← hhex]⟩

/-- **A number is read as one in base ten with its own suffix, unless it is an integer that does not fit.** -/
theorem NumberText.exists_parse? {t : Text} {width : Option Width} (h : NumberText t width) :
    Piece.width? Width.ofSuffix? t = width ∧
      ((∃ v, parse? t = some ⟨v, width, false⟩) ∨ ∃ negative m, WholeText negative m t width) := by
  cases h with
  | @word negative word suffix _ hword hsuffix =>
    obtain ⟨hlast, hparse⟩ := exists_parse?_word hword hsuffix negative
    exact ⟨hlast, .inl hparse⟩
  | @numeral negative whole rest suffix _ hspells hsuffix =>
    constructor
    · obtain ⟨c, hc, hdigit⟩ := hspells.exists_getLast?
      rw [Piece.width?, List.getLast?_append, List.getLast?_append]
      cases hsuffix with
      | none => rw [hc]; exact Width.ofSuffix?_of_isDigit hdigit
      | letter hletter => exact hletter
    · rcases parse?_of_numeral negative hspells hsuffix with hparse | ⟨m, hwhole⟩
      · exact .inl hparse
      · exact .inr ⟨negative, m, hwhole⟩

theorem isInt64_eq_false_iff {i : Int} : isInt64 i = false ↔ i < -2 ^ 63 ∨ 2 ^ 63 ≤ i := by
  rw [isInt64, Bool.and_eq_false_iff, decide_eq_false_iff_not, decide_eq_false_iff_not]
  omega

section
variable {t : Text} {width : Option Width} (h : NumberText t width)
include h

theorem NumberText.width_of_parse? {l : Literal} (hl : parse? t = some l) : l.hex = false ∧ l.width = width := by
  obtain ⟨-, ⟨v, hv⟩ | ⟨negative, m, hwhole⟩⟩ := h.exists_parse?
  · obtain rfl := Option.some.inj (hl.symm.trans hv)
    exact ⟨rfl, rfl⟩
  · rw [parse?_of_wholeText hwhole, Option.ite_none_right_eq_some] at hl
    obtain rfl := Option.some.inj hl.2
    exact ⟨rfl, rfl⟩

/-- only integers are not read, and only those that 64 bits do not hold -/
theorem NumberText.parse?_eq_none_iff : parse? t = none ↔
    ∃ negative m, WholeText negative m t width ∧ (signed negative m < -2 ^ 63 ∨ 2 ^ 63 ≤ signed negative m) := by
  have hwhole : ∀ {negative m}, WholeText negative m t width →
      (parse? t = none ↔ (signed negative m < -2 ^ 63 ∨ 2 ^ 63 ≤ signed negative m)) := by
    intro negative m htext
    rw [parse?_of_wholeText htext, ← isInt64_eq_false_iff]
    cases isInt64 (signed negative m) with
    | true => exact iff_of_false nofun nofun
    | false => exact iff_of_true rfl rfl
  constructor
  · intro hnone
    obtain ⟨-, ⟨v, hv⟩ | ⟨negative, m, htext⟩⟩ := h.exists_parse?
    · rw [hnone] at hv
      cases hv
    · exact ⟨negative, m, htext, (hwhole htext).mp hnone⟩
  · rintro ⟨negative, m, htext, hout⟩
    exact (hwhole htext).mpr hout

end

theorem HexText.width?_eq {negative : Bool} {m : Nat} {t : Text} {width : Option Width}
    (h : HexText negative m t width) : Piece.width? Width.ofIntegerSuffix? t = width := by
  obtain ⟨hx, hdigits, hsuffix⟩ := h
  rename_i x digits suffix
  have hlast : digits.getLast?.bind Width.ofIntegerSuffix? = none := getLast?_hex_eq_none false hdigits
  have hparts : Text.mark '-' negative ++ '0' :: x :: (digits ++ suffix) =
      Text.mark '-' negative ++ ['0', x] ++ (digits ++ suffix) := by
    rw [List.append_assoc]
    rfl
  rw [Piece.width?, hparts, List.getLast?_append, List.getLast?_append]
  cases hsuffix with
  | none =>
    rw [List.getLast?_eq_some_getLast hdigits.1] at hlast ⊢
    exact hlast
  | letter hletter => exact Width.ofIntegerSuffix?_eq_some_iff.mpr hletter

end Literal

/-! ## what the scans take -/

namespace Scan

theorem exists_of_many1 {p : Char → Bool} {t rest : Text} (h : many1 p t = some rest) :
    ∃ s, t = s ++ rest ∧ s ≠ [] ∧ ∀ c ∈ s, p c = true := by
  cases t with
  | nil => cases h
  | cons c r =>
    rw [many1, Option.ite_none_right_eq_some] at h
    obtain ⟨hc, hr⟩ := h
    obtain rfl := Option.some.inj hr
    refine ⟨c :: r.takeWhile p, ?_, List.cons_ne_nil _ _, ?_⟩
    · rw [List.cons_append, List.takeWhile_append_dropWhile]
    · exact List.forall_mem_cons.mpr ⟨hc, fun d hd => List.mem_takeWhile_imp hd⟩

/-- what is skipped is either recognised or not there -/
theorem skip_cases (f : Scan) (t : Text) : f t = some (skip f t) ∨ skip f t = t := by
  unfold skip
  cases h : f t with
  | none => exact .inr rfl
  | some r => exact .inl rfl

theorem exists_skip_minus (t : Text) : ∃ negative, t = Text.mark '-' negative ++ skip minus t := by
  rcases skip_cases minus t with h | h
  · obtain ⟨c, hc, hminus⟩ := exists_of_one h
    obtain rfl := beq_iff_eq.mp hminus
    exact ⟨true, hc⟩
  · exact ⟨false, h.symm⟩

/-- at most one letter of a list is skipped -/
theorem exists_skip_oneOf (letters t : Text) :
    ∃ suffix, t = suffix ++ skip (oneOf letters) t ∧ (suffix = [] ∨ ∃ c ∈ letters, suffix = [c]) := by
  rcases skip_cases (oneOf letters) t with h | h
  · obtain ⟨c, hc, hmem⟩ := exists_of_one h
    exact ⟨[c], hc, .inr ⟨c, List.contains_iff_mem.mp hmem, rfl⟩⟩
  · exact ⟨[], h.symm, .inl rfl⟩

/-- the suffix that is skipped, where every letter of the list is one -/
theorem exists_skip_suffix {R : Text → Option Width → Prop} {letters : Text} (hnone : R [] none)
    (hletters : ∀ c ∈ letters, ∃ w, R [c] w) (t : Text) :
    ∃ suffix width, t = suffix ++ skip (oneOf letters) t ∧ R suffix width := by
  obtain ⟨suffix, ht, rfl | ⟨c, hc, rfl⟩⟩ := exists_skip_oneOf letters t
  · exact ⟨[], none, ht, hnone⟩
  · obtain ⟨w, hw⟩ := hletters c hc
    exact ⟨[c], w, ht, hw⟩

theorem exists_skip_fraction (t : Text) :
    ∃ digits, t = Decimal.pointed digits ++ skip fraction t ∧ ∀ c ∈ digits, isDigit c = true := by
  have h := skip_cases fraction t
  generalize skip fraction t = rest at h ⊢
  rcases h with h | rfl
  · obtain ⟨r, hpoint, hdigits⟩ := Option.bind_eq_some_iff.mp h
    obtain ⟨c, rfl, hc⟩ := exists_of_one hpoint
    obtain ⟨digits, rfl, hne, hall⟩ := exists_of_many1 hdigits
    obtain rfl := beq_iff_eq.mp hc
    obtain ⟨d, ds, rfl⟩ := List.exists_cons_of_ne_nil hne
    exact ⟨d :: ds, rfl, hall⟩
  · exact ⟨[], rfl, List.forall_mem_nil _⟩

theorem exists_skip_exponent (t : Text) : ∃ s, t = s ++ skip exponent t ∧ Decimal.Exponent s := by
  have h := skip_cases exponent t
  generalize skip exponent t = rest at h ⊢
  rcases h with h | rfl
  · obtain ⟨r, hmark, hdigits⟩ := Option.bind_eq_some_iff.mp h
    obtain ⟨e, rfl, he⟩ := exists_of_one hmark
    obtain ⟨sign, hr, hsign⟩ := exists_skip_oneOf "+-".toList r
    obtain ⟨digits, hskip, hne, hall⟩ := exists_of_many1 hdigits
    refine ⟨e :: (sign ++ digits), ?_, .present (by simpa using he) (by simpa using hsign) hne hall⟩
    rw [hr, hskip, List.cons_append, List.append_assoc]
  · exact ⟨[], rfl, .absent⟩

/-- **What the scan takes is a number in base sixteen.** -/
theorem exists_of_hexNumber {t rest : Text} (h : hexNumber t = some rest) :
    ∃ negative m s width, t = s ++ rest ∧ Literal.HexText negative m s width := by
  obtain ⟨a, hmark, h⟩ := Option.bind_eq_some_iff.mp h
  obtain ⟨b, hdigits, h⟩ := Option.bind_eq_some_iff.mp h
  obtain ⟨-, hend⟩ := Option.ite_none_left_eq_some.mp h
  obtain ⟨digits, rfl, hne, hall⟩ := exists_of_many1 hdigits
  obtain ⟨m, hm⟩ := Numeral.exists_denotes_hex hne hall
  have hletters : ∀ c ∈ "LltTsS".toList, ∃ w, Width.Suffix [c] w := by
    intro c hc
    have hsome : ∀ c ∈ "LltTsS".toList, (Width.ofIntegerSuffix? c).isSome = true :=
      List.all_eq_true.mp (by decide)
    obtain ⟨w, hw⟩ := Option.isSome_iff_exists.mp (hsome c hc)
    exact ⟨some w, .letter (Width.ofIntegerSuffix?_eq_some_iff.mp hw)⟩
  obtain ⟨suffix, width, hb, hsuffix⟩ := exists_skip_suffix .none hletters b
  obtain ⟨negative, ht⟩ := exists_skip_minus t
  obtain ⟨x, hx, hskip⟩ : ∃ x, (x = 'x' ∨ x = 'X') ∧ skip minus t = '0' :: x :: (digits ++ b) := by
    rcases Option.or_eq_some_iff.mp hmark with hmark | ⟨-, hmark⟩
    · exact ⟨'x', .inl rfl, (List.isPrefixOf?_eq_some_iff_append_eq.mp hmark).symm⟩
    · exact ⟨'X', .inr rfl, (List.isPrefixOf?_eq_some_iff_append_eq.mp hmark).symm⟩
  refine ⟨negative, m, _, width, ?_, .mk hx hm hsuffix⟩
  rw [← Option.some.inj hend]
  conv_lhs => rw [ht, hskip, hb]
  simp only [List.append_assoc, List.cons_append]

/-- what the scan takes is a number with digits -/
theorem exists_of_numeral {t rest : Text} (h : numeral t = some rest) :
    ∃ s width, t = s ++ rest ∧ Literal.NumberText s width := by
  obtain ⟨a, hdigits, rfl⟩ := Option.map_eq_some_iff.mp h
  have hletters : ∀ c ∈ "LltTsSfFdD".toList, ∃ w, Width.Ends [c] w := by
    intro c hc
    have hsome : ∀ c ∈ "LltTsSfFdD".toList, (Width.ofSuffix? c).isSome = true := List.all_eq_true.mp (by decide)
    obtain ⟨w, hw⟩ := Option.isSome_iff_exists.mp (hsome c hc)
    exact ⟨some w, .letter hw⟩
  obtain ⟨negative, ht⟩ := exists_skip_minus t
  obtain ⟨whole, hwhole, hne, hall⟩ := exists_of_many1 hdigits
  obtain ⟨digits, ha, hfraction⟩ := exists_skip_fraction a
  obtain ⟨power, hb, hexponent⟩ := exists_skip_exponent (skip fraction a)
  obtain ⟨suffix, width, hc, hsuffix⟩ := exists_skip_suffix .none hletters (skip exponent (skip fraction a))
  have hspells : Decimal.Spells whole (Decimal.pointed digits ++ power) :=
    ⟨hne, hall, digits, power, rfl, hfraction, hexponent⟩
  refine ⟨_, width, ?_, .numeral negative hspells hsuffix⟩
  conv_lhs => rw [ht, hwhole, ha, hb, hc]
  simp only [List.append_assoc]

theorem exists_of_numberWord {t rest : Text} (h : numberWord t = some rest) :
    ∃ s width, t = s ++ rest ∧ Literal.NumberText s width := by
  obtain ⟨a, hword, rfl⟩ := Option.map_eq_some_iff.mp h
  have hletters : ∀ c ∈ "fFdD".toList, Literal.wordEnds.contains ([c], Width.ofSuffix? c) = true :=
    List.all_eq_true.mp (by decide)
  obtain ⟨negative, ht⟩ := exists_skip_minus t
  obtain ⟨suffix, width, ha, hsuffix⟩ := exists_skip_suffix (R := fun s w => (s, w) ∈ Literal.wordEnds)
    List.mem_cons_self (fun c hc => ⟨_, List.contains_iff_mem.mp (hletters c hc)⟩) a
  obtain ⟨word, hskip, hwords⟩ : ∃ word, skip minus t = word ++ a ∧
      (word = "Infinity".toList ∨ word = "NaN".toList) := by
    rcases Option.or_eq_some_iff.mp hword with hword | ⟨-, hword⟩
    · exact ⟨_, (List.isPrefixOf?_eq_some_iff_append_eq.mp hword).symm, .inl rfl⟩
    · exact ⟨_, (List.isPrefixOf?_eq_some_iff_append_eq.mp hword).symm, .inr rfl⟩
  refine ⟨_, width, ?_, .word negative hwords hsuffix⟩
  conv_lhs => rw [ht, hskip, ha]
  simp only [List.append_assoc]

/-- **What the scan takes is a number in base ten or one of the two words.** -/
theorem exists_of_decimalNumber {t rest : Text} (h : decimalNumber t = some rest) :
    ∃ s width, t = s ++ rest ∧ Literal.NumberText s width := by
  obtain ⟨a, hnumber, h⟩ := Option.bind_eq_some_iff.mp h
  obtain ⟨-, hend⟩ := Option.ite_none_left_eq_some.mp h
  obtain rfl := Option.some.inj hend
  rcases Option.or_eq_some_iff.mp hnumber with hnumber | ⟨-, hnumber⟩
  · exact exists_of_numeral hnumber
  · exact exists_of_numberWord hnumber

end Scan

/-! ## what the tokens are -/

theorem LexContext.exists_of_isRegister {w : Text} (h : isRegister w = true) :
    ∃ c digits, w = c :: digits ∧ (c = 'v' ∨ c = 'p') ∧ digits ≠ [] ∧ ∀ d ∈ digits, isDigit d = true := by
  unfold isRegister at h
  split at h
  · rename_i c d r
    obtain ⟨hc, hdigits⟩ := Bool.and_eq_true_iff.mp h
    rw [Bool.or_eq_true, beq_iff_eq, beq_iff_eq] at hc
    exact ⟨c, d :: r, rfl, hc, List.cons_ne_nil _ _, List.all_eq_true.mp hdigits⟩
  · cases h

namespace Lexeme

theorem scan_hexNumber {t rest : Text} (h : scan t = some (.hexNumber, rest)) : Scan.hexNumber t = some rest := by
  obtain ⟨f, hf, h⟩ := exists_of_scan h
  simp only [scans, List.mem_cons, Prod.mk.injEq, reduceCtorEq, false_and, false_or, or_false, true_and,
    List.not_mem_nil] at hf
  exact hf ▸ h

theorem scan_number {t rest : Text} (h : scan t = some (.number, rest)) : Scan.decimalNumber t = some rest := by
  obtain ⟨f, hf, h⟩ := exists_of_scan h
  simp only [scans, List.mem_cons, Prod.mk.injEq, reduceCtorEq, false_and, false_or, or_false, true_and,
    List.not_mem_nil] at hf
  exact hf ▸ h

end Lexeme

namespace Piece

section
variable {catalog : Catalog} {ctx : LexContext} {behind t : Text} {p : Piece}

/-- only numbers and words give tokens of these kinds -/
theorem lexeme_of_kind {k : Lexeme} {s r : Text} :
    ((ofLexeme catalog ctx k s r).kind = .number → k = .number) ∧
      ((ofLexeme catalog ctx k s r).kind = .hexNumber → k = .hexNumber) ∧
      ((ofLexeme catalog ctx k s r).kind = .register → k = .word ∧ LexContext.isRegister s = true) := by
  cases k with
  | word =>
    show (ctx.wordKind catalog s = .number → _) ∧ (ctx.wordKind catalog s = .hexNumber → _) ∧
      (ctx.wordKind catalog s = .register → _)
    cases hs : LexContext.isRegister s with
    | true =>
      rw [LexContext.wordKind_of_isRegister catalog ctx hs]
      refine ⟨?_, ?_, fun _ => ⟨rfl, rfl⟩⟩ <;> rintro ⟨⟩
    | false =>
      rcases LexContext.wordKind_of_not_isRegister catalog ctx hs with h | h <;> rw [h] <;>
        refine ⟨?_, ?_, ?_⟩ <;> rintro ⟨⟩
  | directive =>
    simp only [ofLexeme]
    split <;> refine ⟨?_, ?_, ?_⟩ <;> rintro ⟨⟩
  | number => refine ⟨fun _ => rfl, ?_, ?_⟩ <;> rintro ⟨⟩
  | hexNumber => refine ⟨?_, fun _ => rfl, ?_⟩ <;> rintro ⟨⟩
  | whitespace | comment | string | punctuation => refine ⟨?_, ?_, ?_⟩ <;> rintro ⟨⟩

/-- **What a piece with the kind of a number or a register is.** -/
theorem Cut.numbers (h : Cut catalog ctx behind t p) :
    (p.kind = .register → LexContext.isRegister (taken t p.rest) = true) ∧
      (p.kind = .hexNumber → ∃ negative m, Literal.HexText negative m (taken t p.rest) p.width) ∧
      (p.kind = .number → Literal.NumberText (taken t p.rest) p.width) := by
  cases h with
  | label | colon | error => exact ⟨nofun, nofun, nofun⟩
  | lexeme k rest hlabel hscan =>
    rw [rest_ofLexeme]
    refine ⟨fun hk => (lexeme_of_kind.2.2 hk).2, fun hk => ?_, fun hk => ?_⟩
    · obtain rfl := lexeme_of_kind.2.1 hk
      obtain ⟨negative, m, s, width, rfl, hs⟩ :=
        Scan.exists_of_hexNumber (Lexeme.scan_hexNumber (scan_of_ne_word (by decide) hscan))
      rw [taken_append]
      refine ⟨negative, m, ?_⟩
      show Literal.HexText negative m s (width? Width.ofIntegerSuffix? s)
      rwa [hs.width?_eq]
    · obtain rfl := lexeme_of_kind.1 hk
      obtain ⟨s, width, rfl, hs⟩ :=
        Scan.exists_of_decimalNumber (Lexeme.scan_number (scan_of_ne_word (by decide) hscan))
      rw [taken_append]
      show Literal.NumberText s (width? Width.ofSuffix? s)
      rwa [hs.exists_parse?.1]

end
end Piece

theorem Lexer.numbers_of_lex {catalog : Catalog} {l m : Lexer} {t : Token} (h : l.lex catalog = some (t, m)) :
    (t.kind = .register → LexContext.isRegister t.text = true) ∧
      (t.kind = .hexNumber → ∃ negative m, Literal.HexText negative m t.text t.width) ∧
      (t.kind = .number → Literal.NumberText t.text t.width) := by
  obtain ⟨p, hp, -, rfl, rfl⟩ := lex_eq_some h
  exact (hp ▸ Piece.cut_cut catalog l.context l.behind l.rest).numbers

/-! ## what the readers make of them -/

namespace Token

/-- What the readers of values make of a register or a number. -/
structure IsRead (t : Token) : Prop where
  /-- a register is read exactly when sixteen bits hold its number, and then as that register -/
  register : t.kind = .register → ∃ c digits n, t.text = c :: digits ∧ (c = 'v' ∨ c = 'p') ∧
    Numeral.Denotes 10 digits n ∧
    ∀ r, Register.parse t.text = .ok r ↔ ∃ h : n < 65536, r = Register.ofLetter c ⟨n, h⟩
  /-- a number in base sixteen is read exactly when 64 bits hold its magnitude -/
  hexNumber : t.kind = .hexNumber → ∃ negative m, Literal.HexText negative m t.text t.width ∧
    ∀ l, Literal.parse t.text = .ok l ↔
      m < 2 ^ 64 ∧ l = ⟨.int (Int64.ofInt (Literal.signed negative m)), t.width, true⟩
  /-- a number in base ten is read with its own suffix -/
  number : t.kind = .number → Literal.NumberText t.text t.width ∧
    ∀ l, Literal.parse t.text = .ok l → l.hex = false ∧ l.width = t.width
  /-- and it is not read exactly when it is an integer that 64 bits do not hold -/
  overflow : t.kind = .number → ((∀ l, Literal.parse t.text ≠ .ok l) ↔
    ∃ negative m, Literal.WholeText negative m t.text t.width ∧
      (Literal.signed negative m < -2 ^ 63 ∨ 2 ^ 63 ≤ Literal.signed negative m))

theorem isRead_of_lex {catalog : Catalog} {l m : Lexer} {t : Token} (h : l.lex catalog = some (t, m)) : t.IsRead := by
  obtain ⟨hregister, hhex, hnumber⟩ := Lexer.numbers_of_lex h
  refine ⟨fun hk => ?_, fun hk => ?_, fun hk => ?_, fun hk => ?_⟩
  · obtain ⟨c, digits, hw, hc, hne, hall⟩ := LexContext.exists_of_isRegister (hregister hk)
    obtain ⟨n, hn⟩ := Numeral.exists_denotes hne hall
    rw [hw]
    exact ⟨c, digits, n, rfl, hc, hn, fun r => Register.parse_eq_ok_iff hc hn⟩
  · obtain ⟨negative, m, htext⟩ := hhex hk
    refine ⟨negative, m, htext, fun l => ?_⟩
    rw [Literal.parse_eq_ok_iff, Literal.parse?_of_hexText htext, Option.ite_none_right_eq_some, Option.some.injEq]
    exact and_congr_right fun _ => eq_comm
  · have htext := hnumber hk
    exact ⟨htext, fun l hl => htext.width_of_parse? (Literal.parse_eq_ok_iff.mp hl)⟩
  · have htext := hnumber hk
    simp only [ne_eq, Literal.parse_eq_ok_iff]
    rw [← htext.parse?_eq_none_iff, Option.eq_none_iff_forall_ne_some]

end Token

/-- **The lexer and the readers agree on registers and numbers.**  Every register of a line is read exactly when
sixteen bits hold its number, every number in base sixteen exactly when 64 bits hold its magnitude, and every other
number unless it is an integer outside of 64 bits; and always with the suffix that the lexer saw. -/
theorem tokenizeWith_numbers (catalog : Catalog) (keepBlanks : Bool) (line : Text) (number : Nat) :
    ∀ t ∈ tokenizeWith catalog keepBlanks line number, t.IsRead := by
  intro t ht
  refine Lexer.forall_mem_tokens catalog (P := fun _ _ t => t.IsRead) ?_ (Lexer.start line number) t
    (mem_tokenizeWith.mp ht).1
  exact fun l t m h => Token.isRead_of_lex h

/-- the greatest register, the digits of base sixteen that would be suffixes in base ten, and the integer below the
least one -/
theorem tokenizeWith_numbers_edges :
    let ts := tokenizeWith .empty false "p65535 -0XfdL -9223372036854775809t".toList 0
    let register : Token := ⟨.register, "p65535".toList, 0, 0, none, false⟩
    let hexNumber : Token := ⟨.hexNumber, "-0XfdL".toList, 7, 0, some .long, false⟩
    let number : Token := ⟨.number, "-9223372036854775809t".toList, 14, 0, some .byte, false⟩
    ts = [register, hexNumber, number] ∧ register.IsRead ∧ hexNumber.IsRead ∧
      ∀ l, Literal.parse number.text ≠ .ok l := by
  intro ts register hexNumber number
  have hts : ts = [register, hexNumber, number] := by decide +kernel
  have hread : ∀ t ∈ ts, t.IsRead := tokenizeWith_numbers _ _ _ _
  rw [hts] at hread
  refine ⟨hts, hread register (by simp), hread hexNumber (by simp), ?_⟩
  refine ((hread number (by simp)).overflow rfl).mpr ⟨true, 9223372036854775809, ?_, by decide⟩
  have hdigits : Numeral.Denotes 10 "9223372036854775809".toList 9223372036854775809 :=
    (Numeral.value?_eq_some_iff (by decide)).mp (by decide +kernel)
  exact .mk hdigits (.letter (by decide))

end Smali
