import Smali.Token.Lexeme

/-!
# Words and what may follow them

A run of word characters is one lexeme when something follows it that no word or number goes on with, and
what it is then does not depend on what follows.

* `Text.IsWord`        a nonempty run of word characters;
* `Text.Stops`         what ends every word and every number;
* `Scan.Local f`       what follows has no say in what `f` recognises;
* `Lexeme.ofWord`      what a word is: a number in base sixteen or ten, or else a plain word;
* `Lexeme.scan_append` the lexeme at a word with something after it.
-/

namespace Smali
namespace Text

/-- a nonempty run of word characters -/
def IsWord (w : Text) : Prop :=
  w ≠ [] ∧ ∀ c ∈ w, isWordChar c = true

instance (w : Text) : Decidable w.IsWord :=
  decidable_of_iff ((!w.isEmpty && w.all isWordChar) = true) (by simp [IsWord])

/-- no word and no number goes on with the text -/
def Stops (r : Text) : Prop :=
  ∀ c, r.head? = some c → isWordChar c = false ∧ c ≠ '.' ∧ c ≠ '>'

theorem stops_nil : Stops [] := by
  intro c hc
  cases hc

theorem stops_cons {c : Char} (h : isWordChar c = false ∧ c ≠ '.' ∧ c ≠ '>') (r : Text) :
    Stops (c :: r) := by
  intro d hd
  obtain rfl := Option.some.inj hd
  exact h

theorem isBlank_of_isWordChar {c : Char} (hc : isWordChar c = true) : isBlank c = false := by
  cases h : isBlank c with
  | false => rfl
  | true => simp [isWordChar, h] at hc

theorem dropWhile_of_head {p : Char → Bool} {t : Text} (h : ∀ c, t.head? = some c → p c = false) :
    t.dropWhile p = t := by
  cases t with
  | nil => rfl
  | cons c t => rw [List.dropWhile_cons, h c rfl, if_neg Bool.false_ne_true]

theorem IsWord.exists_cons {w : Text} (hw : w.IsWord) :
    ∃ c s, w = c :: s ∧ isWordChar c = true ∧ ∀ d ∈ s, isWordChar d = true := by
  obtain ⟨c, s, rfl⟩ := List.exists_cons_of_ne_nil hw.1
  exact ⟨c, s, rfl, hw.2 c List.mem_cons_self, fun d hd => hw.2 d (List.mem_cons_of_mem _ hd)⟩

end Text

namespace Scan
open Text (Stops)

/-! ## words -/

theorem atWord_of_stops {r : Text} (hr : Stops r) : atWord r = false := by
  cases r with
  | nil => rfl
  | cons c s =>
    have hc := (hr c rfl).1
    rw [atWord, hc]
    rfl

theorem head?_ne_of_stops {r : Text} (hr : Stops r) : r.head? ≠ some '>' :=
  fun h => (hr '>' h).2.2 rfl

theorem head?_ne_dot_of_stops {r : Text} (hr : Stops r) : r.head? ≠ some '.' :=
  fun h => (hr '.' h).2.1 rfl

theorem atWord_cons {c : Char} {s r : Text} (hc : isWordChar c = true) (hs : ∀ d ∈ s, isWordChar d = true)
    (hr : r.head? ≠ some '>') : atWord (c :: (s ++ r)) = true := by
  have hnext : (s ++ r).head? ≠ some '>' := by
    cases s with
    | nil => exact hr
    | cons d s =>
      intro h
      have hd := hs d List.mem_cons_self
      obtain rfl : d = '>' := Option.some.inj h
      exact absurd hd (by decide)
  rw [atWord, hc, Bool.true_and]
  cases hh : (s ++ r).head? with
  | none => simp
  | some d =>
    rw [hh] at hnext
    simp only [Ne, Option.some.injEq] at hnext
    simp [hnext]

section
variable {r : Text} (hat : atWord r = false) (hhead : r.head? ≠ some '>')
include hat hhead

theorem wordRest_append {s : Text} (hs : ∀ d ∈ s, isWordChar d = true) : wordRest (s ++ r) = r := by
  induction s with
  | nil =>
    cases r with
    | nil => rfl
    | cons c r =>
      rw [List.nil_append, wordRest, if_neg]
      rw [hat]
      exact Bool.false_ne_true
  | cons c s ih =>
    obtain ⟨hc, hs⟩ := List.forall_mem_cons.mp hs
    rw [List.cons_append, wordRest, if_pos (atWord_cons hc hs hhead), ih hs]

/-- a word also ends before dots and before an arrow -/
theorem word_append_of_atWord {w : Text} (hw : w.IsWord) : word (w ++ r) = some r := by
  obtain ⟨c, s, rfl, hc, hs⟩ := hw.exists_cons
  rw [List.cons_append, word, if_pos (atWord_cons hc hs hhead), wordRest_append hat hhead hs]

end

theorem word_append {w r : Text} (hw : w.IsWord) (hr : Stops r) : word (w ++ r) = some r :=
  word_append_of_atWord (atWord_of_stops hr) (head?_ne_of_stops hr) hw

/-! ## what follows a number -/

/-- what follows has no say in what is recognised -/
def Local (f : Scan) : Prop :=
  ∀ w r, Stops r → f (w ++ r) = (f w).map (· ++ r)

/-- the characters of the class are word characters or points -/
def InWords (p : Char → Bool) : Prop :=
  ∀ c, p c = true → isWordChar c = true ∨ c = '.'

theorem InWords.not_of_stops {p : Char → Bool} (hp : InWords p) {c : Char} {r : Text}
    (hr : Stops (c :: r)) : p c = false := by
  obtain ⟨hc, hdot, -⟩ := hr c rfl
  cases h : p c with
  | false => rfl
  | true =>
    rcases hp c h with h | h
    · rw [hc] at h
      cases h
    · exact absurd h hdot

theorem local_one {p : Char → Bool} (hp : InWords p) : Local (one p) := by
  intro w r hr
  cases w with
  | nil =>
    cases r with
    | nil => rfl
    | cons c r =>
      rw [List.nil_append, one, hp.not_of_stops hr]
      rfl
  | cons c w =>
    rw [List.cons_append, one, one]
    split <;> rfl

theorem dropWhile_append {p : Char → Bool} (hp : InWords p) (w : Text) {r : Text} (hr : Stops r) :
    (w ++ r).dropWhile p = w.dropWhile p ++ r := by
  induction w with
  | nil =>
    cases r with
    | nil => rfl
    | cons c r =>
      rw [List.nil_append, List.dropWhile_cons, hp.not_of_stops hr]
      rfl
  | cons c w ih =>
    rw [List.cons_append, List.dropWhile_cons, List.dropWhile_cons, ih]
    split <;> rfl

theorem local_many1 {p : Char → Bool} (hp : InWords p) : Local (many1 p) := by
  intro w r hr
  cases w with
  | nil =>
    cases r with
    | nil => rfl
    | cons c r =>
      rw [List.nil_append, many1, hp.not_of_stops hr]
      rfl
  | cons c w =>
    rw [List.cons_append, many1, many1, dropWhile_append hp w hr]
    split <;> rfl

/-- a run of characters of a class, with something else after it -/
theorem many1_append {p : Char → Bool} {w s : Text} (hne : w ≠ []) (hw : ∀ c ∈ w, p c = true)
    (hs : ∀ c, s.head? = some c → p c = false) : many1 p (w ++ s) = some s := by
  obtain ⟨c, w, rfl⟩ := List.exists_cons_of_ne_nil hne
  obtain ⟨hc, hw⟩ := List.forall_mem_cons.mp hw
  rw [List.cons_append, many1, if_pos hc, List.dropWhile_append_of_pos hw, Text.dropWhile_of_head hs]

theorem local_exactly {s : Text} (hs : s.all (fun c => isWordChar c || c == '.' || c == '>') = true) :
    Local (exactly s) := by
  intro w r hr
  induction s generalizing w with
  | nil => rfl
  | cons p s ih =>
    rw [List.all_cons, Bool.and_eq_true_iff, Bool.or_eq_true_iff, Bool.or_eq_true_iff, beq_iff_eq, beq_iff_eq] at hs
    obtain ⟨hp, hs⟩ := hs
    cases w with
    | nil =>
      cases r with
      | nil => rfl
      | cons c r =>
        have hc : p ≠ c := by
          rintro rfl
          obtain ⟨hword, hdot, harrow⟩ := hr p rfl
          rcases hp with (hp | hp) | hp
          · rw [hword] at hp
            cases hp
          · exact hdot hp
          · exact harrow hp
        rw [List.nil_append, exactly_cons_of_ne hc]
        rfl
    | cons c w =>
      rw [List.cons_append, exactly_cons, exactly_cons]
      split
      · exact ih hs w
      · rfl

theorem Local.skip {f : Scan} (hf : Local f) (w : Text) {r : Text} (hr : Stops r) :
    skip f (w ++ r) = Scan.skip f w ++ r := by
  rw [Scan.skip, Scan.skip, hf w r hr]
  cases f w <;> rfl

theorem Local.either {f g : Scan} (hf : Local f) (hg : Local g) : Local (either f g) := by
  intro w r hr
  rw [Scan.either, Scan.either, hf w r hr, hg w r hr]
  cases f w <;> rfl

theorem Local.bind {f g : Scan} (hf : Local f) (hg : Local g) : Local fun t => (f t).bind g := by
  intro w r hr
  dsimp only
  rw [hf w r hr]
  cases f w with
  | none => rfl
  | some t => exact hg t r hr

theorem Local.map {f : Scan} {g : Text → Text} (hf : Local f)
    (hg : ∀ w r, Stops r → g (w ++ r) = g w ++ r) : Local fun t => (f t).map g := by
  intro w r hr
  dsimp only
  rw [hf w r hr]
  cases f w with
  | none => rfl
  | some t => exact congrArg some (hg t r hr)

theorem Local.afterSkip {f g : Scan} (hf : Local f) (hg : Local g) : Local fun t => f (Scan.skip g t) := by
  intro w r hr
  dsimp only
  rw [hg.skip w hr, hf _ r hr]

theorem atWord_append (w : Text) {r : Text} (hr : Stops r) : atWord (w ++ r) = atWord w := by
  cases w with
  | nil => rw [List.nil_append, atWord_of_stops hr]; rfl
  | cons c w =>
    cases w with
    | cons d w => rfl
    | nil =>
      have hhead := head?_ne_of_stops hr
      show (isWordChar c && !(c == '-' && r.head? == some '>')) = _
      cases hh : r.head? with
      | none => rfl
      | some d =>
        rw [hh] at hhead
        have hd : (some d == some '>') = false := by simpa using hhead
        rw [hd]
        rfl

theorem local_word : Local word := by
  intro w r hr
  have hrest : ∀ w, wordRest (w ++ r) = wordRest w ++ r := by
    intro w
    induction w with
    | nil => exact wordRest_append (s := []) (atWord_of_stops hr) (head?_ne_of_stops hr) (List.forall_mem_nil _)
    | cons c w ih =>
      rw [List.cons_append, wordRest, wordRest, ← List.cons_append, atWord_append _ hr, ih]
      split <;> rfl
  cases w with
  | nil =>
    cases r with
    | nil => rfl
    | cons c r =>
      show (if atWord (c :: r) then some (wordRest r) else none) = none
      rw [atWord_of_stops hr]
      rfl
  | cons c w =>
    rw [List.cons_append, word, word, ← List.cons_append, atWord_append _ hr, hrest]
    split <;> rfl

theorem local_numberEnd : Local numberEnd := by
  intro w r hr
  rw [numberEnd, numberEnd, atWord_append w hr]
  split <;> rfl

/-! ## numbers -/

/-- the characters are ASCII, so all of them can be tried -/
theorem isWordChar_of_isAlphanumeric {c : Char} (hc : isAlphanumeric c = true) : isWordChar c = true := by
  have h : ∀ n : Fin 128, isAlphanumeric (Char.ofNat n) = true → isWordChar (Char.ofNat n) = true := by
    decide +kernel
  have hlt : c.toNat < 128 := by
    simp only [isAlphanumeric, isDigit, Bool.or_eq_true, Bool.and_eq_true, decide_eq_true_eq] at hc
    rcases hc with (⟨-, hc⟩ | ⟨-, hc⟩) | ⟨-, hc⟩ <;>
      exact Nat.lt_of_le_of_lt (UInt32.le_iff_toNat_le.mp hc) (by decide)
  have hn := h ⟨c.toNat, hlt⟩
  rw [show Char.ofNat (⟨c.toNat, hlt⟩ : Fin 128) = c from Char.ofNat_toNat c] at hn
  exact hn hc

theorem isAlphanumeric_of_atWord {r : Text} {c : Char} (hr : atWord r = false) (hc : r.head? = some c) :
    isAlphanumeric c = false := by
  refine eq_false_of_ne_true fun h => ?_
  have hne : (c == '-') = false := by
    rw [beq_eq_false_iff_ne]
    rintro rfl
    exact absurd h (by decide)
  cases r with
  | nil => cases hc
  | cons d r =>
    obtain rfl := Option.some.inj hc
    rw [atWord, isWordChar_of_isAlphanumeric h, hne] at hr
    cases hr

theorem isAlphanumeric_of_isHexDigit {c : Char} (hc : isHexDigit c = true) : isAlphanumeric c = true := by
  simp only [isHexDigit, isAlphanumeric, Bool.or_eq_true, Bool.and_eq_true, decide_eq_true_eq] at hc ⊢
  rcases hc with (hc | ⟨hlo, hhi⟩) | ⟨hlo, hhi⟩
  · exact .inl (.inl hc)
  · exact .inl (.inr ⟨hlo, Char.le_trans hhi (by decide)⟩)
  · exact .inr ⟨hlo, Char.le_trans hhi (by decide)⟩

theorem inWords_isHexDigit : InWords isHexDigit :=
  fun _ hc => .inl (isWordChar_of_isAlphanumeric (isAlphanumeric_of_isHexDigit hc))

theorem inWords_isDigit : InWords isDigit := by
  intro c hc
  apply inWords_isHexDigit
  rw [isHexDigit, hc]
  rfl

theorem inWords_contains {s : Text} (hs : s.all isWordChar = true) : InWords fun c => s.contains c := by
  intro c hc
  exact .inl (List.all_eq_true.mp hs c (List.contains_iff_mem.mp hc))

theorem local_oneOf {s : Text} (hs : s.all isWordChar = true) : Local (oneOf s) :=
  local_one (inWords_contains hs)

theorem local_minus : Local minus := by
  apply local_one
  intro c hc
  obtain rfl := beq_iff_eq.mp hc
  exact .inl (by decide)

theorem local_hexNumber : Local hexNumber := by
  refine Local.bind (Local.afterSkip ?_ local_minus) (Local.bind (local_many1 inWords_isHexDigit) ?_)
  · exact (local_exactly (by decide)).either (local_exactly (by decide))
  · exact local_numberEnd.afterSkip (local_oneOf (by decide))

theorem local_fraction : Local fraction := by
  refine Local.bind (local_one ?_) (local_many1 inWords_isDigit)
  intro c hc
  exact .inr (beq_iff_eq.mp hc)

theorem local_exponent : Local exponent :=
  Local.bind (local_oneOf (by decide))
    ((local_many1 inWords_isDigit).afterSkip (local_oneOf (by decide)))

theorem local_numeral : Local numeral := by
  refine Local.map ((local_many1 inWords_isDigit).afterSkip local_minus) fun w r hr => ?_
  rw [local_fraction.skip w hr, local_exponent.skip _ hr, (local_oneOf (by decide)).skip _ hr]

theorem local_numberWord : Local numberWord := by
  refine Local.map (Local.afterSkip ?_ local_minus) fun w r hr => ?_
  · exact (local_exactly (by decide)).either (local_exactly (by decide))
  · rw [(local_oneOf (by decide)).skip w hr]

theorem local_decimalNumber : Local decimalNumber :=
  Local.bind (local_numeral.either local_numberWord) local_numberEnd

/-! ## words that are numbers -/

/-- a number takes all of the word that it starts -/
theorem eq_nil_of_atWord {w r : Text} (hw : ∀ c ∈ w, isWordChar c = true) (hr : r <:+ w)
    (h : atWord r = false) : r = [] := by
  cases r with
  | nil => rfl
  | cons c s =>
    have hmem : ∀ d ∈ c :: s, isWordChar d = true := fun d hd => hw d (hr.subset hd)
    have hat : atWord (c :: (s ++ [])) = true :=
      atWord_cons (hmem c List.mem_cons_self) (fun d hd => hmem d (List.mem_cons_of_mem _ hd)) nofun
    rw [List.append_nil, h] at hat
    cases hat

theorem atWord_of_numberEnd {t r : Text} (h : numberEnd t = some r) : atWord r = false := by
  rw [numberEnd, Option.ite_none_left_eq_some, Option.some.injEq] at h
  obtain ⟨hat, rfl⟩ := h
  exact eq_false_of_ne_true hat

theorem hexNumber_eq_some {w r : Text} (hw : w.IsWord) (h : hexNumber w = some r) : r = [] := by
  have hr := (advances_hexNumber w r h).1
  obtain ⟨_, -, h⟩ := Option.bind_eq_some_iff.mp h
  obtain ⟨_, -, h⟩ := Option.bind_eq_some_iff.mp h
  exact eq_nil_of_atWord hw.2 hr (atWord_of_numberEnd h)

theorem decimalNumber_eq_some {w r : Text} (hw : w.IsWord) (h : decimalNumber w = some r) : r = [] := by
  have hr := (advances_decimalNumber w r h).1
  obtain ⟨_, -, h⟩ := Option.bind_eq_some_iff.mp h
  exact eq_nil_of_atWord hw.2 hr (atWord_of_numberEnd h)

end Scan

namespace Lexeme
open Text (Stops)

/-- what a word is -/
def ofWord (w : Text) : Lexeme :=
  if (Scan.hexNumber w).isSome then .hexNumber
  else if (Scan.decimalNumber w).isSome then .number
  else .word

/-- a number starts with a sign, a digit or the first letter of its word -/
theorem ofWord_of_head {c : Char} (hminus : '-' ≠ c) (hdigit : isDigit c = false) (hI : 'I' ≠ c) (hN : 'N' ≠ c)
    (r : Text) : ofWord (c :: r) = .word := by
  have hexactly : ∀ d t, d ≠ c → Scan.exactly (d :: t) (c :: r) = none :=
    fun d t hd => Scan.exactly_cons_of_ne hd t r
  have hzero : '0' ≠ c := by
    rintro rfl
    cases hdigit
  have hskip : Scan.skip Scan.minus (c :: r) = c :: r := by
    rw [Scan.skip, Scan.minus, Scan.one, if_neg]
    · rfl
    · rw [beq_iff_eq]
      exact hminus.symm
  have hhex : Scan.hexNumber (c :: r) = none := by
    have h1 : Scan.exactly "0x".toList (c :: r) = none := hexactly '0' _ hzero
    have h2 : Scan.exactly "0X".toList (c :: r) = none := hexactly '0' _ hzero
    rw [Scan.hexNumber, hskip, Scan.either, h1, h2]
    rfl
  have hdecimal : Scan.decimalNumber (c :: r) = none := by
    have h1 : Scan.exactly "Infinity".toList (c :: r) = none := hexactly 'I' _ hI
    have h2 : Scan.exactly "NaN".toList (c :: r) = none := hexactly 'N' _ hN
    have h3 : Scan.many1 isDigit (c :: r) = none := by
      rw [Scan.many1, hdigit]
      rfl
    rw [Scan.decimalNumber, Scan.andThen, Scan.either, Scan.numeral, Scan.numberWord, hskip, h3, Scan.either,
      h1, h2]
    rfl
  rw [ofWord, hhex, hdecimal]
  rfl

/-- the first four lexemes each start with a character of their own -/
theorem scan_of_head {c : Char} (hblank : isBlank c = false) (hhash : c ≠ '#') (hquote : c ≠ '"')
    (hapostrophe : c ≠ '\'') (t : Text) :
    scan (c :: t) = (scans.drop 4).findSome? fun p => (p.2 (c :: t)).map (Prod.mk p.1) := by
  have hspace : Scan.many1 isBlank (c :: t) = none := by
    rw [Scan.many1, hblank]
    rfl
  have hcomment : Scan.comment (c :: t) = none := by
    rw [Scan.comment]
    rintro u hu
    exact hhash (List.cons.inj hu).1
  have hstring : Scan.string (c :: t) = none := by
    rw [Scan.string]
    rintro u hu
    exact hquote (List.cons.inj hu).1
  have hchar : Scan.char (c :: t) = none := by
    rw [Scan.char, Scan.andThen, Scan.one, if_neg]
    · rfl
    · rw [beq_iff_eq]
      exact hapostrophe
  show scans.findSome? (fun p => (p.2 (c :: t)).map (Prod.mk p.1)) = _
  simp only [scans, List.findSome?_cons, hspace, hcomment, hstring, hchar, Option.map_none]
  rfl

/-- the lexemes before the numbers start with other characters -/
theorem scan_of_isWordChar {c : Char} (hc : isWordChar c = true) (t : Text) :
    scan (c :: t) = ((Scan.hexNumber (c :: t)).map (Prod.mk hexNumber)).or
      (((Scan.decimalNumber (c :: t)).map (Prod.mk number)).or
        ((scans.drop 6).findSome? fun p => (p.2 (c :: t)).map (Prod.mk p.1))) := by
  have hne : ∀ d, isWordChar d = false → c ≠ d := by
    rintro d hd rfl
    rw [hc] at hd
    cases hd
  rw [scan_of_head (Text.isBlank_of_isWordChar hc) (hne _ (by decide)) (hne _ (by decide)) (hne _ (by decide))]
  show List.findSome? _ ((hexNumber, Scan.hexNumber) :: (number, Scan.decimalNumber) :: scans.drop 6) = _
  simp only [List.findSome?_cons]
  cases Scan.hexNumber (c :: t) with
  | some u => rfl
  | none =>
    cases Scan.decimalNumber (c :: t) with
    | some u => rfl
    | none => rfl

/-- so do those between the numbers and the words -/
theorem scan_of_isWord {w r : Text} (hw : w.IsWord) (hr : Stops r) :
    scan (w ++ r) = ((Scan.hexNumber (w ++ r)).map (Prod.mk hexNumber)).or
      (((Scan.decimalNumber (w ++ r)).map (Prod.mk number)).or (some (word, r))) := by
  have hword := Scan.word_append hw hr
  obtain ⟨c, s, rfl, hc, hs⟩ := hw.exists_cons
  have hne : ∀ d, isWordChar d = false → d ≠ c := by
    rintro d hd rfl
    rw [hc] at hd
    cases hd
  have hexactly : ∀ d t, isWordChar d = false → Scan.exactly (d :: t) (c :: s ++ r) = none :=
    fun d t hd => Scan.exactly_cons_of_ne (hne d hd) t (s ++ r)
  have harrow : Scan.exactly "->".toList (c :: s ++ r) = none := by
    by_cases h : '-' = c
    · have hat := Scan.atWord_cons hc hs (Scan.head?_ne_of_stops hr)
      subst h
      show Scan.exactly ['>'] (s ++ r) = none
      cases hsr : s ++ r with
      | nil => rfl
      | cons d t =>
        rw [hsr] at hat
        apply Scan.exactly_cons_of_ne
        rintro rfl
        exact absurd hat (by simp [Scan.atWord])
    · exact Scan.exactly_cons_of_ne h ['>'] (s ++ r)
  have hdots : Scan.punctuation2 (c :: s ++ r) = none := by
    rw [Scan.punctuation2, Scan.either, harrow]
    exact hexactly '.' _ (by decide)
  have hdirective : Scan.directiveWord (c :: s ++ r) = none := by
    rw [List.cons_append, Scan.directiveWord, Scan.andThen, Scan.one, if_neg]
    · rfl
    · rw [beq_iff_eq]
      exact (hne _ (by decide)).symm
  have hinit : Scan.initializer (c :: s ++ r) = none := by
    have h1 : Scan.exactly "<init>".toList (c :: s ++ r) = none := hexactly '<' _ (by decide)
    have h2 : Scan.exactly "<clinit>".toList (c :: s ++ r) = none := hexactly '<' _ (by decide)
    rw [Scan.initializer, Scan.either, h1, h2]
    rfl
  have hlater : ((scans.drop 6).findSome? fun p => (p.2 (c :: s ++ r)).map (Prod.mk p.1)) = some (word, r) := by
    show List.findSome? _ [(punctuation, Scan.punctuation2), (directive, Scan.directiveWord),
      (Lexeme.word, Scan.initializer), (Lexeme.word, Scan.word), (punctuation, Scan.punctuation1)] = _
    simp only [List.findSome?_cons, hdots, hdirective, hinit, hword, Option.map_none, Option.map_some]
  rw [List.cons_append] at hlater ⊢
  rw [scan_of_isWordChar hc, hlater]

/-- **A word is one lexeme, and what it is does not depend on what follows.** -/
theorem scan_append {w r : Text} (hw : w.IsWord) (hr : Stops r) : scan (w ++ r) = some (ofWord w, r) := by
  rw [scan_of_isWord hw hr, Scan.local_hexNumber w r hr,
    Scan.local_decimalNumber w r hr, ofWord]
  cases hhex : Scan.hexNumber w with
  | some t =>
    obtain rfl := Scan.hexNumber_eq_some hw hhex
    rfl
  | none =>
    cases hdec : Scan.decimalNumber w with
    | some t =>
      obtain rfl := Scan.decimalNumber_eq_some hw hdec
      rfl
    | none => rfl

end Lexeme
end Smali
