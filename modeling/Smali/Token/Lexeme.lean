import Smali.Text

/-!
# Lexemes

A `Scan` recognises something at the start of a text and returns what is left.  The lexemes of a line
are tried in a fixed order, and the first that matches is taken:

* `Lexeme.scans`    the lexemes in that order;
* `Lexeme.scan`     the lexeme at the start of a text, with what is left;
* `isWordChar`      the characters of words: names may use most of Unicode;
* `Scan.word`       a run of them that stops before an arrow;
* `Lexeme.advances_scan`  a lexeme has at least one character, and what is left is an end of the
                    text.
-/

namespace Smali

/-- everything but blanks, control characters and punctuation -/
def isWordChar (c : Char) : Bool :=
  !isBlank c && !isControl c && !(";<>(),\x7b\x7d[]:.=\"'#@".toList.contains c)

/-- recognises something at the start of a text and returns what is left -/
abbrev Scan := Text → Option Text

/-- the part of a text before what is left of it -/
def taken (t rest : Text) : Text :=
  t.take (t.length - rest.length)

namespace Scan

/-! ## building blocks -/

/-- one character of a class -/
def one (p : Char → Bool) : Scan
  | c :: r => if p c then some r else none
  | [] => none

/-- a nonempty run of characters of a class -/
def many1 (p : Char → Bool) : Scan
  | c :: r => if p c then some (r.dropWhile p) else none
  | [] => none

/-- one character of a list -/
def oneOf (s : Text) : Scan :=
  one fun c => s.contains c

/-- a given text -/
def exactly (s : Text) : Scan :=
  s.isPrefixOf?

/-- skips what is recognised, if it is there -/
def skip (f : Scan) (t : Text) : Text :=
  (f t).getD t

/-- the first of two that matches -/
def either (f g : Scan) : Scan := fun t =>
  (f t).or (g t)

/-- one after the other -/
def andThen (f g : Scan) : Scan := fun t =>
  (f t).bind g

/-! ## words -/

/-- whether a word goes on at the start of a text: not before an arrow -/
def atWord : Text → Bool
  | [] => false
  | c :: r => isWordChar c && !(c == '-' && r.head? == some '>')

/-- what is left after a run of word characters -/
def wordRest : Text → Text
  | [] => []
  | c :: r => if atWord (c :: r) then wordRest r else c :: r

/-- a nonempty run of word characters -/
def word : Scan
  | [] => none
  | c :: r => if atWord (c :: r) then some (wordRest r) else none

/-- a dot and the letters, digits, hyphens and underscores after it -/
def directiveWord : Scan :=
  andThen (one (· == '.')) (many1 fun c => isAlphanumeric c || c == '-' || c == '_')

/-- one of the two method names in angle brackets -/
def initializer : Scan :=
  either (exactly "<init>".toList) (exactly "<clinit>".toList)

/-! ## strings and characters -/

/-- what is left after the closing quote of a string; a backslash takes the next character along -/
def stringRest : Text → Option Text
  | [] => none
  | '"' :: r => some r
  | '\\' :: _ :: r => stringRest r
  | ['\\'] => none
  | _ :: r => stringRest r

/-- a string in double quotes -/
def string : Scan
  | '"' :: r => stringRest r
  | _ => none

/-- four hexadecimal digits -/
def hex4 : Scan
  | a :: b :: c :: d :: r =>
    if isHexDigit a && isHexDigit b && isHexDigit c && isHexDigit d then some r else none
  | _ => none

/-- the part of a character literal between the quotes: an escape or any other character -/
def charBody : Scan
  | '\\' :: r => either (andThen (one (· == 'u')) hex4) (one fun _ => true) r
  | r => one (fun c => c != '\'') r

/-- a character in single quotes -/
def char : Scan :=
  andThen (one (· == '\'')) (andThen charBody (one (· == '\'')))

/-! ## numbers -/

/-- a number ends before anything that is not a word -/
def numberEnd : Scan := fun t =>
  if atWord t then none else some t

def minus : Scan := one (· == '-')

/-- a number in base sixteen -/
def hexNumber : Scan := fun t =>
  (either (exactly "0x".toList) (exactly "0X".toList) (skip minus t)).bind fun t =>
    (many1 isHexDigit t).bind fun t => numberEnd (skip (oneOf "LltTsS".toList) t)

/-- a point and digits -/
def fraction : Scan :=
  andThen (one (· == '.')) (many1 isDigit)

/-- an `e`, an optional sign and digits -/
def exponent : Scan := fun t =>
  (oneOf "eE".toList t).bind fun t => many1 isDigit (skip (oneOf "+-".toList) t)

/-- digits with an optional fraction, exponent and suffix -/
def numeral : Scan := fun t =>
  (many1 isDigit (skip minus t)).map fun t =>
    skip (oneOf "LltTsSfFdD".toList) (skip exponent (skip fraction t))

/-- the numbers that are written as words -/
def numberWord : Scan := fun t =>
  (either (exactly "Infinity".toList) (exactly "NaN".toList) (skip minus t)).map
    (skip (oneOf "fFdD".toList))

/-- a number in base ten, or one of the two that are written as words -/
def decimalNumber : Scan :=
  andThen (either numeral numberWord) numberEnd

/-! ## the rest -/

/-- a `#` and the rest of the line -/
def comment : Scan
  | '#' :: _ => some []
  | _ => none

def punctuation2 : Scan :=
  either (exactly "->".toList) (exactly "..".toList)

def punctuation1 : Scan :=
  oneOf ",\x7b\x7d[]:();=/$@".toList

end Scan

inductive Lexeme where
  | whitespace
  | comment
  | string
  | number
  | hexNumber
  | punctuation
  | directive
  | word
deriving DecidableEq, Repr

namespace Lexeme

/-- the lexemes in the order in which they are tried -/
def scans : List (Lexeme × Scan) :=
  [(.whitespace, Scan.many1 isBlank),
   (.comment, Scan.comment),
   (.string, Scan.string),
   (.string, Scan.char),
   (.hexNumber, Scan.hexNumber),
   (.number, Scan.decimalNumber),
   (.punctuation, Scan.punctuation2),
   (.directive, Scan.directiveWord),
   (.word, Scan.initializer),
   (.word, Scan.word),
   (.punctuation, Scan.punctuation1)]

/-- the lexeme at the start of a text, with what is left -/
def scan (t : Text) : Option (Lexeme × Text) :=
  scans.findSome? fun (k, f) => (f t).map fun rest => (k, rest)

end Lexeme

/-! ## what is left is an end of the text -/

namespace Scan

/-- what is left is an end of the text -/
def Keeps (f : Scan) : Prop :=
  ∀ t r, f t = some r → r <:+ t

/-- what is left is an end of the text, and shorter -/
def Advances (f : Scan) : Prop :=
  ∀ t r, f t = some r → r <:+ t ∧ r.length < t.length

theorem Advances.keeps {f : Scan} (h : Advances f) : Keeps f :=
  fun t r ht => (h t r ht).1

theorem advances_one (p : Char → Bool) : Advances (one p) := by
  intro t r h
  cases t with
  | nil => simp [one] at h
  | cons c s =>
    simp only [one, Option.ite_none_right_eq_some, Option.some.injEq] at h
    obtain ⟨-, rfl⟩ := h
    exact ⟨List.suffix_cons _ _, by simp⟩

theorem advances_many1 (p : Char → Bool) : Advances (many1 p) := by
  intro t r h
  cases t with
  | nil => simp [many1] at h
  | cons c s =>
    simp only [many1, Option.ite_none_right_eq_some, Option.some.injEq] at h
    obtain ⟨-, rfl⟩ := h
    have hs : s.dropWhile p <:+ s := List.dropWhile_suffix p
    exact ⟨hs.trans (List.suffix_cons _ _), by
      simp only [List.length_cons]; have := hs.length_le; omega⟩

theorem advances_oneOf (s : Text) : Advances (oneOf s) :=
  advances_one _

theorem exactly_cons (p : Char) (ps : Text) (c : Char) (t : Text) :
    exactly (p :: ps) (c :: t) = if p = c then exactly ps t else none := by
  show (if (p == c) = true then exactly ps t else none) = _
  simp only [beq_iff_eq]

theorem exactly_cons_of_ne {p c : Char} (h : p ≠ c) (ps t : Text) : exactly (p :: ps) (c :: t) = none := by
  rw [exactly_cons, if_neg h]

theorem keeps_exactly (s : Text) : Keeps (exactly s) := by
  intro t r h
  induction s generalizing t with
  | nil =>
    obtain rfl := Option.some.inj h
    exact List.suffix_refl _
  | cons p ps ih =>
    cases t with
    | nil => cases h
    | cons c t =>
      rw [exactly_cons, Option.ite_none_right_eq_some] at h
      exact (ih t h.2).trans (List.suffix_cons _ _)

theorem advances_exactly (p : Char) (ps : Text) : Advances (exactly (p :: ps)) := by
  intro t r h
  cases t with
  | nil => cases h
  | cons c t =>
    rw [exactly_cons, Option.ite_none_right_eq_some] at h
    have hs := keeps_exactly ps t r h.2
    exact ⟨hs.trans (List.suffix_cons _ _), by
      simp only [List.length_cons]; have := hs.length_le; omega⟩

theorem Advances.either {f g : Scan} (hf : Advances f) (hg : Advances g) :
    Advances (either f g) := by
  intro t r h
  simp only [Scan.either, Option.or_eq_some_iff] at h
  rcases h with h | ⟨-, h⟩
  · exact hf t r h
  · exact hg t r h

theorem Advances.andThen {f g : Scan} (hf : Advances f) (hg : Keeps g) :
    Advances (andThen f g) := by
  intro t r h
  obtain ⟨s, hs, hr⟩ := Option.bind_eq_some_iff.1 h
  obtain ⟨h1, h2⟩ := hf t s hs
  have h3 := hg s r hr
  exact ⟨h3.trans h1, Nat.lt_of_le_of_lt h3.length_le h2⟩

theorem Keeps.skip {f : Scan} (hf : Keeps f) (t : Text) : skip f t <:+ t := by
  unfold Scan.skip
  cases h : f t with
  | none => exact List.suffix_refl _
  | some r => exact hf t r h

/-- a recogniser after something optional -/
theorem Advances.afterSkip {f g : Scan} (hf : Advances f) (hg : Keeps g) {t r : Text}
    (h : f (skip g t) = some r) : r <:+ t ∧ r.length < t.length := by
  obtain ⟨h1, h2⟩ := hf _ _ h
  have h3 := hg.skip t
  exact ⟨h1.trans h3, Nat.lt_of_lt_of_le h2 h3.length_le⟩

theorem wordRest_suffix (t : Text) : wordRest t <:+ t := by
  induction t with
  | nil => exact List.suffix_refl _
  | cons c r ih =>
    unfold wordRest
    split
    · exact ih.trans (List.suffix_cons _ _)
    · exact List.suffix_refl _

theorem advances_word : Advances word := by
  intro t r h
  cases t with
  | nil => simp [word] at h
  | cons c s =>
    simp only [word, Option.ite_none_right_eq_some, Option.some.injEq] at h
    obtain ⟨-, rfl⟩ := h
    have hs := wordRest_suffix s
    exact ⟨hs.trans (List.suffix_cons _ _), by
      simp only [List.length_cons]; have := hs.length_le; omega⟩

theorem advances_directiveWord : Advances directiveWord :=
  (advances_one _).andThen (advances_many1 _).keeps

theorem advances_initializer : Advances initializer :=
  (advances_exactly _ _).either (advances_exactly _ _)

theorem keeps_stringRest : Keeps stringRest := by
  intro t r h
  fun_induction stringRest t with
  | case1 => simp at h
  | case2 s => simp only [Option.some.injEq] at h; exact h ▸ List.suffix_cons _ _
  | case3 c s ih =>
    exact (ih h).trans ((List.suffix_cons _ _).trans (List.suffix_cons _ _))
  | case4 => simp at h
  | case5 c s _ _ _ ih => exact (ih h).trans (List.suffix_cons _ _)

theorem advances_string : Advances string := by
  intro t r h
  unfold string at h
  split at h
  · have hs := keeps_stringRest _ _ h
    exact ⟨hs.trans (List.suffix_cons _ _), by
      simp only [List.length_cons]; have := hs.length_le; omega⟩
  · simp at h

theorem keeps_hex4 : Keeps hex4 := by
  intro t r h
  unfold hex4 at h
  split at h
  · simp only [Option.ite_none_right_eq_some, Option.some.injEq] at h
    obtain ⟨-, rfl⟩ := h
    exact ⟨[_, _, _, _], rfl⟩
  · simp at h

theorem keeps_charBody : Keeps charBody := by
  intro t r h
  unfold charBody at h
  split at h
  · exact ((((advances_one _).andThen keeps_hex4).either (advances_one _)).keeps _ _ h).trans
      (List.suffix_cons _ _)
  · exact (advances_one _).keeps _ _ h

theorem advances_char : Advances char :=
  (advances_one _).andThen fun t r h => by
    obtain ⟨s, hs, hr⟩ := Option.bind_eq_some_iff.1 h
    exact ((advances_one _).keeps _ _ hr).trans (keeps_charBody _ _ hs)

theorem keeps_numberEnd : Keeps numberEnd := by
  intro t r h
  simp only [numberEnd, Option.ite_none_left_eq_some, Option.some.injEq] at h
  exact h.2 ▸ List.suffix_refl _

theorem keeps_minus : Keeps minus :=
  (advances_one _).keeps

theorem advances_hexNumber : Advances hexNumber := by
  intro t r h
  obtain ⟨a, ha, h⟩ := Option.bind_eq_some_iff.1 h
  obtain ⟨b, hb, h⟩ := Option.bind_eq_some_iff.1 h
  obtain ⟨h1, h2⟩ :=
    ((advances_exactly _ _).either (advances_exactly _ _)).afterSkip keeps_minus ha
  have h3 := (advances_many1 _).keeps _ _ hb
  have h4 := keeps_numberEnd _ _ h
  have h5 := (advances_oneOf "LltTsS".toList).keeps.skip b
  have h6 := (h4.trans h5).trans h3
  exact ⟨h6.trans h1, Nat.lt_of_le_of_lt h6.length_le h2⟩

theorem keeps_fraction : Keeps fraction :=
  ((advances_one _).andThen (advances_many1 _).keeps).keeps

theorem keeps_exponent : Keeps exponent := by
  intro t r h
  obtain ⟨a, ha, h⟩ := Option.bind_eq_some_iff.1 h
  exact ((advances_many1 _).afterSkip (advances_oneOf _).keeps h).1.trans
    ((advances_oneOf _).keeps _ _ ha)

theorem advances_numeral : Advances numeral := by
  intro t r h
  obtain ⟨a, ha, rfl⟩ := Option.map_eq_some_iff.1 h
  obtain ⟨h1, h2⟩ := (advances_many1 _).afterSkip keeps_minus ha
  have h3 := keeps_fraction.skip a
  have h4 := keeps_exponent.skip (skip fraction a)
  have h5 := (advances_oneOf "LltTsSfFdD".toList).keeps.skip (skip exponent (skip fraction a))
  have h6 := (h5.trans h4).trans h3
  exact ⟨h6.trans h1, Nat.lt_of_le_of_lt h6.length_le h2⟩

theorem advances_numberWord : Advances numberWord := by
  intro t r h
  obtain ⟨a, ha, rfl⟩ := Option.map_eq_some_iff.1 h
  obtain ⟨h1, h2⟩ :=
    ((advances_exactly _ _).either (advances_exactly _ _)).afterSkip keeps_minus ha
  have h3 := (advances_oneOf "fFdD".toList).keeps.skip a
  exact ⟨h3.trans h1, Nat.lt_of_le_of_lt h3.length_le h2⟩

theorem advances_decimalNumber : Advances decimalNumber :=
  (advances_numeral.either advances_numberWord).andThen keeps_numberEnd

theorem advances_comment : Advances comment := by
  intro t r h
  unfold comment at h
  split at h
  · simp only [Option.some.injEq] at h
    exact ⟨h ▸ List.nil_suffix, by simp [← h]⟩
  · simp at h

theorem advances_punctuation2 : Advances punctuation2 :=
  (advances_exactly _ _).either (advances_exactly _ _)

end Scan

namespace Lexeme

theorem advances_scans : ∀ p ∈ scans, Scan.Advances p.2 := by
  simp only [scans, List.forall_mem_cons, List.not_mem_nil, false_imp_iff, implies_true, and_true]
  exact ⟨Scan.advances_many1 _, Scan.advances_comment, Scan.advances_string, Scan.advances_char,
    Scan.advances_hexNumber, Scan.advances_decimalNumber, Scan.advances_punctuation2,
    Scan.advances_directiveWord, Scan.advances_initializer, Scan.advances_word,
    Scan.advances_oneOf _⟩

/-- a lexeme has at least one character, and what is left is an end of the text -/
theorem advances_scan {t rest : Text} {k : Lexeme} (h : scan t = some (k, rest)) :
    rest <:+ t ∧ rest.length < t.length := by
  obtain ⟨⟨k', f⟩, hf, h⟩ := List.exists_of_findSome?_eq_some h
  simp only [Option.map_eq_some_iff, Prod.mk.injEq] at h
  obtain ⟨r, hr, -, rfl⟩ := h
  exact advances_scans _ hf t r hr

end Lexeme
end Smali
