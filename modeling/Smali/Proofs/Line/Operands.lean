import Smali.Line.Instruction
import Smali.Proofs.Line.Reads

/-!
# Operands and their text

Each operand is read back from its text, on a line where a blank stands before it and something after it that
no word goes on with.

* `Register.isWord_render`, `Literal.isWord_render`  registers and integers are one word each;
* `TypeDescriptor.OfWords`, ...   descriptors whose paths are words;
* `Spelled k v s`                 `s` is a text of the operand `v` in a place of kind `k`;
* `Reader.Parses f s P`           `f` takes the text `s` on every line, and gives something with `P`;
* `Spelled.parses`                every operand is read back.
-/

namespace Smali

open Text (Stops)

/-! ## registers and integers are words -/

namespace Register

theorem isWord_render (r : Register) : r.render.IsWord := by
  have h : ∀ n, ∀ c ∈ Numeral.decimal n, isWordChar c = true := by
    intro n c hc
    apply Scan.isWordChar_of_isAlphanumeric
    rw [isAlphanumeric, Numeral.isDigit_of_mem hc]
    rfl
  cases r with
  | var n => exact ⟨List.cons_ne_nil _ _, List.forall_mem_cons.mpr ⟨rfl, h n⟩⟩
  | param n => exact ⟨List.cons_ne_nil _ _, List.forall_mem_cons.mpr ⟨rfl, h n⟩⟩

theorem isBlank_of_head?_render (r : Register) (t : Text) :
    ∀ c, (r.render ++ t).head? = some c → isBlank c = false := by
  intro c hc
  obtain ⟨d, w, hw, hd, -⟩ := r.isWord_render.exists_cons
  rw [hw] at hc
  obtain rfl := Option.some.inj hc
  exact Text.isBlank_of_isWordChar hd

theorem ofWord_render (r : Register) : Lexeme.ofWord r.render = .word := by
  cases r <;> rfl

theorem isRegister_render (r : Register) : LexContext.isRegister r.render = true := by
  have h : ∀ n, ∃ d t, Numeral.decimal n = d :: t ∧ (d :: t).all isDigit = true := by
    intro n
    obtain ⟨d, t, hd⟩ := List.exists_cons_of_ne_nil (Nat.toDigits_ne_nil : Nat.toDigits 10 n ≠ [])
    refine ⟨d, t, hd, List.all_eq_true.mpr fun c hc => ?_⟩
    exact Numeral.isDigit_of_mem (n := n) (hd ▸ hc)
  cases r with
  | var n =>
    obtain ⟨d, t, hd, hall⟩ := h n
    rw [render, hd, LexContext.isRegister, hall]
    rfl
  | param n =>
    obtain ⟨d, t, hd, hall⟩ := h n
    rw [render, hd, LexContext.isRegister, hall]
    rfl

end Register

namespace Literal

theorem suffix_eq {l : Literal} (hl : l.IsInteger) :
    l.suffix = [] ∨ l.suffix = ['t'] ∨ l.suffix = ['s'] ∨ l.suffix = ['L'] := by
  rcases hl.width with hw | hw | hw | hw <;> simp [suffix, hw, Width.suffix]

theorem isWord_render {l : Literal} (hl : l.IsInteger) : l.render.IsWord := by
  obtain ⟨v, -, hrender⟩ := exists_render hl
  obtain ⟨c, r, hmag, -⟩ := exists_magnitude_eq_cons l.hex v.toInt.natAbs l.suffix
  have hdigits : ∀ b n, ∀ c ∈ magnitude b n, isWordChar c = true := by
    intro b n c hc
    have hhex : ∀ c, isHexDigit c = true → isWordChar c = true := fun c hc =>
      Scan.isWordChar_of_isAlphanumeric (Scan.isAlphanumeric_of_isHexDigit hc)
    cases b with
    | true =>
      rcases List.mem_cons.mp hc with rfl | hc
      · rfl
      · rcases List.mem_cons.mp hc with rfl | hc
        · rfl
        · exact hhex c (Numeral.isHexDigit_of_mem (by omega) (by omega) hc)
    | false => exact hhex c (Numeral.isHexDigit_of_mem (by omega) (by omega) hc)
  rw [hrender]
  refine ⟨?_, ?_⟩
  · rw [hmag]
    exact List.append_ne_nil_of_right_ne_nil _ (List.cons_ne_nil _ _)
  · intro c hc
    rcases List.mem_append.mp hc with hc | hc
    · split at hc
      · obtain rfl := List.mem_singleton.mp hc
        rfl
      · cases hc
    · rcases List.mem_append.mp hc with hc | hc
      · exact hdigits _ _ c hc
      · rcases mem_suffix hl hc with rfl | rfl | rfl <;> rfl

/-- the sign before a digit -/
theorem skip_minus {negative : Prop} [Decidable negative] {c : Char} {r : Text} (hc : isDigit c = true) :
    Scan.skip Scan.minus ((if negative then ['-'] else []) ++ c :: r) = c :: r := by
  have hne : ¬(c == '-') = true := by
    rw [beq_iff_eq]
    rintro rfl
    exact absurd hc (by decide)
  split
  · rfl
  · show (Scan.one (· == '-') (c :: r)).getD (c :: r) = _
    rw [Scan.one, if_neg hne]
    rfl

/-- what comes after the suffix, or after the digits when there is none -/
theorem head?_suffix_append {l : Literal} (hl : l.IsInteger) {r : Text} {c : Char}
    (hc : (l.suffix ++ r).head? = some c) : c = 't' ∨ c = 's' ∨ c = 'L' ∨ r.head? = some c := by
  rcases suffix_eq hl with h | h | h | h <;> rw [h] at hc
  · exact .inr (.inr (.inr hc))
  · exact .inl (Option.some.inj hc).symm
  · exact .inr (.inl (Option.some.inj hc).symm)
  · exact .inr (.inr (.inl (Option.some.inj hc).symm))

section
variable {l : Literal} (hl : l.IsInteger) {r : Text}
include hl

theorem exists_skip_minus (r : Text) :
    ∃ n, Scan.skip Scan.minus (l.render ++ r) = magnitude l.hex n ++ (l.suffix ++ r) := by
  obtain ⟨v, -, hrender⟩ := exists_render hl
  obtain ⟨c, t, ht, hc⟩ := exists_magnitude_eq_cons l.hex v.toInt.natAbs (l.suffix ++ r)
  refine ⟨v.toInt.natAbs, ?_⟩
  rw [hrender, List.append_assoc, List.append_assoc, ht, skip_minus hc]

variable (hr : ∀ c, r.head? = some c → isAlphanumeric c = false)
include hr

theorem skip_suffix {s : Text} (hs : s.all isAlphanumeric = true)
    (hsuffix : s.contains 't' = true ∧ s.contains 's' = true ∧ s.contains 'L' = true) :
    Scan.skip (Scan.oneOf s) (l.suffix ++ r) = r := by
  have hone : ∀ c, s.contains c = true → Scan.skip (Scan.oneOf s) ([c] ++ r) = r := by
    intro c hc
    rw [List.singleton_append, Scan.skip, Scan.oneOf, Scan.one, if_pos hc]
    rfl
  rcases suffix_eq hl with h | h | h | h <;> rw [h]
  · have hnone : Scan.oneOf s r = none := by
      cases r with
      | nil => rfl
      | cons c r =>
        rw [Scan.oneOf, Scan.one, if_neg]
        intro hc
        have h := List.all_eq_true.mp hs c (List.contains_iff_mem.mp hc)
        rw [hr c rfl] at h
        cases h
    rw [List.nil_append, Scan.skip, hnone]
    rfl
  · exact hone _ hsuffix.1
  · exact hone _ hsuffix.2.1
  · exact hone _ hsuffix.2.2

theorem hexNumber_render (hx : l.hex = true) (hend : Scan.atWord r = false) :
    Scan.hexNumber (l.render ++ r) = some r := by
  obtain ⟨n, hskip⟩ := exists_skip_minus hl r
  have hdigits : Scan.many1 isHexDigit (Numeral.hex n ++ (l.suffix ++ r)) = some (l.suffix ++ r) := by
    refine Scan.many1_append Nat.toDigits_ne_nil (fun c hc => Numeral.isHexDigit_of_mem (by omega) (by omega) hc) ?_
    intro c hc
    rcases head?_suffix_append hl hc with rfl | rfl | rfl | hc
    · rfl
    · rfl
    · rfl
    · exact eq_false_of_ne_true fun h =>
        absurd (Scan.isAlphanumeric_of_isHexDigit h) (Bool.eq_false_iff.mp (hr c hc))
  rw [Scan.hexNumber, hskip, hx]
  show (Scan.many1 isHexDigit (Numeral.hex n ++ (l.suffix ++ r))).bind _ = _
  rw [hdigits, Option.bind_some, skip_suffix hl hr (by decide) (by decide), Scan.numberEnd, hend,
    if_neg Bool.false_ne_true]

/-- a number in base ten has no `x` after its first digit -/
theorem hexNumber_render_eq_none (hx : l.hex = false) : Scan.hexNumber (l.render ++ r) = none := by
  obtain ⟨n, hskip⟩ := exists_skip_minus hl r
  obtain ⟨c, t, ht⟩ := List.exists_cons_of_ne_nil (Nat.toDigits_ne_nil : Nat.toDigits 10 n ≠ [])
  have hne : ∀ d, isDigit d = false → isAlphanumeric d = true → d ≠ 't' ∧ d ≠ 's' ∧ d ≠ 'L' →
      (t ++ (l.suffix ++ r)).head? ≠ some d := by
    intro d hd halpha hsuffix h
    cases t with
    | nil =>
      rcases head?_suffix_append hl h with rfl | rfl | rfl | h
      · exact hsuffix.1 rfl
      · exact hsuffix.2.1 rfl
      · exact hsuffix.2.2 rfl
      · rw [hr d h] at halpha
        cases halpha
    | cons e t =>
      obtain rfl := Option.some.inj h
      have hmem : isDigit e = true := Numeral.isDigit_of_mem (n := n) (ht ▸ List.mem_cons_of_mem _ List.mem_cons_self)
      rw [hd] at hmem
      cases hmem
  have hexactly : ∀ d, isDigit d = false → isAlphanumeric d = true → d ≠ 't' ∧ d ≠ 's' ∧ d ≠ 'L' →
      Scan.exactly ['0', d] (c :: (t ++ (l.suffix ++ r))) = none := by
    intro d hd halpha hsuffix
    have hhead := hne d hd halpha hsuffix
    rw [Scan.exactly_cons]
    cases hu : t ++ (l.suffix ++ r) with
    | nil => split <;> rfl
    | cons e u =>
      rw [hu] at hhead
      have hde : d ≠ e := fun h => hhead (h ▸ rfl)
      rw [Scan.exactly_cons_of_ne hde]
      split <;> rfl
  have hmagnitude : magnitude false n ++ (l.suffix ++ r) = c :: (t ++ (l.suffix ++ r)) := by
    show Nat.toDigits 10 n ++ _ = _
    rw [ht, List.cons_append]
  rw [Scan.hexNumber, hskip, hx, hmagnitude, Scan.either]
  rw [show "0x".toList = ['0', 'x'] from rfl, show "0X".toList = ['0', 'X'] from rfl,
    hexactly 'x' (by decide) (by decide) (by decide), hexactly 'X' (by decide) (by decide) (by decide)]
  rfl

theorem decimalNumber_render (hx : l.hex = false) (hend : Scan.atWord r = false) (hdot : r.head? ≠ some '.') :
    Scan.decimalNumber (l.render ++ r) = some r := by
  obtain ⟨n, hskip⟩ := exists_skip_minus hl r
  have hdigits : Scan.many1 isDigit (Numeral.decimal n ++ (l.suffix ++ r)) = some (l.suffix ++ r) := by
    refine Scan.many1_append Nat.toDigits_ne_nil (fun c hc => Numeral.isDigit_of_mem hc) ?_
    intro c hc
    rcases head?_suffix_append hl hc with rfl | rfl | rfl | hc
    · rfl
    · rfl
    · rfl
    · have h := hr c hc
      rw [isAlphanumeric, Bool.or_assoc, Bool.or_eq_false_iff] at h
      exact h.1
  -- neither a point nor an `e` goes on with the digits
  have hone : ∀ p : Char → Bool, p 't' = false ∧ p 's' = false ∧ p 'L' = false →
      (∀ c, r.head? = some c → p c = false) → Scan.one p (l.suffix ++ r) = none := by
    intro p hp hpr
    cases ht : l.suffix ++ r with
    | nil => rfl
    | cons c t =>
      rw [Scan.one, if_neg]
      rw [Bool.not_eq_true]
      rcases head?_suffix_append hl (by rw [ht]; rfl) with rfl | rfl | rfl | hc
      · exact hp.1
      · exact hp.2.1
      · exact hp.2.2
      · exact hpr c hc
  have hfraction : Scan.skip Scan.fraction (l.suffix ++ r) = l.suffix ++ r := by
    rw [Scan.skip, Scan.fraction, Scan.andThen, hone (· == '.') (by decide)]
    · rfl
    · intro c hc
      rw [beq_eq_false_iff_ne]
      rintro rfl
      exact hdot hc
  have hexponent : Scan.skip Scan.exponent (l.suffix ++ r) = l.suffix ++ r := by
    rw [Scan.skip, Scan.exponent, Scan.oneOf, hone (fun c => "eE".toList.contains c) (by decide)]
    · rfl
    · intro c hc
      refine eq_false_of_ne_true fun h => absurd (hr c hc) ?_
      have hmem : c ∈ ['e', 'E'] := List.contains_iff_mem.mp h
      simp only [List.mem_cons, List.not_mem_nil, or_false] at hmem
      rcases hmem with rfl | rfl <;> decide
  have hnumeral : Scan.numeral (l.render ++ r) = some r := by
    rw [Scan.numeral, hskip, hx]
    show (Scan.many1 isDigit (Numeral.decimal n ++ (l.suffix ++ r))).map _ = _
    rw [hdigits, Option.map_some, hfraction, hexponent, skip_suffix hl hr (by decide) (by decide)]
  rw [Scan.decimalNumber, Scan.andThen, Scan.either, hnumeral, Option.some_or, Option.bind_some, Scan.numberEnd, hend,
    if_neg Bool.false_ne_true]

end

/-- an integer is a number, in base sixteen or in base ten, when no word and no fraction goes on with it -/
theorem scan_render {l : Literal} (hl : l.IsInteger) {r : Text} (hend : Scan.atWord r = false)
    (hdot : r.head? ≠ some '.') :
    ∃ k, (k = .number ∨ k = .hexNumber) ∧ Lexeme.scan (l.render ++ r) = some (k, r) := by
  have hr : ∀ c, r.head? = some c → isAlphanumeric c = false := fun _ => Scan.isAlphanumeric_of_atWord hend
  obtain ⟨c, s, hs, hc, -⟩ := (isWord_render hl).exists_cons
  cases hx : l.hex with
  | true =>
    refine ⟨.hexNumber, .inr rfl, ?_⟩
    have hnumber := hexNumber_render hl hr hx hend
    rw [hs, List.cons_append] at hnumber ⊢
    rw [Lexeme.scan_of_isWordChar hc, hnumber]
    rfl
  | false =>
    refine ⟨.number, .inl rfl, ?_⟩
    have hnone := hexNumber_render_eq_none hl hr hx
    have hnumber := decimalNumber_render hl hr hx hend hdot
    rw [hs, List.cons_append] at hnone hnumber ⊢
    rw [Lexeme.scan_of_isWordChar hc, hnone, hnumber]
    rfl

end Literal

/-! ## descriptors of words -/

def BaseType.OfWords : BaseType → Prop
  | .primitive _ => True
  | .object path => path.path.IsWord

def TypeDescriptor.OfWords (t : TypeDescriptor) : Prop :=
  t.base.OfWords

def Prototype.OfWords (p : Prototype) : Prop :=
  (∀ t ∈ p.parameters, t.OfWords) ∧ p.returnType.OfWords

/-- the name is a word or one of the two in angle brackets -/
def Member.OfWords : Member → Prop
  | .field name type => Lexer.IsMemberName name ∧ type.OfWords
  | .method m => Lexer.IsMemberName m.name ∧ m.prototype.OfWords

/-- the owner is no plain primitive -/
def Reference.OfWords (r : Reference) : Prop :=
  r.owner.OfWords ∧ r.owner.isPrimitive = false ∧ r.member.OfWords

instance (b : BaseType) : Decidable b.OfWords :=
  match b with
  | .primitive _ => isTrue trivial
  | .object path => inferInstanceAs (Decidable path.path.IsWord)

instance (t : TypeDescriptor) : Decidable t.OfWords :=
  inferInstanceAs (Decidable t.base.OfWords)

instance (p : Prototype) : Decidable p.OfWords :=
  inferInstanceAs (Decidable ((∀ t ∈ p.parameters, t.OfWords) ∧ p.returnType.OfWords))

instance (m : Member) : Decidable m.OfWords :=
  match m with
  | .field name type => inferInstanceAs (Decidable (Lexer.IsMemberName name ∧ type.OfWords))
  | .method m => inferInstanceAs (Decidable (Lexer.IsMemberName m.name ∧ m.prototype.OfWords))

instance (r : Reference) : Decidable r.OfWords :=
  inferInstanceAs (Decidable (r.owner.OfWords ∧ r.owner.isPrimitive = false ∧ r.member.OfWords))

/-- what is no word character is none of a class with fewer exceptions -/
theorem not_contains_of_isWordChar {c : Char} (hc : isWordChar c = true) {except : Text}
    (h : except.any isWordChar = false) : except.contains c = false := by
  cases hcon : except.contains c with
  | false => rfl
  | true => exact absurd hc (List.any_eq_false.mp h c (List.contains_iff_mem.mp hcon))

theorem isPathChar_of_isWordChar {c : Char} (hc : isWordChar c = true) : ClassPath.isPathChar c = true := by
  rw [ClassPath.isPathChar, Text.isBlank_of_isWordChar hc, not_contains_of_isWordChar hc (by decide)]
  rfl

theorem isNameChar_of_isWordChar {c : Char} (hc : isWordChar c = true) : MemberName.isNameChar c = true := by
  rw [MemberName.isNameChar, Text.isBlank_of_isWordChar hc, not_contains_of_isWordChar hc (by decide)]
  rfl

theorem TypeDescriptor.OfWords.wellFormed {t : TypeDescriptor} (h : t.OfWords) : t.WellFormed := by
  obtain ⟨depth, base⟩ := t
  cases base with
  | primitive p => trivial
  | object path => exact ⟨h.1, fun c hc => isPathChar_of_isWordChar (h.2 c hc)⟩

theorem Prototype.OfWords.wellFormed {p : Prototype} (h : p.OfWords) : p.WellFormed :=
  ⟨fun t ht => (h.1 t ht).wellFormed, h.2.wellFormed⟩

theorem MemberName.wellFormed_of_isMemberName {n : Text} (h : Lexer.IsMemberName n) :
    MemberName.WellFormed n := by
  rcases h with h | h | h
  · exact .inl h
  · exact .inr (.inl h)
  · exact .inr (.inr ⟨h.1, fun c hc => isNameChar_of_isWordChar (h.2 c hc)⟩)

theorem Reference.OfWords.wellFormed {r : Reference} (h : r.OfWords) : r.WellFormed := by
  obtain ⟨owner, member⟩ := r
  refine ⟨h.1.wellFormed, h.2.1, ?_⟩
  cases member with
  | field name type =>
    exact ⟨MemberName.wellFormed_of_isMemberName h.2.2.1, h.2.2.2.wellFormed⟩
  | method m =>
    exact ⟨MemberName.wellFormed_of_isMemberName h.2.2.1, h.2.2.2.wellFormed⟩

/-! ### their characters -/

theorem isDescriptorChar_of_isWordChar {c : Char} (hc : isWordChar c = true) :
    Lexer.isDescriptorChar c = true := by
  rw [Lexer.isDescriptorChar, hc]
  rfl

theorem Primitive.isWordChar_letter (p : Primitive) : isWordChar p.letter = true := by
  cases p <;> decide

theorem TypeDescriptor.OfWords.forall_mem_render {t : TypeDescriptor} (h : t.OfWords) :
    ∀ c ∈ t.render, Lexer.isDescriptorChar c = true := by
  intro c hc
  rcases List.mem_append.mp hc with hc | hc
  · obtain rfl := List.eq_of_mem_replicate hc
    rfl
  · obtain ⟨depth, base⟩ := t
    cases base with
    | primitive p =>
      obtain rfl := List.mem_singleton.mp hc
      exact isDescriptorChar_of_isWordChar p.isWordChar_letter
    | object path =>
      rcases List.mem_append.mp hc with hc | hc
      · rcases List.mem_cons.mp hc with rfl | hc
        · rfl
        · exact isDescriptorChar_of_isWordChar (h.2 c hc)
      · obtain rfl := List.mem_singleton.mp hc
        rfl

theorem Prototype.OfWords.forall_mem_render {p : Prototype} (h : p.OfWords) :
    ∀ c ∈ p.render, Lexer.isDescriptorChar c = true := by
  intro c hc
  rcases List.mem_append.mp hc with hc | hc
  · rcases List.mem_cons.mp hc with rfl | hc
    · rfl
    · obtain ⟨s, hs, hc⟩ := List.mem_flatten.mp hc
      obtain ⟨t, ht, rfl⟩ := List.mem_map.mp hs
      exact (h.1 t ht).forall_mem_render c hc
  · rcases List.mem_cons.mp hc with rfl | hc
    · rfl
    · exact h.2.forall_mem_render c hc

/-- a type starts with a bracket or a letter -/
theorem TypeDescriptor.exists_render_eq_cons (t : TypeDescriptor) :
    ∃ c r, t.render = c :: r ∧ isBlank c = false ∧ c ≠ '#' := by
  obtain ⟨depth, base⟩ := t
  cases depth with
  | succ n => exact ⟨'[', List.replicate n '[' ++ base.render, rfl, by decide, by decide⟩
  | zero =>
    cases base with
    | primitive p => exact ⟨p.letter, [], rfl, by cases p <;> decide, by cases p <;> decide⟩
    | object path => exact ⟨'L', path.path ++ [';'], rfl, by decide, by decide⟩

theorem Reference.exists_render_eq_cons (x : Reference) :
    ∃ c r, x.render = c :: r ∧ isBlank c = false ∧ c ≠ '#' := by
  obtain ⟨c, r, hr, hc⟩ := x.owner.exists_render_eq_cons
  refine ⟨c, r ++ "->".toList ++ x.member.render, ?_, hc⟩
  rw [render, hr]
  rfl

/-! ## descriptors on a line -/

namespace Lexer

variable (catalog : Catalog) {l : Lexer} {r : Text}

/-- before an arrow, where a word ends although its last character and the arrow have one in common -/
theorem passes_owner {owner : TypeDescriptor} (ho : owner.OfWords) (hl : l.Plain)
    (hrest : l.rest = owner.render ++ '-' :: '>' :: r) :
    ∃ l', Passes catalog l owner.render l' ∧ l'.Plain := by
  have hmem := ho.forall_mem_render
  obtain ⟨depth, base⟩ := owner
  cases base with
  | primitive p =>
    have hend : ∀ w, Text.IsWord w → w <:+ List.replicate depth '[' → Stops (p.letter :: '-' :: '>' :: r) := by
      intro w hw hsuffix
      cases depth with
      | zero => exact absurd (List.suffix_nil.mp hsuffix) hw.1
      | succ n =>
        rw [List.replicate_succ'] at hsuffix
        exact absurd hsuffix (not_isWord_suffix (by decide) _ hw)
    have hrest' : l.rest = List.replicate depth '[' ++ p.letter :: '-' :: '>' :: r := by
      rw [hrest]
      exact List.append_assoc _ _ _
    obtain ⟨m, hm, hplain⟩ := passes_descriptor catalog l hl
      (fun c hc => hmem c (List.mem_append_left _ hc)) hend hrest'
    have hscan : Lexeme.scan (p.letter :: '-' :: '>' :: r) = some (.word, '-' :: '>' :: r) := by
      cases p <;> rfl
    have hcolon : p.letter ≠ ':' ∧ p.letter ≠ '>' := by
      cases p <;> decide
    obtain ⟨l', h, hnext⟩ := takes_of_scan catalog hplain (s := [p.letter]) (List.cons_ne_nil _ _)
      (hm.rest_eq hrest') (Piece.atLabel_of_ne hcolon.1 _ _) hscan (by decide)
    refine ⟨l', hm.trans h.toPasses, hnext, ?_⟩
    rw [h.behind]
    exact Piece.afterArrow_cons hcolon.2 _
  | object path =>
    refine passes_descriptor catalog l hl hmem (fun w hw hsuffix => ?_) hrest
    have htext : TypeDescriptor.render ⟨depth, .object path⟩ =
        List.replicate depth '[' ++ 'L' :: path.path ++ [';'] := (List.append_assoc _ _ _).symm
    rw [htext] at hsuffix
    exact absurd hsuffix (not_isWord_suffix (by decide) _ hw)

/-- a type or a prototype with something after it that no word goes on with -/
theorem passes_of_stops {s : Text} (hs : ∀ c ∈ s, isDescriptorChar c = true) (hl : l.Plain)
    (hrest : l.rest = s ++ r) (hr : Stops r) : ∃ l', Passes catalog l s l' ∧ l'.Plain :=
  passes_descriptor catalog l hl hs (fun _ _ _ => hr) hrest

theorem passes_member {b : Text} {x : Member} (hx : x.OfWords) (hnext : l.context.labelNext = false)
    (hb : l.behind = '>' :: '-' :: b) (hrest : l.rest = x.render ++ r) (hr : Stops r) :
    ∃ l', Passes catalog l x.render l' ∧ l'.Plain := by
  cases x with
  | field name type =>
    have hrest' : l.rest = name ++ ':' :: (type.render ++ r) := by
      rw [hrest]
      exact List.append_assoc _ _ _
    obtain ⟨k, m, hm, hplain, hcolon⟩ := takes_name catalog hnext hb hx.1 hrest' (.inr rfl)
    obtain ⟨u, hu, hplain'⟩ := takes_colon catalog hplain (hm.rest_eq hrest') (hcolon _)
    obtain ⟨l', h, hl'⟩ := passes_of_stops catalog hx.2.forall_mem_render hplain'
      (hu.rest_eq (hm.rest_eq hrest')) hr
    exact ⟨l', hm.trans (hu.trans h), hl'⟩
  | method sig =>
    have hrest' : l.rest = sig.name ++ '(' :: (sig.prototype.render.tail ++ r) := by
      rw [hrest]
      exact List.append_assoc _ _ _
    obtain ⟨k, m, hm, hplain, -⟩ := takes_name catalog hnext hb hx.1 hrest' (.inl rfl)
    obtain ⟨l', h, hl'⟩ := passes_of_stops catalog (s := sig.prototype.render)
      hx.2.forall_mem_render hplain (hm.rest_eq hrest') hr
    exact ⟨l', hm.trans h, hl'⟩

theorem passes_reference {x : Reference} (hx : x.OfWords) (hl : l.Plain) (hrest : l.rest = x.render ++ r)
    (hr : Stops r) : ∃ l', Passes catalog l x.render l' ∧ l'.Plain := by
  obtain ⟨howner, -, hmember⟩ := hx
  have hrest' : l.rest = x.owner.render ++ '-' :: '>' :: (x.member.render ++ r) := by
    rw [hrest, Reference.render, List.append_assoc, List.append_assoc]
    rfl
  obtain ⟨m, hm, hplain⟩ := passes_owner catalog howner hl hrest'
  obtain ⟨u, hu, hnext⟩ := takes_arrow catalog hplain (hm.rest_eq hrest')
  obtain ⟨l', h, hl'⟩ := passes_member catalog hmember hnext hu.behind
    (hu.rest_eq (hm.rest_eq hrest')) hr
  exact ⟨l', (hm.trans hu.toPasses).trans h, hl'⟩

end Lexer

/-! ## operands -/

/-- `s` is a text of the operand `v` in a place of kind `k` -/
inductive Spelled : OperandKind → OperandValue → Text → Prop where
  | register (r : Register) : Spelled .register (.register r) r.render
  | registerList (rs : List Register) : Spelled .registerList (.registerList rs)
      ('\x7b' :: (", ".toList.intercalate (rs.map Register.render) ++ ['\x7d']))
  | registerRange (r : RegisterRange) : Spelled .registerRange (.registerRange r) r.render
  | literal {x : Literal} (hx : x.IsInteger) : Spelled .literal (.literal x) x.render
  /-- the text in quotes is one lexeme -/
  | string {t : Text} (ht : Lexeme.scan ('"' :: (t ++ ['"'])) = some (.string, [])) :
    Spelled .string (.string t) ('"' :: (t ++ ['"']))
  | type {t : TypeDescriptor} (ht : t.OfWords) : Spelled .type (.type t) t.render
  | field {x : Reference} (hx : x.OfWords) (hm : x.member.isField = true) :
    Spelled .field (.reference x) x.render
  | method {x : Reference} (hx : x.OfWords) (hm : x.member.isField = false) :
    Spelled .method (.reference x) x.render
  | proto {p : Prototype} (hp : p.OfWords) : Spelled .proto (.prototype p) p.render
  | label {name : Text} (hname : name.IsWord) : Spelled .label (.label name) (':' :: name)
  /-- the name of the table is a word that is neither a number nor a register -/
  | index {table : Text} {x : Literal} {n : Nat} (ht : table.IsWord) (hword : Lexeme.ofWord table = .word)
    (hreg : LexContext.isRegister table = false) (hx : x.IsInteger) (hn : x.toInt? = some (n : Int)) :
    Spelled .index (.index table n) (table ++ '@' :: x.render)

namespace Spelled

/-- no operand starts with a blank -/
theorem exists_eq_cons {k : OperandKind} {v : OperandValue} {s : Text} (h : Spelled k v s) :
    ∃ c t, s = c :: t ∧ isBlank c = false := by
  have hword : ∀ {w : Text}, w.IsWord → ∀ u, ∃ c t, w ++ u = c :: t ∧ isBlank c = false := by
    intro w hw u
    obtain ⟨c, t, rfl, hc, -⟩ := hw.exists_cons
    exact ⟨c, t ++ u, rfl, Text.isBlank_of_isWordChar hc⟩
  cases h with
  | register r => simpa using hword r.isWord_render []
  | registerList rs => exact ⟨'\x7b', _, rfl, by decide⟩
  | registerRange r => exact ⟨'\x7b', _, rfl, by decide⟩
  | literal hx => simpa using hword (Literal.isWord_render hx) []
  | string ht => exact ⟨'"', _, rfl, by decide⟩
  | type ht =>
    rename_i t
    obtain ⟨c, u, hu, hc, -⟩ := t.exists_render_eq_cons
    exact ⟨c, u, hu, hc⟩
  | field hx hm =>
    rename_i x
    obtain ⟨c, u, hu, hc, -⟩ := x.exists_render_eq_cons
    exact ⟨c, u, hu, hc⟩
  | method hx hm =>
    rename_i x
    obtain ⟨c, u, hu, hc, -⟩ := x.exists_render_eq_cons
    exact ⟨c, u, hu, hc⟩
  | proto hp => exact ⟨'(', _, rfl, by decide⟩
  | label hname => exact ⟨':', _, rfl, by decide⟩
  | index ht _ _ _ _ => exact hword ht _

end Spelled

namespace Reader

open Lexer (Passes Takes)

variable (catalog : Catalog)

/-- On every line the reader takes `s`, with a blank before it and something after it that no word goes on
with, and gives something with `P`. -/
def Parses {α : Type} (f : Reader α) (s : Text) (P : α → Prop) : Prop :=
  ∀ (l : Lexer) (b r : Text), l.Plain → l.behind = ' ' :: b → l.rest = s ++ r → Stops r →
    ∃ l', Passes catalog l s l' ∧ l'.Plain ∧ Reads catalog l l' f P

/-- what is done with the result, when it reads no more -/
theorem Parses.bind {α β : Type} {catalog : Catalog} {f : Reader α} {g : α → Reader β} {s : Text} {P : α → Prop}
    {Q : β → Prop} (hf : Parses catalog f s P) (hg : ∀ a, P a → ∀ l, Reads catalog l l (g a) Q) :
    Parses catalog (f >>= g) s Q := by
  intro l b r hl hb hrest hr
  obtain ⟨l', h, hl', hreads⟩ := hf l b r hl hb hrest hr
  exact ⟨l', h, hl', Reads.bind h.text_eq hreads fun a ha => hg a ha l'⟩

variable {l : Lexer} {r : Text}

theorem takes_register (x : Register) (hl : l.Plain) (hrest : l.rest = x.render ++ r) (hr : Stops r) :
    ∃ l', Takes catalog l .register x.render l' ∧ l'.Plain := by
  obtain ⟨l', h, hl'⟩ := Lexer.takes_word catalog hl x.isWord_render hrest hr
  rw [x.ofWord_render] at h
  have hkind : (Piece.ofLexeme catalog l.context .word x.render r).kind = .register :=
    LexContext.wordKind_of_isRegister catalog l.context x.isRegister_render
  rw [hkind] at h
  exact ⟨l', h, hl'⟩

/-- an integer, before an arrow too -/
theorem takes_literal {x : Literal} (hx : x.IsInteger) (hl : l.Plain) (hrest : l.rest = x.render ++ r)
    (hend : Scan.atWord r = false) (hdot : r.head? ≠ some '.') :
    ∃ k l', (k = .number ∨ k = .hexNumber) ∧ Takes catalog l k x.render l' ∧ l'.Plain := by
  obtain ⟨k, hk, hscan⟩ := Literal.scan_render hx hend hdot
  have hword := Literal.isWord_render hx
  obtain ⟨l', h, hnext⟩ := Lexer.takes_of_scan catalog hl hword.1 hrest (Lexer.atLabel_of_isWord hword _ _) hscan (by
    rcases hk with rfl | rfl <;> decide)
  refine ⟨_, l', ?_, h, hnext, ?_⟩
  · rcases hk with rfl | rfl
    · exact .inl rfl
    · exact .inr rfl
  · rw [h.behind]
    exact Lexer.afterArrow_of_isWord hword _

theorem parses_register (x : Register) : Parses catalog register x.render fun o => o.value = .register x := by
  have hbare : Parses catalog bareRegister x.render fun p => p.1 = x := by
    intro l b r hl _ hrest hr
    obtain ⟨l', h, hl'⟩ := takes_register catalog x hl hrest hr
    exact ⟨l', h.toPasses, hl', reads_bareRegister h⟩
  apply hbare.bind
  rintro ⟨y, span⟩ rfl l
  exact Reads.pure rfl

theorem parses_literal {x : Literal} (hx : x.IsInteger) :
    Parses catalog literal x.render fun o => o.value = .literal x := by
  have hbare : Parses catalog bareLiteral x.render fun p => p.1 = x := by
    intro l b r hl _ hrest hr
    obtain ⟨k, l', hk, h, hl'⟩ := takes_literal catalog hx hl hrest (Scan.atWord_of_stops hr)
      (Scan.head?_ne_dot_of_stops hr)
    exact ⟨l', h.toPasses, hl', reads_bareLiteral hx hk h⟩
  apply hbare.bind
  rintro ⟨y, span⟩ rfl l
  exact Reads.pure rfl

theorem parses_string {t : Text} (ht : Lexeme.scan ('"' :: (t ++ ['"'])) = some (.string, [])) :
    Parses catalog string ('"' :: (t ++ ['"'])) fun o => o.value = .string t := by
  intro l b r hl _ hrest _
  obtain ⟨l', h, hl'⟩ := Lexer.takes_string catalog hl ht hrest
  exact ⟨l', h.toPasses, hl', reads_string h⟩

theorem parses_label {name : Text} (hname : name.IsWord) :
    Parses catalog label (':' :: name) fun o => o.value = .label name := by
  have hbare : Parses catalog bareLabel (':' :: name) fun p => p.1 = name := by
    intro l b r hl hb hrest hr
    obtain ⟨m, l', hm, h, hl'⟩ := Lexer.takes_label catalog hl hb hname hrest hr
    exact ⟨l', hm.trans h.toPasses, hl', reads_bareLabel hm h⟩
  apply hbare.bind
  rintro ⟨y, span⟩ rfl l
  exact Reads.pure rfl

/-! ### descriptors -/

/-- a descriptor whose text the lexer passes over -/
theorem parses_descriptor {α : Type} {read? : Text → Option (α × Text)} {render : α → Text} {W : α → Prop}
    (hread : Exact read? render W) (what : Text) {v : α} (hv : W v)
    (hhead : ∃ c t, render v = c :: t ∧ isBlank c = false ∧ c ≠ '#')
    (hpass : ∀ {l : Lexer} {r : Text}, l.Plain → l.rest = render v ++ r → Stops r →
      ∃ l', Passes catalog l (render v) l' ∧ l'.Plain) :
    Parses catalog (descriptor what read?) (render v) fun p => p.1 = v := by
  intro l b r hl _ hrest hr
  obtain ⟨l', h, hl'⟩ := hpass hl hrest hr
  obtain ⟨c, t, ht, hblank, hc⟩ := hhead
  rw [ht] at hrest
  exact ⟨l', h, hl', reads_descriptor hread what hv h (Lexer.exists_first catalog hrest hblank hc)⟩

theorem parses_type {t : TypeDescriptor} (ht : t.OfWords) :
    Parses catalog (LineParser.operand .type) t.render fun o => o.value = .type t := by
  apply (parses_descriptor catalog TypeDescriptor.exact_read? _ ht.wellFormed t.exists_render_eq_cons
    (Lexer.passes_of_stops catalog ht.forall_mem_render)).bind
  rintro ⟨y, span⟩ rfl l
  exact Reads.pure rfl

theorem parses_proto {p : Prototype} (hp : p.OfWords) :
    Parses catalog (LineParser.operand .proto) p.render fun o => o.value = .prototype p := by
  apply (parses_descriptor catalog Prototype.exact_read? _ hp.wellFormed ⟨'(', _, rfl, by decide, by decide⟩
    (Lexer.passes_of_stops catalog hp.forall_mem_render)).bind
  rintro ⟨y, span⟩ rfl l
  exact Reads.pure rfl

theorem parses_reference {x : Reference} (hx : x.OfWords) {k : OperandKind}
    (hk : x.member.isField = (k == .field)) :
    Parses catalog (LineParser.reference k) x.render fun o => o.value = .reference x := by
  apply (parses_descriptor catalog Reference.exact_read? _ hx.wellFormed x.exists_render_eq_cons
    (Lexer.passes_reference catalog hx)).bind
  rintro ⟨y, span⟩ rfl l
  exact Reads.ite_pos (beq_iff_eq.mpr hk) (Reads.pure rfl)

/-! ### registers in braces -/

/-- Registers with commas between them and a brace after them.  There are at least as many tokens as
registers, so the bound of the reader is never met. -/
theorem exists_reads_registers (x : Register) (xs : List Register) (l : Lexer) (hl : l.Plain)
    (hrest : l.rest = ", ".toList.intercalate ((x :: xs).map Register.render) ++ '\x7d' :: r) :
    ∃ l', Passes catalog l (", ".toList.intercalate ((x :: xs).map Register.render)) l' ∧ l'.Plain ∧
      (∃ m, Takes catalog l .register x.render m) ∧ xs.length < (l.significant catalog).length ∧
      ∀ n, xs.length < n → Reads catalog l l' (registers n) fun ys => ys = x :: xs := by
  induction xs generalizing x l with
  | nil =>
    rw [List.map_singleton, List.intercalate_singleton] at hrest ⊢
    obtain ⟨l', h, hl'⟩ := takes_register catalog x hl hrest (Text.stops_cons (by decide) _)
    obtain ⟨u, hu, -⟩ := Lexer.takes_delimiter catalog hl' (c := '\x7d') (by decide) (h.rest_eq hrest)
    obtain ⟨t, hsig, -⟩ := h.token
    refine ⟨l', h.toPasses, hl', ⟨l', h⟩, by rw [hsig]; exact Nat.zero_lt_succ _, ?_⟩
    intro n hn
    obtain ⟨k, rfl⟩ := Nat.exists_eq_add_one_of_ne_zero (Nat.ne_of_gt hn)
    refine Reads.bind h.text_eq (reads_bareRegister h) ?_
    rintro ⟨y, span⟩ rfl
    refine Reads.bind rfl (reads_eat_of_ne hu (by decide)) ?_
    rintro b rfl
    exact Reads.ite_neg Bool.false_ne_true (Reads.pure rfl)
  | cons x' xs ih =>
    have htext : ", ".toList.intercalate ((x :: x' :: xs).map Register.render) =
        x.render ++ ([','] ++ ([' '] ++ ", ".toList.intercalate ((x' :: xs).map Register.render))) := by
      rw [List.map_cons, List.map_cons, List.intercalate_cons_cons, List.append_assoc]
      rfl
    have hrest' : l.rest = x.render ++ ',' :: ' ' ::
        (", ".toList.intercalate ((x' :: xs).map Register.render) ++ '\x7d' :: r) := by
      rw [hrest, htext, List.append_assoc]
      rfl
    have hblank : ∀ c, (", ".toList.intercalate ((x' :: xs).map Register.render) ++ '\x7d' :: r).head? = some c →
        isBlank c = false := by
      rw [List.map_cons, Text.intercalate_cons, List.append_assoc]
      exact x'.isBlank_of_head?_render _
    obtain ⟨l1, h1, hl1⟩ := takes_register catalog x hl hrest' (Text.stops_cons (by decide) _)
    obtain ⟨l2, h2, hl2⟩ := Lexer.takes_delimiter catalog hl1 (c := ',') (by decide) (h1.rest_eq hrest')
    have hrest2 : l2.rest = _ := h2.rest_eq (h1.rest_eq hrest')
    obtain ⟨l3, h3, hsig3, hl3⟩ := Lexer.skips_blank catalog hl2 hrest2 hblank
    obtain ⟨l', h4, hl', -, hlen, hreads⟩ := ih x' l3 hl3 (h3.rest_eq hrest2)
    obtain ⟨t1, hsig1, -⟩ := h1.token
    obtain ⟨t2, hsig2, -⟩ := h2.token
    refine ⟨l', ?_, hl', ⟨l1, h1⟩, ?_, ?_⟩
    · rw [htext]
      exact h1.trans (h2.trans (h3.trans h4))
    · rw [hsig1, hsig2, hsig3]
      simp only [List.length_cons] at hlen ⊢
      omega
    · intro n hn
      rw [List.length_cons] at hn
      obtain ⟨k, rfl⟩ : ∃ k, n = k + 1 := ⟨n - 1, by omega⟩
      refine Reads.bind h1.text_eq (reads_bareRegister h1) ?_
      rintro ⟨y, span⟩ rfl
      refine Reads.bind h2.text_eq (reads_eat h2) ?_
      rintro b rfl
      refine Reads.ite_pos rfl (Reads.bind (h3.trans h4).text_eq
        (Reads.of_significant_eq h3.text_eq hsig3 (hreads k (by omega))) ?_)
      rintro ys rfl
      exact Reads.pure rfl

theorem parses_registerList (xs : List Register) : Parses catalog registerList
    ('\x7b' :: (", ".toList.intercalate (xs.map Register.render) ++ ['\x7d'])) fun o => o.value = .registerList xs := by
  intro l b r hl _ hrest _
  obtain ⟨l1, h1, hl1⟩ := Lexer.takes_delimiter catalog hl (c := '\x7b') (by decide) hrest
  have hrest1 : l1.rest = ", ".toList.intercalate (xs.map Register.render) ++ '\x7d' :: r := by
    rw [h1.rest_eq hrest]
    exact List.append_assoc _ _ _
  cases xs with
  | nil =>
    obtain ⟨l', h2, hl'⟩ := Lexer.takes_delimiter catalog hl1 (c := '\x7d') (by decide) hrest1
    refine ⟨l', h1.trans h2.toPasses, hl', Reads.bind h1.text_eq (reads_delimiter h1) fun opening _ => ?_⟩
    refine Reads.get_bind fun c hc => Reads.ite_pos ?_ ?_
    · rw [atDelimiter_of_takes h2 hc]
      rfl
    · exact Reads.bind rfl (Reads.pure (P := (· = [])) rfl) fun ys hys =>
        Reads.bind h2.text_eq (reads_delimiter h2) fun closing _ => Reads.pure (hys ▸ rfl)
  | cons x xs =>
    obtain ⟨l2, h2, hl2, ⟨m, hm⟩, hlen, hreads⟩ := exists_reads_registers catalog x xs l1 hl1 hrest1
    obtain ⟨l', h3, hl'⟩ := Lexer.takes_delimiter catalog hl2 (c := '\x7d') (by decide) (h2.rest_eq hrest1)
    refine ⟨l', h1.trans (h2.trans h3.toPasses), hl', Reads.bind h1.text_eq (reads_delimiter h1) fun opening _ => ?_⟩
    refine Reads.get_bind fun c hc => Reads.ite_neg ?_ ?_
    · rw [atDelimiter_of_takes hm hc]
      exact Bool.false_ne_true
    · -- the bound counts tokens, and each register is one
      have hbound : xs.length < c.tokens.length + 1 := by
        rw [hc]
        omega
      refine Reads.bind h2.text_eq (hreads _ hbound) ?_
      rintro ys rfl
      exact Reads.bind h3.text_eq (reads_delimiter h3) fun closing _ => Reads.pure rfl

theorem parses_registerRange (x : RegisterRange) :
    Parses catalog registerRange x.render fun o => o.value = .registerRange x := by
  intro l b r hl _ hrest _
  obtain ⟨first, last⟩ := x
  have hrest' : l.rest = '\x7b' :: (first.render ++ ' ' :: '.' :: '.' :: ' ' :: (last.render ++ '\x7d' :: r)) := by
    rw [hrest, RegisterRange.render]
    simp
  obtain ⟨l1, h1, hl1⟩ := Lexer.takes_delimiter catalog hl (c := '\x7b') (by decide) hrest'
  have hrest1 : l1.rest = _ := h1.rest_eq hrest'
  obtain ⟨l2, h2, hl2⟩ := takes_register catalog first hl1 hrest1 (Text.stops_cons (by decide) _)
  have hrest2 := h2.rest_eq hrest1
  obtain ⟨l3, h3, hsig3, hl3⟩ := Lexer.skips_blank catalog hl2 hrest2 (by
    intro c hc
    obtain rfl := Option.some.inj hc
    decide)
  have hrest3 : l3.rest = _ := h3.rest_eq hrest2
  obtain ⟨l4, h4, hl4⟩ := Lexer.takes_dots catalog hl3 hrest3
  have hrest4 : l4.rest = _ := h4.rest_eq hrest3
  obtain ⟨l5, h5, hsig5, hl5⟩ := Lexer.skips_blank catalog hl4 hrest4 (last.isBlank_of_head?_render _)
  have hrest5 : l5.rest = _ := h5.rest_eq hrest4
  obtain ⟨l6, h6, hl6⟩ := takes_register catalog last hl5 hrest5 (Text.stops_cons (by decide) _)
  obtain ⟨l', h7, hl'⟩ := Lexer.takes_delimiter catalog hl6 (c := '\x7d') (by decide) (h6.rest_eq hrest5)
  refine ⟨l', ?_, hl', ?_⟩
  · have hpass := h1.trans (h2.trans (h3.trans (h4.trans (h5.trans (h6.trans h7.toPasses)))))
    rw [RegisterRange.render]
    simpa using hpass
  refine Reads.bind h1.text_eq (reads_delimiter h1) fun opening _ => Reads.get_bind fun c hc => Reads.ite_neg ?_ ?_
  · rw [atDelimiter_of_takes h2 hc]
    exact Bool.false_ne_true
  refine Reads.bind h2.text_eq (reads_bareRegister h2) ?_
  rintro ⟨y, span⟩ rfl
  -- the blanks around the dots are no tokens of the statement
  refine Reads.of_significant_eq h3.text_eq hsig3 (Reads.bind h4.text_eq (reads_eat h4) ?_)
  rintro eaten rfl
  refine Reads.ite_pos rfl (Reads.of_significant_eq h5.text_eq hsig5 ?_)
  have hlast : Reads catalog l5 l6 (do return (← bareRegister).1) fun z => z = last :=
    Reads.bind h6.text_eq (reads_bareRegister h6) fun p hp => Reads.pure hp
  refine Reads.bind h6.text_eq hlast ?_
  rintro z rfl
  exact Reads.bind h7.text_eq (reads_delimiter h7) fun closing _ => Reads.pure rfl

/-! ### indices -/

theorem parses_index {table : Text} {x : Literal} {n : Nat} (ht : table.IsWord)
    (hword : Lexeme.ofWord table = .word) (hreg : LexContext.isRegister table = false) (hx : x.IsInteger)
    (hn : x.toInt? = some (n : Int)) :
    Parses catalog index (table ++ '@' :: x.render) fun o => o.value = .index table n := by
  intro l b r hl _ hrest hr
  have hrest' : l.rest = table ++ '@' :: (x.render ++ r) := by
    rw [hrest]
    exact List.append_assoc _ _ _
  obtain ⟨k, l1, hk, h1, hl1⟩ := Lexer.takes_plainWord catalog hl ht hword hreg hrest' (Text.stops_cons (by decide) _)
  have hrest1 := h1.rest_eq hrest'
  obtain ⟨l2, h2, hl2⟩ := Lexer.takes_delimiter catalog hl1 (c := '@') (by decide) hrest1
  obtain ⟨k', l', hk', h3, hl'⟩ := takes_literal catalog hx hl2 (h2.rest_eq hrest1) (Scan.atWord_of_stops hr)
    (Scan.head?_ne_dot_of_stops hr)
  refine ⟨l', h1.trans (h2.trans h3.toPasses), hl', Reads.get_bind fun c hc => ?_⟩
  obtain ⟨t1, hsig1, hkind1, htext1⟩ := h1.token
  obtain ⟨t2, hsig2, hkind2, htext2⟩ := h2.token
  rw [hsig1, hsig2] at hc
  have hcond : (t1.isWord && t2.isDelimiter "@".toList) = true := by
    rw [Token.isWord_of_isWord (by rw [htext1]; exact ht) (by rw [hkind1]; exact hk), Token.isDelimiter, hkind2,
      htext2]
    rfl
  have hint : x.toIntIn? 0 0x7fffffffffffffff = some (n : Int) := by
    obtain ⟨v, hv⟩ := hx.value
    have hlt := v.toInt_lt
    have hvn : v.toInt = n := by
      rw [Literal.toInt?, hv] at hn
      exact Option.some.inj hn
    rw [Literal.toIntIn?, hn, Option.filter_some, if_pos]
    rw [Bool.and_eq_true_iff, decide_eq_true_iff, decide_eq_true_iff]
    omega
  rw [hc]
  refine Reads.ite_pos hcond (Reads.bind h1.text_eq (reads_advance h1) fun _ _ =>
    Reads.bind h2.text_eq (reads_advance h2) fun _ _ => Reads.bind h3.text_eq (reads_bareLiteral hx hk' h3) ?_)
  rintro ⟨y, span⟩ hy
  obtain rfl : y = x := hy
  dsimp only
  rw [hint]
  exact Reads.pure (by rw [htext1]; rfl)

end Reader

/-- **Operands are read back.** -/
theorem Spelled.parses {k : OperandKind} {v : OperandValue} {s : Text} (catalog : Catalog) (h : Spelled k v s) :
    Reader.Parses catalog (LineParser.operand k) s fun o => o.value = v := by
  cases h with
  | register x => exact Reader.parses_register catalog x
  | registerList xs => exact Reader.parses_registerList catalog xs
  | registerRange x => exact Reader.parses_registerRange catalog x
  | literal hx => exact Reader.parses_literal catalog hx
  | string ht => exact Reader.parses_string catalog ht
  | type ht => exact Reader.parses_type catalog ht
  | field hx hm => exact Reader.parses_reference catalog hx (k := .field) hm
  | method hx hm => exact Reader.parses_reference catalog hx (k := .method) hm
  | proto hp => exact Reader.parses_proto catalog hp
  | label hname => exact Reader.parses_label catalog hname
  | index ht hword hreg hx hn => exact Reader.parses_index catalog ht hword hreg hx hn

end Smali
