import Mathlib.Data.List.Basic
import Mathlib.Data.List.TakeWhile
import Smali.Descriptor.Reference

/-!
# Descriptors and their text

Each reader of descriptors takes the text that its printer gives and nothing else, and it needs no sign
for the end: whatever follows is left alone.

* `WellFormed`         the values that have a text: paths and names are nonempty runs of their characters,
                       and the owner of a reference is no plain primitive;
* `Exact read? render W`  reading succeeds on the texts of the values in `W` followed by anything, with
                       that value and that rest, and on no other text;
* `TypeDescriptor.readMany_render`  parameters have nothing between them, and are told apart all the same;
* `descriptors_exact`  all readers are exact, and those of whole texts are inverse to the printers.
-/

namespace Smali

/-! ## the values that have a text -/

def ClassPath.WellFormed (p : ClassPath) : Prop :=
  p.path ≠ [] ∧ ∀ c ∈ p.path, isPathChar c = true

def BaseType.WellFormed : BaseType → Prop
  | .primitive _ => True
  | .object path => path.WellFormed

def TypeDescriptor.WellFormed (t : TypeDescriptor) : Prop :=
  t.base.WellFormed

/-- one of the two names in angle brackets, or a nonempty run of name characters -/
def MemberName.WellFormed (n : Text) : Prop :=
  n = constructor ∨ n = classInit ∨ (n ≠ [] ∧ ∀ c ∈ n, isNameChar c = true)

def Prototype.WellFormed (p : Prototype) : Prop :=
  (∀ t ∈ p.parameters, t.WellFormed) ∧ p.returnType.WellFormed

def MethodSignature.WellFormed (m : MethodSignature) : Prop :=
  MemberName.WellFormed m.name ∧ m.prototype.WellFormed

def Member.WellFormed : Member → Prop
  | .field name type => MemberName.WellFormed name ∧ type.WellFormed
  | .method m => m.WellFormed

def Reference.WellFormed (r : Reference) : Prop :=
  r.owner.WellFormed ∧ r.owner.isPrimitive = false ∧ r.member.WellFormed

/-- Reading succeeds exactly on the texts of the values in `W`, whatever follows them. -/
structure Exact {α : Type} (read? : Text → Option (α × Text)) (render : α → Text) (W : α → Prop) :
    Prop where
  sound : ∀ {t r : Text} {v : α}, read? t = some (v, r) → W v ∧ t = render v ++ r
  complete : ∀ {v : α}, W v → ∀ r : Text, read? (render v ++ r) = some (v, r)

/-! ## runs of characters -/

section
variable {p : Char → Bool} {w : Text} {c : Char} (hw : ∀ x ∈ w, p x = true) (hc : p c = false) (r : Text)
include hw hc

theorem takeWhile_run : (w ++ c :: r).takeWhile p = w := by
  rw [List.takeWhile_append_of_pos hw, List.takeWhile_cons_of_neg (by rw [hc]; exact nofun),
    List.append_nil]

theorem dropWhile_run : (w ++ c :: r).dropWhile p = c :: r := by
  rw [List.dropWhile_append_of_pos hw, List.dropWhile_cons_of_neg (by rw [hc]; exact nofun)]

end

/-! ## types -/

theorem ClassPath.exact_read? : Exact ClassPath.read? ClassPath.render ClassPath.WellFormed where
  sound := by
    intro t r v h
    unfold ClassPath.read? at h
    split at h
    · rename_i body
      split at h
      · rename_i rest hrest
        rw [Option.ite_none_left_eq_some, Option.some.injEq, Prod.mk.injEq] at h
        obtain ⟨hne, rfl, rfl⟩ := h
        refine ⟨⟨by simpa using hne, fun c hc => List.mem_takeWhile_imp hc⟩, ?_⟩
        have hcut := List.takeWhile_append_dropWhile (p := ClassPath.isPathChar) (l := body)
        rw [hrest] at hcut
        show 'L' :: body = 'L' :: (body.takeWhile ClassPath.isPathChar ++ [';'] ++ rest)
        rw [List.append_assoc, List.singleton_append, hcut]
      · cases h
    · cases h
  complete := by
    rintro v ⟨hne, hpath⟩ r
    have hstop : ClassPath.isPathChar ';' = false := by decide
    have htext : v.render ++ r = 'L' :: (v.path ++ ';' :: r) := by
      show 'L' :: (v.path ++ [';'] ++ r) = _
      rw [List.append_assoc, List.singleton_append]
    have hemp : ¬v.path.isEmpty = true := by rwa [List.isEmpty_iff]
    simp only [htext, ClassPath.read?, takeWhile_run hpath hstop, dropWhile_run hpath hstop, if_neg hemp]

theorem Primitive.ofLetter?_eq_some_iff {c : Char} {p : Primitive} :
    ofLetter? c = some p ↔ p.letter = c := by
  constructor
  · intro h
    simpa using List.find?_some h
  · rintro rfl
    cases p <;> rfl

theorem ClassPath.read?_letter (p : Primitive) (r : Text) : ClassPath.read? (p.letter :: r) = none := by
  cases p <;> rfl

theorem BaseType.exact_read? : Exact BaseType.read? BaseType.render BaseType.WellFormed where
  sound := by
    intro t r v h
    unfold BaseType.read? at h
    split at h
    · rename_i path rest hp
      rw [Option.some.injEq, Prod.mk.injEq] at h
      obtain ⟨rfl, rfl⟩ := h
      exact Exact.sound ClassPath.exact_read? hp
    · split at h
      · rename_i c rest
        obtain ⟨p, hp, he⟩ := Option.map_eq_some_iff.mp h
        rw [Prod.mk.injEq] at he
        obtain ⟨rfl, rfl⟩ := he
        exact ⟨trivial, by rw [← Primitive.ofLetter?_eq_some_iff.mp hp]; rfl⟩
      · cases h
  complete := by
    intro v hv r
    cases v with
    | primitive p =>
      have hp : Primitive.ofLetter? p.letter = some p := Primitive.ofLetter?_eq_some_iff.mpr rfl
      simp only [BaseType.render, List.singleton_append, BaseType.read?, ClassPath.read?_letter, hp,
        Option.map_some]
    | object path =>
      simp only [BaseType.render, BaseType.read?, Exact.complete ClassPath.exact_read? hv r]

/-- a base type does not start with a bracket -/
theorem BaseType.exists_render_eq_cons (b : BaseType) : ∃ c r, b.render = c :: r ∧ (c == '[') = false := by
  cases b with
  | primitive p => exact ⟨p.letter, [], rfl, by cases p <;> rfl⟩
  | object path => exact ⟨'L', path.path ++ [';'], rfl, rfl⟩

theorem takeWhile_bracket (t : Text) :
    t.takeWhile (· == '[') = List.replicate (t.takeWhile (· == '[')).length '[' := by
  rw [List.eq_replicate_iff]
  refine ⟨rfl, fun c hc => ?_⟩
  have h := List.mem_takeWhile_imp hc
  exact beq_iff_eq.mp h

theorem TypeDescriptor.exact_read? :
    Exact TypeDescriptor.read? TypeDescriptor.render TypeDescriptor.WellFormed where
  sound := by
    intro t r v h
    obtain ⟨⟨base, rest⟩, hb, he⟩ := Option.map_eq_some_iff.mp h
    rw [Prod.mk.injEq] at he
    obtain ⟨rfl, rfl⟩ := he
    obtain ⟨hw, hdrop⟩ := Exact.sound BaseType.exact_read? hb
    refine ⟨hw, ?_⟩
    show t = List.replicate (t.takeWhile (· == '[')).length '[' ++ base.render ++ rest
    rw [← takeWhile_bracket, List.append_assoc, ← hdrop, List.takeWhile_append_dropWhile]
  complete := by
    rintro ⟨depth, base⟩ hv r
    obtain ⟨c, s, hs, hc⟩ := base.exists_render_eq_cons
    have hw : ∀ x ∈ List.replicate depth '[', (x == '[') = true :=
      fun x hx => beq_iff_eq.mpr (List.eq_of_mem_replicate hx)
    have hread := Exact.complete BaseType.exact_read? hv r
    have htext : TypeDescriptor.render ⟨depth, base⟩ ++ r = List.replicate depth '[' ++ c :: (s ++ r) := by
      show List.replicate depth '[' ++ base.render ++ r = _
      rw [hs, List.append_assoc]
      rfl
    rw [hs, List.cons_append] at hread
    rw [htext, TypeDescriptor.read?, dropWhile_run hw hc, takeWhile_run hw hc, hread, Option.map_some,
      List.length_replicate]

/-! ## prototypes and members -/

/-- there is no type at a closing parenthesis -/
theorem TypeDescriptor.read?_paren (r : Text) : TypeDescriptor.read? (')' :: r) = none := rfl

theorem TypeDescriptor.readMany_some {t rest : Text} {ty : TypeDescriptor} (h : read? t = some (ty, rest)) :
    readMany t = (ty :: (readMany rest).1, (readMany rest).2) := by
  rw [readMany]
  split
  · rename_i h'
    rw [h, Option.some.injEq, Prod.mk.injEq] at h'
    obtain ⟨rfl, rfl⟩ := h'
    rfl
  · rename_i h'
    rw [h] at h'
    cases h'

theorem TypeDescriptor.readMany_none {t : Text} (h : read? t = none) : readMany t = ([], t) := by
  rw [readMany]
  split
  · rename_i h'
    rw [h] at h'
    cases h'
  · rfl

/-- types one after the other are told apart, up to the parenthesis -/
theorem TypeDescriptor.readMany_render (ts : List TypeDescriptor) (hts : ∀ t ∈ ts, t.WellFormed)
    (r : Text) : readMany ((ts.map render).flatten ++ ')' :: r) = (ts, ')' :: r) := by
  induction ts with
  | nil => exact readMany_none (read?_paren r)
  | cons t ts ih =>
    obtain ⟨ht, hts⟩ := List.forall_mem_cons.mp hts
    have hread := Exact.complete exact_read? ht ((ts.map render).flatten ++ ')' :: r)
    rw [List.map_cons, List.flatten_cons, List.append_assoc, readMany_some hread, ih hts]

theorem TypeDescriptor.readMany_sound (t : Text) :
    (∀ ty ∈ (readMany t).1, ty.WellFormed) ∧ t = ((readMany t).1.map render).flatten ++ (readMany t).2 := by
  induction hn : t.length using Nat.strongRecOn generalizing t with
  | ind n ih =>
    cases h : read? t with
    | none =>
      rw [readMany_none h]
      exact ⟨List.forall_mem_nil _, rfl⟩
    | some p =>
      obtain ⟨ty, rest⟩ := p
      obtain ⟨hw, htext⟩ := Exact.sound exact_read? h
      obtain ⟨hws, hrest⟩ := ih rest.length (by rw [← hn]; exact length_lt_of_read? h) rest rfl
      rw [readMany_some h]
      refine ⟨List.forall_mem_cons.mpr ⟨hw, hws⟩, ?_⟩
      rw [List.map_cons, List.flatten_cons, List.append_assoc, ← hrest]
      exact htext

theorem Prototype.exact_read? : Exact Prototype.read? Prototype.render Prototype.WellFormed where
  sound := by
    intro t r v h
    unfold Prototype.read? at h
    split at h
    · rename_i body
      have hmany := TypeDescriptor.readMany_sound body
      split at h
      · rename_i parameters rest hbody
        obtain ⟨⟨result, rest'⟩, hres, he⟩ := Option.map_eq_some_iff.mp h
        rw [Prod.mk.injEq] at he
        obtain ⟨rfl, rfl⟩ := he
        obtain ⟨hw, hrest⟩ := Exact.sound TypeDescriptor.exact_read? hres
        rw [hbody] at hmany
        refine ⟨⟨hmany.1, hw⟩, ?_⟩
        rw [hmany.2, hrest]
        simp only [Prototype.render, List.cons_append, List.append_assoc]
      · cases h
    · cases h
  complete := by
    rintro ⟨parameters, result⟩ ⟨hps, hres⟩ r
    have hmany := TypeDescriptor.readMany_render parameters hps (result.render ++ r)
    have hread := Exact.complete TypeDescriptor.exact_read? hres r
    have htext : Prototype.render ⟨parameters, result⟩ ++ r =
        '(' :: ((parameters.map TypeDescriptor.render).flatten ++ ')' :: (result.render ++ r)) := by
      simp only [Prototype.render, List.cons_append, List.append_assoc]
    simp only [htext, Prototype.read?, hmany, hread, Option.map_some]

/-- what follows a name: the parenthesis of a prototype or the colon of a type -/
theorem MemberName.read?_append {n : Text} (hn : WellFormed n) {c : Char} (hc : c = '(' ∨ c = ':')
    (r : Text) : read? (n ++ c :: r) = some (n, c :: r) := by
  have hstop : isNameChar c = false := by rcases hc with rfl | rfl <;> decide
  rcases hn with rfl | rfl | ⟨hne, hall⟩
  · rcases hc with rfl | rfl <;> rfl
  · rcases hc with rfl | rfl <;> rfl
  · cases n with
    | nil => exact absurd rfl hne
    | cons d n =>
      -- a name character is no opening bracket, so neither of the two special names is there
      have hd : '<' ≠ d := by
        rintro rfl
        have := (List.forall_mem_cons.mp hall).1
        revert this
        decide
      have hctor : constructor.isPrefixOf? (d :: n ++ c :: r) = none := if_neg fun h => hd (beq_iff_eq.mp h)
      have hinit : classInit.isPrefixOf? (d :: n ++ c :: r) = none := if_neg fun h => hd (beq_iff_eq.mp h)
      have htake := takeWhile_run hall hstop r
      have hdrop := dropWhile_run hall hstop r
      simp only [read?, hctor, hinit, htake, hdrop]

theorem MemberName.sound_read? {t n r : Text} (h : read? t = some (n, r)) :
    WellFormed n ∧ t = n ++ r := by
  unfold read? at h
  split at h
  · rename_i rest hs
    rw [Option.some.injEq, Prod.mk.injEq] at h
    obtain ⟨rfl, rfl⟩ := h
    exact ⟨.inl rfl, (List.isPrefixOf?_eq_some_iff_append_eq.mp hs).symm⟩
  · rename_i rest _ hs
    rw [Option.some.injEq, Prod.mk.injEq] at h
    obtain ⟨rfl, rfl⟩ := h
    exact ⟨.inr (.inl rfl), (List.isPrefixOf?_eq_some_iff_append_eq.mp hs).symm⟩
  · split at h
    · cases h
    · rename_i hne
      rw [Option.some.injEq, Prod.mk.injEq] at h
      obtain ⟨rfl, rfl⟩ := h
      refine ⟨.inr (.inr ⟨hne, fun c hc => List.mem_takeWhile_imp hc⟩), ?_⟩
      rw [List.takeWhile_append_dropWhile]

theorem MethodSignature.exact_read? :
    Exact MethodSignature.read? MethodSignature.render MethodSignature.WellFormed where
  sound := by
    intro t r v h
    unfold MethodSignature.read? at h
    split at h
    · rename_i name rest hname
      obtain ⟨⟨p, rest'⟩, hp, he⟩ := Option.map_eq_some_iff.mp h
      rw [Prod.mk.injEq] at he
      obtain ⟨rfl, rfl⟩ := he
      obtain ⟨hn, rfl⟩ := MemberName.sound_read? hname
      obtain ⟨hw, rfl⟩ := Exact.sound Prototype.exact_read? hp
      refine ⟨⟨hn, hw⟩, ?_⟩
      rw [MethodSignature.render, List.append_assoc]
    · cases h
  complete := by
    rintro ⟨name, p⟩ ⟨hn, hp⟩ r
    have hread := Exact.complete Prototype.exact_read? hp r
    have hname := MemberName.read?_append hn (.inl rfl)
      ((p.parameters.map TypeDescriptor.render).flatten ++ ')' :: p.returnType.render ++ r)
    have htext : MethodSignature.render ⟨name, p⟩ ++ r = name ++ (p.render ++ r) := by
      rw [MethodSignature.render, List.append_assoc]
    rw [htext, MethodSignature.read?]
    rw [show '(' :: ((p.parameters.map TypeDescriptor.render).flatten ++ ')' :: p.returnType.render ++ r)
      = p.render ++ r from rfl] at hname
    simp only [hname, hread, Option.map_some]

/-- the fields among the members, which their own reader gives -/
def Member.WellFormedField (m : Member) : Prop :=
  m.WellFormed ∧ m.isField = true

theorem Member.exact_readField? : Exact Member.readField? Member.render Member.WellFormedField where
  sound := by
    intro t r v h
    unfold Member.readField? at h
    split at h
    · rename_i name rest hname
      obtain ⟨⟨type, rest'⟩, ht, he⟩ := Option.map_eq_some_iff.mp h
      rw [Prod.mk.injEq] at he
      obtain ⟨rfl, rfl⟩ := he
      obtain ⟨hn, rfl⟩ := MemberName.sound_read? hname
      obtain ⟨hw, rfl⟩ := Exact.sound TypeDescriptor.exact_read? ht
      refine ⟨⟨⟨hn, hw⟩, rfl⟩, ?_⟩
      simp only [Member.render, List.append_assoc, List.cons_append]
    · cases h
  complete := by
    rintro v ⟨hv, hf⟩ r
    cases v with
    | method m => cases hf
    | field name type =>
      have hname := MemberName.read?_append hv.1 (.inr rfl) (type.render ++ r)
      have hread := Exact.complete TypeDescriptor.exact_read? hv.2 r
      simp only [Member.render, List.append_assoc, List.cons_append, Member.readField?, hname, hread,
        Option.map_some]

theorem Member.exact_read? : Exact Member.read? Member.render Member.WellFormed where
  sound := by
    intro t r v h
    unfold Member.read? at h
    split at h
    · rename_i m rest hm
      rw [Option.some.injEq, Prod.mk.injEq] at h
      obtain ⟨rfl, rfl⟩ := h
      exact Exact.sound MethodSignature.exact_read? hm
    · obtain ⟨hw, ht⟩ := Exact.sound Member.exact_readField? h
      exact ⟨hw.1, ht⟩
  complete := by
    intro v hv r
    cases v with
    | method m =>
      have hread := Exact.complete MethodSignature.exact_read? hv r
      simp only [Member.render, Member.read?, hread]
    | field name type =>
      -- after the name of a field there is a colon, where no prototype starts
      have hname := MemberName.read?_append hv.1 (.inr rfl) (type.render ++ r)
      have hnone : MethodSignature.read? (Member.render (.field name type) ++ r) = none := by
        simp only [Member.render, List.append_assoc, List.cons_append, MethodSignature.read?, hname]
        rfl
      simp only [Member.read?, hnone]
      exact Exact.complete Member.exact_readField? ⟨hv, rfl⟩ r

theorem Reference.exact_read? : Exact Reference.read? Reference.render Reference.WellFormed where
  sound := by
    intro t r v h
    unfold Reference.read? at h
    split at h
    · rename_i owner rest ho
      obtain ⟨hprim, h⟩ := Option.ite_none_left_eq_some.mp h
      obtain ⟨⟨member, rest'⟩, hm, he⟩ := Option.map_eq_some_iff.mp h
      rw [Prod.mk.injEq] at he
      obtain ⟨rfl, rfl⟩ := he
      obtain ⟨hwo, rfl⟩ := Exact.sound TypeDescriptor.exact_read? ho
      obtain ⟨hwm, rfl⟩ := Exact.sound Member.exact_read? hm
      refine ⟨⟨hwo, by simpa using hprim, hwm⟩, ?_⟩
      simp only [Reference.render, List.append_assoc]
      rfl
    · cases h
  complete := by
    rintro ⟨owner, member⟩ ⟨hwo, hprim, hwm⟩ r
    have howner := Exact.complete TypeDescriptor.exact_read? hwo ('-' :: '>' :: (member.render ++ r))
    have hmember := Exact.complete Member.exact_read? hwm r
    have htext : Reference.render ⟨owner, member⟩ ++ r =
        owner.render ++ '-' :: '>' :: (member.render ++ r) := by
      simp only [Reference.render, List.append_assoc]
      rfl
    have hprim' : ¬owner.isPrimitive = true := by rw [hprim]; exact nofun
    simp only [htext, Reference.read?, howner, hmember, if_neg hprim', Option.map_some]

/-! ## whole texts -/

/-- a reader of whole texts that succeeds when nothing is left is inverse to the printer -/
theorem Exact.parse_iff {α : Type} {read? : Text → Option (α × Text)} {render : α → Text} {W : α → Prop}
    (h : Exact read? render W) {parse : Text → Except Error α}
    (hparse : ∀ t v, parse t = .ok v ↔ read? t = some (v, [])) (t : Text) (v : α) :
    parse t = .ok v ↔ W v ∧ t = render v := by
  rw [hparse]
  constructor
  · intro ht
    have hv := h.sound ht
    rwa [List.append_nil] at hv
  · rintro ⟨hv, rfl⟩
    have ht := h.complete hv []
    rwa [List.append_nil] at ht

theorem TypeDescriptor.parse_eq_ok_iff (t : Text) (v : TypeDescriptor) :
    TypeDescriptor.parse t = .ok v ↔ TypeDescriptor.read? t = some (v, []) := by
  unfold TypeDescriptor.parse
  split <;> simp_all

theorem MethodSignature.parse_eq_ok_iff (t : Text) (v : MethodSignature) :
    MethodSignature.parse t = .ok v ↔ MethodSignature.read? t = some (v, []) := by
  unfold MethodSignature.parse
  split <;> simp_all

theorem Reference.parse_eq_ok_iff (t : Text) (v : Reference) :
    Reference.parse t = .ok v ↔ Reference.read? t = some (v, []) := by
  unfold Reference.parse
  split <;> simp_all

/-- **The readers of descriptors are inverse to their printers, and need no sign for the end.** -/
theorem descriptors_exact :
    Exact TypeDescriptor.read? TypeDescriptor.render TypeDescriptor.WellFormed ∧
    Exact ClassPath.read? ClassPath.render ClassPath.WellFormed ∧
    Exact Prototype.read? Prototype.render Prototype.WellFormed ∧
    Exact MethodSignature.read? MethodSignature.render MethodSignature.WellFormed ∧
    Exact Member.readField? Member.render Member.WellFormedField ∧
    Exact Member.read? Member.render Member.WellFormed ∧
    Exact Reference.read? Reference.render Reference.WellFormed ∧
    (∀ t v, TypeDescriptor.parse t = .ok v ↔ v.WellFormed ∧ t = v.render) ∧
    (∀ t v, MethodSignature.parse t = .ok v ↔ v.WellFormed ∧ t = v.render) ∧
    (∀ t v, Reference.parse t = .ok v ↔ v.WellFormed ∧ t = v.render) :=
  ⟨TypeDescriptor.exact_read?, ClassPath.exact_read?, Prototype.exact_read?,
    MethodSignature.exact_read?, Member.exact_readField?, Member.exact_read?, Reference.exact_read?,
    TypeDescriptor.exact_read?.parse_iff TypeDescriptor.parse_eq_ok_iff,
    MethodSignature.exact_read?.parse_iff MethodSignature.parse_eq_ok_iff,
    Reference.exact_read?.parse_iff Reference.parse_eq_ok_iff⟩

end Smali
