import Smali.Line.Value
import Smali.Proofs.Descriptor

/-!
# Descriptors before a comment

Names end before a `#`, but the path of a class may have one.  So the text of a descriptor goes on into a
comment where a class path does, and nowhere else.  No descriptor has a blank, so it never goes on into a comment
with blanks before it.

* `Trailer`                what may follow a statement: a comment, or blanks and then anything;
* `ClassPath.Across u x`   a class path starts in `u` and ends in the text `x` that follows;
* `Text.MarksInPaths t`    every `#` and every blank of `t` is inside a class path, as in the text of each
                           descriptor;
* `Overlooks read? x r`    before the comment `r`, the text `x` is read as without it;
* `Overruns read? x r`     the text `x` is not read without the comment, and with it some of the comment is read;
* `Exact.overlooks_or_overruns`  there is no third way for an exact reader;
* `Reader.readReferenceOrType_before`  a value may also be read as a type without the comment, and as a
                           reference into it.
-/

namespace Smali

/-- whether a comment or the blanks before it may start with the character -/
def isMark (c : Char) : Bool :=
  c == '#' || isBlank c

/-- what may follow a statement: a comment, or blanks and then anything -/
structure Trailer where
  mark : Char
  isMark : isMark mark = true
  body : Text

namespace Trailer

def text (r : Trailer) : Text :=
  r.mark :: r.body

theorem mark_ne_hyphen (r : Trailer) : r.mark ≠ '-' := by
  intro h
  have hmark := r.isMark
  rw [h] at hmark
  exact absurd hmark (by decide)

/-- the comment with the given text after its `#` -/
instance : Coe Text Trailer :=
  ⟨fun body => ⟨'#', rfl, body⟩⟩

end Trailer

namespace ClassPath

/-- a class path starts in `u` and ends in the text `x` that follows -/
def Across (u x : Text) : Prop :=
  ∃ p q l m, u = p ++ 'L' :: q ∧ x = l ++ ';' :: m ∧ (∀ c ∈ q, isPathChar c = true) ∧ ∀ c ∈ l, isPathChar c = true

theorem Across.append_left {u x : Text} (h : Across u x) (v : Text) : Across (v ++ u) x := by
  obtain ⟨p, q, l, m, rfl, hx, hq, hl⟩ := h
  exact ⟨v ++ p, q, l, m, (List.append_assoc _ _ _).symm, hx, hq, hl⟩

theorem Across.append_right {u x : Text} (h : Across u x) (y : Text) : Across u (x ++ y) := by
  obtain ⟨p, q, l, m, hu, rfl, hq, hl⟩ := h
  exact ⟨p, q, l, m ++ y, hu, List.append_assoc _ _ _, hq, hl⟩

/-- seen from the place between the two texts -/
theorem across_iff {u x : Text} :
    Across u x ↔ 'L' ∈ u.reverse.takeWhile isPathChar ∧ (x.dropWhile isPathChar).head? = some ';' := by
  constructor
  · rintro ⟨p, q, l, m, rfl, rfl, hq, hl⟩
    have hq' : ∀ c ∈ q.reverse, isPathChar c = true := fun c hc => hq c (List.mem_reverse.mp hc)
    constructor
    · rw [List.reverse_append, List.reverse_cons, List.append_assoc, List.singleton_append,
        List.takeWhile_append_of_pos hq', List.takeWhile_cons_of_pos (by decide)]
      exact List.mem_append_right _ List.mem_cons_self
    · rw [dropWhile_run hl (by decide)]
      rfl
  · rintro ⟨hL, hx⟩
    obtain ⟨q, b, hqb⟩ := List.append_of_mem hL
    have hu := List.takeWhile_append_dropWhile (p := isPathChar) (l := u.reverse)
    rw [hqb, List.append_assoc, List.cons_append] at hu
    obtain ⟨m, hm⟩ := List.head?_eq_some_iff.mp hx
    have hcut := List.takeWhile_append_dropWhile (p := isPathChar) (l := x)
    refine ⟨(b ++ u.reverse.dropWhile isPathChar).reverse, q.reverse, x.takeWhile isPathChar, m, ?_, ?_, ?_, ?_⟩
    · rw [← List.reverse_inj, List.reverse_append, List.reverse_cons, List.reverse_reverse,
        List.reverse_reverse, List.append_assoc, List.singleton_append]
      exact hu.symm
    · rw [← hm, hcut]
    · intro c hc
      have hmem : c ∈ u.reverse.takeWhile isPathChar := by
        rw [hqb]
        exact List.mem_append_left _ (List.mem_reverse.mp hc)
      exact List.mem_takeWhile_imp hmem
    · exact fun c hc => List.mem_takeWhile_imp hc

instance (u x : Text) : Decidable (Across u x) :=
  decidable_of_iff _ across_iff.symm

end ClassPath

/-! ## where the text of a descriptor has a `#` -/

/-- every `#` is inside a class path, and so is every blank; no class path has one -/
def Text.MarksInPaths (t : Text) : Prop :=
  ∀ u c w, t = u ++ c :: w → isMark c = true → ClassPath.Across u (c :: w)

section
open Text

theorem Text.marksInPaths_of_any {t : Text} (h : t.any isMark = false) : MarksInPaths t := by
  rintro u c w rfl hc
  exact absurd hc (List.any_eq_false.mp h c (List.mem_append_right u List.mem_cons_self))

theorem Text.MarksInPaths.append {s t : Text} (hs : MarksInPaths s) (ht : MarksInPaths t) :
    MarksInPaths (s ++ t) := by
  intro u c w h hc
  rcases List.append_eq_append_iff.mp h with ⟨a, rfl, hw⟩ | ⟨a, rfl, hw⟩
  · exact (ht a c w hw hc).append_left s
  · cases a with
    | nil =>
      have hu := (ht [] c w hw.symm hc).append_left u
      rwa [List.append_nil] at hu
    | cons d a =>
      obtain ⟨rfl, rfl⟩ := List.cons.inj hw
      exact (hs u c a rfl hc).append_right t

theorem Text.MarksInPaths.cons {c : Char} (hc : isMark c = false) {t : Text} (ht : MarksInPaths t) :
    MarksInPaths (c :: t) :=
  (marksInPaths_of_any (t := [c]) (by rw [List.any_cons, hc]; rfl)).append ht

theorem Text.marksInPaths_flatten {ts : List Text} (h : ∀ t ∈ ts, MarksInPaths t) : MarksInPaths ts.flatten := by
  induction ts with
  | nil => exact marksInPaths_of_any rfl
  | cons t ts ih =>
    obtain ⟨ht, hts⟩ := List.forall_mem_cons.mp h
    exact ht.append (ih hts)

theorem ClassPath.marksInPaths_render {p : ClassPath} (hp : p.WellFormed) : MarksInPaths p.render := by
  intro u c w h hc
  have htext : p.render = 'L' :: (p.path ++ [';']) := rfl
  rw [htext] at h
  cases u with
  | nil =>
    obtain ⟨rfl, -⟩ := List.cons.inj h
    cases hc
  | cons d u =>
    obtain ⟨rfl, htail⟩ := List.cons.inj h
    rcases List.append_eq_append_iff.mp htail with ⟨a, -, hw⟩ | ⟨a, hpath, hw⟩
    · -- the semicolon is no `#` and no blank
      cases a with
      | nil =>
        obtain ⟨rfl, -⟩ := List.cons.inj hw
        cases hc
      | cons d a => cases (List.append_eq_nil_iff.mp (List.cons.inj hw).2.symm).2
    · refine ⟨[], u, a, [], rfl, hw, fun d hd => hp.2 d ?_, fun d hd => hp.2 d ?_⟩
      · rw [hpath]
        exact List.mem_append_left _ hd
      · rw [hpath]
        exact List.mem_append_right _ hd

theorem BaseType.marksInPaths_render {b : BaseType} (hb : b.WellFormed) : MarksInPaths b.render := by
  cases b with
  | primitive p => exact marksInPaths_of_any (by cases p <;> decide)
  | object path => exact ClassPath.marksInPaths_render hb

theorem TypeDescriptor.marksInPaths_render {t : TypeDescriptor} (ht : t.WellFormed) : MarksInPaths t.render := by
  refine MarksInPaths.append (marksInPaths_of_any (List.any_eq_false.mpr fun c h => ?_)) (BaseType.marksInPaths_render ht)
  rw [List.eq_of_mem_replicate h]
  decide

theorem MemberName.marksInPaths {n : Text} (hn : WellFormed n) : MarksInPaths n := by
  refine marksInPaths_of_any ?_
  rcases hn with rfl | rfl | ⟨-, hall⟩
  · decide
  · decide
  · rw [List.any_eq_false]
    intro c hc hmark
    have hname := hall c hc
    rcases Bool.or_eq_true_iff.mp hmark with hhash | hblank
    · rw [beq_iff_eq.mp hhash] at hname
      cases hname
    · rw [isNameChar, hblank] at hname
      cases hname

theorem Prototype.marksInPaths_render {p : Prototype} (hp : p.WellFormed) : MarksInPaths p.render := by
  refine (marksInPaths_flatten ?_).cons (c := '(') rfl |>.append ?_
  · intro t ht
    obtain ⟨ty, hty, rfl⟩ := List.mem_map.mp ht
    exact TypeDescriptor.marksInPaths_render (hp.1 ty hty)
  · exact (TypeDescriptor.marksInPaths_render hp.2).cons rfl

theorem MethodSignature.marksInPaths_render {m : MethodSignature} (hm : m.WellFormed) : MarksInPaths m.render :=
  (MemberName.marksInPaths hm.1).append (Prototype.marksInPaths_render hm.2)

theorem Member.marksInPaths_render {m : Member} (hm : m.WellFormed) : MarksInPaths m.render := by
  cases m with
  | field name type =>
    exact (MemberName.marksInPaths hm.1).append ((TypeDescriptor.marksInPaths_render hm.2).cons rfl)
  | method m => exact MethodSignature.marksInPaths_render hm

theorem Reference.marksInPaths_render {r : Reference} (hr : r.WellFormed) : MarksInPaths r.render :=
  ((TypeDescriptor.marksInPaths_render hr.1).append (marksInPaths_of_any (by decide))).append
    (Member.marksInPaths_render hr.2.2)

end

/-! ## reading before a comment -/

section
variable {α : Type} {read? : Text → Option (α × Text)}

/-- before the comment, `x` is read as without it, and the comment is left -/
def Overlooks (read? : Text → Option (α × Text)) (x r : Text) : Prop :=
  read? (x ++ r) = (read? x).map fun p => (p.1, p.2 ++ r)

/-- without the comment `x` is not read, and with it some of the comment is read, inside a class path -/
structure Overruns (read? : Text → Option (α × Text)) (x r : Text) : Prop where
  bare : read? x = none
  whole : ∃ v s, read? (x ++ r) = some (v, s) ∧ Text.size s < Text.size r
  across : ClassPath.Across x r

/-- **An exact reader overlooks a comment or overruns it.** -/
theorem Exact.overlooks_or_overruns {render : α → Text} {W : α → Prop} (h : Exact read? render W)
    (hrender : ∀ v, W v → Text.MarksInPaths (render v)) (x : Text) (r : Trailer) :
    Overlooks read? x r.text ∨ Overruns read? x r.text := by
  cases hx : read? x with
  | some p =>
    obtain ⟨v, s⟩ := p
    obtain ⟨hv, rfl⟩ := h.sound hx
    refine .inl ?_
    rw [Overlooks, hx, List.append_assoc, h.complete hv]
    rfl
  | none =>
    cases hxr : read? (x ++ r.text) with
    | none => exact .inl (by rw [Overlooks, hx, hxr]; rfl)
    | some p =>
      obtain ⟨v, s⟩ := p
      obtain ⟨hv, htext⟩ := h.sound hxr
      rcases List.append_eq_append_iff.mp htext with ⟨a, hva, hs⟩ | ⟨a, rfl, -⟩
      · cases a with
        | nil =>
          -- the text of `v` ends where the comment starts
          have hread := h.complete hv []
          rw [List.append_nil, hva, List.append_nil, hx] at hread
          cases hread
        | cons c a =>
          obtain ⟨rfl, -⟩ := List.cons.inj hs
          refine .inr ⟨hx, ⟨v, s, hxr, ?_⟩, ?_⟩
          · rw [hs, Text.size_append, Text.size_cons]
            have := Char.utf8Size_pos r.mark
            omega
          · rw [hs]
            exact (hrender v hv x _ a hva r.isMark).append_right s
      · rw [h.complete hv a] at hx
        cases hx

end

theorem TypeDescriptor.overlooks_or_overruns (x : Text) (r : Trailer) :
    Overlooks read? x r.text ∨ Overruns read? x r.text :=
  exact_read?.overlooks_or_overruns (fun _ => marksInPaths_render) x r

theorem Prototype.overlooks_or_overruns (x : Text) (r : Trailer) :
    Overlooks read? x r.text ∨ Overruns read? x r.text :=
  exact_read?.overlooks_or_overruns (fun _ => marksInPaths_render) x r

theorem MethodSignature.overlooks_or_overruns (x : Text) (r : Trailer) :
    Overlooks read? x r.text ∨ Overruns read? x r.text :=
  exact_read?.overlooks_or_overruns (fun _ => marksInPaths_render) x r

theorem Member.overlooks_or_overruns_field (x : Text) (r : Trailer) :
    Overlooks readField? x r.text ∨ Overruns readField? x r.text :=
  exact_readField?.overlooks_or_overruns (fun _ hv => marksInPaths_render hv.1) x r

theorem Reference.overlooks_or_overruns (x : Text) (r : Trailer) :
    Overlooks read? x r.text ∨ Overruns read? x r.text :=
  exact_read?.overlooks_or_overruns (fun _ => marksInPaths_render) x r

/-- a reference goes on with an arrow where its type ends -/
theorem Reference.head?_of_read? {t rest s : Text} {type : TypeDescriptor} {v : Reference}
    (htype : TypeDescriptor.read? t = some (type, rest)) (h : Reference.read? t = some (v, s)) :
    rest.head? = some '-' := by
  unfold Reference.read? at h
  rw [htype] at h
  split at h
  · rename_i he
    rw [(Prod.mk.inj (Option.some.inj he)).2]
    rfl
  · cases h

/-- A value is read as without the comment, or it overruns the comment, or its type is read without the
comment and a reference of that type overruns it. -/
theorem Reader.readReferenceOrType_before (x : Text) (r : Trailer) :
    Overlooks readReferenceOrType x r.text ∨ Overruns readReferenceOrType x r.text ∨
      (ClassPath.Across x r.text ∧
        (∃ v s, readReferenceOrType (x ++ r.text) = some (v, s) ∧ Text.size s < Text.size r.text) ∧
        ∃ v s, readReferenceOrType x = some (v, '-' :: s) ∧ '-' :: s <:+ x) := by
  have htype := TypeDescriptor.overlooks_or_overruns x r
  rcases Reference.overlooks_or_overruns x r with hover | ⟨hbare, ⟨v, s, hv, hs⟩, hacross⟩
  · rw [Overlooks] at hover
    cases hx : Reference.read? x with
    | some p =>
      rw [hx] at hover
      refine .inl ?_
      simp only [Overlooks, readReferenceOrType, hx, hover, Option.map_some]
    | none =>
      rw [hx] at hover
      rcases htype with htype | ⟨hbare, ⟨v, s, hv, hs⟩, hacross⟩
      · refine .inl ?_
        rw [Overlooks] at htype
        simp only [Overlooks, readReferenceOrType, hx, hover, Option.map_none, htype, Option.map_map]
        rfl
      · refine .inr (.inl ⟨?_, ⟨.type v, s, ?_, hs⟩, hacross⟩)
        · simp only [readReferenceOrType, hx, hbare, Option.map_none]
        · simp only [readReferenceOrType, hover, hv, Option.map_none, Option.map_some]
  · have hwhole : readReferenceOrType (x ++ r.text) = some (.reference v, s) := by
      simp only [readReferenceOrType, hv]
    cases hx : TypeDescriptor.read? x with
    | none =>
      refine .inr (.inl ⟨?_, ⟨_, s, hwhole, hs⟩, hacross⟩)
      simp only [readReferenceOrType, hbare, hx, Option.map_none]
    | some p =>
      obtain ⟨type, rest⟩ := p
      refine .inr (.inr ⟨hacross, ⟨_, s, hwhole, hs⟩, .type type, ?_⟩)
      obtain ⟨hw, rfl⟩ := TypeDescriptor.exact_read?.sound hx
      have hread := TypeDescriptor.exact_read?.complete hw (rest ++ r.text)
      rw [← List.append_assoc] at hread
      have hhead := Reference.head?_of_read? hread hv
      cases rest with
      | nil => exact absurd (Option.some.inj hhead) r.mark_ne_hyphen
      | cons c rest =>
        obtain rfl : c = '-' := Option.some.inj hhead
        refine ⟨rest, ?_, List.suffix_append _ _⟩
        simp only [readReferenceOrType, hbare, hx, Option.map_some]

end Smali
