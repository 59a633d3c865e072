import Mathlib.Data.List.DropRight
import Smali.Proofs.Descriptor

/-!
# The parts of a class path

A path is cut in three ways: at every slash, at the last slash, and at the last `$` of what follows it.
Here the three are brought together.

* `Text.splitOn_eq_iff`        the parts between the separators are the only ones that give the text back;
* `Text.cutLast?_eq_some_iff`  a cut at the last separator;
* `Text.IsLastPart sep t part`  `part` follows the last separator of `t`;
* `ClassPath.simpleName_eq_iff`  the simple name is the last part, whichever way it is cut out;
* `ClassPath.cutNumber?_eq_some_iff`  what a name with the number of a nameless class looks like;
* `ClassPath.segments_eq_iff`  the segments are the only ones that give the path back;
* `ClassPath.path_decomposes`  all parts of a path, with the text that each of them stands for.
-/

namespace Smali
namespace Text

/-! ## parts between separators -/

theorem not_mem_of_mem_splitOn (sep : Char) (t : Text) : ∀ part ∈ t.splitOn sep, sep ∉ part := by
  induction t with
  | nil => simp
  | cons c r ih =>
    rw [List.splitOn_cons_eq_if_modifyHead]
    by_cases hc : c = sep
    · rw [if_pos (beq_iff_eq.mpr hc), List.forall_mem_cons]
      exact ⟨List.not_mem_nil, ih⟩
    · rw [if_neg (by rwa [beq_iff_eq])]
      cases hr : r.splitOn sep with
      | nil => exact absurd hr (List.splitOn_ne_nil sep r)
      | cons p ps =>
        rw [hr, List.forall_mem_cons] at ih
        rw [List.modifyHead_cons, List.forall_mem_cons, List.mem_cons, not_or]
        exact ⟨⟨fun h => hc h.symm, ih.1⟩, ih.2⟩

/-- **The parts between the separators** are the only ones without a separator that give the text back. -/
theorem splitOn_eq_iff {sep : Char} {t : Text} {parts : List Text} :
    t.splitOn sep = parts ↔ parts ≠ [] ∧ (∀ part ∈ parts, sep ∉ part) ∧ [sep].intercalate parts = t := by
  constructor
  · rintro rfl
    exact ⟨List.splitOn_ne_nil sep t, not_mem_of_mem_splitOn sep t, List.intercalate_splitOn sep⟩
  · rintro ⟨hne, hparts, rfl⟩
    exact List.splitOn_intercalate sep hparts hne

/-- what is written after the last part belongs to it -/
theorem intercalate_concat_append (sep : Text) (parts : List Text) (part t : Text) :
    sep.intercalate (parts ++ [part]) ++ t = sep.intercalate (parts ++ [part ++ t]) := by
  cases parts with
  | nil => rw [List.nil_append, List.nil_append, List.intercalate_singleton, List.intercalate_singleton]
  | cons p ps =>
    rw [List.cons_append, List.cons_append, intercalate_cons, intercalate_cons]
    simp only [List.map_append, List.map_singleton, List.flatten_append, List.flatten_singleton, List.append_assoc]

/-! ## the last separator -/

theorem cutLast?_eq_none_iff {sep : Char} {t : Text} : cutLast? sep t = none ↔ sep ∉ t := by
  induction t with
  | nil => simp [cutLast?]
  | cons c r ih =>
    rw [List.mem_cons, not_or, ← ih, cutLast?]
    cases cutLast? sep r with
    | some p => simp
    | none => simp [eq_comm]

theorem cutLast?_append_cons {sep : Char} {b : Text} (hb : sep ∉ b) (a : Text) :
    cutLast? sep (a ++ sep :: b) = some (a, b) := by
  induction a with
  | nil =>
    rw [← cutLast?_eq_none_iff] at hb
    rw [List.nil_append, cutLast?, hb]
    exact if_pos rfl
  | cons c a ih => rw [List.cons_append, cutLast?, ih]

theorem cutLast?_eq_some_iff {sep : Char} {t a b : Text} :
    cutLast? sep t = some (a, b) ↔ t = a ++ sep :: b ∧ sep ∉ b := by
  constructor
  · intro h
    induction t generalizing a with
    | nil => cases h
    | cons c r ih =>
      rw [cutLast?] at h
      cases hr : cutLast? sep r with
      | some p =>
        rw [hr, Option.some.injEq, Prod.mk.injEq] at h
        obtain ⟨rfl, rfl⟩ := h
        obtain ⟨rfl, hb⟩ := ih hr
        exact ⟨rfl, hb⟩
      | none =>
        rw [hr, Option.ite_none_right_eq_some, Option.some.injEq, Prod.mk.injEq] at h
        obtain ⟨rfl, rfl, rfl⟩ := h
        rw [cutLast?_eq_none_iff] at hr
        exact ⟨rfl, hr⟩
  · rintro ⟨rfl, hb⟩
    exact cutLast?_append_cons hb a

/-- `part` is what follows the last `sep` of the text, or the whole text when it has none -/
def IsLastPart (sep : Char) (t part : Text) : Prop :=
  sep ∉ part ∧ (t = part ∨ ∃ before, t = before ++ sep :: part)

/-- the last part is the last of all parts -/
theorem IsLastPart.exists_splitOn {sep : Char} {t part : Text} (h : IsLastPart sep t part) :
    ∃ before, t.splitOn sep = before ++ [part] := by
  obtain ⟨hpart, rfl | ⟨before, rfl⟩⟩ := h
  · exact ⟨[], by rw [List.splitOn_eq_singleton hpart, List.nil_append]⟩
  · refine ⟨before.splitOn sep, ?_⟩
    rw [List.splitOn_append_cons_self, List.splitOn_eq_singleton hpart]

end Text

namespace ClassPath

/-! ## package and simple name -/

theorem path_eq (p : ClassPath) :
    p.path =
      match p.package? with
      | some package => package ++ '/' :: p.simpleName
      | none => p.simpleName := by
  unfold package? simpleName
  cases h : Text.cutLast? '/' p.path with
  | some cut =>
    rw [Text.cutLast?_eq_some_iff] at h
    exact h.1
  | none => rfl

theorem isLastPart_simpleName (p : ClassPath) : Text.IsLastPart '/' p.path p.simpleName := by
  unfold simpleName
  cases h : Text.cutLast? '/' p.path with
  | some cut =>
    rw [Text.cutLast?_eq_some_iff] at h
    exact ⟨h.2, .inr ⟨cut.1, h.1⟩⟩
  | none =>
    rw [Text.cutLast?_eq_none_iff] at h
    exact ⟨h, .inl rfl⟩

theorem simpleName_eq_iff {p : ClassPath} {part : Text} :
    p.simpleName = part ↔ Text.IsLastPart '/' p.path part := by
  constructor
  · rintro rfl
    exact isLastPart_simpleName p
  · rintro ⟨hpart, hpath | ⟨before, hpath⟩⟩
    · rw [← Text.cutLast?_eq_none_iff] at hpart
      rw [simpleName, hpath, hpart]
    · rw [simpleName, hpath, Text.cutLast?_append_cons hpart]

theorem lastPart_eq_simpleName (p : ClassPath) : p.lastPart = p.simpleName := by
  obtain ⟨before, h⟩ := (isLastPart_simpleName p).exists_splitOn
  rw [lastPart, h, List.getLast?_concat, Option.getD_some]

/-! ## the number of a nameless class -/

theorem cutNumber?_eq_some_iff {name outer digits : Text} :
    cutNumber? name = some (outer, digits) ↔
      name = outer ++ '$' :: digits ∧ outer ≠ [] ∧ digits ≠ [] ∧ ∀ c ∈ digits, isDigit c = true := by
  unfold cutNumber?
  constructor
  · intro h
    cases hcut : Text.cutLast? '$' name with
    | none =>
      rw [hcut] at h
      cases h
    | some cut =>
      rw [hcut, Option.ite_none_right_eq_some, Option.some.injEq, Prod.mk.injEq] at h
      obtain ⟨hc, rfl, rfl⟩ := h
      rw [Text.cutLast?_eq_some_iff] at hcut
      refine ⟨hcut.1, ?_⟩
      simpa [and_assoc] using hc
  · rintro ⟨rfl, hne, hnd, hdigits⟩
    -- there is no `$` among the digits, so the one before them is the last
    have hlast : '$' ∉ digits := fun h => absurd (hdigits '$' h) (by decide)
    rw [Text.cutLast?_append_cons hlast]
    exact if_pos (by simpa [hne, hnd] using hdigits)

theorem nested_eq_some_iff {p : ClassPath} {digits : Text} :
    p.nested = some digits ↔
      ∃ outer, p.simpleName = outer ++ '$' :: digits ∧ outer ≠ [] ∧ digits ≠ [] ∧
        ∀ c ∈ digits, isDigit c = true := by
  rw [nested, Option.map_eq_some_iff, lastPart_eq_simpleName]
  constructor
  · rintro ⟨⟨outer, d⟩, h, rfl⟩
    rw [cutNumber?_eq_some_iff] at h
    exact ⟨outer, h⟩
  · rintro ⟨outer, h⟩
    rw [← cutNumber?_eq_some_iff] at h
    exact ⟨(outer, digits), h, rfl⟩

/-- the digits of the number are all the digits at the end of the name -/
theorem rtakeWhile_simpleName {p : ClassPath} {digits : Text} (h : p.nested = some digits) :
    p.simpleName.rtakeWhile isDigit = digits := by
  rw [nested_eq_some_iff] at h
  obtain ⟨outer, hname, -, -, hdigits⟩ := h
  have hrun : ∀ c ∈ digits.reverse, isDigit c = true := by simpa using hdigits
  have hstop : isDigit '$' = false := by decide
  rw [hname, List.rtakeWhile, List.reverse_append, List.reverse_cons, List.append_assoc,
    List.singleton_append, takeWhile_run hrun hstop, List.reverse_reverse]

/-! ## segments -/

/-- the `$` and the number of a nameless class -/
def numberSuffix (p : ClassPath) : Text :=
  match p.nested with
  | some digits => '$' :: digits
  | none => []

theorem slash_not_mem_numberSuffix (p : ClassPath) : '/' ∉ p.numberSuffix := by
  unfold numberSuffix
  cases h : p.nested with
  | none => exact List.not_mem_nil
  | some digits =>
    rw [nested_eq_some_iff] at h
    obtain ⟨-, -, -, -, hdigits⟩ := h
    rw [List.mem_cons, not_or]
    exact ⟨by decide, fun hmem => absurd (hdigits '/' hmem) (by decide)⟩

/-- the segments are the parts between the slashes, the last one without the number -/
theorem exists_segments (p : ClassPath) :
    ∃ before name, p.path.splitOn '/' = before ++ [name ++ p.numberSuffix] ∧
      p.segments = before ++ [name] := by
  obtain ⟨before, hparts⟩ := (isLastPart_simpleName p).exists_splitOn
  unfold segments numberSuffix nested
  rw [lastPart_eq_simpleName, hparts]
  cases hcut : cutNumber? p.simpleName with
  | none => exact ⟨before, p.simpleName, by simp, rfl⟩
  | some cut =>
    refine ⟨before, cut.1, ?_, ?_⟩
    · rw [cutNumber?_eq_some_iff] at hcut
      rw [hcut.1]
      rfl
    · show (before ++ [p.simpleName]).dropLast ++ [cut.1] = before ++ [cut.1]
      rw [List.dropLast_concat]

/-- **The segments** are the only parts without a slash that give the path back with its number. -/
theorem segments_eq_iff {p : ClassPath} {parts : List Text} :
    p.segments = parts ↔
      parts ≠ [] ∧ (∀ part ∈ parts, '/' ∉ part) ∧ ['/'].intercalate parts ++ p.numberSuffix = p.path := by
  obtain ⟨before, name, hsplit, hsegments⟩ := exists_segments p
  rw [hsegments]
  constructor
  · rintro rfl
    rw [Text.splitOn_eq_iff] at hsplit
    obtain ⟨-, hslash, hpath⟩ := hsplit
    rw [List.forall_mem_append, List.forall_mem_singleton, List.mem_append, not_or] at hslash
    refine ⟨by simp, ?_, ?_⟩
    · rw [List.forall_mem_append, List.forall_mem_singleton]
      exact ⟨hslash.1, hslash.2.1⟩
    · rw [Text.intercalate_concat_append, hpath]
  · rintro ⟨hne, hslash, hpath⟩
    obtain ⟨before', name', rfl⟩ := List.eq_nil_or_concat' parts |>.resolve_left hne
    rw [Text.intercalate_concat_append] at hpath
    rw [List.forall_mem_append, List.forall_mem_singleton] at hslash
    have hsplit' : p.path.splitOn '/' = before' ++ [name' ++ p.numberSuffix] := by
      rw [Text.splitOn_eq_iff]
      refine ⟨by simp, ?_, hpath⟩
      rw [List.forall_mem_append, List.forall_mem_singleton, List.mem_append, not_or]
      exact ⟨hslash.1, hslash.2, slash_not_mem_numberSuffix p⟩
    rw [hsplit] at hsplit'
    obtain ⟨rfl, hlast⟩ := List.append_inj' hsplit' rfl
    rw [List.singleton_inj, List.append_left_inj] at hlast
    rw [hlast]

/-! ## the name in source code -/

/-- a path without dots is read off its name in source code -/
theorem map_javaName {p : ClassPath} (h : '.' ∉ p.path) :
    (p.javaName.map fun c => if c = '.' then '/' else c) = p.path := by
  rw [javaName, List.map_map]
  refine (List.map_congr_left ?_).trans (List.map_id p.path)
  intro c hc
  show (if (if c = '/' then '.' else c) = '.' then '/' else (if c = '/' then '.' else c)) = c
  by_cases hslash : c = '/'
  · rw [if_pos hslash, if_pos rfl, hslash]
  · have hdot : c ≠ '.' := fun e => h (e ▸ hc)
    rw [if_neg hslash, if_neg hdot]

theorem WellFormed.dot_not_mem {p : ClassPath} (hp : p.WellFormed) : '.' ∉ p.path :=
  fun h => absurd (hp.2 '.' h) (by decide)

/-! ## all parts -/

/-- **A path and its parts.**  The segments and the number give the path back, and no other segments do; the
number is there when the last part has one, with all digits at its end; package and simple name give the path
back; and a path that stands in a descriptor is read off its name in source code. -/
theorem path_decomposes (p : ClassPath) :
    ['/'].intercalate p.segments ++ p.numberSuffix = p.path ∧
    (∀ segment ∈ p.segments, '/' ∉ segment) ∧
    (∀ parts : List Text, parts ≠ [] → (∀ part ∈ parts, '/' ∉ part) →
      ['/'].intercalate parts ++ p.numberSuffix = p.path → parts = p.segments) ∧
    (∀ digits, p.nested = some digits ↔
      ∃ outer, Text.IsLastPart '/' p.path (outer ++ '$' :: digits) ∧ outer ≠ [] ∧ digits ≠ [] ∧
        ∀ c ∈ digits, isDigit c = true) ∧
    (∀ digits part, p.nested = some digits → Text.IsLastPart '/' p.path part →
      part.rtakeWhile isDigit = digits) ∧
    (p.path =
      match p.package? with
      | some package => package ++ '/' :: p.simpleName
      | none => p.simpleName) ∧
    Text.IsLastPart '/' p.path p.simpleName ∧
    (∀ t rest, ClassPath.read? t = some (p, rest) →
      (p.javaName.map fun c => if c = '.' then '/' else c) = p.path) := by
  obtain ⟨-, hslash, hpath⟩ := Iff.mp segments_eq_iff (Eq.refl p.segments)
  refine ⟨hpath, hslash, ?_, ?_, ?_, path_eq p, isLastPart_simpleName p, ?_⟩
  · intro parts hne hparts hpath
    rw [eq_comm, segments_eq_iff]
    exact ⟨hne, hparts, hpath⟩
  · intro digits
    simp only [← simpleName_eq_iff]
    exact nested_eq_some_iff
  · intro digits part hnested hpart
    rw [← simpleName_eq_iff] at hpart
    rw [← hpart]
    exact rtakeWhile_simpleName hnested
  · intro t rest hread
    exact map_javaName (Exact.sound exact_read? hread).1.dot_not_mem

/-- a class with a number inside a class with a name, at the start of a longer text -/
theorem path_decomposes_numbered :
    ClassPath.read? "Lcom/basic/Outer$Inner$12;V".toList =
      some (⟨"com/basic/Outer$Inner$12".toList⟩, "V".toList) ∧
    (⟨"com/basic/Outer$Inner$12".toList⟩ : ClassPath).nested = some "12".toList ∧
    ((⟨"com/basic/Outer$Inner$12".toList⟩ : ClassPath).javaName.map fun c => if c = '.' then '/' else c) =
      "com/basic/Outer$Inner$12".toList := by
  have hread : ClassPath.read? "Lcom/basic/Outer$Inner$12;V".toList =
      some (⟨"com/basic/Outer$Inner$12".toList⟩, "V".toList) := by decide
  obtain ⟨-, -, -, -, -, -, -, hjava⟩ := path_decomposes ⟨"com/basic/Outer$Inner$12".toList⟩
  exact ⟨hread, by decide, hjava _ _ hread⟩

end ClassPath
end Smali
