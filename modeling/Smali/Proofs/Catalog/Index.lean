import Mathlib.Data.List.Nodup
import Smali.Catalog

/-!
# The index of a catalog

* `Index.lookup_eq_some_iff`  what an index has for a mnemonic is what stands in it;
* `Index.fill_eq_ok_iff`      entries are put into an index when their mnemonics are new and distinct, and then each has
                              its position;
* `Index.fill_eq_error_iff`   or else the first mnemonic that is there already is the error;
* `Catalog.lookup_eq_some_iff`  so a mnemonic leads to the entry that has it.
-/

namespace Smali
namespace Catalog
namespace Index

/-- in an index without repetitions, a mnemonic has the position that stands beside it -/
theorem lookup_eq_some_iff {x : Index} (hx : (x.map Prod.fst).Nodup) {m : Text} {i : Nat} :
    x.lookup m = some i ↔ (m, i) ∈ x := by
  rw [List.lookup_eq_some_iff]
  constructor
  · rintro ⟨before, after, rfl, -⟩
    exact List.mem_append_right before List.mem_cons_self
  · intro h
    obtain ⟨before, after, rfl⟩ := List.append_of_mem h
    refine ⟨before, after, rfl, fun p hp => ?_⟩
    rw [List.map_append, List.map_cons, List.nodup_append] at hx
    rw [bne_iff_ne]
    exact (hx.2.2 p.1 (List.mem_map_of_mem hp) m List.mem_cons_self).symm

/-! ## filling -/

section
variable {x : Index} {m : Text}

theorem isSome_lookup_iff : (x.lookup m).isSome = true ↔ m ∈ x.map Prod.fst := by
  rw [List.lookup_isSome_iff, List.mem_map]
  exact exists_congr fun p => and_congr_right fun _ => beq_iff_eq.trans eq_comm

theorem insert_of_not_mem (h : m ∉ x.map Prod.fst) (i : Nat) : insert m i x = (none, x ++ [(m, i)]) := by
  have hnone : x.lookup m = none := by
    rw [← Option.not_isSome_iff_eq_none, isSome_lookup_iff]
    exact h
  have hkept : x.filter (fun p => p.1 != m) = x := by
    rw [List.filter_eq_self]
    intro p hp
    rw [bne_iff_ne]
    rintro rfl
    exact h (List.mem_map_of_mem hp)
  rw [insert, hnone, hkept]

variable {e : Entry} (es : List Entry)

theorem fill_cons_of_mem (h : e.mnemonic ∈ x.map Prod.fst) (i : Nat) :
    fill x i (e :: es) = .error (.duplicateMnemonic e.mnemonic) := by
  obtain ⟨j, hj⟩ := Option.isSome_iff_exists.mp (isSome_lookup_iff.mpr h)
  rw [fill, insert, hj]

theorem fill_cons_of_not_mem (h : e.mnemonic ∉ x.map Prod.fst) (i : Nat) :
    fill x i (e :: es) = fill (x ++ [(e.mnemonic, i)]) (i + 1) es := by
  rw [fill, insert_of_not_mem h]

end

section
variable {x y : Index} (hx : (x.map Prod.fst).Nodup) {i : Nat} {es : List Entry}
include hx

/-- the mnemonics of an index after one more is put into it -/
theorem nodup_concat {m : Text} (hm : m ∉ x.map Prod.fst) : ((x ++ [(m, i)]).map Prod.fst).Nodup := by
  rw [List.map_append, List.map_singleton, ← List.concat_eq_append, List.nodup_concat]
  exact ⟨hm, hx⟩

/-- **Entries are put into an index** when no mnemonic is there twice, and then each has its position. -/
theorem fill_eq_ok_iff : fill x i es = .ok y ↔
    (x.map Prod.fst ++ es.map Entry.mnemonic).Nodup ∧ y = x ++ (es.map Entry.mnemonic).zipIdx i := by
  induction es generalizing x i with
  | nil =>
    rw [fill, Except.ok.injEq, List.map_nil, List.append_nil, List.zipIdx_nil, List.append_nil, eq_comm]
    exact (and_iff_right hx).symm
  | cons e es ih =>
    by_cases hmem : e.mnemonic ∈ x.map Prod.fst
    · rw [fill_cons_of_mem es hmem]
      refine iff_of_false nofun fun h => ?_
      exact (List.nodup_append.mp h.1).2.2 _ hmem _ List.mem_cons_self rfl
    · rw [fill_cons_of_not_mem es hmem, ih (nodup_concat hx hmem), List.map_append, List.map_singleton,
        List.append_assoc, List.append_assoc]
      rfl

/-- **The first mnemonic that is there already is the error,** be it in the index or among the entries before. -/
theorem fill_eq_error_iff {cause : Error} : fill x i es = .error cause ↔
    ∃ before e after, es = before ++ e :: after ∧ cause = .duplicateMnemonic e.mnemonic ∧
      (x.map Prod.fst ++ before.map Entry.mnemonic).Nodup ∧
      e.mnemonic ∈ x.map Prod.fst ++ before.map Entry.mnemonic := by
  induction es generalizing x i with
  | nil =>
    refine iff_of_false nofun ?_
    rintro ⟨before, e, after, h, -⟩
    exact absurd h.symm (List.append_ne_nil_of_right_ne_nil before (List.cons_ne_nil e after))
  | cons a es ih =>
    by_cases hmem : a.mnemonic ∈ x.map Prod.fst
    · rw [fill_cons_of_mem es hmem]
      constructor
      · intro h
        refine ⟨[], a, es, rfl, (Except.error.inj h).symm, ?_, List.mem_append_left _ hmem⟩
        rwa [List.map_nil, List.append_nil]
      · rintro ⟨before, e, after, hsplit, rfl, hnodup, -⟩
        cases before with
        | nil =>
          obtain rfl := (List.cons.inj hsplit).1
          rfl
        | cons b before =>
          obtain rfl := (List.cons.inj hsplit).1
          exact absurd rfl ((List.nodup_append.mp hnodup).2.2 _ hmem _ List.mem_cons_self)
    · rw [fill_cons_of_not_mem es hmem, ih (nodup_concat hx hmem)]
      simp only [List.map_append, List.map_singleton, List.append_assoc, List.singleton_append]
      constructor
      · rintro ⟨before, e, after, rfl, hcause, hnodup, hfound⟩
        exact ⟨a :: before, e, after, rfl, hcause, hnodup, hfound⟩
      · rintro ⟨before, e, after, hsplit, hcause, hnodup, hfound⟩
        cases before with
        | nil =>
          obtain rfl := (List.cons.inj hsplit).1
          rw [List.map_nil, List.append_nil] at hfound
          exact absurd hfound hmem
        | cons b before =>
          obtain ⟨rfl, rfl⟩ := List.cons.inj hsplit
          exact ⟨before, e, after, rfl, hcause, hnodup, hfound⟩

end

theorem fill_nil_eq_ok_iff {es : List Entry} {y : Index} :
    fill [] 0 es = .ok y ↔ (es.map Entry.mnemonic).Nodup ∧ y = ofEntries es :=
  @fill_eq_ok_iff [] y List.nodup_nil 0 es

theorem fill_nil_eq_error_iff {es : List Entry} {cause : Error} :
    fill [] 0 es = .error cause ↔
      ∃ before e after, es = before ++ e :: after ∧ cause = .duplicateMnemonic e.mnemonic ∧
        (before.map Entry.mnemonic).Nodup ∧ e.mnemonic ∈ before.map Entry.mnemonic :=
  @fill_eq_error_iff [] List.nodup_nil 0 es cause

/-! ## positions -/

theorem map_fst_ofEntries (es : List Entry) : (ofEntries es).map Prod.fst = es.map Entry.mnemonic := by
  rw [ofEntries, List.zipIdx_map_fst]

/-- **A position in the index** is that of the entry with the mnemonic. -/
theorem lookup_ofEntries_iff {es : List Entry} (hnodup : (es.map Entry.mnemonic).Nodup) {m : Text} {i : Nat} :
    (ofEntries es).lookup m = some i ↔ (es.map Entry.mnemonic)[i]? = some m := by
  rw [lookup_eq_some_iff (by rwa [map_fst_ofEntries]), ofEntries, List.mem_zipIdx_iff_getElem?]

end Index

/-- **A mnemonic leads to its entry.** -/
theorem lookup_eq_some_iff {c : Catalog} (hindex : c.index = .ofEntries c.entries)
    (hnodup : (c.entries.map Entry.mnemonic).Nodup) {m : Text} {e : Entry} :
    c.lookup m = some e ↔ e ∈ c.entries ∧ e.mnemonic = m := by
  rw [lookup, hindex, Option.bind_eq_some_iff]
  constructor
  · rintro ⟨i, hi, he⟩
    rw [Index.lookup_ofEntries_iff hnodup, List.getElem?_map, he, Option.map_some, Option.some.injEq] at hi
    exact ⟨List.mem_of_getElem? he, hi⟩
  · rintro ⟨he, rfl⟩
    obtain ⟨i, hi⟩ := List.getElem?_of_mem he
    refine ⟨i, ?_, hi⟩
    rw [Index.lookup_ofEntries_iff hnodup, List.getElem?_map, hi, Option.map_some]

end Catalog
end Smali
