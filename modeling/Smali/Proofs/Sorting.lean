/-!
# Stable sorting

* `IsStableSort`            what a stable sort of a list is;
* `isStableSort_mergeSort`  `List.mergeSort` gives one, for an order that is transitive and total;
* `IsStableSort.unique`     and a list has no other.
-/

namespace Smali

variable {α : Type}

/-- `sorted` has the elements of `l` in the order `le`, and those that are equal in that order as they stand in
`l` -/
structure IsStableSort (le : α → α → Bool) (l sorted : List α) : Prop where
  perm : sorted.Perm l
  ordered : sorted.Pairwise fun a b => le a b = true
  stable : ∀ c, sorted.filter (fun b => le c b && le b c) = l.filter fun b => le c b && le b c

/-- **`List.mergeSort` sorts,** and it is stable. -/
theorem isStableSort_mergeSort {le : α → α → Bool}
    (htrans : ∀ a b c, le a b = true → le b c = true → le a c = true)
    (htotal : ∀ a b, le a b = true ∨ le b a = true) (l : List α) : IsStableSort le l (l.mergeSort le) where
  perm := List.mergeSort_perm l le
  ordered := List.pairwise_mergeSort htrans (fun a b => Bool.or_eq_true_iff.mpr (htotal a b)) l
  stable := by
    intro c
    -- elements that are equal to `c` are in order as they stand, so they stay in this order, and there are no more
    have hties : (l.filter fun b => le c b && le b c).Pairwise fun a b => le a b = true := by
      rw [List.pairwise_filter]
      refine List.pairwise_of_forall fun a b ha hb => ?_
      exact htrans a c b (Bool.and_eq_true_iff.mp ha).2 (Bool.and_eq_true_iff.mp hb).1
    have hstays := (List.sublist_mergeSort htrans (fun a b => Bool.or_eq_true_iff.mpr (htotal a b)) hties
      List.filter_sublist).filter fun b => le c b && le b c
    rw [List.filter_filter] at hstays
    simp only [Bool.and_self] at hstays
    exact (hstays.eq_of_length ((List.mergeSort_perm l le).symm.filter _).length_eq).symm

/-- ordered lists in which equal elements stand in the same order are the same -/
theorem eq_of_ordered {le : α → α → Bool} (htotal : ∀ a b, le a b = true ∨ le b a = true) {s t : List α}
    (hs : s.Pairwise fun a b => le a b = true) (ht : t.Pairwise fun a b => le a b = true)
    (hst : ∀ c, s.filter (fun b => le c b && le b c) = t.filter fun b => le c b && le b c) : s = t := by
  have hrefl : ∀ a, (le a a && le a a) = true := by
    intro a
    rw [Bool.and_self]
    exact (htotal a a).elim id id
  have hmem : ∀ a (u v : List α), u.filter (fun b => le a b && le b a) = v.filter (fun b => le a b && le b a) →
      a ∈ u → a ∈ v := by
    intro a u v huv ha
    exact (List.mem_filter.mp (huv ▸ List.mem_filter.mpr ⟨ha, hrefl a⟩)).1
  induction s generalizing t with
  | nil =>
    cases t with
    | nil => rfl
    | cons b t => exact absurd (hmem b _ _ (hst b).symm List.mem_cons_self) List.not_mem_nil
  | cons a s ih =>
    cases t with
    | nil => exact absurd (hmem a _ _ (hst a) List.mem_cons_self) List.not_mem_nil
    | cons b t =>
      obtain ⟨has, hs'⟩ := List.pairwise_cons.mp hs
      obtain ⟨hbt, ht'⟩ := List.pairwise_cons.mp ht
      -- each head is in the other list, so neither comes before the other
      have hab : le a b = true := by
        rcases List.mem_cons.mp (hmem b _ _ (hst b).symm List.mem_cons_self) with rfl | hb
        · exact (htotal b b).elim id id
        · exact has b hb
      have hba : le b a = true := by
        rcases List.mem_cons.mp (hmem a _ _ (hst a) List.mem_cons_self) with rfl | ha
        · exact (htotal a a).elim id id
        · exact hbt a ha
      have hhead := hst a
      rw [List.filter_cons, if_pos (hrefl a), List.filter_cons, if_pos (by rw [hab, hba]; rfl)] at hhead
      obtain rfl := (List.cons.inj hhead).1
      congr 1
      apply ih hs' ht'
      intro c
      have htail := hst c
      rw [List.filter_cons, List.filter_cons] at htail
      split at htail
      · exact (List.cons.inj htail).2
      · exact htail

/-- **A list has one stable sort.** -/
theorem IsStableSort.unique {le : α → α → Bool} (htotal : ∀ a b, le a b = true ∨ le b a = true) {l s t : List α}
    (hs : IsStableSort le l s) (ht : IsStableSort le l t) : s = t :=
  eq_of_ordered htotal hs.ordered ht.ordered fun c => (hs.stable c).trans (ht.stable c).symm

end Smali
