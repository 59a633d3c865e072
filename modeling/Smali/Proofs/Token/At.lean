import Smali.Proofs.Token.Layout
import Smali.Token.Line

/-!
# The token at a place

Tokens that lie one after the other are found by their starts alone: the last one that starts at or before a place is
the one that covers it, if any does.

* `TokenLine.get?_fill_of_covers`, `TokenLine.get?_fill_of_forall`  what the index of any tokens has for a place: the
                          position of the last token that covers it;
* `Layout.takeWhile_start_le`  the tokens that start at or before a place are the first ones;
* `Layout.last_covers`    of these, the last one covers the place if any token does;
* `Layout.tokenAt?_eq`    so looking into the index, and else for the last token before the place, is a scan by the
                          starts;
* `Layout.tokenAt?_of_cut`  any cut of the tokens by their starts finds the same one;
* `tokenAt?_tokenizeWith` the token at any place of a line.
-/

namespace Smali

/-- a property that no element has after one that lacks it holds for the first elements -/
theorem takeWhile_eq_filter {α : Type} {p : α → Bool} {l : List α} (h : l.Pairwise fun a b => p b = true → p a = true) :
    l.takeWhile p = l.filter p := by
  induction l with
  | nil => rfl
  | cons a l ih =>
    obtain ⟨ha, hl⟩ := List.pairwise_cons.mp h
    by_cases hp : p a = true
    · rw [List.takeWhile_cons_of_pos hp, List.filter_cons_of_pos hp, ih hl]
    · rw [List.takeWhile_cons_of_neg hp, List.filter_cons_of_neg hp, eq_comm, List.filter_eq_nil_iff]
      exact fun b hb hpb => hp (ha b hb hpb)

/-- the last of the first elements with a property, found by their number -/
theorem getElem?_length_takeWhile {α : Type} (p : α → Bool) (l : List α) :
    (match (l.takeWhile p).length with
      | 0 => l.head?
      | n + 1 => l[n]?) = (l.takeWhile p).getLast?.or l.head? := by
  cases hlength : (l.takeWhile p).length with
  | zero =>
    rw [List.length_eq_zero_iff] at hlength
    rw [hlength]
    rfl
  | succ n =>
    have hn : n < (l.takeWhile p).length := by omega
    have hfound := List.prefix_iff_getElem?.mp (List.takeWhile_prefix p) n hn
    rw [List.getLast?_eq_getElem?, hlength, Nat.add_sub_cancel, List.getElem?_eq_getElem hn]
    exact hfound

/-! ## the index -/

namespace TokenLine

/-- a token without text is left out, and it covers nothing -/
theorem get?_insert_token (r : RangeMap) (i : Nat) (t : Token) (offset : Nat) :
    (if 0 < t.size then r.insert t.start t.stop i else r).get? offset =
      if t.covers offset = true then some i else r.get? offset := by
  split
  · rw [RangeMap.get?_insert]
    simp only [Token.covers, Bool.and_eq_true, decide_eq_true_eq]
  · rename_i hsize
    rw [if_neg]
    rw [Token.covers, Bool.and_eq_true, decide_eq_true_iff, decide_eq_true_iff, Token.stop]
    omega

theorem fill_append (r : RangeMap) (i : Nat) (ts us : List Token) :
    fill r i (ts ++ us) = fill (fill r i ts) (i + ts.length) us := by
  induction ts generalizing r i with
  | nil => rfl
  | cons t ts ih => rw [List.cons_append, fill, fill, ih, List.length_cons, Nat.add_assoc, Nat.add_comm 1]

theorem get?_fill_of_forall {ts : List Token} {offset : Nat} (h : ∀ t ∈ ts, t.covers offset = false) (r : RangeMap)
    (i : Nat) : (fill r i ts).get? offset = r.get? offset := by
  induction ts generalizing r i with
  | nil => rfl
  | cons t ts ih =>
    obtain ⟨ht, hts⟩ := List.forall_mem_cons.mp h
    rw [fill, ih hts, get?_insert_token, ht, if_neg Bool.false_ne_true]

theorem get?_fill_of_covers {t : Token} {offset : Nat} (ht : t.covers offset = true) (before : List Token)
    {after : List Token} (hafter : ∀ u ∈ after, u.covers offset = false) (r : RangeMap) (i : Nat) :
    (fill r i (before ++ t :: after)).get? offset = some (i + before.length) := by
  rw [fill_append, fill, get?_fill_of_forall hafter, get?_insert_token, if_pos ht]

/-- without a token that covers the place, the starts decide -/
theorem tokenAt?_ofTokens_of_forall {ts : List Token} {offset : Nat} (h : ∀ t ∈ ts, t.covers offset = false) :
    (ofTokens ts).tokenAt? offset = (ts.takeWhile fun t => t.start ≤ offset).getLast?.or ts.head? := by
  have hindex : (ofTokens ts).index.get? offset = none :=
    (get?_fill_of_forall h .empty 0).trans (RangeMap.get?_empty offset)
  rw [tokenAt?, hindex]
  exact getElem?_length_takeWhile _ ts

theorem tokenAt?_ofTokens_of_covers {t : Token} {offset : Nat} (ht : t.covers offset = true) (before : List Token)
    {after : List Token} (hafter : ∀ u ∈ after, u.covers offset = false) :
    (ofTokens (before ++ t :: after)).tokenAt? offset = some t := by
  have hindex : (ofTokens (before ++ t :: after)).index.get? offset = some before.length := by
    rw [← Nat.zero_add before.length]
    exact get?_fill_of_covers ht before hafter .empty 0
  rw [tokenAt?, hindex]
  show (before ++ t :: after)[before.length]? = some t
  rw [List.getElem?_append_right (Nat.le_refl _), Nat.sub_self, List.getElem?_cons_zero]

end TokenLine

/-! ## tokens one after the other -/

namespace Layout

variable {line : Text} {number : Nat} {ts : List Token} (h : Layout line number ts)
include h

theorem start_lt : ts.Pairwise fun a b => a.start < b.start := by
  refine h.order.imp_of_mem ?_
  intro a b ha _ hab
  have := (h.sits a ha).start_lt_stop
  omega

theorem takeWhile_start_le (offset : Nat) :
    ts.takeWhile (fun t => t.start ≤ offset) = ts.filter fun t => t.start ≤ offset := by
  apply takeWhile_eq_filter
  refine h.start_lt.imp ?_
  intro a b hab hb
  rw [decide_eq_true_iff] at hb ⊢
  omega

/-- the tokens after the one that covers a place start after that place -/
theorem lt_start_of_covers {before after : List Token} {t : Token} (hts : ts = before ++ t :: after) {offset : Nat}
    (hcovers : t.covers offset = true) : ∀ u ∈ after, offset < u.start := by
  subst hts
  intro u hu
  have hstop := (List.pairwise_cons.mp (List.pairwise_append.mp h.order).2.1).1 u hu
  rw [Token.covers, Bool.and_eq_true, decide_eq_true_iff, decide_eq_true_iff] at hcovers
  omega

/-- so it is the last one that starts at or before the place -/
theorem last_covers {before after : List Token} {t : Token} (hts : ts = before ++ t :: after) {offset : Nat}
    (hcovers : t.covers offset = true) : (ts.filter fun t => t.start ≤ offset).getLast? = some t := by
  have hstart := h.lt_start_of_covers hts hcovers
  subst hts
  have hafter : after.filter (fun t => t.start ≤ offset) = [] := by
    rw [List.filter_eq_nil_iff]
    intro u hu hle
    have := hstart u hu
    rw [decide_eq_true_iff] at hle
    omega
  rw [Token.covers, Bool.and_eq_true] at hcovers
  rw [List.filter_append, List.filter_cons_of_pos (by exact hcovers.1), hafter]
  exact List.getLast?_concat

theorem tokenAt?_of_covers {t : Token} (ht : t ∈ ts) {offset : Nat} (hcovers : t.covers offset = true) :
    tokenAt? ts offset = some t := by
  obtain ⟨before, after, hts⟩ := List.append_of_mem ht
  have hstart := h.lt_start_of_covers hts hcovers
  rw [tokenAt?, hts]
  refine TokenLine.tokenAt?_ofTokens_of_covers hcovers before fun u hu => ?_
  have := hstart u hu
  rw [Token.covers, Bool.and_eq_false_iff, decide_eq_false_iff_not]
  exact .inl (by omega)

/-- **The token at a place** is the last one that starts at or before it, or else the first one. -/
theorem tokenAt?_eq (offset : Nat) :
    tokenAt? ts offset = (ts.filter fun t => t.start ≤ offset).getLast?.or ts.head? := by
  by_cases hnone : ∀ t ∈ ts, t.covers offset = false
  · rw [← h.takeWhile_start_le]
    exact TokenLine.tokenAt?_ofTokens_of_forall hnone
  · push Not at hnone
    obtain ⟨t, ht, hcovers⟩ := hnone
    rw [Ne, Bool.not_eq_false] at hcovers
    obtain ⟨before, after, hts⟩ := List.append_of_mem ht
    rw [h.tokenAt?_of_covers ht hcovers, h.last_covers hts hcovers]
    rfl

theorem mem_of_tokenAt? {t : Token} {offset : Nat} (ht : tokenAt? ts offset = some t) : t ∈ ts := by
  rw [h.tokenAt?_eq] at ht
  rcases Option.or_eq_some_iff.mp ht with ht | ⟨-, ht⟩
  · exact (List.mem_filter.mp (List.mem_of_getLast? ht)).1
  · exact List.mem_of_head? ht

/-- a cut between the tokens that start at or before a place and those that start after it is enough to find the
token at that place -/
theorem tokenAt?_of_cut {offset n : Nat} (hn : n ≤ ts.length) (hbefore : ∀ t ∈ ts.take n, t.start ≤ offset)
    (hafter : ∀ t ∈ ts.drop n, offset < t.start) :
    tokenAt? ts offset = if n = 0 then ts.head? else ts[n - 1]? := by
  have hfilter : ts.filter (fun t => t.start ≤ offset) = ts.take n := by
    rw [← List.take_append_drop n ts, List.filter_append, List.filter_eq_self.mpr, List.filter_eq_nil_iff.mpr]
    · rw [List.append_nil, List.take_append_drop]
    · intro t ht hle
      have := hafter t ht
      rw [decide_eq_true_iff] at hle
      omega
    · intro t ht
      rw [decide_eq_true_iff]
      exact hbefore t ht
  rw [h.tokenAt?_eq, hfilter]
  split
  · rename_i hzero
    rw [hzero]
    rfl
  · rename_i hzero
    have hlast : n - 1 < ts.length := by omega
    rw [List.getLast?_take, if_neg hzero, List.getElem?_eq_getElem hlast]
    rfl

end Layout

/-- **The token at a place of a line,** which may be anywhere: inside a character, in a gap between tokens or after
the end.  It is the last token that starts at or before the place, or else the first one; there is none only when the
line has no tokens; the token that covers the place, if there is one, is the one that is found; and a cut of the
tokens by their starts finds it, too. -/
theorem tokenAt?_tokenizeWith (catalog : Catalog) (keepBlanks : Bool) (line : Text) (number offset : Nat) :
    let ts := tokenizeWith catalog keepBlanks line number
    tokenAt? ts offset = (ts.filter fun t => t.start ≤ offset).getLast?.or ts.head? ∧
    (tokenAt? ts offset = none ↔ ts = []) ∧
    (∀ t ∈ ts, t.covers offset = true → tokenAt? ts offset = some t) ∧
    ∀ n ≤ ts.length, (∀ t ∈ ts.take n, t.start ≤ offset) → (∀ t ∈ ts.drop n, offset < t.start) →
      tokenAt? ts offset = if n = 0 then ts.head? else ts[n - 1]? := by
  intro ts
  have hlayout : Layout line number ts := layout_tokenizeWith catalog line number keepBlanks
  refine ⟨hlayout.tokenAt?_eq offset, ?_, fun t ht => hlayout.tokenAt?_of_covers ht,
    fun n hn => hlayout.tokenAt?_of_cut hn⟩
  rw [hlayout.tokenAt?_eq, Option.or_eq_none_iff, List.head?_eq_none_iff]
  constructor
  · exact fun h => h.2
  · intro h
    rw [h]
    exact ⟨rfl, rfl⟩

-- before the first token, inside a character, in a gap and after the end
example : [0, 2, 4, 9].map (fun offset => (tokenAt? (tokenize .empty " é  b".toList 0) offset).map Token.start) =
    [some 1, some 1, some 1, some 5] := by
  decide +kernel

end Smali
