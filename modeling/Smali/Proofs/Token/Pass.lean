import Smali.Token.Lexer

/-!
# Passes over a line

A pass takes the tokens of a line one by one, and whitespace is passed over when it is not wanted.  All
passes go along the same tokens.

* `Lexer.tokens`        all tokens that are left, whitespace too;
* `Lexer.run_induct`    induction along them;
* `Lexer.wanted`        those of them that are wanted, and how `Lexer.next`, `Lexer.take` and `Lexer.drain` go
                        along them;
* `tokenizeWith_eq`     the tokens of a line are the wanted ones from its start.
-/

namespace Smali
namespace Lexer

/-- all tokens that are left -/
def tokens (catalog : Catalog) (l : Lexer) : List Token :=
  match h : l.lex catalog with
  | none => []
  | some (t, l') =>
    have := length_lt_of_lex h
    t :: l'.tokens catalog
termination_by l.rest.length

/-- induction along the tokens that are left -/
@[elab_as_elim]
theorem run_induct (catalog : Catalog) {motive : Lexer → Prop} (done : ∀ l, l.lex catalog = none → motive l)
    (step : ∀ l t m, l.lex catalog = some (t, m) → motive m → motive l) (l : Lexer) : motive l := by
  cases h : l.lex catalog with
  | none => exact done l h
  | some p =>
    have := length_lt_of_lex h
    exact step l p.1 p.2 h (run_induct catalog done step p.2)
termination_by l.rest.length

/-- the tokens that are left and wanted -/
def wanted (catalog : Catalog) (keepBlanks : Bool) (l : Lexer) : List Token :=
  (l.tokens catalog).filter (wants keepBlanks)

section
variable {catalog : Catalog} {keepBlanks : Bool} {l m : Lexer} {t : Token}

/-! ## one token -/

theorem rest_eq_nil_of_lex (h : l.lex catalog = none) : l.rest = [] := by
  by_cases hrest : l.rest.isEmpty = true
  · exact List.isEmpty_iff.mp hrest
  · rw [lex, if_neg hrest] at h
    cases h

theorem tokens_of_lex (h : l.lex catalog = some (t, m)) : l.tokens catalog = t :: m.tokens catalog := by
  rw [tokens]
  split
  · rename_i h'
    rw [h] at h'
    cases h'
  · rename_i t' m' h'
    rw [h] at h'
    cases h'
    rfl

theorem tokens_of_lex_eq_none (h : l.lex catalog = none) : l.tokens catalog = [] := by
  rw [tokens]
  split
  · rfl
  · rename_i h'
    rw [h] at h'
    cases h'

theorem wanted_of_lex (h : l.lex catalog = some (t, m)) : l.wanted catalog keepBlanks =
    if wants keepBlanks t then t :: m.wanted catalog keepBlanks else m.wanted catalog keepBlanks := by
  rw [wanted, tokens_of_lex h, List.filter_cons]
  rfl

theorem wanted_of_lex_eq_none (h : l.lex catalog = none) : l.wanted catalog keepBlanks = [] := by
  rw [wanted, tokens_of_lex_eq_none h, List.filter_nil]

theorem wanted_true (l : Lexer) : l.wanted catalog true = l.tokens catalog :=
  List.filter_eq_self.mpr fun _ _ => rfl

theorem next_of_lex (h : l.lex catalog = some (t, m)) : l.next catalog keepBlanks =
    if wants keepBlanks t then some (t, m) else m.next catalog keepBlanks := by
  rw [next]
  split
  · rename_i h'
    rw [h] at h'
    cases h'
  · rename_i t' m' h'
    rw [h] at h'
    cases h'
    rfl

theorem next_of_lex_eq_none (h : l.lex catalog = none) : l.next catalog keepBlanks = none := by
  rw [next]
  split
  · rfl
  · rename_i h'
    rw [h] at h'
    cases h'

theorem finish_of_lex (h : l.lex catalog = some (t, m)) : l.finish catalog = m.finish catalog := by
  rw [finish]
  split
  · rename_i h'
    rw [h] at h'
    cases h'
  · rename_i t' m' h'
    rw [h] at h'
    cases h'
    rfl

theorem finish_of_lex_eq_none (h : l.lex catalog = none) : l.finish catalog = l := by
  rw [finish]
  split
  · rfl
  · rename_i h'
    rw [h] at h'
    cases h'

theorem drain_of_next (h : l.next catalog keepBlanks = some (t, m)) : l.drain catalog keepBlanks =
    (t :: (m.drain catalog keepBlanks).1, (m.drain catalog keepBlanks).2) := by
  rw [drain]
  split
  · rename_i h'
    rw [h] at h'
    cases h'
  · rename_i t' m' h'
    rw [h] at h'
    cases h'
    rfl

theorem drain_of_next_eq_none (h : l.next catalog keepBlanks = none) :
    l.drain catalog keepBlanks = ([], l.finish catalog) := by
  rw [drain]
  split
  · rfl
  · rename_i h'
    rw [h] at h'
    cases h'

/-! ## along the tokens -/

theorem wanted_eq (catalog : Catalog) (keepBlanks : Bool) (l : Lexer) : l.wanted catalog keepBlanks =
    match l.next catalog keepBlanks with
    | none => []
    | some (t, m) => t :: m.wanted catalog keepBlanks := by
  induction l using run_induct catalog with
  | done l h => rw [wanted_of_lex_eq_none h, next_of_lex_eq_none h]
  | step l t m h ih =>
    rw [wanted_of_lex h, next_of_lex h]
    cases wants keepBlanks t with
    | true => rfl
    | false => exact ih

theorem rest_finish (l : Lexer) : (l.finish catalog).rest = [] := by
  induction l using run_induct catalog with
  | done l h => rw [finish_of_lex_eq_none h, rest_eq_nil_of_lex h]
  | step l t m h ih => rw [finish_of_lex h, ih]

theorem wanted_finish (l : Lexer) : (l.finish catalog).wanted catalog keepBlanks = [] := by
  induction l using run_induct catalog with
  | done l h => rw [finish_of_lex_eq_none h, wanted_of_lex_eq_none h]
  | step l t m h ih => rw [finish_of_lex h, ih]

/-- taking tokens one by one goes along the tokens that are wanted -/
theorem take_eq (catalog : Catalog) (keepBlanks : Bool) (n : Nat) (l : Lexer) :
    (l.take catalog keepBlanks n).1 = (l.wanted catalog keepBlanks).take n ∧
      (l.take catalog keepBlanks n).2.wanted catalog keepBlanks = (l.wanted catalog keepBlanks).drop n := by
  induction n generalizing l with
  | zero => exact ⟨rfl, rfl⟩
  | succ n ih =>
    have hw := wanted_eq catalog keepBlanks l
    rw [take]
    cases h : l.next catalog keepBlanks with
    | none =>
      rw [h] at hw
      rw [hw]
      exact ⟨rfl, wanted_finish l⟩
    | some p =>
      rw [h] at hw
      rw [hw]
      obtain ⟨hfirst, hrest⟩ := ih p.2
      exact ⟨congrArg (p.1 :: ·) hfirst, hrest⟩

/-- a token that is not wanted changes nothing for the pass -/
theorem drain_of_lex (h : l.lex catalog = some (t, m)) : l.drain catalog keepBlanks =
    if wants keepBlanks t then (t :: (m.drain catalog keepBlanks).1, (m.drain catalog keepBlanks).2)
    else m.drain catalog keepBlanks := by
  by_cases hwants : wants keepBlanks t = true
  · rw [if_pos hwants]
    exact drain_of_next (by rw [next_of_lex h, if_pos hwants])
  · have hnext : l.next catalog keepBlanks = m.next catalog keepBlanks := by
      rw [next_of_lex h, if_neg hwants]
    rw [if_neg hwants]
    cases hm : m.next catalog keepBlanks with
    | none => rw [drain_of_next_eq_none (hnext.trans hm), drain_of_next_eq_none hm, finish_of_lex h]
    | some p => rw [drain_of_next (hnext.trans hm), drain_of_next hm]

/-- **A whole pass** takes the tokens that are wanted and ends at the end of the line. -/
theorem drain_eq (catalog : Catalog) (keepBlanks : Bool) (l : Lexer) :
    l.drain catalog keepBlanks = (l.wanted catalog keepBlanks, l.finish catalog) := by
  induction l using run_induct catalog with
  | done l h =>
    rw [drain_of_next_eq_none (next_of_lex_eq_none h), wanted_of_lex_eq_none h]
  | step l t m h ih =>
    rw [drain_of_lex h, wanted_of_lex h, finish_of_lex h, ih]
    cases wants keepBlanks t <;> rfl

end
end Lexer

section
variable {catalog : Catalog} {keepBlanks : Bool} {line : Text} {number : Nat}

theorem tokenizeWith_eq : tokenizeWith catalog keepBlanks line number =
    (Lexer.start line number).wanted catalog keepBlanks := by
  rw [tokenizeWith, Lexer.drain_eq]

theorem tokenize_eq : tokenize catalog line number = (Lexer.start line number).wanted catalog false :=
  tokenizeWith_eq

theorem mem_tokenizeWith {t : Token} : t ∈ tokenizeWith catalog keepBlanks line number ↔
    t ∈ (Lexer.start line number).tokens catalog ∧ Lexer.wants keepBlanks t = true := by
  rw [tokenizeWith_eq, Lexer.wanted, List.mem_filter]

end
end Smali
