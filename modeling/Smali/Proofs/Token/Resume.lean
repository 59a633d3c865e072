import Smali.Proofs.Token.Tiling

/-!
# A line that is taken up again

A state that is kept is a place between two tokens.  On the same line it leads back to the very lexer it
was taken from, so interruptions leave no trace in the tokens.

* `Lexer.Kept catalog I`    `I` is kept from one token to the next; `Kept.take` says that it is then kept
                            by whole runs;
* `Lexer.resume_state`      a kept state, taken up again on its line;
* `Lexer.interrupted`       a pass over a line with interruptions;
* `interrupted_tokenizeWith`  such a pass gives the tokens of an uninterrupted one, and each state that is
                            kept on the way is at a boundary between characters of the line.
-/

namespace Smali
namespace Lexer

/-! ## what a run keeps -/

/-- `I` is kept from one token to the next -/
def Kept (catalog : Catalog) (I : Lexer → Prop) : Prop :=
  ∀ l t m, l.lex catalog = some (t, m) → I l → I m

section
variable {catalog : Catalog} {I : Lexer → Prop} {keepBlanks : Bool}

theorem Kept.next (hI : Kept catalog I) {l m : Lexer} {t : Token} (h : l.next catalog keepBlanks = some (t, m))
    (hl : I l) : I m := by
  induction l using run_induct catalog with
  | done l hlex =>
    rw [next_of_lex_eq_none hlex] at h
    cases h
  | step l u k hlex ih =>
    have hk := hI l u k hlex hl
    rw [next_of_lex hlex] at h
    split at h
    · obtain ⟨-, rfl⟩ := Prod.mk.inj (Option.some.inj h)
      exact hk
    · exact ih h hk

theorem Kept.finish (hI : Kept catalog I) {l : Lexer} (hl : I l) : I (l.finish catalog) := by
  induction l using run_induct catalog with
  | done l hlex =>
    rw [finish_of_lex_eq_none hlex]
    exact hl
  | step l u k hlex ih =>
    rw [finish_of_lex hlex]
    exact ih (hI l u k hlex hl)

theorem Kept.take (hI : Kept catalog I) (n : Nat) {l : Lexer} (hl : I l) :
    I (l.take catalog keepBlanks n).2 := by
  induction n generalizing l with
  | zero => exact hl
  | succ n ih =>
    rw [Lexer.take]
    cases h : l.next catalog keepBlanks with
    | none => exact hI.finish hl
    | some p => exact ih (hI.next h hl)

theorem kept_text (catalog : Catalog) (line : Text) : Kept catalog fun l => l.text = line := by
  intro l t m h hl
  rw [(offset_of_lex h).2.2.2, hl]

theorem text_take (catalog : Catalog) (keepBlanks : Bool) (n : Nat) (l : Lexer) :
    (l.take catalog keepBlanks n).2.text = l.text :=
  (kept_text catalog l.text).take n rfl

end

/-! ## kept states -/

theorem offset_le_size (l : Lexer) : l.offset ≤ Text.size l.text := by
  rw [size_text]
  omega

theorem isBoundary_offset (l : Lexer) : Text.isBoundary l.offset l.text = true := by
  have h := Text.isBoundary_size l.behind.reverse l.rest
  rw [Text.size_reverse] at h
  exact h

/-- a lexer can be taken up again at its place on its line, whatever its context is to be -/
theorem resume_at (l : Lexer) (number : Nat) (ctx : LexContext) :
    resume l.text ⟨l.offset, number, ctx⟩ = ⟨l.behind, l.rest, number, ctx⟩ := by
  have htake := Text.takeBytes_size l.behind.reverse l.rest
  have hdrop := Text.dropBytes_size l.behind.reverse l.rest
  rw [Text.size_reverse] at htake hdrop
  show Lexer.mk (Text.takeBytes (Text.size l.behind) (l.behind.reverse ++ l.rest)).reverse
    (Text.dropBytes (Text.size l.behind) (l.behind.reverse ++ l.rest)) _ _ = _
  rw [htake, hdrop, List.reverse_reverse]

/-- **A kept state, taken up again on its line,** is the lexer it was taken from. -/
theorem resume_state (l : Lexer) : resume l.text l.state = l :=
  resume_at l l.line l.context

/-! ## interruptions -/

/-- Takes as many tokens as each of the counts says, keeps the state each time and takes up the line again
from it, and in the end takes all tokens that are left.  Gives the tokens and the states that were kept. -/
def interrupted (catalog : Catalog) (keepBlanks : Bool) (line : Text) :
    List Nat → Lexer → List Token × List LexState
  | [], l => ((l.drain catalog keepBlanks).1, [])
  | n :: counts, l =>
    let (ts, m) := l.take catalog keepBlanks n
    let (us, states) := interrupted catalog keepBlanks line counts (resume line m.state)
    (ts ++ us, m.state :: states)

theorem interrupted_eq (catalog : Catalog) (keepBlanks : Bool) (counts : List Nat) (l : Lexer) :
    (l.interrupted catalog keepBlanks l.text counts).1 = l.wanted catalog keepBlanks ∧
      ∀ s ∈ (l.interrupted catalog keepBlanks l.text counts).2, ∃ m : Lexer, m.text = l.text ∧ s = m.state := by
  induction counts generalizing l with
  | nil => exact ⟨congrArg Prod.fst (drain_eq catalog keepBlanks l), List.forall_mem_nil _⟩
  | cons n counts ih =>
    obtain ⟨hfirst, hrest⟩ := take_eq catalog keepBlanks n l
    have htext := text_take catalog keepBlanks n l
    obtain ⟨htokens, hstates⟩ := ih (l.take catalog keepBlanks n).2
    have hresume := resume_state (l.take catalog keepBlanks n).2
    rw [htext] at htokens hstates hresume
    constructor
    · show (l.take catalog keepBlanks n).1 ++ (interrupted catalog keepBlanks l.text counts
        (resume l.text (l.take catalog keepBlanks n).2.state)).1 = _
      rw [hresume, htokens, hfirst, hrest, List.take_append_drop]
    · show ∀ s ∈ (l.take catalog keepBlanks n).2.state :: (interrupted catalog keepBlanks l.text counts
        (resume l.text (l.take catalog keepBlanks n).2.state)).2, _
      rw [hresume]
      exact List.forall_mem_cons.mpr ⟨⟨_, htext, rfl⟩, hstates⟩

end Lexer

/-- **Interruptions leave no trace.**  However often a pass over a line is interrupted, and after however many
tokens each time, its tokens are those of the line.  Each state that is kept on the way lies within the line,
at a boundary between characters, and taking up the line again does not change it. -/
theorem interrupted_tokenizeWith (catalog : Catalog) (keepBlanks : Bool) (line : Text) (number : Nat)
    (counts : List Nat) :
    ((Lexer.start line number).interrupted catalog keepBlanks line counts).1 =
      tokenizeWith catalog keepBlanks line number ∧
    ∀ s ∈ ((Lexer.start line number).interrupted catalog keepBlanks line counts).2,
      s.offset ≤ Text.size line ∧ Text.isBoundary s.offset line = true ∧
        (Lexer.resume line s).state = s := by
  obtain ⟨htokens, hstates⟩ := Lexer.interrupted_eq catalog keepBlanks counts (Lexer.start line number)
  refine ⟨htokens.trans tokenizeWith_eq.symm, ?_⟩
  intro s hs
  obtain ⟨m, hm, rfl⟩ := hstates s hs
  obtain rfl : m.text = line := hm
  refine ⟨m.offset_le_size, m.isBoundary_offset, ?_⟩
  rw [m.resume_state]

end Smali
