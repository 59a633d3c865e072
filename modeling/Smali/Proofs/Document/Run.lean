import Smali.Document.Parse
import Smali.Proofs.Line.Shape
import Smali.Proofs.Nesting

/-!
# The run over the lines of a text

* `nestingBefore language text k`  the nesting just before line `k`;
* `lineStatements language text`   the statement of each line, read inside the blocks that are open just
                                   before it;
* `nestingBefore_succ`             one line of the run;
* `nestingBefore_keeps`            what every push keeps holds before every line.
-/

namespace Smali

/-- the nesting just before line `k` -/
def nestingBefore (language : Language) (text : Text) (k : Nat) : Nesting :=
  ((numberedLines text).take k).foldl (Nesting.pushLine language) .empty

/-- the statement of each line, read inside the blocks that are open just before it -/
def lineStatements (language : Language) (text : Text) : List Statement :=
  (numberedLines text).map fun line =>
    parseLine language (nestingBefore language text line.2).stack line.1 line.2

section
variable (language : Language) (text : Text)

theorem nestingBefore_zero : nestingBefore language text 0 = .empty := rfl

theorem length_numberedLines : (numberedLines text).length = (Text.lines text).length := by
  rw [numberedLines, List.length_zipIdx]

theorem length_lineStatements : (lineStatements language text).length = (Text.lines text).length := by
  rw [lineStatements, List.length_map, length_numberedLines]

theorem parseDocument_eq_finish :
    parseDocument language text = (nestingBefore language text (Text.lines text).length).finish := by
  rw [nestingBefore, ← length_numberedLines, List.take_length]
  rfl

theorem numberedLines_getElem? (k : Nat) :
    (numberedLines text)[k]? = (Text.lines text)[k]?.map fun line => (line, k) := by
  rw [numberedLines, List.getElem?_zipIdx, Nat.zero_add]

theorem lineStatements_getElem? (k : Nat) :
    (lineStatements language text)[k]? = (Text.lines text)[k]?.map fun line =>
      parseLine language (nestingBefore language text k).stack line k := by
  rw [lineStatements, List.getElem?_map, numberedLines_getElem?, Option.map_map]
  rfl

theorem kind_of_keeps_eq_false {s : Statement} (hk : language.keeps s = false) : s.kind = .blank := by
  rw [Language.keeps, Bool.or_eq_false_iff] at hk
  simpa using hk.2

theorem isLine_of_mem_lineStatements {s : Statement} (hs : s ∈ lineStatements language text) :
    language.IsLine s := by
  obtain ⟨line, -, rfl⟩ := List.mem_map.mp hs
  exact ⟨_, _, _, rfl⟩

/-- **One line of the run.** -/
theorem nestingBefore_succ {k : Nat} {s : Statement}
    (hs : (lineStatements language text)[k]? = some s) :
    nestingBefore language text (k + 1) =
      if language.keeps s then (nestingBefore language text k).push s
      else nestingBefore language text k := by
  rw [lineStatements_getElem?] at hs
  obtain ⟨line, hl, rfl⟩ := Option.map_eq_some_iff.mp hs
  have hn : (numberedLines text)[k]? = some (line, k) := by
    rw [numberedLines_getElem?, hl, Option.map_some]
  rw [nestingBefore, List.take_add_one, hn, List.foldl_append]
  rfl

theorem nestingBefore_succ_of_none {k : Nat} (hs : (lineStatements language text)[k]? = none) :
    nestingBefore language text (k + 1) = nestingBefore language text k := by
  rw [lineStatements_getElem?, Option.map_eq_none_iff] at hs
  have hn : (numberedLines text)[k]? = none := by
    rw [numberedLines_getElem?, hs, Option.map_none]
  rw [nestingBefore, List.take_add_one, hn, Option.toList_none, List.append_nil]
  rfl

/-- what every push of a line that is kept keeps holds before every line -/
theorem nestingBefore_keeps_of_kept {Q : Statement → Prop} {I : Nesting → Prop} (h : Nesting.Kept Q I)
    (h0 : I .empty) (hQ : ∀ s ∈ lineStatements language text, language.keeps s = true → Q s) (k : Nat) :
    I (nestingBefore language text k) := by
  induction k with
  | zero => exact h0
  | succ k ih =>
    cases hs : (lineStatements language text)[k]? with
    | none =>
      rw [nestingBefore_succ_of_none language text hs]
      exact ih
    | some s =>
      rw [nestingBefore_succ language text hs]
      split
      · rename_i hkeeps
        exact h.push (hQ s (List.mem_of_getElem? hs) hkeeps) ih
      · exact ih

/-- what every push keeps holds before every line -/
theorem nestingBefore_keeps {Q : Statement → Prop} {I : Nesting → Prop} (h : Nesting.Kept Q I)
    (h0 : I .empty) (hQ : ∀ s ∈ lineStatements language text, Q s) (k : Nat) :
    I (nestingBefore language text k) :=
  nestingBefore_keeps_of_kept language text h h0 (fun s hs _ => hQ s hs) k

end
end Smali
