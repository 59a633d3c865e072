import Mathlib.Algebra.Ring.Nat
import Smali.Proofs.Document.Diagnostics
import Smali.Proofs.Document.Outline
import Smali.Proofs.Position

/-!
# The number of diagnostics

Each diagnostic of a document is the report of a line, or it stands for the missing end of a block.  The
reports are counted in `localErrors_parseDocument`; here the missing ends are, and there is one for each block
that is ended without its closing line, no more and no less.

* `missingCount`           the number of diagnostics about missing ends;
* `Nesting.unwound s b`    how many blocks of `b` the statement `s` ends without their closing lines;
* `Nesting.push_unwound`   these are open blocks of `b`, and once they are ended, `s` is placed;
* `Nesting.missingCount_push`  so one line adds as many diagnostics as it ends blocks;
* `unwoundBlocks`          the number of blocks that are ended so over a whole text;
* `parseDocument_diagnostics`  the diagnostics of a document: their order, when there are none, and their number.
-/

namespace Smali

/-! ## missing ends -/

/-- the number of diagnostics about blocks that lack their ends -/
def missingCount (ss : List Statement) : Nat :=
  (ss.filterMap fun s => s.error).countP fun e => e.category == .unterminated

theorem missingCount_append (a b : List Statement) : missingCount (a ++ b) = missingCount a + missingCount b := by
  rw [missingCount, List.filterMap_append, List.countP_append]
  rfl

theorem missingCount_cons (s : Statement) (ss : List Statement) :
    missingCount (s :: ss) = missingCount [s] + missingCount ss :=
  missingCount_append [s] ss

theorem missingCount_congr {s s' : Statement} (h : s.error = s'.error) : missingCount [s] = missingCount [s'] := by
  rw [missingCount, missingCount, List.filterMap_cons, List.filterMap_cons, h]

theorem missingCount_of_isLocal {s : Statement} (h : ∀ e, s.error = some e → e.IsLocal) : missingCount [s] = 0 := by
  rw [missingCount, List.countP_eq_zero]
  intro e he
  obtain ⟨s', hs', hse⟩ := List.mem_filterMap.mp he
  obtain rfl := List.mem_singleton.mp hs'
  rw [beq_iff_eq]
  exact h e hse

theorem missingCount_of_missing {s : Statement} {k : BlockKind} {span : Span}
    (h : s.error = some ⟨.unterminated k, span, none⟩) : missingCount [s] = 1 := by
  rw [missingCount, List.filterMap_cons, h]
  rfl

/-- a diagnostic is about a missing end, or it is not -/
theorem length_errors (ss : List Statement) :
    (ss.filterMap fun s => s.error).length = (localErrors ss).length + missingCount ss := by
  rw [List.length_eq_countP_add_countP (fun e : Diagnostic => e.category != .unterminated),
    List.countP_eq_length_filter, missingCount, localErrors]
  simp only [bne_iff_ne, ne_eq, Decidable.not_not]
  rfl

namespace Nesting
open Node

/-! ## blocks that are ended -/

/-- the block of a frame gets one diagnostic about its missing end, wherever it is put -/
theorem missingCount_unterminated (f : Frame) :
    missingCount f.unterminated.walk = missingCount (f.statement :: walkAll f.children) + 1 := by
  unfold Frame.unterminated
  cases he : f.statement.error with
  | none =>
    have hhead : missingCount [f.statement] = 0 := missingCount_of_isLocal (by rw [he]; exact nofun)
    dsimp only
    rw [walk_mk, Option.toList_none, List.append_nil, missingCount_cons, missingCount_of_missing rfl,
      missingCount_cons f.statement, hhead]
    omega
  | some e =>
    have hend : missingCount [{ Statement.bare .error [] f.statement.span with
        error := some ⟨.unterminated f.kind, f.statement.span, none⟩ }] = 1 := missingCount_of_missing rfl
    have hhead : missingCount [{ f.statement with span := f.extent }] = missingCount [f.statement] :=
      missingCount_congr rfl
    dsimp only
    rw [walk_mk, Option.toList_some, missingCount_cons, missingCount_append, hend, missingCount_cons f.statement,
      hhead]
    omega

theorem missingCount_unwindOne (f : Frame) (fs : List Frame) (top : List Node) :
    missingCount (unwindOne ⟨f :: fs, top⟩).walk = missingCount (walk ⟨f :: fs, top⟩) + 1 := by
  rw [unwindOne_cons, walk_add, walk_cons, missingCount_append, missingCount_append, missingCount_unterminated]
  omega

theorem missingCount_unwind {n : Nat} {b : Nesting} (hn : n ≤ b.frames.length) :
    missingCount (b.unwind n).walk = missingCount b.walk + n := by
  induction n generalizing b with
  | zero => rfl
  | succ n ih =>
    obtain ⟨frames, top⟩ := b
    cases frames with
    | nil => cases hn
    | cons f fs =>
      have hlength : (unwindOne ⟨f :: fs, top⟩).frames.length = fs.length := by
        have := congrArg List.length (stack_unwindOne ⟨f :: fs, top⟩)
        simpa [stack] using this
      show missingCount ((unwindOne ⟨f :: fs, top⟩).unwind n).walk = _
      rw [ih (by rw [hlength]; exact Nat.le_of_succ_le_succ hn), missingCount_unwindOne]
      omega

/-- a statement that is placed adds no such diagnostic -/
theorem missingCount_placed {s : Statement} (hs : ∀ e, s.error = some e → e.IsLocal) {b b' : Nesting}
    (hp : Placed s b b') : missingCount b'.walk = missingCount b.walk := by
  have hown := missingCount_of_isLocal hs
  cases hp with
  | opened k hc ho => rw [walk_cons, walkAll, missingCount_append, hown, Nat.add_zero]
  | line hc ho => rw [walk_add, walk_leaf, missingCount_append, hown, Nat.add_zero]
  | stray k hc =>
    have hstray : missingCount [{ s with kind := .error, error := some ⟨.unmatched k, s.span, none⟩ }] = 0 := rfl
    rw [addStray, walk_add, walk_leaf, missingCount_append, hstray, Nat.add_zero]
  | closed f fs hf hc hk =>
    obtain ⟨frames, top⟩ := b
    obtain rfl : frames = f :: fs := hf
    have hhead : missingCount [{ f.statement with span := f.statement.span.cover s.span }] =
        missingCount [f.statement] := missingCount_congr rfl
    rw [walk_add, walk_cons, missingCount_append, missingCount_append, Frame.closedBy, walk_mk,
      Option.toList_some, missingCount_cons, missingCount_append, hown, missingCount_cons f.statement, hhead,
      Nat.add_zero]
  | claimed k before n after hc hk hi hn =>
    obtain ⟨outside, hwalk⟩ := exists_walk_mapInnermost b
    have hb : b.walk = outside ++ walkAll b.innermost := by
      rw [← hwalk fun nodes => nodes, mapInnermost_id]
    obtain ⟨head, children, closing⟩ := n
    obtain rfl : closing = none := (isOpenDeclaration_iff.mp hn).1
    have hhead : missingCount [{ head with opens := some k, span := head.span.cover s.span }] =
        missingCount [head] := missingCount_congr rfl
    rw [hwalk, hb, hi, claim]
    simp only [walkAll_append, walkAll, walk_mk, missingCount_append, Option.toList_some, Option.toList_none,
      List.append_nil]
    rw [missingCount_cons, missingCount_cons head, hhead]
    simp only [missingCount_append, hown]
    omega

/-! ## one line -/

/-- how many blocks an end of kind `k` ends without their closing lines: those inside what it closes -/
def unwoundBy (k : BlockKind) (b : Nesting) : Nat :=
  if b.lacks k then 0
  else if k.isOptional then ((declaration? (declares k) b.containers).map Prod.fst).getD 0
  else (b.frames.takeWhile fun f => f.kind != k).length

/-- how many blocks the statement ends without their closing lines -/
def unwound (s : Statement) (b : Nesting) : Nat :=
  (if s.isTopLevel then b.frames.length else 0) + (s.closes.map fun k => (b.metBy s).unwoundBy k).getD 0

theorem close_unwoundBy {s : Statement} {k : BlockKind} (hc : s.closes = some k) (hk : k.isOptional = false)
    (b : Nesting) : b.unwoundBy k ≤ b.frames.length ∧ Placed s (b.unwind (b.unwoundBy k)) (b.close s k) := by
  by_cases h : (b.frames.takeWhile fun f => f.kind != k).length = b.frames.length
  · rw [unwoundBy, if_pos ((lacks_iff hk b).mpr h)]
    simp only [close, if_pos h]
    exact ⟨Nat.zero_le _, .stray k hc⟩
  · obtain ⟨f, fs, hf, rfl⟩ := exists_frame_of_close h
    rw [unwoundBy, if_neg (mt (lacks_iff hk b).mp h), hk, if_neg Bool.false_ne_true]
    simp only [close, if_neg h, hf]
    exact ⟨(List.takeWhile_prefix _).length_le, .closed f fs hf hc hk⟩

theorem closeDeclaration_unwoundBy {s : Statement} {k : BlockKind} (hc : s.closes = some k)
    (hk : k.isOptional = true) (b : Nesting) : b.unwoundBy k ≤ b.frames.length ∧
      Placed s (b.unwind (b.unwoundBy k)) (b.closeDeclaration s k) := by
  rw [unwoundBy, lacks, if_pos hk]
  cases h : declaration? (declares k) b.containers with
  | none =>
    simp only [closeDeclaration, h]
    exact ⟨Nat.zero_le _, .stray k hc⟩
  | some p =>
    obtain ⟨before, n, after, hi, hn, hclose⟩ := exists_closeDeclaration h s
    rw [hclose, Option.isNone_some, if_neg Bool.false_ne_true, if_pos hk]
    exact ⟨(findLastIdx?_of_declaration? h).1, .claimed k before n after hc hk hi hn⟩

/-- a nesting that a statement meets has ended the blocks that its class ends -/
theorem metBy_eq_unwind (s : Statement) (b : Nesting) :
    b.metBy s = b.unwind (if s.isTopLevel then b.frames.length else 0) := by
  unfold metBy
  split
  · rfl
  · rfl

/-- **A push ends open blocks, `unwound` many, and then places the statement.** -/
theorem push_unwound (s : Statement) (b : Nesting) :
    b.unwound s ≤ b.frames.length ∧ Placed s (b.unwind (b.unwound s)) (b.push s) := by
  have hfirst : (if s.isTopLevel then b.frames.length else 0) ≤ b.frames.length := by
    split
    · exact Nat.le_refl _
    · exact Nat.zero_le _
  have hmet : (b.metBy s).frames.length =
      b.frames.length - if s.isTopLevel then b.frames.length else 0 := by
    have hstack := congrArg List.length (stack_unwind (if s.isTopLevel then b.frames.length else 0) b)
    rw [← metBy_eq_unwind, List.length_drop] at hstack
    simpa only [stack, List.length_map] using hstack
  rw [unwound, ← unwind_unwind, ← metBy_eq_unwind]
  cases hc : s.closes with
  | none =>
    refine ⟨hfirst, ?_⟩
    show Placed s (b.metBy s) _
    cases ho : s.opens with
    | some k =>
      rw [push_of_opens hc ho]
      exact .opened k hc ho
    | none =>
      rw [push_of_neither hc ho]
      exact .line hc ho
  | some k =>
    show _ + (b.metBy s).unwoundBy k ≤ _ ∧ Placed s ((b.metBy s).unwind ((b.metBy s).unwoundBy k)) _
    rw [push_of_closes hc]
    have hclose : (b.metBy s).unwoundBy k ≤ (b.metBy s).frames.length ∧
        Placed s ((b.metBy s).unwind ((b.metBy s).unwoundBy k))
          (if k.isOptional then (b.metBy s).closeDeclaration s k else (b.metBy s).close s k) := by
      cases hk : k.isOptional with
      | true => exact closeDeclaration_unwoundBy hc hk _
      | false => exact close_unwoundBy hc hk _
    refine ⟨?_, hclose.2⟩
    have := hclose.1
    omega

/-- **One line adds a diagnostic about a missing end for each block that it ends.** -/
theorem missingCount_push {s : Statement} (hs : ∀ e, s.error = some e → e.IsLocal) (b : Nesting) :
    missingCount (b.push s).walk = missingCount b.walk + b.unwound s := by
  obtain ⟨hle, hp⟩ := push_unwound s b
  rw [missingCount_placed hs hp, missingCount_unwind hle]

theorem missingCount_finish (b : Nesting) : missingCount b.finish.walk = missingCount b.walk + b.frames.length := by
  rw [← missingCount_unwind (Nat.le_refl _)]
  show missingCount (walkAll b.unwindAll.top) =
    missingCount (walkAll b.unwindAll.top ++ walkFrames b.unwindAll.frames)
  rw [frames_unwindAll, walkFrames, List.append_nil]

end Nesting

/-! ## documents -/

section
variable (language : Language) (text : Text)

/-- the lines that report something, each to the blocks that are open just before it: the statement has a
diagnostic of its own, or it is an end and there is nothing for it to close -/
def reportingLines : Nat :=
  (lineStatements language text).zipIdx.countP fun (s, i) =>
    s.error.isSome || (nestingBefore language text i).strays s

/-- the blocks that the first `k` lines end without their closing lines -/
def unwoundBefore (k : Nat) : Nat :=
  (((lineStatements language text).zipIdx.take k).map fun (s, i) =>
    if language.keeps s then (nestingBefore language text i).unwound s else 0).sum

/-- all blocks that are ended without their closing lines: by a line, or because there are no more lines -/
def unwoundBlocks : Nat :=
  unwoundBefore language text (Text.lines text).length +
    (nestingBefore language text (Text.lines text).length).frames.length

theorem missingCount_nestingBefore (k : Nat) :
    missingCount (nestingBefore language text k).walk = unwoundBefore language text k := by
  induction k with
  | zero => rfl
  | succ k ih =>
    rw [unwoundBefore, List.take_add_one, List.map_append, List.sum_append, ← unwoundBefore, ← ih,
      List.getElem?_zipIdx, Nat.zero_add]
    cases hs : (lineStatements language text)[k]? with
    | none =>
      rw [nestingBefore_succ_of_none language text hs]
      rfl
    | some s =>
      have hline := isLine_of_mem_lineStatements language text (List.mem_of_getElem? hs)
      rw [nestingBefore_succ language text hs, Option.map_some, Option.toList_some, List.map_singleton,
        List.sum_singleton]
      dsimp only
      split
      · exact Nesting.missingCount_push (fun _ he => hline.isLocal he) _
      · rfl

theorem missingCount_parseDocument :
    missingCount (parseDocument language text).walk = unwoundBlocks language text := by
  rw [parseDocument_eq_finish, Nesting.missingCount_finish, missingCount_nestingBefore, unwoundBlocks]

theorem Nesting.isSome_report (s : Statement) (b : Nesting) :
    (b.report s).isSome = (s.error.isSome || b.strays s) := by
  unfold Nesting.report
  split
  · rename_i h
    rw [h, Bool.or_true, Option.isSome_map]
    exact Option.isSome_of_any h
  · rename_i h
    rw [Bool.not_eq_true _ |>.mp h, Bool.or_false]

theorem length_lineReports : (lineReports language text).length = reportingLines language text := by
  rw [lineReports, ← List.filterMap_eq_flatMap_toList, List.length_filterMap_eq_countP]
  simp only [Nesting.isSome_report]
  rfl

end

/-! ## the diagnostics of all trees -/

namespace Node

mutual

theorem hasErrors_eq : (n : Node) → n.hasErrors = n.walk.any fun s => s.error.isSome
  | ⟨s, children, closing⟩ => by
    rw [hasErrors, walk, List.any_cons, List.any_append, anyHasErrors_eq children, Bool.or_assoc]
    cases closing with
    | none => rfl
    | some e => rw [Option.toList_some, List.any_cons, List.any_nil, Bool.or_false]; rfl

theorem anyHasErrors_eq : (ns : List Node) → anyHasErrors ns = (walkAll ns).any fun s => s.error.isSome
  | [] => rfl
  | n :: ns => by rw [anyHasErrors, walkAll, List.any_append, hasErrors_eq n, anyHasErrors_eq ns]

end

end Node

/-- a document has errors exactly when it has diagnostics -/
theorem Document.diagnostics_eq_nil_iff (d : Document) : d.diagnostics = [] ↔ d.hasErrors = false := by
  have hnil : d.diagnostics = [] ↔ (d.walk.filterMap fun s => s.error) = [] := by
    rw [← List.length_eq_zero_iff, d.isStableSort_diagnostics.perm.length_eq, List.length_eq_zero_iff]
  rw [hnil, hasErrors, Node.anyHasErrors_eq, List.filterMap_eq_nil_iff, List.any_eq_false]
  refine forall₂_congr fun s _ => ?_
  rw [Option.not_isSome_iff_eq_none]

/-- **The diagnostics of a document are accounted for.**  They are the errors that the walk meets, sorted by the
start of their spans, and equal starts stay as they are met.  There are none exactly when no tree has an error.
Their number is that of the lines that have a diagnostic of their own or are ends with nothing to close, and of the
blocks that are ended without their closing lines. -/
theorem parseDocument_diagnostics (language : Language) (text : Text) :
    let d := parseDocument language text
    IsStableSort (fun a b => decide (a.span.start ≤ b.span.start)) (d.walk.filterMap fun s => s.error)
        d.diagnostics ∧
      (d.diagnostics = [] ↔ d.hasErrors = false) ∧
      d.diagnostics.length = reportingLines language text + unwoundBlocks language text := by
  intro d
  refine ⟨d.isStableSort_diagnostics, d.diagnostics_eq_nil_iff, ?_⟩
  rw [d.isStableSort_diagnostics.perm.length_eq, length_errors, localErrors_parseDocument,
    length_lineReports, missingCount_parseDocument]

end Smali
