import Smali.Proofs.Document.Order
import Smali.Proofs.Line.Places
import Smali.Proofs.Position
import Smali.Proofs.Sorting

/-!
# The diagnostics of a document

Each line adds at most one diagnostic to its document: its own one, or, when it is an end and there is nothing
to close, the one that says so.  All other diagnostics are those of blocks without an end.

* `Node.collect_eq`        what is collected from a tree are the errors that its walk meets;
* `Document.isStableSort_diagnostics`  so these, sorted by their places, are the diagnostics of a document;
* `localErrors`            the diagnostics of statements that are not about missing ends;
* `Nesting.strays s`       the statement is an end, and there is nothing for it to close;
* `Nesting.report s`       the diagnostic that the statement adds;
* `Nesting.localErrors_push`  one line adds its report, and nothing that was there is lost;
* `localErrors_parseDocument`  so the diagnostics of a document are the reports of its lines;
* `mem_diagnostics_iff_not_strays`  the own diagnostic of a line is one of the document, unless the line is
                           an end with nothing to close.
-/

namespace Smali

/-! ## collecting along the trees -/

namespace Node

theorem report_eq (out : List Diagnostic) (s : Statement) : report out s = out ++ s.error.toList := by
  unfold report
  cases s.error with
  | none => exact (List.append_nil out).symm
  | some e => rfl

theorem filterMap_error_cons (s : Statement) (ss : List Statement) :
    ((s :: ss).filterMap fun s => s.error) = s.error.toList ++ ss.filterMap fun s => s.error := by
  rw [List.filterMap_cons]
  cases s.error <;> rfl

mutual

/-- a tree adds the errors that its walk meets to those that are collected already -/
theorem collect_eq (out : List Diagnostic) : (n : Node) →
    n.collect out = out ++ n.walk.filterMap fun s => s.error
  | ⟨s, children, none⟩ => by
    rw [collect, walk, collectAll_eq (report out s) children, report_eq, filterMap_error_cons, Option.toList_none,
      List.append_nil, List.append_assoc]
  | ⟨s, children, some e⟩ => by
    rw [collect, walk, report_eq, collectAll_eq (report out s) children, report_eq, filterMap_error_cons,
      Option.toList_some, List.filterMap_append, filterMap_error_cons e, List.filterMap_nil, List.append_nil,
      List.append_assoc, List.append_assoc]

theorem collectAll_eq (out : List Diagnostic) : (ns : List Node) →
    collectAll out ns = out ++ (walkAll ns).filterMap fun s => s.error
  | [] => by rw [collectAll, walkAll, List.filterMap_nil, List.append_nil]
  | n :: ns => by
    rw [collectAll, walkAll, collectAll_eq (n.collect out) ns, collect_eq out n, List.filterMap_append,
      List.append_assoc]

end

theorem flatMap_diagnostics (ns : List Node) :
    ns.flatMap diagnostics = (walkAll ns).filterMap fun s => s.error := by
  induction ns with
  | nil => rw [List.flatMap_nil, walkAll, List.filterMap_nil]
  | cons n ns ih => rw [List.flatMap_cons, walkAll, List.filterMap_append, ih, diagnostics, collect_eq, List.nil_append]

end Node

/-- the trees are collected in the order of the walk -/
theorem Document.diagnostics_eq (d : Document) :
    d.diagnostics =
      (d.walk.filterMap fun s => s.error).mergeSort fun a b => decide (a.span.start ≤ b.span.start) := by
  rw [diagnostics, Node.flatMap_diagnostics, walk]

theorem Document.isStableSort_diagnostics (d : Document) :
    IsStableSort (fun a b => decide (a.span.start ≤ b.span.start)) (d.walk.filterMap fun s => s.error)
      d.diagnostics := by
  rw [diagnostics_eq]
  apply isStableSort_mergeSort
  · intro a b c hab hbc
    exact decide_eq_true (le_trans (of_decide_eq_true hab) (of_decide_eq_true hbc))
  · intro a b
    simp only [decide_eq_true_eq]
    exact le_total _ _

/-! ## the reports of lines -/

/-- the diagnostics of statements, without those of blocks that lack their ends -/
def localErrors (ss : List Statement) : List Diagnostic :=
  (ss.filterMap fun s => s.error).filter fun e => e.category != .unterminated

theorem localErrors_append (a b : List Statement) : localErrors (a ++ b) = localErrors a ++ localErrors b := by
  rw [localErrors, List.filterMap_append, List.filter_append]
  rfl

theorem localErrors_cons (s : Statement) (ss : List Statement) :
    localErrors (s :: ss) = localErrors [s] ++ localErrors ss :=
  localErrors_append [s] ss

theorem localErrors_singleton (s : Statement) :
    localErrors [s] = s.error.toList.filter fun e => e.category != .unterminated := by
  rw [localErrors, List.filterMap_cons]
  cases s.error <;> rfl

theorem localErrors_of_isLocal {s : Statement} (h : ∀ e, s.error = some e → e.IsLocal) :
    localErrors [s] = s.error.toList := by
  rw [localErrors_singleton, List.filter_eq_self]
  intro e he
  exact bne_iff_ne.mpr (h e (Option.mem_toList.mp he))

theorem localErrors_of_missing {s : Statement} {k : BlockKind} {span : Span}
    (h : s.error = some ⟨.unterminated k, span, none⟩) : localErrors [s] = [] := by
  rw [localErrors_singleton, h]
  rfl

/-- a line with a diagnostic is no blank line -/
theorem Language.IsLine.error_eq_none {language : Language} {s : Statement} (hs : language.IsLine s)
    (hk : s.kind = .blank) : s.error = none := by
  obtain ⟨stack, line, number, rfl⟩ := hs
  revert hk
  unfold parseLine
  dsimp only
  split
  · split
    · exact fun _ => rfl
    · exact fun _ => rfl
  · split
    · exact nofun
    · split
      · exact fun _ => rfl
      · exact nofun

namespace Nesting
open Node

/-! ## ends of blocks -/

theorem localErrors_unterminated (f : Frame) :
    localErrors f.unterminated.walk = localErrors (f.statement :: walkAll f.children) := by
  unfold Frame.unterminated
  cases he : f.statement.error with
  | none =>
    dsimp only
    rw [walk_mk, Option.toList_none, List.append_nil, localErrors_cons, localErrors_cons f.statement,
      localErrors_singleton f.statement, he, localErrors_of_missing rfl]
    rfl
  | some e =>
    have hend : localErrors [{ Statement.bare .error [] f.statement.span with
        error := some ⟨.unterminated f.kind, f.statement.span, none⟩ }] = [] := localErrors_of_missing rfl
    dsimp only
    rw [walk_mk, Option.toList_some, localErrors_cons, localErrors_append, hend, List.append_nil,
      localErrors_cons f.statement, localErrors_singleton, localErrors_singleton]

theorem localErrors_closedBy (f : Frame) (s : Statement) : localErrors (f.closedBy s).walk =
    localErrors (f.statement :: walkAll f.children) ++ localErrors [s] := by
  rw [Frame.closedBy, walk_mk, Option.toList_some, localErrors_cons, localErrors_append,
    localErrors_cons f.statement, localErrors_singleton, localErrors_singleton f.statement, List.append_assoc]

theorem localErrors_claim (k : BlockKind) (s : Statement) {n : Node} (hn : n.closing = none)
    (after : List Node) :
    localErrors (claim k s n after).walk = localErrors (walkAll (n :: after)) ++ localErrors [s] := by
  obtain ⟨head, children, closing⟩ := n
  obtain rfl : closing = none := hn
  rw [claim, walk_mk, walkAll_append, Option.toList_some, walkAll, walk_mk, Option.toList_none, List.append_nil]
  rw [localErrors_cons, List.cons_append, localErrors_cons head, localErrors_singleton,
    localErrors_singleton head, localErrors_append, List.append_assoc]

theorem localErrors_unwindOne (b : Nesting) : localErrors b.unwindOne.walk = localErrors b.walk := by
  obtain ⟨frames, top⟩ := b
  cases frames with
  | nil => rfl
  | cons f fs => rw [unwindOne_cons, walk_add, walk_cons, localErrors_append, localErrors_append,
      localErrors_unterminated]

theorem localErrors_unwind (n : Nat) (b : Nesting) : localErrors (b.unwind n).walk = localErrors b.walk := by
  induction n generalizing b with
  | zero => rfl
  | succ n ih =>
    show localErrors (b.unwindOne.unwind n).walk = localErrors b.walk
    rw [ih, localErrors_unwindOne]

/-! ## what a statement adds -/

/-- the nesting that the statement is placed in: one of the class itself ends all open blocks -/
def metBy (s : Statement) (b : Nesting) : Nesting :=
  if s.isTopLevel then b.unwindAll else b

/-- there is nothing for an end of kind `k` to close -/
def lacks (k : BlockKind) (b : Nesting) : Bool :=
  if k.isOptional then (declaration? (declares k) b.containers).isNone else !b.stack.contains k

/-- the statement is an end, and there is nothing for it to close -/
def strays (s : Statement) (b : Nesting) : Bool :=
  s.closes.any fun k => (b.metBy s).lacks k

/-- the diagnostic that the statement adds: its own one, or that it is an end with nothing to close -/
def report (s : Statement) (b : Nesting) : Option Diagnostic :=
  if b.strays s then s.closes.map fun k => ⟨.unmatched k, s.span, none⟩ else s.error

theorem localErrors_metBy (s : Statement) (b : Nesting) : localErrors (b.metBy s).walk = localErrors b.walk := by
  unfold metBy
  split
  · exact localErrors_unwind _ b
  · rfl

theorem localErrors_addStray (s : Statement) (k : BlockKind) (b : Nesting) :
    localErrors (b.addStray s k).walk = localErrors b.walk ++ [⟨.unmatched k, s.span, none⟩] := by
  rw [addStray, walk_add, walk_leaf, localErrors_append]
  rfl

/-- no block of kind `k` is open exactly when the search passes over all open blocks -/
theorem lacks_iff {k : BlockKind} (hk : k.isOptional = false) (b : Nesting) :
    b.lacks k = true ↔ (b.frames.takeWhile fun f => f.kind != k).length = b.frames.length := by
  rw [inside_eq_length_iff, List.dropWhile_eq_nil_iff, lacks, hk, if_neg Bool.false_ne_true, Bool.not_eq_true',
    Bool.eq_false_iff, Ne, List.contains_iff_mem]
  simp only [bne_iff_ne]
  exact ⟨fun h x hx hxk => h (hxk ▸ hx), fun h hk => h k hk rfl⟩

theorem localErrors_close (s : Statement) {k : BlockKind} (hk : k.isOptional = false) (b : Nesting) :
    localErrors (b.close s k).walk =
      localErrors b.walk ++ if b.lacks k then [⟨.unmatched k, s.span, none⟩] else localErrors [s] := by
  by_cases h : (b.frames.takeWhile fun f => f.kind != k).length = b.frames.length
  · rw [if_pos ((lacks_iff hk b).mpr h)]
    simp only [close, if_pos h]
    exact localErrors_addStray s k b
  · obtain ⟨f, fs, hf, rfl⟩ := exists_frame_of_close h
    rw [if_neg (mt (lacks_iff hk b).mp h),
      ← localErrors_unwind (b.frames.takeWhile fun g => g.kind != f.kind).length b]
    simp only [close, if_neg h, hf]
    generalize b.unwind (b.frames.takeWhile fun g => g.kind != f.kind).length = b' at hf
    obtain ⟨frames, top⟩ := b'
    obtain rfl : frames = f :: fs := hf
    rw [walk_add, walk_cons, localErrors_append, localErrors_append, localErrors_closedBy, List.append_assoc]

theorem localErrors_closeDeclaration (s : Statement) {k : BlockKind} (hk : k.isOptional = true) (b : Nesting) :
    localErrors (b.closeDeclaration s k).walk =
      localErrors b.walk ++ if b.lacks k then [⟨.unmatched k, s.span, none⟩] else localErrors [s] := by
  rw [lacks, if_pos hk]
  cases h : declaration? (declares k) b.containers with
  | none =>
    rw [Option.isNone_none, if_pos rfl]
    simp only [closeDeclaration, h]
    exact localErrors_addStray s k b
  | some p =>
    obtain ⟨before, n, after, hi, hn, hclose⟩ := exists_closeDeclaration h s
    obtain ⟨outside, hwalk⟩ := exists_walk_mapInnermost (b.unwind p.1)
    have hb : (b.unwind p.1).walk = outside ++ walkAll (b.unwind p.1).innermost := by
      rw [← hwalk fun nodes => nodes, mapInnermost_id]
    rw [Option.isNone_some, if_neg Bool.false_ne_true, hclose, hwalk, ← localErrors_unwind p.1 b, hb, hi]
    simp only [walkAll_append, walkAll_singleton, localErrors_append,
      localErrors_claim k s (isOpenDeclaration_iff.mp hn).1, List.append_assoc]

theorem push_of_closes {s : Statement} {k : BlockKind} (hc : s.closes = some k) (b : Nesting) :
    b.push s = if k.isOptional then (b.metBy s).closeDeclaration s k else (b.metBy s).close s k := by
  simp only [push, metBy, hc]

theorem push_of_opens {s : Statement} {k : BlockKind} (hc : s.closes = none) (ho : s.opens = some k)
    (b : Nesting) : b.push s = { b.metBy s with frames := ⟨s, k, []⟩ :: (b.metBy s).frames } := by
  simp only [push, metBy, hc, ho]

theorem push_of_neither {s : Statement} (hc : s.closes = none) (ho : s.opens = none) (b : Nesting) :
    b.push s = (b.metBy s).add (.leaf s) := by
  simp only [push, metBy, hc, ho]

/-- **One line adds its report,** and nothing that was there is lost. -/
theorem localErrors_push {s : Statement} (hs : ∀ e, s.error = some e → e.IsLocal) (b : Nesting) :
    localErrors (b.push s).walk = localErrors b.walk ++ (b.report s).toList := by
  have hown := localErrors_of_isLocal hs
  rw [← localErrors_metBy s b, report, strays]
  cases hc : s.closes with
  | none =>
    show _ = _ ++ s.error.toList
    rw [← hown]
    cases ho : s.opens with
    | some k => rw [push_of_opens hc ho, walk_cons, walkAll, localErrors_append]
    | none => rw [push_of_neither hc ho, walk_add, walk_leaf, localErrors_append]
  | some k =>
    rw [push_of_closes hc]
    generalize b.metBy s = b
    have hreport :
        (if b.lacks k then some ⟨.unmatched k, s.span, none⟩ else s.error : Option Diagnostic).toList =
          if b.lacks k then [⟨.unmatched k, s.span, none⟩] else localErrors [s] := by
      rw [hown, apply_ite Option.toList]
      rfl
    show _ = _ ++ Option.toList (if b.lacks k then some ⟨.unmatched k, s.span, none⟩ else s.error)
    rw [hreport]
    cases hk : k.isOptional with
    | true => exact localErrors_closeDeclaration s hk b
    | false => exact localErrors_close s hk b

theorem localErrors_finish (b : Nesting) : localErrors b.finish.walk = localErrors b.walk := by
  rw [← localErrors_unwind b.frames.length b]
  show localErrors (walkAll b.unwindAll.top) =
    localErrors (walkAll b.unwindAll.top ++ walkFrames b.unwindAll.frames)
  rw [frames_unwindAll, walkFrames, List.append_nil]

end Nesting

/-! ## documents -/

section
variable (language : Language) (text : Text)

/-- what the lines report, each to the blocks that are open just before it -/
def lineReports : List Diagnostic :=
  (lineStatements language text).zipIdx.flatMap fun (s, i) => ((nestingBefore language text i).report s).toList

theorem localErrors_nestingBefore (k : Nat) : localErrors (nestingBefore language text k).walk =
    ((lineStatements language text).zipIdx.take k).flatMap fun (s, i) =>
      ((nestingBefore language text i).report s).toList := by
  induction k with
  | zero => rfl
  | succ k ih =>
    rw [List.take_add_one, List.flatMap_append, ← ih, List.getElem?_zipIdx, Nat.zero_add]
    cases hs : (lineStatements language text)[k]? with
    | none =>
      rw [nestingBefore_succ_of_none language text hs]
      exact (List.append_nil _).symm
    | some s =>
      have hline := isLine_of_mem_lineStatements language text (List.mem_of_getElem? hs)
      rw [nestingBefore_succ language text hs, Option.map_some, Option.toList_some, List.flatMap_singleton]
      cases hk : language.keeps s with
      | true => exact Nesting.localErrors_push (fun _ he => hline.isLocal he) _
      | false =>
        -- a blank line that is left out has nothing to report
        have hblank := kind_of_keeps_eq_false language hk
        have hreport : (nestingBefore language text k).report s = none := by
          rw [Nesting.report, Nesting.strays, (hline.of_kind_blank hblank).2.2.2, hline.error_eq_none hblank]
          rfl
        dsimp only
        rw [hreport]
        exact (List.append_nil _).symm

/-- **The diagnostics of a document,** those of blocks without an end apart, are the reports of its lines. -/
theorem localErrors_parseDocument :
    localErrors (parseDocument language text).walk = lineReports language text := by
  rw [parseDocument_eq_finish, Nesting.localErrors_finish, localErrors_nestingBefore, lineReports,
    ← length_lineStatements language text, ← List.length_zipIdx, List.take_length]

theorem mem_diagnostics_iff {d : Diagnostic} (hd : d.IsLocal) :
    d ∈ (parseDocument language text).diagnostics ↔
      ∃ i s, (lineStatements language text)[i]? = some s ∧
        (nestingBefore language text i).report s = some d := by
  have hlocal : d ∈ (parseDocument language text).diagnostics ↔
      d ∈ localErrors (parseDocument language text).walk := by
    rw [(Document.isStableSort_diagnostics _).perm.mem_iff, localErrors, List.mem_filter,
      and_iff_left (bne_iff_ne.mpr hd)]
  rw [hlocal, localErrors_parseDocument, lineReports, List.mem_flatMap]
  constructor
  · rintro ⟨⟨s, i⟩, hi, hreport⟩
    exact ⟨i, s, List.mem_zipIdx_iff_getElem?.mp hi, Option.mem_toList.mp hreport⟩
  · rintro ⟨i, s, hi, hreport⟩
    exact ⟨(s, i), List.mem_zipIdx_iff_getElem?.mpr hi, Option.mem_toList.mpr hreport⟩

variable {language text} {i : Nat} {s : Statement} {d : Diagnostic}

theorem own_of_lineStatements (hs : (lineStatements language text)[i]? = some s) (hd : s.error = some d) :
    d.Own i := by
  rw [lineStatements_getElem?] at hs
  obtain ⟨line, -, rfl⟩ := Option.map_eq_some_iff.mp hs
  exact own_of_parseLine hd

/-- the own diagnostic of an end with nothing to close is lost: no other line can report it -/
theorem not_mem_diagnostics_of_strays (hs : (lineStatements language text)[i]? = some s) (hd : s.error = some d)
    (hstrays : (nestingBefore language text i).strays s = true) :
    d ∉ (parseDocument language text).diagnostics := by
  have hline := isLine_of_mem_lineStatements language text (List.mem_of_getElem? hs)
  have hown := own_of_lineStatements hs hd
  rw [mem_diagnostics_iff language text (hline.isLocal hd)]
  rintro ⟨j, s', hs', hreport⟩
  rw [Nesting.report] at hreport
  split at hreport
  · obtain ⟨k, -, rfl⟩ := Option.map_eq_some_iff.mp hreport
    exact absurd hown.problem Bool.false_ne_true
  · rename_i hstays
    have hj : i = j := hown.place.1.symm.trans (own_of_lineStatements hs' hreport).place.1
    subst hj
    rw [hs] at hs'
    obtain rfl := Option.some.inj hs'
    exact hstays hstrays

end

/-- **No diagnostic of a line is dropped** but those of ends with nothing to close: the own diagnostic of a line
is one of the document exactly when the line is no such end. -/
theorem mem_diagnostics_iff_not_strays (language : Language) (text : Text) {i : Nat} {s : Statement}
    {d : Diagnostic} (hs : (lineStatements language text)[i]? = some s) (hd : s.error = some d) :
    d ∈ (parseDocument language text).diagnostics ↔ (nestingBefore language text i).strays s = false := by
  have hline := isLine_of_mem_lineStatements language text (List.mem_of_getElem? hs)
  cases hstrays : (nestingBefore language text i).strays s with
  | true => exact iff_of_false (not_mem_diagnostics_of_strays hs hd hstrays) nofun
  | false =>
    refine iff_of_true ?_ rfl
    rw [mem_diagnostics_iff language text (hline.isLocal hd)]
    refine ⟨i, s, hs, ?_⟩
    rw [Nesting.report, hstrays, if_neg Bool.false_ne_true, hd]

/-- an end with a word too many, which closes a method all the same -/
def longEnd : Text :=
  ".method\n.end method x\n".toList

/-- the end of the method has something to close, so its diagnostic is kept -/
theorem mem_diagnostics_longEnd :
    ∃ s, (lineStatements ⟨.empty, .standard⟩ longEnd)[1]? = some s ∧
      s.error = some ⟨.trailing "x".toList, Span.onLine 1 12 13, none⟩ ∧
      ⟨.trailing "x".toList, Span.onLine 1 12 13, none⟩ ∈
        (parseDocument ⟨.empty, .standard⟩ longEnd).diagnostics := by
  have hline : (lineStatements ⟨.empty, .standard⟩ longEnd)[1]?.map (fun s =>
      (s.error, (nestingBefore ⟨.empty, .standard⟩ longEnd 1).strays s)) =
        some (some ⟨.trailing "x".toList, Span.onLine 1 12 13, none⟩, false) := by
    decide +kernel
  obtain ⟨s, hs, hline⟩ := Option.map_eq_some_iff.mp hline
  obtain ⟨hd, hstrays⟩ := Prod.mk.inj hline
  exact ⟨s, hs, hd, (mem_diagnostics_iff_not_strays _ _ hs hd).mpr hstrays⟩

/-- the same end, with nothing to close -/
def strayEnd : Text :=
  ".end method x\n".toList

/-- only one of the two things that are wrong with the line is said -/
theorem strayEnd_read :
    (lineStatements ⟨.empty, .standard⟩ strayEnd).map (fun s => s.error) =
        [some ⟨.trailing "x".toList, Span.onLine 0 12 13, none⟩] ∧
      (parseDocument ⟨.empty, .standard⟩ strayEnd).diagnostics =
        [⟨.unmatched .method, Span.onLine 0 0 13, none⟩] := by
  decide +kernel

theorem strayEnd_dropped :
    ¬∀ s ∈ lineStatements ⟨.empty, .standard⟩ strayEnd, ∀ d, s.error = some d →
      d ∈ (parseDocument ⟨.empty, .standard⟩ strayEnd).diagnostics := by
  obtain ⟨hline, hdiagnostics⟩ := strayEnd_read
  obtain ⟨s, hs, hd⟩ : ∃ s ∈ lineStatements ⟨.empty, .standard⟩ strayEnd,
      s.error = some ⟨.trailing "x".toList, Span.onLine 0 12 13, none⟩ := by
    apply List.mem_map.mp
    rw [hline]
    exact List.mem_cons_self
  intro h
  have hmem := h s hs _ hd
  rw [hdiagnostics, List.mem_singleton] at hmem
  cases hmem

end Smali
