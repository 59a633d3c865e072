import Smali.Proofs.Document.Run
import Smali.Proofs.Line.Builtin

/-!
# The stack of open blocks without the statements

`BlockStack.after` follows the stack of a nesting without its trees.  It takes every end of a field to end
all open blocks, and every end of a parameter to end the blocks inside the method.

* `Nesting.stackAround k b`  the blocks that stay open when the end of a declaration is met;
* `Nesting.Tracked s b`      the end of a declaration ends what it is taken to end;
* `Nesting.stack_push_iff`   one step: the stack after a statement is the stack of the nesting after it
                             exactly when the statement is tracked;
* `parseRange_agrees`        the run: the stacks agree up to a line exactly when all statements before
                             it are tracked, and then so do the statements of ranges;
* `strayFieldEnd`            a text where they do not.
-/

namespace Smali
namespace Nesting

/-! ## the stack after a push -/

/-- the blocks that stay open when the end of a declaration is met -/
def stackAround (k : BlockKind) (b : Nesting) : BlockStack :=
  match declaration? (declares k) b.containers with
  | some (inside, _) => b.stack.drop inside
  | none => b.stack

theorem stack_close (s : Statement) (k : BlockKind) (b : Nesting) :
    (b.close s k).stack = (BlockStack.close? k b.stack).getD b.stack := by
  by_cases h : (b.frames.takeWhile fun f => f.kind != k).length = b.frames.length
  · have hnone : BlockStack.close? k b.stack = none := by
      rw [BlockStack.close?, (inside_eq_length_iff k b).mp h]
    simp only [close, if_pos h, hnone]
    exact stack_mapInnermost _ _
  · obtain ⟨f, fs, hf, hk⟩ := exists_frame_of_close h
    have hs : f.kind :: fs.map Frame.kind = b.stack.dropWhile (· != k) := by
      rw [← drop_length_takeWhile, ← inside_eq, ← stack_unwind, stack, hf]
      rfl
    have hsome : BlockStack.close? k b.stack = some (fs.map Frame.kind) := by
      rw [BlockStack.close?, ← hs]
    simp only [close, if_neg h, hf, hsome]
    exact stack_mapInnermost _ _

theorem stack_closeDeclaration (s : Statement) (k : BlockKind) (b : Nesting) :
    (b.closeDeclaration s k).stack = b.stackAround k := by
  unfold closeDeclaration stackAround
  cases declaration? (declares k) b.containers with
  | none => exact stack_mapInnermost _ _
  | some p =>
    show ((b.unwind p.1).mapInnermost _).stack = b.stack.drop p.1
    rw [stack_mapInnermost, stack_unwind]

theorem stack_unwindAll (b : Nesting) : b.unwindAll.stack = [] :=
  (frames_eq_nil_iff _).mp (frames_unwindAll b)

theorem stack_ite_unwindAll (c : Bool) (b : Nesting) :
    (if c then b.unwindAll else b).stack = if c then [] else b.stack := by
  cases c with
  | true => exact stack_unwindAll b
  | false => rfl

/-! ## where fields are declared -/

theorem declaration?_append {d : Directive} {inner : List (List Node)} (outer : List (List Node))
    (h : ∀ nodes ∈ inner, ∀ n ∈ nodes, isOpenDeclaration d n = false) :
    declaration? d (inner ++ outer) =
      (declaration? d outer).map fun (m, i) => (inner.length + m, i) := by
  induction inner with
  | nil =>
    rw [List.nil_append]
    cases declaration? d outer with
    | none => rfl
    | some p => simp
  | cons nodes inner ih =>
    obtain ⟨hn, hi⟩ := List.forall_mem_cons.mp h
    rw [List.cons_append, declaration?, findLastIdx?_eq_none_iff.mpr hn, ih hi]
    cases declaration? d outer with
    | none => rfl
    | some p =>
      simp only [Option.map_some, List.length_cons]
      rw [Nat.add_right_comm]

theorem isTopLevel_of_field {n : Node} (h : isOpenDeclaration .field n = true) :
    n.statement.isTopLevel = true := by
  rw [Statement.isTopLevel, (isOpenDeclaration_iff.mp h).2]
  rfl

/-- fields are declared outside all blocks, so their ends leave no block open -/
theorem stackAround_field {b : Nesting} (hb : b.MembersOutside) :
    b.stackAround .field = [] ↔
      b.frames = [] ∨ ∃ n ∈ b.top, isOpenDeclaration .field n = true := by
  have hinner : ∀ nodes ∈ b.frames.map Frame.children, ∀ n ∈ nodes,
      isOpenDeclaration .field n = false := by
    intro nodes hn n hnn
    obtain ⟨f, hf, rfl⟩ := List.mem_map.mp hn
    have ht := hb.1 f hf n hnn
    cases hd : isOpenDeclaration .field n with
    | false => rfl
    | true =>
      rw [isTopLevel_of_field hd] at ht
      cases ht
  have hdecl : declaration? (declares .field) b.containers =
      (declaration? .field [b.top]).map fun (m, i) => ((b.frames.map Frame.children).length + m, i) :=
    declaration?_append [b.top] hinner
  unfold stackAround
  rw [hdecl]
  cases hl : findLastIdx? (isOpenDeclaration .field) b.top with
  | none =>
    have hnone := findLastIdx?_eq_none_iff.mp hl
    simp only [declaration?, hl, Option.map_none]
    rw [← frames_eq_nil_iff]
    refine ⟨.inl, ?_⟩
    rintro (h | ⟨n, hn, hd⟩)
    · exact h
    · rw [hnone n hn] at hd
      cases hd
  | some i =>
    obtain ⟨before, n, after, htop, -, hn, -⟩ := exists_of_findLastIdx? hl
    simp only [declaration?, hl, Option.map_some]
    refine ⟨fun _ => .inr ⟨n, ?_, hn⟩, fun _ => ?_⟩
    · rw [htop]
      exact List.mem_append_right _ List.mem_cons_self
    · rw [List.drop_eq_nil_iff, stack, List.length_map, List.length_map]
      exact Nat.le_refl _

/-! ## one step -/

/-- The end of a declaration ends what it is taken to end: that of a field has its declaration outside all
blocks, or no block is open, and that of a parameter ends the blocks inside the method. -/
def Tracked (s : Statement) (b : Nesting) : Prop :=
  match s.closes with
  | some .field => b.frames = [] ∨ ∃ n ∈ b.top, isOpenDeclaration .field n = true
  | some .param => b.stackAround .param = (BlockStack.unwindTo? .method b.stack).getD b.stack
  | _ => True

theorem tracked_of_closes_eq_none {s : Statement} (b : Nesting) (hc : s.closes = none) :
    b.Tracked s := by
  unfold Tracked
  rw [hc]
  trivial

theorem stack_push_of_closes_eq_none {s : Statement} (b : Nesting) (hc : s.closes = none) :
    (b.push s).stack = BlockStack.after s b.stack := by
  unfold push BlockStack.after
  rw [hc, ← stack_ite_unwindAll]
  cases s.opens with
  | none => exact stack_mapInnermost _ _
  | some k => rfl

/-- **One step of the stack.** -/
theorem stack_push_iff {options : ParseOptions} {s : Statement} {b : Nesting}
    (hs : (Language.builtin options).IsLine s) (hb : b.MembersOutside) :
    (b.push s).stack = BlockStack.after s b.stack ↔ b.Tracked s := by
  cases hc : s.closes with
  | none =>
    exact iff_of_true (stack_push_of_closes_eq_none b hc) (tracked_of_closes_eq_none b hc)
  | some k =>
    -- an end does not belong to the class and opens nothing, so all that counts is what it closes
    have ht : s.isTopLevel = false := hs.isTopLevel_eq_false hc
    have ho : s.opens = none := hs.opens_eq_none hc
    unfold push BlockStack.after Tracked
    rw [hc, ho, ht]
    cases k with
    | field =>
      show (b.closeDeclaration s .field).stack = [] ↔ _
      rw [stack_closeDeclaration]
      exact stackAround_field hb
    | param =>
      show (b.closeDeclaration s .param).stack = (BlockStack.unwindTo? .method b.stack).getD b.stack ↔ _
      rw [stack_closeDeclaration]
    | method | annot | subannot | arrayData | packedSwitch | sparseSwitch | valueArray =>
      exact iff_of_true (stack_close s _ b) trivial

end Nesting

/-! ## the run over the lines -/

section
variable (language : Language)

theorem parseLines_append (lines more : List (Text × Nat)) (stack : BlockStack) :
    (parseLines language stack (lines ++ more)).2 =
      (parseLines language (parseLines language stack lines).2 more).2 := by
  induction lines generalizing stack with
  | nil => rfl
  | cons line lines ih => exact ih _

theorem parseLines_getElem? (lines : List (Text × Nat)) (stack : BlockStack) (j : Nat) :
    (parseLines language stack lines).1[j]? = lines[j]?.map fun line =>
      parseLine language (parseLines language stack (lines.take j)).2 line.1 line.2 := by
  induction lines generalizing stack j with
  | nil => rfl
  | cons line lines ih =>
    cases j with
    | zero => rfl
    | succ j => exact ih _ j

variable (text : Text)

theorem blockStackAt_succ {k : Nat} {line : Text} (hl : (Text.lines text)[k]? = some line) :
    blockStackAt language text (k + 1) =
      BlockStack.after (parseLine language (blockStackAt language text k) line k)
        (blockStackAt language text k) := by
  have hn : (numberedLines text)[k]? = some (line, k) := by
    rw [numberedLines_getElem?, hl, Option.map_some]
  rw [blockStackAt, List.take_add_one, hn, parseLines_append]
  rfl

theorem blockStackAt_succ_of_none {k : Nat} (hl : (Text.lines text)[k]? = none) :
    blockStackAt language text (k + 1) = blockStackAt language text k := by
  have hn : (numberedLines text)[k]? = none := by
    rw [numberedLines_getElem?, hl, Option.map_none]
  rw [blockStackAt, List.take_add_one, hn, Option.toList_none, List.append_nil]
  rfl

theorem parseRange_getElem? (first last j : Nat) (hj : j < last - first) :
    (parseRange language text first last)[j]? = (Text.lines text)[first + j]?.map fun line =>
      parseLine language (blockStackAt language text (first + j)) line (first + j) := by
  have hstack : (parseLines language (blockStackAt language text first)
      ((numberedLines text).drop first |>.take j)).2 = blockStackAt language text (first + j) := by
    rw [blockStackAt, ← parseLines_append, ← List.take_add]
    rfl
  unfold parseRange
  rw [parseLines_getElem?, List.getElem?_take_of_lt hj, List.getElem?_drop, numberedLines_getElem?,
    List.take_take, Nat.min_eq_left (Nat.le_of_lt hj), hstack, Option.map_map]
  rfl

theorem parseRange_eq {first last : Nat}
    (h : ∀ k < last, blockStackAt language text k = (nestingBefore language text k).stack) :
    parseRange language text first last =
      ((lineStatements language text).drop first).take (last - first) := by
  apply List.ext_getElem?
  intro j
  by_cases hj : j < last - first
  · rw [parseRange_getElem? language text first last j hj, List.getElem?_take_of_lt hj,
      List.getElem?_drop, lineStatements_getElem?, h (first + j) (by omega)]
  · unfold parseRange
    rw [parseLines_getElem?, List.getElem?_take_eq_none (Nat.le_of_not_lt hj), Option.map_none,
      List.getElem?_take_eq_none (Nat.le_of_not_lt hj)]

/-- all statements before line `m` are tracked -/
def TrackedBefore (m : Nat) : Prop :=
  ∀ i < m, ∀ s, (lineStatements language text)[i]? = some s → (nestingBefore language text i).Tracked s

end

section
variable (options : ParseOptions) (text : Text)

theorem membersOutside_nestingBefore (language : Language) (k : Nat) :
    (nestingBefore language text k).MembersOutside :=
  nestingBefore_keeps language text Nesting.kept_membersOutside
    (Nesting.membersOutside_of_frames_eq_nil rfl) (fun _ _ => trivial) k

/-- a line that is left out changes neither stack -/
theorem after_of_not_keeps {language : Language} {s : Statement} (hs : language.IsLine s)
    (hk : language.keeps s = false) (stack : BlockStack) :
    s.closes = none ∧ BlockStack.after s stack = stack := by
  obtain ⟨hw, hop, ho, hc⟩ := hs.of_kind_blank (kind_of_keeps_eq_false language hk)
  have ht : s.isTopLevel = false := by
    rw [Statement.isTopLevel, Statement.directive?_eq_none hw hop]
    rfl
  refine ⟨hc, ?_⟩
  unfold BlockStack.after
  rw [hc, ho, ht]
  rfl

/-- **One line of both runs.** -/
theorem blockStackAt_succ_iff {k : Nat}
    (h : blockStackAt (.builtin options) text k = (nestingBefore (.builtin options) text k).stack) :
    blockStackAt (.builtin options) text (k + 1) =
        (nestingBefore (.builtin options) text (k + 1)).stack ↔
      ∀ s, (lineStatements (.builtin options) text)[k]? = some s →
        (nestingBefore (.builtin options) text k).Tracked s := by
  have hline := lineStatements_getElem? (.builtin options) text k
  cases hl : (Text.lines text)[k]? with
  | none =>
    rw [hl, Option.map_none] at hline
    rw [blockStackAt_succ_of_none _ _ hl, nestingBefore_succ_of_none _ _ hline, hline]
    refine iff_of_true h ?_
    intro s hs
    cases hs
  | some line =>
    rw [hl, Option.map_some, ← h] at hline
    rw [blockStackAt_succ _ _ hl, nestingBefore_succ _ _ hline, hline, h]
    rw [h] at hline
    generalize parseLine (.builtin options) _ line k = s at hline ⊢
    have hs : (Language.builtin options).IsLine s :=
      isLine_of_mem_lineStatements _ _ (List.mem_of_getElem? hline)
    simp only [Option.some.injEq, forall_eq']
    cases hk : (Language.builtin options).keeps s with
    | true =>
      rw [if_pos rfl, eq_comm]
      exact Nesting.stack_push_iff hs (membersOutside_nestingBefore text _ k)
    | false =>
      obtain ⟨hc, ha⟩ := after_of_not_keeps hs hk (nestingBefore (.builtin options) text k).stack
      rw [if_neg Bool.false_ne_true, ha]
      exact iff_of_true rfl (Nesting.tracked_of_closes_eq_none _ hc)

theorem blockStackAt_eq_stack_iff (m : Nat) :
    (∀ k ≤ m, blockStackAt (.builtin options) text k =
        (nestingBefore (.builtin options) text k).stack) ↔
      TrackedBefore (.builtin options) text m := by
  induction m with
  | zero =>
    refine iff_of_true ?_ fun i hi => absurd hi (Nat.not_lt_zero i)
    intro k hk
    obtain rfl := Nat.le_zero.mp hk
    rfl
  | succ m ih =>
    constructor
    · intro h i hi
      have hbefore := ih.mp fun k hk => h k (Nat.le_succ_of_le hk)
      rcases Nat.lt_succ_iff_lt_or_eq.mp hi with hi | rfl
      · exact hbefore i hi
      · exact (blockStackAt_succ_iff options text (h i (Nat.le_succ i))).mp (h (i + 1) (Nat.le_refl _))
    · intro h k hk
      have hbefore := ih.mpr fun i hi => h i (Nat.lt_succ_of_lt hi)
      rcases Nat.le_succ_iff.mp hk with hk | rfl
      · exact hbefore k hk
      · exact (blockStackAt_succ_iff options text (hbefore m (Nat.le_refl _))).mpr (h m (Nat.lt_succ_self m))

/-- **When ranges are read as in the document.**  The stacks agree up to line `m` exactly when all statements
before it are tracked, and then every range of lines up to `m` has the statements of the document. -/
theorem parseRange_agrees (m : Nat) :
    ((∀ k ≤ m, blockStackAt (.builtin options) text k =
        (nestingBefore (.builtin options) text k).stack) ↔
      TrackedBefore (.builtin options) text m) ∧
    (TrackedBefore (.builtin options) text m → ∀ first last, last ≤ m + 1 →
      parseRange (.builtin options) text first last =
        ((lineStatements (.builtin options) text).drop first).take (last - first)) := by
  refine ⟨blockStackAt_eq_stack_iff options text m, ?_⟩
  intro h first last hlast
  apply parseRange_eq
  intro k hk
  exact (blockStackAt_eq_stack_iff options text m).mpr h k (by omega)

end

/-- an end of a field without its declaration, inside an annotation -/
def strayFieldEnd : Text :=
  ".annotation\n.end field\nx = 1\n".toList

/-- the annotation is still open after the stray end, but the range that starts there is read outside it -/
theorem strayFieldEnd_read :
    2 ≤ (Text.lines strayFieldEnd).length ∧
    (nestingBefore (.builtin .standard) strayFieldEnd 2).stack = [.annot] ∧
    blockStackAt (.builtin .standard) strayFieldEnd 2 = [] ∧
    (((lineStatements (.builtin .standard) strayFieldEnd).drop 2).take 1).map Statement.kind = [.entry] ∧
    (parseRange (.builtin .standard) strayFieldEnd 2 3).map Statement.kind = [.error] := by
  rw [Language.builtin, Catalog.builtin_eq_spelled]
  decide +kernel

theorem parseRange_strayFieldEnd :
    (∃ k ≤ (Text.lines strayFieldEnd).length, blockStackAt (.builtin .standard) strayFieldEnd k ≠
      (nestingBefore (.builtin .standard) strayFieldEnd k).stack) ∧
    parseRange (.builtin .standard) strayFieldEnd 2 3 ≠
      ((lineStatements (.builtin .standard) strayFieldEnd).drop 2).take 1 := by
  obtain ⟨hlen, hstack, htracked, hline, hrange⟩ := strayFieldEnd_read
  refine ⟨⟨2, hlen, ?_⟩, ?_⟩
  · rw [hstack, htracked]
    decide
  · intro h
    rw [h, hline] at hrange
    cases hrange

end Smali
