import Mathlib.Data.List.Basic
import Smali.Proofs.Document.Run

/-!
# The order of the lines

Blocks are closed, ended early or made after the fact, and each time trees move.  The walk over a document
meets the lines in their order all the same.

* `Nesting.walk`       the statements of a nesting: the trees outside, then the open blocks from the
                       outermost one on;
* `Nesting.Unmoved Q v`  a view `v` of statements that no step of the nesting changes;
* `Nesting.walk_push`  through such a view, a push appends its statement to the walk;
* `parseDocument_walk` through such a view, the walk over a document is the list of its lines;
* `parseDocument_walk_content`  the tokens, keywords, entries, operands, comments and ends of a document
                       are those of the lines that are kept, and its labels are those of the lines.
-/

namespace Smali
namespace Node

theorem walk_mk (s : Statement) (children : List Node) (closing : Option Statement) :
    walk ⟨s, children, closing⟩ = s :: (walkAll children ++ closing.toList) := by
  rw [walk]

theorem walkAll_append (a b : List Node) : walkAll (a ++ b) = walkAll a ++ walkAll b := by
  induction a with
  | nil => rw [List.nil_append, walkAll, List.nil_append]
  | cons n a ih => rw [List.cons_append, walkAll, walkAll, ih, List.append_assoc]

theorem walkAll_singleton (n : Node) : walkAll [n] = n.walk := by
  rw [walkAll, walkAll, List.append_nil]

theorem walk_leaf (s : Statement) : (leaf s).walk = [s] := by
  rw [leaf, walk_mk, walkAll]
  rfl

end Node

namespace Nesting
open Node

/-! ## the walk over a nesting -/

/-- the statements of the open blocks, from the outermost one on -/
def walkFrames : List Frame → List Statement
  | [] => []
  | f :: fs => walkFrames fs ++ f.statement :: walkAll f.children

/-- the statements of a nesting in the order of the lines -/
def walk (b : Nesting) : List Statement :=
  walkAll b.top ++ walkFrames b.frames

theorem walk_cons (f : Frame) (fs : List Frame) (top : List Node) :
    walk ⟨f :: fs, top⟩ = walk ⟨fs, top⟩ ++ f.statement :: walkAll f.children := by
  show walkAll top ++ (walkFrames fs ++ _) = walkAll top ++ walkFrames fs ++ _
  rw [List.append_assoc]

/-- the innermost trees are the last part of the walk -/
theorem exists_walk_mapInnermost (b : Nesting) :
    ∃ outside, ∀ g, (b.mapInnermost g).walk = outside ++ walkAll (g b.innermost) := by
  obtain ⟨frames, top⟩ := b
  cases frames with
  | nil =>
    refine ⟨[], fun g => ?_⟩
    show walkAll (g top) ++ [] = [] ++ walkAll (g top)
    rw [List.append_nil, List.nil_append]
  | cons f fs =>
    refine ⟨walk ⟨fs, top⟩ ++ [f.statement], fun g => ?_⟩
    show walk ⟨{ f with children := g f.children } :: fs, top⟩ = _
    rw [walk_cons, List.append_assoc]
    rfl

theorem walk_add (n : Node) (b : Nesting) : (b.add n).walk = b.walk ++ n.walk := by
  obtain ⟨outside, h⟩ := exists_walk_mapInnermost b
  have hb : b.walk = outside ++ walkAll b.innermost := by
    rw [← h fun nodes => nodes, mapInnermost_id]
  rw [add, h, hb, walkAll_append, walkAll_singleton, List.append_assoc]

/-! ## views that the nesting leaves alone -/

/-- What `v` shows of a statement that satisfies `Q` is not changed by the nesting: when its block is
closed or ended, when it becomes a block after the fact, or when it is an end without a block.  Of the
end that stands for a missing one, `v` shows nothing. -/
structure Unmoved {β : Type} (Q : Statement → Prop) (v : Statement → List β) : Prop where
  headed : ∀ s, Q s → s.opens.isSome → ∀ span error, v { s with span, error } = v s
  claimed : ∀ s k span, v { s with opens := some k, span } = v s
  stray : ∀ s k, Q s → s.closes = some k →
    v { s with kind := .error, error := some ⟨.unmatched k, s.span, none⟩ } = v s
  missing : ∀ k span,
    v { Statement.bare .error [] span with error := some ⟨.unterminated k, span, none⟩ } = []

section
variable {β : Type} {Q : Statement → Prop} {v : Statement → List β}

theorem flatMap_walk_unterminated (hv : Unmoved Q v) {f : Frame} (hf : Q f.statement)
    (ho : f.statement.opens = some f.kind) :
    f.unterminated.walk.flatMap v = v f.statement ++ (walkAll f.children).flatMap v := by
  have hh := hv.headed f.statement hf (by rw [ho]; rfl)
  unfold Frame.unterminated
  cases he : f.statement.error with
  | none =>
    rw [walk_mk, List.flatMap_cons, Option.toList_none, List.append_nil]
    rw [hh]
  | some e =>
    rw [walk_mk, List.flatMap_cons, List.flatMap_append, Option.toList_some, List.flatMap_singleton,
      hv.missing, List.append_nil]
    rw [hh f.extent f.statement.error]

theorem flatMap_walk_closedBy (hv : Unmoved Q v) {f : Frame} (hf : Q f.statement)
    (ho : f.statement.opens = some f.kind) (s : Statement) :
    (f.closedBy s).walk.flatMap v =
      v f.statement ++ (walkAll f.children).flatMap v ++ v s := by
  have hh := hv.headed f.statement hf (by rw [ho]; rfl) (f.statement.span.cover s.span)
    f.statement.error
  rw [Frame.closedBy, walk_mk, List.flatMap_cons, List.flatMap_append, Option.toList_some,
    List.flatMap_singleton, hh, List.append_assoc]

theorem flatMap_walk_claim (hv : Unmoved Q v) (k : BlockKind) (s : Statement) {n : Node}
    (hn : n.closing = none) (after : List Node) :
    (claim k s n after).walk.flatMap v = (walkAll (n :: after)).flatMap v ++ v s := by
  obtain ⟨head, children, closing⟩ := n
  obtain rfl : closing = none := hn
  rw [claim, walk_mk, walkAll, walk_mk, walkAll_append]
  simp only [List.flatMap_cons, List.flatMap_append, Option.toList_some, Option.toList_none,
    List.flatMap_nil, List.append_nil, List.append_assoc]
  rw [hv.claimed]

theorem flatMap_walk_unwindOne (hv : Unmoved Q v) {b : Nesting} (hb : b.Opened Q) :
    b.unwindOne.walk.flatMap v = b.walk.flatMap v := by
  obtain ⟨frames, top⟩ := b
  cases frames with
  | nil => rfl
  | cons f fs =>
    obtain ⟨hf, -, ho⟩ := hb f List.mem_cons_self
    rw [unwindOne_cons, walk_add, walk_cons, List.flatMap_append, List.flatMap_append,
      flatMap_walk_unterminated hv hf ho, List.flatMap_cons]

theorem flatMap_walk_unwind (hv : Unmoved Q v) (n : Nat) {b : Nesting} (hb : b.Opened Q) :
    (b.unwind n).walk.flatMap v = b.walk.flatMap v := by
  induction n generalizing b with
  | zero => rfl
  | succ n ih =>
    show (b.unwindOne.unwind n).walk.flatMap v = b.walk.flatMap v
    rw [ih ((kept_opened Q).unwindOne b hb), flatMap_walk_unwindOne hv hb]

theorem flatMap_walk_placed (hv : Unmoved Q v) {s : Statement} (hs : Q s) {b b' : Nesting}
    (hb : b.Opened Q) (hp : Placed s b b') :
    b'.walk.flatMap v = b.walk.flatMap v ++ v s := by
  cases hp with
  | opened k hc ho =>
    rw [walk_cons, walkAll, List.flatMap_append, List.flatMap_singleton]
  | line hc ho =>
    rw [walk_add, walk_leaf, List.flatMap_append, List.flatMap_singleton]
  | stray k hc =>
    rw [addStray, walk_add, walk_leaf, List.flatMap_append, List.flatMap_singleton,
      hv.stray s k hs hc]
  | closed f fs hf hc hk =>
    obtain ⟨frames, top⟩ := b
    obtain rfl : frames = f :: fs := hf
    obtain ⟨hq, -, ho⟩ := hb f List.mem_cons_self
    rw [walk_add, walk_cons, List.flatMap_append, List.flatMap_append,
      flatMap_walk_closedBy hv hq ho, List.flatMap_cons, ← List.append_assoc]
  | claimed k before n after hc hk hi hn =>
    have hn' : n.closing = none := by
      have := (Bool.and_eq_true_iff.mp hn).1
      rwa [Option.isNone_iff_eq_none] at this
    obtain ⟨outside, h⟩ := exists_walk_mapInnermost b
    have hw : b.walk = outside ++ walkAll b.innermost := by
      rw [← h fun nodes => nodes, mapInnermost_id]
    rw [h, hw, hi, walkAll_append, walkAll_append, walkAll_singleton]
    simp only [List.flatMap_append, List.append_assoc]
    rw [flatMap_walk_claim hv k s hn' after]

/-- **A push appends its statement to the walk.** -/
theorem walk_push (hv : Unmoved Q v) {s : Statement} (hs : Q s) {b : Nesting} (hb : b.Opened Q) :
    (b.push s).walk.flatMap v = b.walk.flatMap v ++ v s := by
  obtain ⟨n, hp, -⟩ := push_placed s b
  rw [flatMap_walk_placed hv hs ((kept_opened Q).unwind n hb) hp, flatMap_walk_unwind hv n hb]

theorem walk_finish (hv : Unmoved Q v) {b : Nesting} (hb : b.Opened Q) :
    b.finish.walk.flatMap v = b.walk.flatMap v := by
  have h := flatMap_walk_unwind hv b.frames.length hb
  have hf := frames_unwindAll b
  rw [← h]
  show (walkAll b.unwindAll.top).flatMap v
    = (walkAll b.unwindAll.top ++ walkFrames b.unwindAll.frames).flatMap v
  rw [hf, walkFrames, List.append_nil]

end
end Nesting

/-! ## documents -/

theorem nestingBefore_walk {β : Type} {Q : Statement → Prop} {v : Statement → List β}
    (hv : Nesting.Unmoved Q v) (language : Language) (text : Text)
    (hQ : ∀ s ∈ lineStatements language text, Q s) (k : Nat) :
    (nestingBefore language text k).walk.flatMap v =
      (((lineStatements language text).take k).filter language.keeps).flatMap v := by
  induction k with
  | zero =>
    rw [List.take_zero, List.filter_nil, nestingBefore_zero]
    rfl
  | succ k ih =>
    have hb := nestingBefore_keeps language text (Nesting.kept_opened Q) (Nesting.opened_empty Q) hQ k
    rw [List.take_add_one, List.filter_append, List.flatMap_append, ← ih]
    cases hs : (lineStatements language text)[k]? with
    | none =>
      rw [nestingBefore_succ_of_none language text hs, Option.toList_none, List.filter_nil,
        List.flatMap_nil, List.append_nil]
    | some s =>
      rw [nestingBefore_succ language text hs, Option.toList_some]
      cases hk : language.keeps s with
      | true =>
        rw [if_pos rfl, List.filter_cons_of_pos hk, List.filter_nil, List.flatMap_singleton]
        exact Nesting.walk_push hv (hQ s (List.mem_of_getElem? hs)) hb
      | false =>
        rw [if_neg nofun, List.filter_cons_of_neg (by rw [hk]; exact nofun), List.filter_nil,
          List.flatMap_nil, List.append_nil]

/-- through a view that the nesting leaves alone, the walk over a document is the list of its kept lines -/
theorem parseDocument_walk {β : Type} {Q : Statement → Prop} {v : Statement → List β}
    (hv : Nesting.Unmoved Q v) (language : Language) (text : Text)
    (hQ : ∀ s ∈ lineStatements language text, Q s) :
    (parseDocument language text).walk.flatMap v =
      ((lineStatements language text).filter language.keeps).flatMap v := by
  have hb := nestingBefore_keeps language text (Nesting.kept_opened Q) (Nesting.opened_empty Q) hQ
  rw [parseDocument_eq_finish, Nesting.walk_finish hv (hb _), nestingBefore_walk hv language text hQ,
    ← length_lineStatements language text, List.take_length]

/-- what a statement keeps of its line, whatever becomes of its block -/
structure LineContent where
  tokens : List Token
  keyword : Option Text
  opcode : Option Entry
  operands : List Operand
  comment : Option Text
  closes : Option BlockKind

namespace Statement

def content (s : Statement) : LineContent :=
  ⟨s.tokens, s.keyword, s.opcode, s.operands, s.comment, s.closes⟩

/-- whether the statement is an end that stands for a missing one -/
def isMissingEnd (s : Statement) : Bool :=
  s.kind == .error && s.tokens.isEmpty && s.error.any fun e => e.category == .unterminated

end Statement

/-- the content of a line, and nothing of an end that stands for a missing one -/
def lineContent (s : Statement) : List LineContent :=
  if s.isMissingEnd then [] else [s.content]

theorem lineContent_of_tokens {s : Statement} (h : s.tokens ≠ [] ∨ s.kind ≠ .error) :
    lineContent s = [s.content] := by
  have hm : s.isMissingEnd = false := by
    rcases h with h | h
    · have : s.tokens.isEmpty = false := by rwa [List.isEmpty_eq_false_iff]
      rw [Statement.isMissingEnd, this, Bool.and_false, Bool.false_and]
    · have : (s.kind == .error) = false := by rwa [beq_eq_false_iff_ne]
      rw [Statement.isMissingEnd, this, Bool.false_and, Bool.false_and]
  rw [lineContent, hm]
  rfl

theorem flatMap_lineContent (l : List Statement) :
    l.flatMap lineContent = (l.filter fun s => !s.isMissingEnd).map Statement.content := by
  induction l with
  | nil => rfl
  | cons s l ih =>
    rw [List.flatMap_cons, ih, lineContent]
    cases hs : s.isMissingEnd with
    | true => rw [List.filter_cons_of_neg (by rw [hs]; exact nofun), if_pos rfl, List.nil_append]
    | false =>
      rw [List.filter_cons_of_pos (by rw [hs]; rfl), if_neg nofun, List.map_cons]
      rfl

/-! ## the content and the labels of a document -/

theorem Language.IsLine.lineContent_eq {language : Language} {s : Statement}
    (hs : language.IsLine s) : lineContent s = [s.content] := by
  apply lineContent_of_tokens
  by_cases ht : s.tokens = []
  · exact .inr (hs.of_tokens_eq_nil ht).2
  · exact .inl ht

theorem unmoved_lineContent (language : Language) :
    Nesting.Unmoved language.IsLine lineContent where
  headed := by
    intro s hs ho span error
    have ht : s.tokens ≠ [] := by
      intro ht
      rw [(hs.of_tokens_eq_nil ht).1] at ho
      cases ho
    rw [hs.lineContent_eq]
    exact lineContent_of_tokens (.inl ht)
  claimed := fun _ _ _ => rfl
  stray := by
    intro s k hs hc
    have hm : Statement.isMissingEnd
        { s with kind := .error, error := some ⟨.unmatched k, s.span, none⟩ } = false :=
      Bool.and_false _
    rw [hs.lineContent_eq, lineContent, hm]
    rfl
  missing := fun _ _ => rfl

theorem Statement.label?_eq_none {s : Statement} (h : s.kind ≠ .label) : s.label? = none := by
  unfold label?
  split
  · rename_i hk _
    exact absurd hk h
  · rfl

theorem unmoved_label (language : Language) :
    Nesting.Unmoved language.IsLine fun s => s.label?.toList where
  headed := fun _ _ _ _ _ => rfl
  claimed := fun _ _ _ => rfl
  stray := by
    intro s k hs hc
    show [] = s.label?.toList
    rw [Statement.label?_eq_none (hs.kind_ne_label hc)]
    rfl
  missing := fun _ _ => rfl

theorem filterMap_label_keeps (language : Language) (l : List Statement) :
    (l.filter language.keeps).filterMap Statement.label? = l.filterMap Statement.label? := by
  rw [List.filterMap_filter]
  apply List.filterMap_congr
  intro s _
  cases hk : language.keeps s with
  | true => rfl
  | false =>
    have hb : s.kind = .blank := kind_of_keeps_eq_false language hk
    rw [Statement.label?_eq_none (by rw [hb]; exact nofun)]
    rfl

/-- **No line of a text is lost, repeated or moved.**  But for the ends that stand for missing ones, the walk
over a document meets exactly the lines that are kept, in their order, each with its tokens, its keyword,
its entry, its operands, its comment and the block it closes.  The labels of the document are those of the
lines. -/
theorem parseDocument_walk_content (language : Language) (text : Text) :
    ((parseDocument language text).walk.filter fun s => !s.isMissingEnd).map Statement.content =
        ((lineStatements language text).filter language.keeps).map Statement.content ∧
      (parseDocument language text).labels =
        (lineStatements language text).filterMap Statement.label? := by
  have hl : ∀ s ∈ lineStatements language text, language.IsLine s :=
    fun _ hs => isLine_of_mem_lineStatements language text hs
  constructor
  · rw [← flatMap_lineContent, parseDocument_walk (unmoved_lineContent language) language text hl,
      List.map_eq_flatMap]
    apply List.flatMap_congr
    intro s hs
    exact (hl s (List.mem_of_mem_filter hs)).lineContent_eq
  · have h := parseDocument_walk (unmoved_label language) language text hl
    rw [← List.filterMap_eq_flatMap_toList, ← List.filterMap_eq_flatMap_toList,
      filterMap_label_keeps] at h
    exact h

end Smali
