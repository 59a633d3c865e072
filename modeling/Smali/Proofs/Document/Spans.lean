import Smali.Proofs.Document.Order
import Smali.Proofs.Document.Trees
import Smali.Proofs.Line.Places
import Smali.Proofs.Position

/-!
# The spans of a document

The span of a block grows when the block is closed, when it is ended early, and when it is made of a declaration
after the fact.  Each time it grows over the spans that follow it, up to the last one.

* `Span.InOrder`       spans that each end on a line before the next one starts;
* `Span.hull a l`      the span from `a` to the last one of `l`, which stands in for all of them
                       (`Span.InOrder.hull`);
* `Nesting.spans`      the spans of the trees and of the open blocks, in the order of the lines;
* `Node.Nested`        the span of a tree is around those of its children and of its end, which are in order;
* `Nesting.Laid n b`   the spans of `b` are in order and end before line `n`, and the trees are nested;
* `Nesting.Laid.push`  one step: the statement of line `n` is pushed;
* `parseDocument_spans`  all trees of a document are nested.
-/

namespace Smali

/-! ## spans -/

namespace Span

/-- the span ends on a line before the one where the other starts -/
def Before (a b : Span) : Prop :=
  a.stop.line < b.start.line

theorem Covers.before {a b c : Span} (hab : a.Covers b) (hac : a.Before c) : b.Before c :=
  Nat.lt_of_le_of_lt (Position.line_le_of_le hab.2) hac

theorem On.cover {n : Nat} {a b : Span} (ha : a.On n) (hb : b.On n) : (a.cover b).On n := by
  constructor
  · show (Position.earlier _ _).line = n
    unfold Position.earlier
    split
    · exact ha.1
    · exact hb.1
  · show (Position.later _ _).line = n
    unfold Position.later
    split
    · exact hb.2
    · exact ha.2

/-- spans that each end on a line before the next one starts -/
structure InOrder (l : List Span) : Prop where
  before : l.Pairwise Before
  ordered : ∀ a ∈ l, a.Ordered

theorem InOrder.of_append {l m : List Span} (h : InOrder (l ++ m)) : InOrder l ∧ InOrder m := by
  obtain ⟨hl, hm, -⟩ := List.pairwise_append.mp h.before
  exact ⟨⟨hl, fun a ha => h.ordered a (List.mem_append_left _ ha)⟩,
    ⟨hm, fun a ha => h.ordered a (List.mem_append_right _ ha)⟩⟩

theorem InOrder.concat {l : List Span} (h : InOrder l) {a : Span} (ha : a.Ordered) (hl : ∀ b ∈ l, b.Before a) :
    InOrder (l ++ [a]) := by
  refine ⟨List.pairwise_append.mpr ⟨h.before, List.pairwise_singleton _ _, ?_⟩, ?_⟩
  · intro b hb c hc
    rw [List.mem_singleton.mp hc]
    exact hl b hb
  · intro b hb
    rcases List.mem_append.mp hb with hb | hb
    · exact h.ordered b hb
    · rw [List.mem_singleton.mp hb]
      exact ha

/-- the span from `a` to the last one of `l` -/
def hull (a : Span) (l : List Span) : Span :=
  l.getLast?.elim a a.cover

theorem hull_concat (a : Span) (l : List Span) (b : Span) : hull a (l ++ [b]) = a.cover b := by
  rw [hull, List.getLast?_concat]
  rfl

theorem cover_eq_of_before {a b : Span} (ha : a.Ordered) (hb : b.Ordered) (h : a.Before b) :
    a.cover b = ⟨a.start, b.stop⟩ := by
  have hstart : a.start ≤ b.start :=
    Position.le_of_line_lt (Nat.lt_of_le_of_lt (Position.line_le_of_le ha) h)
  have hstop : a.stop ≤ b.stop :=
    Position.le_of_line_lt (Nat.lt_of_lt_of_le h (Position.line_le_of_le hb))
  rw [cover, Position.earlier, Position.later, if_pos hstart, if_pos hstop]

/-- the hull of spans in order goes from the start of the first one to the end of the last one -/
theorem InOrder.hull_eq {a : Span} {l : List Span} (h : InOrder (a :: l)) :
    ∃ z ∈ a :: l, hull a l = ⟨a.start, z.stop⟩ ∧ ∀ b ∈ a :: l, b.stop ≤ z.stop := by
  obtain ⟨hal, hl⟩ := List.pairwise_cons.mp h.before
  rcases List.eq_nil_or_concat' l with rfl | ⟨l', z, rfl⟩
  · refine ⟨a, List.mem_cons_self, rfl, ?_⟩
    intro b hb
    rw [List.mem_singleton.mp hb]
  · have hz : z ∈ a :: (l' ++ [z]) := List.mem_cons_of_mem _ (List.mem_append_right _ (List.mem_singleton_self z))
    have haz : a.Before z := hal z (List.mem_append_right _ (List.mem_singleton_self z))
    have hordered := Position.line_le_of_le (h.ordered z hz)
    refine ⟨z, hz, ?_, ?_⟩
    · rw [hull_concat]
      exact cover_eq_of_before (h.ordered a List.mem_cons_self) (h.ordered z hz) haz
    · intro b hb
      rw [← List.cons_append] at hb
      rcases List.mem_append.mp hb with hb | hb
      · have hbz : b.Before z := by
          rcases List.mem_cons.mp hb with rfl | hb
          · exact haz
          · exact (List.pairwise_append.mp hl).2.2 b hb z (List.mem_singleton_self z)
        exact Position.le_of_line_lt (Nat.lt_of_lt_of_le hbz hordered)
      · rw [List.mem_singleton.mp hb]

theorem InOrder.hull_covers {a : Span} {l : List Span} (h : InOrder (a :: l)) :
    ∀ b ∈ a :: l, (hull a l).Covers b := by
  obtain ⟨z, -, hz, hstop⟩ := h.hull_eq
  intro b hb
  rw [hz]
  refine ⟨?_, hstop b hb⟩
  rcases List.mem_cons.mp hb with rfl | hb'
  · exact le_refl _
  · have hab : a.Before b := (List.pairwise_cons.mp h.before).1 b hb'
    exact Position.le_of_line_lt
      (Nat.lt_of_le_of_lt (Position.line_le_of_le (h.ordered a List.mem_cons_self)) hab)

/-- **Spans that come last may be replaced by their hull.** -/
theorem InOrder.hull {l : List Span} {a : Span} {m : List Span} (h : InOrder (l ++ a :: m)) :
    InOrder (l ++ [hull a m]) := by
  obtain ⟨hl, hm⟩ := h.of_append
  obtain ⟨z, -, hz, hstop⟩ := hm.hull_eq
  apply hl.concat
  · rw [hz]
    exact le_trans (hm.ordered a List.mem_cons_self) (hstop a List.mem_cons_self)
  · intro b hb
    rw [hz]
    exact (List.pairwise_append.mp h.before).2.2 b hb a List.mem_cons_self

end Span

/-! ## trees -/

namespace Node

def span (n : Node) : Span :=
  n.statement.span

/-- The span of the tree is around those of its children and of its end.  The children are in order, and an
end that is a line comes after all of them. -/
structure Nested (n : Node) : Prop where
  ordered : n.span.Ordered
  children : ∀ c ∈ n.children, n.span.Covers c.span
  closing : ∀ e, n.closing = some e → e.span.Ordered ∧ n.span.Covers e.span
  apart : (n.children.map span).Pairwise Span.Before
  last : ∀ e, n.closing = some e → e.isMissingEnd = false → ∀ c ∈ n.children, c.span.Before e.span

theorem nested_leaf {s : Statement} (h : s.span.Ordered) : (leaf s).Nested := by
  refine ⟨h, List.forall_mem_nil _, ?_, .nil, ?_⟩
  · intro e he
    cases he
  · intro e he
    cases he

end Node

namespace Nesting
open Node

/-! ## the spans of a nesting -/

/-- the spans of the open blocks, from the outermost one on -/
def spanFrames : List Frame → List Span
  | [] => []
  | f :: fs => spanFrames fs ++ f.statement.span :: f.children.map Node.span

/-- the spans of a nesting in the order of the lines -/
def spans (b : Nesting) : List Span :=
  b.top.map Node.span ++ spanFrames b.frames

theorem spans_cons (f : Frame) (fs : List Frame) (top : List Node) :
    spans ⟨f :: fs, top⟩ = spans ⟨fs, top⟩ ++ f.statement.span :: f.children.map Node.span := by
  show top.map Node.span ++ (spanFrames fs ++ _) = top.map Node.span ++ spanFrames fs ++ _
  rw [List.append_assoc]

/-- the innermost trees have the last spans -/
theorem exists_spans_mapInnermost (b : Nesting) :
    ∃ outside, ∀ g, (b.mapInnermost g).spans = outside ++ (g b.innermost).map Node.span := by
  obtain ⟨frames, top⟩ := b
  cases frames with
  | nil =>
    refine ⟨[], fun g => ?_⟩
    show (g top).map Node.span ++ [] = [] ++ (g top).map Node.span
    rw [List.append_nil, List.nil_append]
  | cons f fs =>
    refine ⟨spans ⟨fs, top⟩ ++ [f.statement.span], fun g => ?_⟩
    show spans ⟨{ f with children := g f.children } :: fs, top⟩ = _
    rw [spans_cons, List.append_assoc]
    rfl

theorem spans_add (n : Node) (b : Nesting) : (b.add n).spans = b.spans ++ [n.span] := by
  obtain ⟨outside, h⟩ := exists_spans_mapInnermost b
  have hb : b.spans = outside ++ b.innermost.map Node.span := by
    rw [← h fun nodes => nodes, mapInnermost_id]
  rw [add, h, hb, List.map_append, List.append_assoc]
  rfl

/-! ## the trees of blocks -/

theorem extent_eq_hull (f : Frame) : f.extent = f.statement.span.hull (f.children.map Node.span) := by
  unfold Frame.extent Span.hull
  rw [List.getLast?_map]
  cases f.children.getLast? <;> rfl

theorem span_unterminated (f : Frame) : f.unterminated.span = f.extent := by
  unfold Frame.unterminated
  cases f.statement.error <;> rfl

theorem nested_unterminated {f : Frame}
    (h : Span.InOrder (f.statement.span :: f.children.map Node.span)) : f.unterminated.Nested := by
  have hcovers := h.hull_covers
  rw [← extent_eq_hull] at hcovers
  have hchildren : ∀ c ∈ f.children, f.extent.Covers c.span := fun c hc =>
    hcovers _ (List.mem_cons_of_mem _ (List.mem_map_of_mem hc))
  have hopening := hcovers _ List.mem_cons_self
  have hordered : f.statement.span.Ordered := h.ordered _ List.mem_cons_self
  have hextent : f.extent.Ordered := le_trans (le_trans hopening.1 hordered) hopening.2
  have hapart := (List.pairwise_cons.mp h.before).2
  unfold Frame.unterminated
  cases f.statement.error with
  | none =>
    refine ⟨hextent, hchildren, ?_, hapart, ?_⟩
    · intro e he
      cases he
    · intro e he
      cases he
  | some e =>
    refine ⟨hextent, hchildren, ?_, hapart, ?_⟩
    · rintro _ ⟨⟩
      exact ⟨hordered, hopening⟩
    · rintro _ ⟨⟩ hmissing
      cases hmissing

/-- a block that a line closes, or a declaration that it makes a block of: `kept` are the trees that the
declaration has already -/
theorem nested_of_end {head s : Statement} (kept : List Node) {after : List Node}
    (h : Span.InOrder (head.span :: (after.map Node.span ++ [s.span])))
    (hkept : ∀ c ∈ kept, head.span.Covers c.span) (hapart : (kept.map Node.span).Pairwise Span.Before)
    (statement : Statement) (hspan : statement.span = head.span.cover s.span) :
    Nested ⟨statement, kept ++ after, some s⟩ := by
  have hcovers := h.hull_covers
  rw [Span.hull_concat, ← hspan] at hcovers
  have hhead := hcovers _ List.mem_cons_self
  have hordered : statement.span.Ordered :=
    le_trans (le_trans hhead.1 (h.ordered _ List.mem_cons_self)) hhead.2
  have hs : s.span ∈ head.span :: (after.map Node.span ++ [s.span]) :=
    List.mem_cons_of_mem _ (List.mem_append_right _ (List.mem_singleton_self _))
  obtain ⟨hbefore, hafter⟩ := List.pairwise_cons.mp h.before
  obtain ⟨hafter, -, hlast⟩ := List.pairwise_append.mp hafter
  refine ⟨hordered, ?_, ?_, ?_, ?_⟩
  · intro c hc
    rcases List.mem_append.mp hc with hc | hc
    · exact hhead.trans (hkept c hc)
    · exact hcovers _ (List.mem_cons_of_mem _ (List.mem_append_left _ (List.mem_map_of_mem hc)))
  · rintro _ ⟨⟩
    exact ⟨h.ordered _ hs, hcovers _ hs⟩
  · show ((kept ++ after).map Node.span).Pairwise Span.Before
    rw [List.map_append]
    refine List.pairwise_append.mpr ⟨hapart, hafter, ?_⟩
    intro a ha b hb
    obtain ⟨c, hc, rfl⟩ := List.mem_map.mp ha
    exact (hkept c hc).before (hbefore b (List.mem_append_left _ hb))
  · rintro _ ⟨⟩ - c hc
    rcases List.mem_append.mp hc with hc | hc
    · exact (hkept c hc).before (hbefore _ (List.mem_append_right _ (List.mem_singleton_self _)))
    · exact hlast _ (List.mem_map_of_mem hc) _ (List.mem_singleton_self _)

/-! ## one statement -/

/-- the spans are in order and end before line `n`, and the trees are nested -/
structure Laid (n : Nat) (b : Nesting) : Prop where
  order : Span.InOrder b.spans
  above : ∀ a ∈ b.spans, a.stop.line < n
  trees : b.Everywhere Nested

variable {n : Nat} {b b' : Nesting}

theorem laid_empty (n : Nat) : Laid n empty :=
  ⟨⟨.nil, nofun⟩, nofun, everywhere_empty⟩

theorem Laid.mono {m : Nat} (hb : b.Laid n) (h : n ≤ m) : b.Laid m :=
  ⟨hb.order, fun a ha => Nat.lt_of_lt_of_le (hb.above a ha) h, hb.trees⟩

/-- the last spans are replaced by their hull, the span of a new tree -/
theorem Laid.of_hull {a : Span} {l m : List Span} {b : Nesting} (horder : Span.InOrder (l ++ a :: m))
    (habove : ∀ c ∈ l ++ a :: m, c.stop.line < n) (htrees : b.Everywhere Nested)
    (hspans : b.spans = l ++ [a.hull m]) : b.Laid n := by
  refine ⟨hspans ▸ horder.hull, ?_, htrees⟩
  intro c hc
  rw [hspans] at hc
  rcases List.mem_append.mp hc with hc | hc
  · exact habove c (List.mem_append_left _ hc)
  · obtain ⟨z, hmem, hz, -⟩ := horder.of_append.2.hull_eq
    rw [List.mem_singleton.mp hc, hz]
    exact habove z (List.mem_append_right _ hmem)

theorem Laid.unwindOne (hb : b.Laid n) : b.unwindOne.Laid n := by
  obtain ⟨frames, top⟩ := b
  cases frames with
  | nil => exact hb
  | cons f fs =>
    obtain ⟨horder, habove, htrees⟩ := hb
    rw [spans_cons] at horder habove
    rw [unwindOne_cons]
    refine Laid.of_hull horder habove ?_ (by rw [spans_add, span_unterminated, extent_eq_hull])
    have hfs : Everywhere Nested ⟨fs, top⟩ := ⟨htrees.1, fun g hg => htrees.2 g (List.mem_cons_of_mem _ hg)⟩
    apply hfs.add
    rw [everywhere_iff, children_unterminated]
    exact ⟨nested_unterminated horder.of_append.2, htrees.2 f List.mem_cons_self⟩

section
variable {s : Statement} (hline : s.span.On n) (hs : s.span.Ordered)
include hline hs

theorem Laid.concat (hb : b.Laid n) :
    Span.InOrder (b.spans ++ [s.span]) ∧ ∀ a ∈ b.spans ++ [s.span], a.stop.line < n + 1 := by
  refine ⟨hb.order.concat hs fun a ha => ?_, ?_⟩
  · show a.stop.line < s.span.start.line
    rw [hline.1]
    exact hb.above a ha
  · intro a ha
    rcases List.mem_append.mp ha with ha | ha
    · exact Nat.lt_succ_of_lt (hb.above a ha)
    · rw [List.mem_singleton.mp ha, hline.2]
      exact Nat.lt_succ_self n

theorem Laid.add_leaf (hb : b.Laid n) {s' : Statement} (h : s'.span = s.span) :
    (b.add (.leaf s')).Laid (n + 1) := by
  have hspans : (b.add (.leaf s')).spans = b.spans ++ [s.span] := by
    rw [spans_add]
    exact congrArg (fun a => b.spans ++ [a]) h
  obtain ⟨horder, habove⟩ := hb.concat hline hs
  refine ⟨hspans ▸ horder, hspans ▸ habove, hb.trees.add (everywhere_leaf (nested_leaf ?_))⟩
  rwa [h]

theorem Laid.placed (hb : b.Laid n) (hp : Placed s b b') : b'.Laid (n + 1) := by
  obtain ⟨horder, habove⟩ := hb.concat hline hs
  cases hp with
  | opened k hc ho =>
    have hspans : spans { b with frames := ⟨s, k, []⟩ :: b.frames } = b.spans ++ [s.span] :=
      spans_cons ⟨s, k, []⟩ b.frames b.top
    rw [← hspans] at horder habove
    refine ⟨horder, habove, hb.trees.1, ?_⟩
    intro f hf
    rcases List.mem_cons.mp hf with rfl | hf
    · exact allEverywhere_nil
    · exact hb.trees.2 f hf
  | line hc ho => exact hb.add_leaf hline hs rfl
  | stray k hc => exact hb.add_leaf hline hs rfl
  | closed f fs hf hc hk =>
    obtain ⟨frames, top⟩ := b
    obtain rfl : frames = f :: fs := hf
    rw [spans_cons, List.append_assoc, List.cons_append] at horder habove
    refine Laid.of_hull horder habove ?_ (by rw [spans_add, Span.hull_concat]; rfl)
    have hfs : Everywhere Nested ⟨fs, top⟩ :=
      ⟨hb.trees.1, fun g hg => hb.trees.2 g (List.mem_cons_of_mem _ hg)⟩
    apply hfs.add
    rw [everywhere_iff]
    exact ⟨nested_of_end [] horder.of_append.2 (List.forall_mem_nil _) .nil _ rfl,
      hb.trees.2 f List.mem_cons_self⟩
  | claimed k before m after hc hk hi hm =>
    obtain ⟨outside, h⟩ := exists_spans_mapInnermost b
    have hspans : b.spans = outside ++ before.map Node.span ++ m.span :: after.map Node.span := by
      have hid := h fun nodes => nodes
      rw [mapInnermost_id] at hid
      rw [hid, hi, List.map_append, List.append_assoc]
      rfl
    rw [hspans, List.append_assoc, List.cons_append] at horder habove
    have hin := hb.trees.innermost
    rw [hi, allEverywhere_append, AllEverywhere, everywhere_iff] at hin
    obtain ⟨hbefore, ⟨hnested, hchildren⟩, hafter⟩ := hin
    refine Laid.of_hull horder habove ?_ ?_
    · apply hb.trees.mapInnermost
      rw [allEverywhere_append, allEverywhere_singleton, everywhere_iff]
      refine ⟨hbefore, ?_, (allEverywhere_append _ _).mpr ⟨hchildren, hafter⟩⟩
      exact nested_of_end m.children horder.of_append.2 hnested.children hnested.apart _ rfl
    · rw [h, List.map_append, ← List.append_assoc, Span.hull_concat]
      rfl

/-- **One step.** -/
theorem Laid.push (hb : b.Laid n) : (b.push s).Laid (n + 1) := by
  obtain ⟨m, hp, -⟩ := push_placed s b
  exact (unwind_keeps (fun _ hb => hb.unwindOne) m hb).placed hline hs hp

end
end Nesting

/-! ## the lines -/

theorem lineSpan_on {tokens : List Token} {number : Nat} (h : ∀ t ∈ tokens, t.line = number) :
    (lineSpan tokens number).On number ∧ (lineSpan tokens number).Ordered := by
  unfold lineSpan
  split
  · rename_i first last hfirst hlast
    have hon : first.span.On number := Token.span_on (h first (List.mem_of_mem_head? hfirst))
    have hordered : first.span.Ordered := .inr ⟨rfl, Nat.le_add_right _ _⟩
    exact ⟨hon.cover (Token.span_on (h last (List.mem_of_mem_getLast? hlast))), hordered.cover _⟩
  · exact ⟨⟨rfl, rfl⟩, le_refl _⟩

section
variable (language : Language) (text : Text)

theorem span_of_lineStatements {i : Nat} {s : Statement} (hs : (lineStatements language text)[i]? = some s) :
    s.span.On i ∧ s.span.Ordered := by
  rw [lineStatements_getElem?] at hs
  obtain ⟨line, -, rfl⟩ := Option.map_eq_some_iff.mp hs
  rw [span_parseLine]
  exact lineSpan_on fun t ht => line_of_mem_tokenize ht

theorem laid_nestingBefore (i : Nat) : (nestingBefore language text i).Laid i := by
  induction i with
  | zero => exact Nesting.laid_empty 0
  | succ i ih =>
    cases hs : (lineStatements language text)[i]? with
    | none =>
      rw [nestingBefore_succ_of_none language text hs]
      exact ih.mono (Nat.le_succ i)
    | some s =>
      obtain ⟨hline, hordered⟩ := span_of_lineStatements language text hs
      rw [nestingBefore_succ language text hs]
      split
      · exact ih.push hline hordered
      · exact ih.mono (Nat.le_succ i)

/-- **The spans of a document nest.**  The trees of a document follow each other, each one ending on a line
before the next one starts.  The same holds of the children of every statement that the walk meets; their spans
and that of the end lie in the span of the statement, and an end that is a line comes after all children. -/
theorem parseDocument_spans :
    ((parseDocument language text).nodes.map Node.span).Pairwise Span.Before ∧
    (parseDocument language text).walk = (parseDocument language text).subtrees.map Node.statement ∧
    ∀ n ∈ (parseDocument language text).subtrees, n.Nested := by
  have hlaid := Nesting.unwind_keeps (fun _ hb => hb.unwindOne)
    (nestingBefore language text (Text.lines text).length).frames.length
    (laid_nestingBefore language text (Text.lines text).length)
  have horder := hlaid.order.of_append.1.before
  refine ⟨?_, Document.walk_eq _, ?_⟩
  · rw [parseDocument_eq_finish]
    exact horder
  · intro n hn
    rw [parseDocument_eq_finish] at hn
    rcases hlaid.trees.1.of_mem_subtreesAll hn with h | ⟨p, e, hp, he, rfl⟩
    · exact h
    · exact Node.nested_leaf (hp.closing e he).1

end
end Smali
