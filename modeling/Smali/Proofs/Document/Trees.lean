import Smali.Proofs.Document.Run

/-!
# Properties of all trees of a document

* `Document.subtrees`    the trees at every depth; a closing line is a tree without children.  Their
                         statements are the walk (`Document.walk_eq`);
* `Node.Everywhere P`    the tree and all trees below it satisfy `P`;
* `Nesting.TreeLaws Q P` the trees that a nesting makes of statements with the property `Q` satisfy `P`;
* `parseDocument_everywhere`  then all trees of a document satisfy `P`.
-/

namespace Smali
namespace Node

/-! ## trees at every depth -/

mutual

/-- the tree, those in its children, and its closing line -/
def subtrees : Node → List Node
  | ⟨s, children, closing⟩ =>
    ⟨s, children, closing⟩ :: (subtreesAll children ++ closing.toList.map leaf)

/-- the trees at every depth of several trees -/
def subtreesAll : List Node → List Node
  | [] => []
  | n :: ns => n.subtrees ++ subtreesAll ns

end

mutual

theorem walk_eq (n : Node) : n.walk = n.subtrees.map Node.statement := by
  cases n with
  | mk s children closing =>
    rw [walk, subtrees, List.map_cons, List.map_append, ← walkAll_eq children, List.map_map]
    congr 2
    exact (List.map_id closing.toList).symm

theorem walkAll_eq (ns : List Node) : walkAll ns = (subtreesAll ns).map Node.statement := by
  cases ns with
  | nil => rw [walkAll, subtreesAll, List.map_nil]
  | cons n ns => rw [walkAll, subtreesAll, List.map_append, walk_eq n, walkAll_eq ns]

end

mutual

/-- the tree and all trees below it, closing lines apart, satisfy `P` -/
def Everywhere (P : Node → Prop) : Node → Prop
  | ⟨s, children, closing⟩ => P ⟨s, children, closing⟩ ∧ AllEverywhere P children

def AllEverywhere (P : Node → Prop) : List Node → Prop
  | [] => True
  | n :: ns => n.Everywhere P ∧ AllEverywhere P ns

end

section
variable {P : Node → Prop}

theorem everywhere_iff (n : Node) : n.Everywhere P ↔ P n ∧ AllEverywhere P n.children := by
  cases n
  rw [Everywhere]

theorem allEverywhere_nil : AllEverywhere P [] := by
  rw [AllEverywhere]
  trivial

theorem allEverywhere_append (a b : List Node) :
    AllEverywhere P (a ++ b) ↔ AllEverywhere P a ∧ AllEverywhere P b := by
  induction a with
  | nil => rw [List.nil_append, AllEverywhere, true_and]
  | cons n a ih => rw [List.cons_append, AllEverywhere, AllEverywhere, ih, and_assoc]

theorem allEverywhere_singleton (n : Node) : AllEverywhere P [n] ↔ n.Everywhere P := by
  rw [AllEverywhere, AllEverywhere, and_true]

mutual

/-- a tree at some depth satisfies `P`, or it is the closing line of one that does -/
theorem Everywhere.of_mem_subtrees {n : Node} (h : n.Everywhere P) {m : Node} (hm : m ∈ n.subtrees) :
    P m ∨ ∃ p c, P p ∧ p.closing = some c ∧ m = leaf c := by
  cases n with
  | mk s children closing =>
    rw [Everywhere] at h
    rw [subtrees] at hm
    rcases List.mem_cons.mp hm with rfl | hm
    · exact .inl h.1
    · rcases List.mem_append.mp hm with hm | hm
      · exact h.2.of_mem_subtreesAll hm
      · obtain ⟨c, hc, rfl⟩ := List.mem_map.mp hm
        exact .inr ⟨_, c, h.1, Option.mem_toList.mp hc, rfl⟩

theorem AllEverywhere.of_mem_subtreesAll {ns : List Node} (h : AllEverywhere P ns) {m : Node}
    (hm : m ∈ subtreesAll ns) : P m ∨ ∃ p c, P p ∧ p.closing = some c ∧ m = leaf c := by
  cases ns with
  | nil =>
    rw [subtreesAll] at hm
    cases hm
  | cons n ns =>
    rw [AllEverywhere] at h
    rw [subtreesAll] at hm
    rcases List.mem_append.mp hm with hm | hm
    · exact h.1.of_mem_subtrees hm
    · exact h.2.of_mem_subtreesAll hm

end
end
end Node

/-- the trees at every depth of a document -/
def Document.subtrees (d : Document) : List Node :=
  Node.subtreesAll d.nodes

theorem Document.walk_eq (d : Document) : d.walk = d.subtrees.map Node.statement :=
  Node.walkAll_eq d.nodes

namespace Nesting
open Node

/-! ## trees of a nesting -/

/-- all trees of the nesting satisfy `P`; the open blocks are no trees yet -/
def Everywhere (P : Node → Prop) (b : Nesting) : Prop :=
  AllEverywhere P b.top ∧ ∀ f ∈ b.frames, AllEverywhere P f.children

/-- The trees that a nesting makes of statements with the property `Q` satisfy `P`. -/
structure TreeLaws (Q : Statement → Prop) (P : Node → Prop) : Prop where
  line : ∀ s, Q s → s.closes = none → s.opens = none → P (.leaf s)
  stray : ∀ s k, Q s → s.closes = some k →
    P (.leaf { s with kind := .error, error := some ⟨.unmatched k, s.span, none⟩ })
  unterminated : ∀ f : Frame, Q f.statement → f.statement.opens = some f.kind → P f.unterminated
  closed : ∀ (f : Frame) s, Q f.statement → f.statement.opens = some f.kind → Q s →
    s.closes = some f.kind → P (f.closedBy s)
  claimed : ∀ k s n after, Q s → s.closes = some k → k.isOptional = true → P n →
    isOpenDeclaration (declares k) n = true → P (claim k s n after)

section
variable {Q : Statement → Prop} {P : Node → Prop}

theorem everywhere_empty : Everywhere P empty := by
  refine ⟨allEverywhere_nil, ?_⟩
  intro f hf
  cases hf

theorem Everywhere.innermost {b : Nesting} (hb : b.Everywhere P) : AllEverywhere P b.innermost := by
  obtain ⟨frames, top⟩ := b
  cases frames with
  | nil => exact hb.1
  | cons f fs => exact hb.2 f List.mem_cons_self

theorem Everywhere.mapInnermost {b : Nesting} (hb : b.Everywhere P) {g : List Node → List Node}
    (hg : AllEverywhere P (g b.innermost)) : (b.mapInnermost g).Everywhere P := by
  obtain ⟨frames, top⟩ := b
  cases frames with
  | nil => exact ⟨hg, hb.2⟩
  | cons f fs =>
    refine ⟨hb.1, ?_⟩
    intro f' hf'
    rcases List.mem_cons.mp hf' with rfl | hf'
    · exact hg
    · exact hb.2 f' (List.mem_cons_of_mem _ hf')

theorem Everywhere.add {b : Nesting} (hb : b.Everywhere P) {n : Node} (hn : n.Everywhere P) :
    (b.add n).Everywhere P := by
  apply hb.mapInnermost
  rw [allEverywhere_append, allEverywhere_singleton]
  exact ⟨hb.innermost, hn⟩

theorem everywhere_leaf {s : Statement} (h : P (.leaf s)) : (leaf s).Everywhere P :=
  (everywhere_iff _).mpr ⟨h, allEverywhere_nil⟩

theorem children_unterminated (f : Frame) : f.unterminated.children = f.children := by
  unfold Frame.unterminated
  cases f.statement.error <;> rfl

theorem kept_everywhere (h : TreeLaws Q P) : Kept Q fun b => b.Opened Q ∧ b.Everywhere P where
  unwindOne := by
    rintro ⟨frames, top⟩ ⟨ho, hb⟩
    refine ⟨(kept_opened Q).unwindOne _ ho, ?_⟩
    cases frames with
    | nil => exact hb
    | cons f fs =>
      obtain ⟨hq, -, hf⟩ := ho f List.mem_cons_self
      have hfs : Everywhere P ⟨fs, top⟩ := ⟨hb.1, fun g hg => hb.2 g (List.mem_cons_of_mem _ hg)⟩
      rw [unwindOne_cons]
      apply hfs.add
      rw [everywhere_iff, children_unterminated]
      exact ⟨h.unterminated f hq hf, hb.2 f List.mem_cons_self⟩
  placed := by
    rintro s b b' hs ht ⟨ho, hb⟩ hp
    refine ⟨(kept_opened Q).placed s b b' hs ht ho hp, ?_⟩
    cases hp with
    | opened k hc hso =>
      refine ⟨hb.1, ?_⟩
      intro f hf
      rcases List.mem_cons.mp hf with rfl | hf
      · exact allEverywhere_nil
      · exact hb.2 f hf
    | line hc hso => exact hb.add (everywhere_leaf (h.line s hs hc hso))
    | stray k hc => exact hb.add (everywhere_leaf (h.stray s k hs hc))
    | closed f fs hf hc hk =>
      have hm : ∀ g, g ∈ f :: fs → g ∈ b.frames := fun g hg => hf ▸ hg
      obtain ⟨hq, -, hfo⟩ := ho f (hm f List.mem_cons_self)
      have hfs : Everywhere P { b with frames := fs } :=
        ⟨hb.1, fun g hg => hb.2 g (hm g (List.mem_cons_of_mem _ hg))⟩
      apply hfs.add
      rw [everywhere_iff]
      exact ⟨h.closed f s hq hfo hs hc, hb.2 f (hm f List.mem_cons_self)⟩
    | claimed k before n after hc hk hi hn =>
      have hin := hb.innermost
      rw [hi, allEverywhere_append, AllEverywhere, everywhere_iff] at hin
      obtain ⟨hbefore, ⟨hpn, hchildren⟩, hafter⟩ := hin
      apply hb.mapInnermost
      rw [allEverywhere_append, allEverywhere_singleton, everywhere_iff]
      refine ⟨hbefore, h.claimed k s n after hs hc hk hpn hn, ?_⟩
      show AllEverywhere P (n.children ++ after)
      rw [allEverywhere_append]
      exact ⟨hchildren, hafter⟩

end
end Nesting

/-- the trees of a document satisfy what the nesting gives to the trees that it makes -/
theorem parseDocument_everywhere {P : Node → Prop} (language : Language) (text : Text)
    (h : Nesting.TreeLaws (· ∈ lineStatements language text) P) :
    Node.AllEverywhere P (parseDocument language text).nodes := by
  have hk := Nesting.kept_everywhere h
  have hb := nestingBefore_keeps language text hk
    ⟨Nesting.opened_empty _, Nesting.everywhere_empty⟩ (fun _ hs => hs) (Text.lines text).length
  rw [parseDocument_eq_finish]
  exact (hk.unwind _ hb).2.1

end Smali
