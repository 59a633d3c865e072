import Smali.Proofs.Document.Outline
import Smali.Proofs.Document.Spans

/-!
# Blank lines

Whether blank lines are kept makes no difference to the other lines.  A blank line that is kept takes a place among
the trees of its block: the trees behind it are counted differently, and a block that is ended early may end with it.

* `Document.withoutBlanks`  the document without the blank lines at any depth;
* `Document.openEnded`      the document without the ends of the spans of blocks;
* `Nesting.trimmed`         what is left of a nesting when both are taken from its trees;
* `Node.Vacant`             a blank line has nothing below it, declares nothing and reports nothing;
* `Nesting.trimmed_push`    one step: nestings that are trimmed alike are so after the same statement;
* `Nesting.trimmed_push_of_blank`  a blank line is trimmed away;
* `trimmed_nestingBefore`   the run: with and without blank lines, nestings are trimmed alike before every line;
* `parseDocument_keepBlankLines`  the documents have the same diagnostics and labels, and without blank lines they
                            differ in the ends of blocks only.
-/

namespace Smali

/-! ## documents without blank lines -/

/-- the statement, and when it opens a block, without the end of its span -/
def Statement.openEnded (s : Statement) : Statement :=
  if s.opens.isSome then { s with span := ⟨s.span.start, s.span.start⟩ } else s

namespace Node

mutual

/-- the tree without the ends of the spans of blocks -/
def openEnded : Node → Node
  | ⟨s, children, closing⟩ => ⟨s.openEnded, openEndedAll children, closing⟩

def openEndedAll : List Node → List Node
  | [] => []
  | n :: ns => n.openEnded :: openEndedAll ns

end

mutual

/-- the tree without the blank lines below it -/
def withoutBlanks : Node → Node
  | ⟨s, children, closing⟩ => ⟨s, withoutBlanksAll children, closing⟩

/-- the trees without blank lines at any depth -/
def withoutBlanksAll : List Node → List Node
  | [] => []
  | n :: ns =>
    if n.statement.kind = .blank then withoutBlanksAll ns else n.withoutBlanks :: withoutBlanksAll ns

end

end Node

namespace Document

/-- the document without the ends of the spans of blocks -/
def openEnded (d : Document) : Document :=
  ⟨Node.openEndedAll d.nodes⟩

/-- the document without the blank lines at any depth -/
def withoutBlanks (d : Document) : Document :=
  ⟨Node.withoutBlanksAll d.nodes⟩

end Document

/-! ## statements -/

namespace Statement

/-- only the start of its span is left of a block -/
theorem openEnded_congr {s : Statement} (ho : s.opens.isSome = true) {a b : Span} (h : a.start = b.start) :
    openEnded { s with span := a } = openEnded { s with span := b } := by
  unfold openEnded
  rw [if_pos ho, if_pos ho]
  show { s with span := ⟨a.start, a.start⟩ } = { s with span := ⟨b.start, b.start⟩ }
  rw [h]

/-- only the span is changed -/
theorem openEnded_eq (s : Statement) : s.openEnded = { s with span := s.openEnded.span } := by
  unfold openEnded
  split <;> rfl

theorem start_openEnded (s : Statement) : s.openEnded.span.start = s.span.start := by
  unfold openEnded
  split <;> rfl

theorem kind_openEnded (s : Statement) : s.openEnded.kind = s.kind := by
  rw [openEnded_eq]

theorem error_openEnded (s : Statement) : s.openEnded.error = s.error := by
  rw [openEnded_eq]

theorem label?_openEnded (s : Statement) : s.openEnded.label? = s.label? := by
  rw [openEnded_eq]
  rfl

theorem directive?_openEnded (s : Statement) : s.openEnded.directive? = s.directive? := by
  rw [openEnded_eq]
  rfl

/-- statements of which the same is left differ in their spans at most, and these start at one place -/
theorem exists_span_of_openEnded_eq {s t : Statement} (h : s.openEnded = t.openEnded) :
    ∃ span, t = { s with span } ∧ span.start = s.span.start := by
  have hspan : ∀ u : Statement, { u.openEnded with span := t.span } = { u with span := t.span } :=
    fun u => congrArg (fun v : Statement => { v with span := t.span }) u.openEnded_eq
  refine ⟨t.span, ?_, ?_⟩
  · rw [← hspan s, h, hspan]
  · rw [← start_openEnded t, ← h, start_openEnded]

end Statement

theorem Language.IsLine.directive?_eq_none {language : Language} {s : Statement} (hs : language.IsLine s)
    (hk : s.kind = .blank) : s.directive? = none := by
  obtain ⟨hkeyword, hopcode, -, -⟩ := hs.of_kind_blank hk
  rw [Statement.directive?, hkeyword, hopcode]
  rfl

/-! ## trees -/

namespace Node

/-- the trees without their blank lines and without the ends of the spans of blocks -/
def trimmed (ns : List Node) : List Node :=
  openEndedAll (withoutBlanksAll ns)

theorem trimmed_nil : trimmed [] = [] := by
  rw [trimmed, withoutBlanksAll, openEndedAll]

theorem trimmed_cons_of_blank {n : Node} (h : n.statement.kind = .blank) (ns : List Node) :
    trimmed (n :: ns) = trimmed ns := by
  rw [trimmed, withoutBlanksAll, if_pos h, trimmed]

theorem trimmed_cons_of_ne {n : Node} (h : n.statement.kind ≠ .blank) (ns : List Node) :
    trimmed (n :: ns) = ⟨n.statement.openEnded, trimmed n.children, n.closing⟩ :: trimmed ns := by
  obtain ⟨s, children, closing⟩ := n
  rw [trimmed, withoutBlanksAll, if_neg h, openEndedAll, withoutBlanks, openEnded, trimmed, trimmed]

theorem trimmed_append (a b : List Node) : trimmed (a ++ b) = trimmed a ++ trimmed b := by
  induction a with
  | nil => rw [trimmed_nil, List.nil_append, List.nil_append]
  | cons n a ih =>
    rw [List.cons_append]
    by_cases h : n.statement.kind = .blank
    · rw [trimmed_cons_of_blank h, trimmed_cons_of_blank h, ih]
    · rw [trimmed_cons_of_ne h, trimmed_cons_of_ne h, ih, List.cons_append]

theorem trimmed_singleton_congr {m n : Node} (hs : m.statement.openEnded = n.statement.openEnded)
    (hchildren : trimmed m.children = trimmed n.children) (hclosing : m.closing = n.closing) :
    trimmed [m] = trimmed [n] := by
  have hkind : m.statement.kind = n.statement.kind := by
    rw [← Statement.kind_openEnded, hs, Statement.kind_openEnded]
  by_cases hblank : m.statement.kind = .blank
  · rw [trimmed_cons_of_blank hblank, trimmed_cons_of_blank (hkind ▸ hblank)]
  · rw [trimmed_cons_of_ne hblank, trimmed_cons_of_ne (hkind ▸ hblank), hs, hchildren, hclosing]

theorem exists_of_mem_trimmed {ns : List Node} {x : Node} (h : x ∈ trimmed ns) :
    ∃ n ∈ ns, x = ⟨n.statement.openEnded, trimmed n.children, n.closing⟩ := by
  induction ns with
  | nil =>
    rw [trimmed_nil] at h
    cases h
  | cons n ns ih =>
    by_cases hblank : n.statement.kind = .blank
    · rw [trimmed_cons_of_blank hblank] at h
      obtain ⟨m, hm, hx⟩ := ih h
      exact ⟨m, List.mem_cons_of_mem _ hm, hx⟩
    · rw [trimmed_cons_of_ne hblank] at h
      rcases List.mem_cons.mp h with hx | h
      · exact ⟨n, List.mem_cons_self, hx⟩
      · obtain ⟨m, hm, hx⟩ := ih h
        exact ⟨m, List.mem_cons_of_mem _ hm, hx⟩

/-- a blank line has nothing below it, declares nothing and reports nothing -/
def Vacant (n : Node) : Prop :=
  n.statement.kind = .blank →
    n = .leaf n.statement ∧ n.statement.directive? = none ∧ n.statement.error = none

mutual

/-- what neither a blank line nor the end of a span shows is the same in the trimmed tree -/
theorem filterMap_walk_trimmed {β : Type} {g : Statement → Option β} (hspan : ∀ s, g s.openEnded = g s)
    (hblank : ∀ s, s.kind = .blank → s.error = none → g s = none) (n : Node) (h : n.Everywhere Vacant) :
    (walkAll (trimmed [n])).filterMap g = n.walk.filterMap g := by
  cases n with
  | mk s children closing =>
    rw [everywhere_iff] at h
    obtain ⟨hn, hchildren⟩ := h
    by_cases hk : s.kind = .blank
    · obtain ⟨hleaf, -, herror⟩ := hn hk
      rw [trimmed_cons_of_blank hk, trimmed_nil, hleaf, walk_leaf, walkAll, List.filterMap_cons, hblank s hk herror]
    · rw [trimmed_cons_of_ne hk, trimmed_nil, walkAll_singleton, walk_mk, walk_mk, List.filterMap_cons,
        List.filterMap_cons, hspan, List.filterMap_append, List.filterMap_append,
        filterMap_walkAll_trimmed hspan hblank children hchildren]

theorem filterMap_walkAll_trimmed {β : Type} {g : Statement → Option β} (hspan : ∀ s, g s.openEnded = g s)
    (hblank : ∀ s, s.kind = .blank → s.error = none → g s = none) (ns : List Node) (h : AllEverywhere Vacant ns) :
    (walkAll (trimmed ns)).filterMap g = (walkAll ns).filterMap g := by
  cases ns with
  | nil => rw [trimmed_nil]
  | cons n ns =>
    rw [AllEverywhere] at h
    rw [← List.singleton_append, trimmed_append, walkAll_append, walkAll_append, List.filterMap_append,
      List.filterMap_append, walkAll_singleton, filterMap_walk_trimmed hspan hblank n h.1,
      filterMap_walkAll_trimmed hspan hblank ns h.2]

end

mutual

theorem withoutBlanks_eq_self (n : Node) (h : n.Everywhere fun m => m.statement.kind ≠ .blank) :
    n.withoutBlanks = n := by
  cases n with
  | mk s children closing =>
    rw [everywhere_iff] at h
    rw [withoutBlanks, withoutBlanksAll_eq_self children h.2]

theorem withoutBlanksAll_eq_self (ns : List Node) (h : AllEverywhere (fun m => m.statement.kind ≠ .blank) ns) :
    withoutBlanksAll ns = ns := by
  cases ns with
  | nil => rw [withoutBlanksAll]
  | cons n ns =>
    rw [AllEverywhere] at h
    rw [withoutBlanksAll, if_neg ((everywhere_iff n).mp h.1).1, withoutBlanks_eq_self n h.1,
      withoutBlanksAll_eq_self ns h.2]

end
end Node

namespace Nesting
open Node

/-- blank lines declare nothing, so the trimmed trees declare the same -/
theorem declared_trimmed {ns : List Node} (h : AllEverywhere Vacant ns) : declared (trimmed ns) = declared ns := by
  induction ns with
  | nil => rw [trimmed_nil]
  | cons n ns ih =>
    rw [AllEverywhere, everywhere_iff] at h
    rw [declared_cons, ← ih h.2]
    by_cases hk : n.statement.kind = .blank
    · obtain ⟨-, hdirective, -⟩ := h.1.1 hk
      have hnone : n.declares? = none := by
        rw [Node.declares?, hdirective]
        exact ite_self _
      rw [trimmed_cons_of_blank hk, hnone]
      rfl
    · rw [trimmed_cons_of_ne hk, declared_cons]
      unfold Node.declares?
      rw [Statement.directive?_openEnded]

/-! ## nestings -/

/-- the nesting with trimmed trees; the lines that opened its blocks are as they were -/
def trimmed (b : Nesting) : Nesting :=
  ⟨b.frames.map fun f => { f with children := Node.trimmed f.children }, Node.trimmed b.top⟩

theorem stack_trimmed (b : Nesting) : b.trimmed.stack = b.stack := by
  rw [stack, trimmed, List.map_map]
  rfl

theorem trimmed_mapInnermost (g : List Node → List Node) (b : Nesting) :
    (b.mapInnermost g).trimmed = b.trimmed.mapInnermost fun _ => Node.trimmed (g b.innermost) := by
  obtain ⟨frames, top⟩ := b
  cases frames <;> rfl

theorem innermost_trimmed (b : Nesting) : b.trimmed.innermost = Node.trimmed b.innermost := by
  obtain ⟨frames, top⟩ := b
  cases frames <;> rfl

theorem trimmed_outer (n : Nat) (b : Nesting) : (b.outer n).trimmed = b.trimmed.outer n := by
  rw [outer, outer, trimmed, List.map_drop]
  rfl

theorem Everywhere.outer {P : Node → Prop} {b : Nesting} (hb : b.Everywhere P) (n : Nat) : (b.outer n).Everywhere P :=
  ⟨hb.1, fun f hf => hb.2 f (List.mem_of_mem_drop hf)⟩

theorem outline_trimmed {b : Nesting} (h : b.Everywhere Vacant) : b.trimmed.outline = b.outline := by
  rw [outline, outline, trimmed, List.map_map, declared_trimmed h.1]
  refine congrArg (· ++ _) (List.map_congr_left fun f hf => ?_)
  show Level.mk _ (declared (Node.trimmed f.children)) = _
  rw [declared_trimmed (h.2 f hf)]

/-- what holds just before line `n` -/
structure Tidy (language : Language) (n : Nat) (b : Nesting) : Prop where
  opened : b.Opened language.IsLine
  laid : b.Laid n
  vacant : b.Everywhere Vacant

theorem kind_unterminated (f : Frame) : f.unterminated.statement.kind = f.statement.kind := by
  unfold Frame.unterminated
  cases f.statement.error <;> rfl

theorem vacant_of_opens {language : Language} {n : Node} {s : Statement} {k : BlockKind} (hs : language.IsLine s)
    (ho : s.opens = some k) (hk : n.statement.kind = s.kind) : n.Vacant := by
  intro hblank
  rw [(hs.of_kind_blank (hk.symm.trans hblank)).2.2.1] at ho
  cases ho

theorem kind_ne_blank_of_isOpenDeclaration {d : Directive} {n : Node} (hn : n.Vacant)
    (h : isOpenDeclaration d n = true) : n.statement.kind ≠ .blank := by
  intro hk
  have hdirective := (isOpenDeclaration_iff.mp h).2
  rw [(hn hk).2.1] at hdirective
  cases hdirective

theorem treeLaws_vacant (language : Language) : TreeLaws language.IsLine Vacant where
  line := by
    intro s hs _ _ hk
    exact ⟨rfl, hs.directive?_eq_none hk, hs.error_eq_none hk⟩
  stray := by
    intro s k _ _ hk
    cases hk
  unterminated := fun f hs ho => vacant_of_opens hs ho (kind_unterminated f)
  closed := fun f s hs ho _ _ => vacant_of_opens hs ho rfl
  claimed := by
    intro k s n after _ _ _ hn hopen hk
    exact (kind_ne_blank_of_isOpenDeclaration hn hopen hk).elim

section
variable {language : Language} {n : Nat} {b : Nesting}

theorem Tidy.unwindOne (hb : b.Tidy language n) : b.unwindOne.Tidy language n := by
  obtain ⟨hopened, hvacant⟩ := (kept_everywhere (treeLaws_vacant language)).unwindOne b ⟨hb.opened, hb.vacant⟩
  exact ⟨hopened, hb.laid.unwindOne, hvacant⟩

theorem Tidy.unwind (hb : b.Tidy language n) (m : Nat) : (b.unwind m).Tidy language n :=
  unwind_keeps (fun _ h => h.unwindOne) m hb

/-- the block starts with its opening line -/
theorem Tidy.start_extent {f : Frame} {fs : List Frame} {top : List Node} (hb : Tidy language n ⟨f :: fs, top⟩) :
    f.extent.start = f.statement.span.start := by
  have horder := hb.laid.order
  rw [spans_cons] at horder
  obtain ⟨z, -, hz, -⟩ := horder.of_append.2.hull_eq
  rw [extent_eq_hull, hz]

end

theorem trimmed_unterminated {f f' : Frame} (hs : f.statement = f'.statement) (hk : f.kind = f'.kind)
    (hc : Node.trimmed f.children = Node.trimmed f'.children) (ho : f.statement.opens.isSome = true)
    (hstart : f.extent.start = f'.extent.start) : Node.trimmed [f.unterminated] = Node.trimmed [f'.unterminated] := by
  have hhead : ∀ error, Statement.openEnded { f.statement with span := f.extent, error } =
      Statement.openEnded { f.statement with span := f'.extent, error } :=
    fun error => Statement.openEnded_congr (s := { f.statement with error }) ho hstart
  unfold Frame.unterminated
  rw [← hs, ← hk]
  cases f.statement.error with
  | none => exact trimmed_singleton_congr (hhead _) hc rfl
  | some e => exact trimmed_singleton_congr (hhead f.statement.error) hc rfl

/-! ## nestings that are trimmed alike -/

section
variable {language language' : Language} {n : Nat} {b b' : Nesting}

theorem trimmed_add (h : b.trimmed = b'.trimmed) {m m' : Node} (hm : Node.trimmed [m] = Node.trimmed [m']) :
    (b.add m).trimmed = (b'.add m').trimmed := by
  rw [add, add, trimmed_mapInnermost, trimmed_mapInnermost, trimmed_append, trimmed_append, ← innermost_trimmed,
    ← innermost_trimmed, h, hm]

theorem eq_of_trimmed_cons {f f' : Frame} {fs fs' : List Frame} {top top' : List Node}
    (h : trimmed ⟨f :: fs, top⟩ = trimmed ⟨f' :: fs', top'⟩) :
    f.statement = f'.statement ∧ f.kind = f'.kind ∧ Node.trimmed f.children = Node.trimmed f'.children ∧
      trimmed ⟨fs, top⟩ = trimmed ⟨fs', top'⟩ := by
  obtain ⟨hframes, htop⟩ := Nesting.mk.inj h
  obtain ⟨hf, hfs⟩ := List.cons.inj hframes
  obtain ⟨hs, hk, hchildren⟩ := Frame.mk.inj hf
  refine ⟨hs, hk, hchildren, ?_⟩
  show Nesting.mk _ _ = Nesting.mk _ _
  rw [hfs, htop]

theorem trimmed_unwindOne (h : b.trimmed = b'.trimmed) (hb : b.Tidy language n) (hb' : b'.Tidy language' n) :
    b.unwindOne.trimmed = b'.unwindOne.trimmed := by
  obtain ⟨frames, top⟩ := b
  obtain ⟨frames', top'⟩ := b'
  have hframes := (Nesting.mk.inj h).1
  cases frames with
  | nil =>
    obtain rfl : frames' = [] := List.map_eq_nil_iff.mp hframes.symm
    exact h
  | cons f fs =>
    obtain ⟨f', fs', rfl, -, -⟩ := List.map_eq_cons_iff.mp hframes.symm
    obtain ⟨hs, hk, hchildren, hrest⟩ := eq_of_trimmed_cons h
    have ho : f.statement.opens.isSome = true := by
      rw [(hb.opened f List.mem_cons_self).2.2]
      rfl
    have hstart : f.extent.start = f'.extent.start := by
      rw [hb.start_extent, hb'.start_extent, hs]
    exact trimmed_add hrest (trimmed_unterminated hs hk hchildren ho hstart)

theorem trimmed_unwind (m : Nat) (h : b.trimmed = b'.trimmed) (hb : b.Tidy language n)
    (hb' : b'.Tidy language' n) : (b.unwind m).trimmed = (b'.unwind m).trimmed := by
  induction m generalizing b b' with
  | zero => exact h
  | succ m ih => exact ih (trimmed_unwindOne h hb hb') hb.unwindOne hb'.unwindOne

theorem outline_of_trimmed (h : b.trimmed = b'.trimmed) (hb : b.Tidy language n) (hb' : b'.Tidy language' n) :
    b.outline = b'.outline := by
  rw [← outline_trimmed hb.vacant, h, outline_trimmed hb'.vacant]

theorem trimmed_unwindAll (h : b.trimmed = b'.trimmed) (hb : b.Tidy language n) (hb' : b'.Tidy language' n) :
    b.unwindAll.trimmed = b'.unwindAll.trimmed := by
  rw [unwindAll, unwindAll, length_frames_congr (outline_of_trimmed h hb hb')]
  exact trimmed_unwind _ h hb hb'

theorem trimmed_metBy (s : Statement) (h : b.trimmed = b'.trimmed) (hb : b.Tidy language n)
    (hb' : b'.Tidy language' n) : (b.metBy s).trimmed = (b'.metBy s).trimmed := by
  unfold metBy
  split
  · exact trimmed_unwindAll h hb hb'
  · exact h

theorem Tidy.metBy (s : Statement) (hb : b.Tidy language n) : (b.metBy s).Tidy language n := by
  unfold Nesting.metBy
  split
  · exact hb.unwind _
  · exact hb

/-! ## ends of blocks -/

theorem trimmed_close (s : Statement) (k : BlockKind) (h : b.trimmed = b'.trimmed) (hb : b.Tidy language n)
    (hb' : b'.Tidy language' n) : (b.close s k).trimmed = (b'.close s k).trimmed := by
  rcases close_cases s k (outline_of_trimmed h hb hb') with
    ⟨hc, hc'⟩ | ⟨m, ⟨f, fs, top, hu, hc⟩, f', fs', top', hu', hc'⟩
  · rw [hc, hc']
    exact trimmed_add h rfl
  · have hunwind := trimmed_unwind m h hb hb'
    rw [hu, hu'] at hunwind
    obtain ⟨hs, -, hchildren, hrest⟩ := eq_of_trimmed_cons hunwind
    rw [hc, hc']
    refine trimmed_add hrest (trimmed_singleton_congr ?_ hchildren rfl)
    rw [Frame.closedBy, Frame.closedBy, hs]

end

/-- the last declaration without an end is also the last one among the trimmed trees -/
theorem findLastIdx?_trimmed {d : Directive} (before : List Node) {m : Node} {after : List Node}
    (hm : isOpenDeclaration d m = true) (hvacant : m.Vacant) (hlast : ∀ x ∈ after, isOpenDeclaration d x = false) :
    Node.trimmed (before ++ m :: after) =
        Node.trimmed before ++ ⟨m.statement.openEnded, Node.trimmed m.children, m.closing⟩ :: Node.trimmed after ∧
      findLastIdx? (isOpenDeclaration d) (Node.trimmed (before ++ m :: after)) =
        some (Node.trimmed before).length := by
  have hopen : ∀ x : Node, isOpenDeclaration d ⟨x.statement.openEnded, Node.trimmed x.children, x.closing⟩ =
      isOpenDeclaration d x := by
    intro x
    rw [isOpenDeclaration, isOpenDeclaration, Statement.directive?_openEnded]
  have hsplit : Node.trimmed (before ++ m :: after) = Node.trimmed before ++
      ⟨m.statement.openEnded, Node.trimmed m.children, m.closing⟩ :: Node.trimmed after := by
    rw [trimmed_append, trimmed_cons_of_ne (kind_ne_blank_of_isOpenDeclaration hvacant hm)]
  refine ⟨hsplit, ?_⟩
  rw [hsplit]
  apply findLastIdx?_append_cons
  · rw [hopen, hm]
  · intro x hx
    obtain ⟨y, hy, rfl⟩ := exists_of_mem_trimmed hx
    rw [hopen, hlast y hy]

/-- a declaration becomes the same block, whatever is trimmed from the trees around it -/
theorem trimmed_claimAt {d : Directive} (k : BlockKind) (s : Statement) {nodes nodes' extra extra' : List Node}
    {i i' : Nat} (hnodes : Node.trimmed nodes = Node.trimmed nodes')
    (hextra : Node.trimmed extra = Node.trimmed extra') (hvacant : AllEverywhere Vacant nodes)
    (hvacant' : AllEverywhere Vacant nodes') (hfind : findLastIdx? (isOpenDeclaration d) nodes = some i)
    (hfind' : findLastIdx? (isOpenDeclaration d) nodes' = some i') :
    Node.trimmed (claimAt k s i (nodes ++ extra)) = Node.trimmed (claimAt k s i' (nodes' ++ extra')) := by
  obtain ⟨before, m, after, rfl, rfl, hm, hlast⟩ := exists_of_findLastIdx? hfind
  obtain ⟨before', m', after', rfl, rfl, hm', hlast'⟩ := exists_of_findLastIdx? hfind'
  rw [allEverywhere_append, AllEverywhere, everywhere_iff] at hvacant hvacant'
  obtain ⟨hsplit, hplace⟩ := findLastIdx?_trimmed before hm hvacant.2.1.1 hlast
  obtain ⟨hsplit', hplace'⟩ := findLastIdx?_trimmed before' hm' hvacant'.2.1.1 hlast'
  -- the declaration has one place among the trimmed trees, so what is before and behind it is the same
  have hlength : (Node.trimmed before).length = (Node.trimmed before').length := by
    rw [hnodes] at hplace
    exact Option.some.inj (hplace.symm.trans hplace')
  rw [hsplit, hsplit'] at hnodes
  obtain ⟨hbefore, hrest⟩ := List.append_inj hnodes hlength
  obtain ⟨hdeclaration, hafter⟩ := List.cons.inj hrest
  obtain ⟨hstatement, hchildren, -⟩ := Node.mk.inj hdeclaration
  have hclaim : Node.trimmed [claim k s m (after ++ extra)] = Node.trimmed [claim k s m' (after' ++ extra')] := by
    apply trimmed_singleton_congr
    · obtain ⟨span, hm, hstart⟩ := Statement.exists_span_of_openEnded_eq hstatement
      rw [claim, claim, hm]
      refine Statement.openEnded_congr (s := { m.statement with opens := some k }) rfl ?_
      show Position.earlier _ _ = Position.earlier _ _
      rw [hstart]
    · show Node.trimmed (m.children ++ (after ++ extra)) = Node.trimmed (m'.children ++ (after' ++ extra'))
      simp only [trimmed_append]
      rw [hchildren, hafter, hextra]
    · rfl
  rw [List.append_assoc, List.append_assoc, List.cons_append, List.cons_append, claimAt_append_cons,
    claimAt_append_cons, trimmed_append, trimmed_append, hbefore, hclaim]

section
variable {language language' : Language} {n : Nat} {b b' : Nesting}

theorem trimmed_closeDeclaration (s : Statement) (k : BlockKind) (h : b.trimmed = b'.trimmed)
    (hb : b.Tidy language n) (hb' : b'.Tidy language' n) :
    (b.closeDeclaration s k).trimmed = (b'.closeDeclaration s k).trimmed := by
  rcases closeDeclaration_cases s k (outline_of_trimmed h hb hb') with
    ⟨hc, hc'⟩ | ⟨m, ⟨i, extra, -, hfind, hu, hc⟩, i', extra', -, hfind', hu', hc'⟩
  · rw [hc, hc']
    exact trimmed_add h rfl
  · have houter : (b.outer m).trimmed = (b'.outer m).trimmed := by
      rw [trimmed_outer, trimmed_outer, h]
    have hnodes : Node.trimmed (b.outer m).innermost = Node.trimmed (b'.outer m).innermost := by
      rw [← innermost_trimmed, houter, innermost_trimmed]
    -- the trees of the ended blocks are behind all others, so they are trimmed alike, too
    have hextra : Node.trimmed extra = Node.trimmed extra' := by
      have hall := congrArg innermost (trimmed_unwind m h hb hb')
      rw [innermost_trimmed, innermost_trimmed, hu, hu', innermost_mapInnermost, innermost_mapInnermost,
        trimmed_append, trimmed_append, hnodes] at hall
      exact List.append_cancel_left hall
    rw [hc, hc', trimmed_mapInnermost, trimmed_mapInnermost, houter,
      trimmed_claimAt k s hnodes hextra (hb.vacant.outer m).innermost (hb'.vacant.outer m).innermost hfind hfind']

/-! ## one statement -/

/-- **One step.**  Nestings that are trimmed alike are so after the same statement. -/
theorem trimmed_push (s : Statement) (h : b.trimmed = b'.trimmed) (hb : b.Tidy language n)
    (hb' : b'.Tidy language' n) : (b.push s).trimmed = (b'.push s).trimmed := by
  have hmet := trimmed_metBy s h hb hb'
  cases hc : s.closes with
  | some k =>
    rw [push_of_closes hc, push_of_closes hc]
    split
    · exact trimmed_closeDeclaration s k hmet (hb.metBy s) (hb'.metBy s)
    · exact trimmed_close s k hmet (hb.metBy s) (hb'.metBy s)
  | none =>
    cases ho : s.opens with
    | some k =>
      rw [push_of_opens hc ho, push_of_opens hc ho]
      obtain ⟨hframes, htop⟩ := Nesting.mk.inj hmet
      show Nesting.mk (_ :: _) _ = Nesting.mk (_ :: _) _
      rw [hframes, htop]
    | none =>
      rw [push_of_neither hc ho, push_of_neither hc ho]
      exact trimmed_add hmet rfl

/-- a blank line is trimmed away -/
theorem trimmed_push_of_blank {s : Statement} (hs : language.IsLine s) (hk : s.kind = .blank) (b : Nesting) :
    (b.push s).trimmed = b.trimmed := by
  obtain ⟨-, -, hopens, hcloses⟩ := hs.of_kind_blank hk
  have hmet : b.metBy s = b := by
    rw [metBy, Statement.isTopLevel, hs.directive?_eq_none hk]
    rfl
  rw [push_of_neither hcloses hopens, hmet, add, trimmed_mapInnermost, trimmed_append, trimmed_cons_of_blank hk,
    trimmed_nil, List.append_nil, ← innermost_trimmed]
  exact (mapInnermost_congr (h := fun nodes => nodes) rfl).trans (mapInnermost_id b.trimmed)

end
end Nesting

/-! ## the run over the lines -/

theorem tidy_nestingBefore (language : Language) (text : Text) (k : Nat) :
    (nestingBefore language text k).Tidy language k := by
  obtain ⟨hopened, hvacant⟩ := nestingBefore_keeps language text
    (Nesting.kept_everywhere (Nesting.treeLaws_vacant language)) ⟨Nesting.opened_empty _, Nesting.everywhere_empty⟩
    (fun _ hs => isLine_of_mem_lineStatements language text hs) k
  exact ⟨hopened, laid_nestingBefore language text k, hvacant⟩

section
variable (catalog : Catalog) (odex : Bool) (text : Text)

/-- how a line is read does not depend on whether blank lines are kept -/
theorem parseLine_keepBlankLines (stack : BlockStack) (line : Text) (number : Nat) :
    parseLine ⟨catalog, ⟨odex, true⟩⟩ stack line number = parseLine ⟨catalog, ⟨odex, false⟩⟩ stack line number :=
  rfl

/-- **The run.**  With and without blank lines, the nestings before each line are trimmed alike. -/
theorem trimmed_nestingBefore (k : Nat) : (nestingBefore ⟨catalog, ⟨odex, true⟩⟩ text k).trimmed =
    (nestingBefore ⟨catalog, ⟨odex, false⟩⟩ text k).trimmed := by
  induction k with
  | zero => rfl
  | succ k ih =>
    have hstack := congrArg Nesting.stack ih
    rw [Nesting.stack_trimmed, Nesting.stack_trimmed] at hstack
    have hline : (lineStatements ⟨catalog, ⟨odex, true⟩⟩ text)[k]? =
        (lineStatements ⟨catalog, ⟨odex, false⟩⟩ text)[k]? := by
      rw [lineStatements_getElem?, lineStatements_getElem?, hstack]
      simp only [parseLine_keepBlankLines]
    cases hs : (lineStatements ⟨catalog, ⟨odex, false⟩⟩ text)[k]? with
    | none => rw [nestingBefore_succ_of_none _ _ (hline.trans hs), nestingBefore_succ_of_none _ _ hs, ih]
    | some s =>
      have hkept : Language.keeps ⟨catalog, ⟨odex, true⟩⟩ s = true := rfl
      rw [nestingBefore_succ _ _ (hline.trans hs), nestingBefore_succ _ _ hs, if_pos hkept]
      split
      · exact Nesting.trimmed_push s ih (tidy_nestingBefore _ text k) (tidy_nestingBefore _ text k)
      · rename_i hkeeps
        have hblank := kind_of_keeps_eq_false _ (Bool.not_eq_true _ |>.mp hkeeps)
        have hs := isLine_of_mem_lineStatements _ text (List.mem_of_getElem? hs)
        rw [Nesting.trimmed_push_of_blank hs hblank, ih]

/-- the documents are trimmed alike -/
theorem trimmed_parseDocument : Node.trimmed (parseDocument ⟨catalog, ⟨odex, true⟩⟩ text).nodes =
    Node.trimmed (parseDocument ⟨catalog, ⟨odex, false⟩⟩ text).nodes := by
  rw [parseDocument_eq_finish, parseDocument_eq_finish]
  exact congrArg Nesting.top (Nesting.trimmed_unwindAll (trimmed_nestingBefore catalog odex text _)
    (tidy_nestingBefore _ text _) (tidy_nestingBefore _ text _))

theorem vacant_parseDocument (language : Language) :
    Node.AllEverywhere Node.Vacant (parseDocument language text).nodes := by
  rw [parseDocument_eq_finish]
  exact ((tidy_nestingBefore language text _).unwind _).vacant.1

/-- there are no blank lines in a document unless they are kept -/
theorem withoutBlanks_parseDocument :
    (parseDocument ⟨catalog, ⟨odex, false⟩⟩ text).withoutBlanks = parseDocument ⟨catalog, ⟨odex, false⟩⟩ text := by
  have hlaws : Nesting.TreeLaws (fun s => s.kind ≠ .blank) fun n => n.statement.kind ≠ .blank := by
    refine ⟨fun _ hs _ _ => hs, fun _ _ _ _ => nofun, fun f hs _ => ?_, fun _ _ hs _ _ _ => hs,
      fun _ _ _ _ _ _ _ hn _ => hn⟩
    rwa [Nesting.kind_unterminated]
  have hkept := Nesting.kept_everywhere hlaws
  have hbefore := nestingBefore_keeps_of_kept ⟨catalog, ⟨odex, false⟩⟩ text hkept
    ⟨Nesting.opened_empty _, Nesting.everywhere_empty⟩ (fun s _ hs => bne_iff_ne.mp hs) (Text.lines text).length
  rw [parseDocument_eq_finish]
  exact congrArg Document.mk (Node.withoutBlanksAll_eq_self _ (hkept.unwind _ hbefore).2.1)

/-- what neither blank lines nor ends of spans show is the same in both documents -/
theorem filterMap_walk_parseDocument {β : Type} {g : Statement → Option β} (hspan : ∀ s, g s.openEnded = g s)
    (hblank : ∀ s, s.kind = .blank → s.error = none → g s = none) :
    (parseDocument ⟨catalog, ⟨odex, true⟩⟩ text).walk.filterMap g =
      (parseDocument ⟨catalog, ⟨odex, false⟩⟩ text).walk.filterMap g := by
  rw [Document.walk, Document.walk, ← Node.filterMap_walkAll_trimmed hspan hblank _ (vacant_parseDocument text _),
    trimmed_parseDocument, Node.filterMap_walkAll_trimmed hspan hblank _ (vacant_parseDocument text _)]

end

/-- **Keeping blank lines only adds blank lines.**  Whether they are kept or not, a document has the same diagnostics
and the same labels, and the same blocks are open before every line.  Without the blank lines at any depth, the
document that keeps them is the one that does not, but for the ends of the spans of blocks. -/
theorem parseDocument_keepBlankLines (catalog : Catalog) (odex : Bool) (text : Text) :
    let kept := parseDocument ⟨catalog, ⟨odex, true⟩⟩ text
    let dropped := parseDocument ⟨catalog, ⟨odex, false⟩⟩ text
    kept.diagnostics = dropped.diagnostics ∧ kept.labels = dropped.labels ∧
      (∀ k, (nestingBefore ⟨catalog, ⟨odex, true⟩⟩ text k).stack =
        (nestingBefore ⟨catalog, ⟨odex, false⟩⟩ text k).stack) ∧
      kept.withoutBlanks.openEnded = dropped.openEnded := by
  intro kept dropped
  refine ⟨?_, ?_, fun k => ?_, ?_⟩
  · have herrors : kept.walk.filterMap (fun s => s.error) = dropped.walk.filterMap fun s => s.error :=
      filterMap_walk_parseDocument catalog odex text Statement.error_openEnded fun _ _ herror => herror
    rw [Document.diagnostics_eq, herrors, Document.diagnostics_eq]
  · refine filterMap_walk_parseDocument catalog odex text Statement.label?_openEnded fun s hk _ => ?_
    apply Statement.label?_eq_none
    rw [hk]
    rintro ⟨⟩
  · rw [← Nesting.stack_trimmed, trimmed_nestingBefore, Nesting.stack_trimmed]
  · have hnone : dropped.withoutBlanks = dropped := withoutBlanks_parseDocument catalog odex text
    rw [← hnone]
    exact congrArg Document.mk (trimmed_parseDocument catalog odex text)

/-- a method without its end ends with the blank line, when that is kept -/
example :
    let text := ".method\n\n".toList
    (parseDocument ⟨.empty, ⟨true, true⟩⟩ text).nodes.map (fun n => n.statement.span.stop) = [⟨1, 0⟩] ∧
      (parseDocument ⟨.empty, ⟨true, false⟩⟩ text).nodes.map (fun n => n.statement.span.stop) = [⟨0, 7⟩] := by
  decide +kernel

end Smali
