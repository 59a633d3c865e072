import Smali.Proofs.Catalog
import Smali.Proofs.Document.Diagnostics
import Smali.Proofs.Line.Builtin

/-!
# What later lines see of a nesting

How the lines that follow are nested depends on little of the ones before: on the lines that opened the blocks
which are still open, and on the declarations that may still get an end.  All other lines are invisible to
the ones that follow.

* `Node.declares?`      the field or parameter that a tree declares, as long as it has no end;
* `Nesting.outline`     the open blocks and, for each list of trees, the declarations in it;
* `Nesting.close_cases`, `Nesting.closeDeclaration_cases`  an end closes what is at one depth in two nestings of one
                        outline;
* `Nesting.outline_push`  one step: nestings of one outline have one outline after the same statement;
* `Statement.IsInert`   the statement neither opens nor closes a block, nor does it declare anything or belong
                        to the class itself;
* `Nesting.outline_push_of_isInert`  such a statement leaves the outline as it is;
* `lineStatements_inert`  the run: when such a line is replaced by another one, all other lines are read as
                        before.
-/

namespace Smali

/-- the field or parameter that the tree declares, as long as it has no end -/
def Node.declares? (n : Node) : Option Directive :=
  if n.closing.isNone then n.statement.directive?.filter fun d => d == .field || d == .param else none

namespace Nesting
open Node

/-! ## declarations -/

/-- the declarations without an end among trees -/
def declared (nodes : List Node) : List Directive :=
  nodes.filterMap Node.declares?

theorem declared_append (a b : List Node) : declared (a ++ b) = declared a ++ declared b :=
  List.filterMap_append

theorem declared_cons (n : Node) (nodes : List Node) :
    declared (n :: nodes) = n.declares?.toList ++ declared nodes := by
  rw [declared, List.filterMap_cons]
  cases n.declares? <;> rfl

theorem isOpenDeclaration_eq (k : BlockKind) (n : Node) :
    isOpenDeclaration (declares k) n = (n.declares? == some (declares k)) := by
  have hk : declares k = .field ∨ declares k = .param := by
    cases k with
    | field => exact .inl rfl
    | _ => exact .inr rfl
  unfold isOpenDeclaration Node.declares?
  cases n.closing with
  | some c => rfl
  | none =>
    cases n.statement.directive? with
    | none => rfl
    | some d => rcases hk with hk | hk <;> rw [hk] <;> cases d <;> rfl

/-- the elements before the last one that is `d` -/
def beforeLast (d : Directive) : List Directive → List Directive
  | [] => []
  | a :: l => if d ∈ l then a :: beforeLast d l else []

theorem beforeLast_append {d : Directive} (a : List Directive) {l : List Directive} (hl : d ∈ l) :
    beforeLast d (a ++ l) = a ++ beforeLast d l := by
  induction a with
  | nil => rfl
  | cons x a ih =>
    rw [List.cons_append, beforeLast, if_pos (List.mem_append_right _ hl), ih]
    rfl

/-- Looking for a declaration among trees is looking for it among what they declare. -/
theorem findLastIdx?_declared (k : BlockKind) (nodes : List Node) :
    match findLastIdx? (isOpenDeclaration (declares k)) nodes with
    | some i => declares k ∈ declared nodes ∧ i < nodes.length ∧
        declared (nodes.take i) = beforeLast (declares k) (declared nodes)
    | none => declares k ∉ declared nodes := by
  induction nodes with
  | nil => exact List.not_mem_nil
  | cons n nodes ih =>
    rw [findLastIdx?, declared_cons, isOpenDeclaration_eq]
    cases h : findLastIdx? (isOpenDeclaration (declares k)) nodes with
    | some i =>
      rw [h] at ih
      obtain ⟨hmem, hlt, htake⟩ := ih
      refine ⟨List.mem_append_right _ hmem, Nat.succ_lt_succ hlt, ?_⟩
      rw [List.take_succ_cons, declared_cons, htake, beforeLast_append _ hmem]
    | none =>
      rw [h] at ih
      dsimp only at ih ⊢
      cases hn : n.declares? == some (declares k) with
      | true =>
        rw [if_pos rfl, beq_iff_eq.mp hn]
        refine ⟨List.mem_cons_self, Nat.succ_pos _, ?_⟩
        show [] = beforeLast (declares k) (declares k :: declared nodes)
        rw [beforeLast, if_neg ih]
      | false =>
        rw [if_neg Bool.false_ne_true]
        intro hmem
        rcases List.mem_append.mp hmem with hmem | hmem
        · rw [Option.mem_toList.mp hmem] at hn
          exact absurd hn (by simp)
        · exact ih hmem

/-- a declaration that becomes a block is none any more, and it takes what follows it along -/
theorem declared_claimAt (k : BlockKind) (s : Statement) (i : Nat) (nodes : List Node) :
    declared (claimAt k s i nodes) = declared (nodes.take i) := by
  unfold claimAt
  split
  · rw [declared_append, declared_cons]
    exact List.append_nil _
  · rename_i h
    rw [List.take_of_length_le (List.drop_eq_nil_iff.mp h)]

theorem declares?_unterminated {f g : Frame} (h : f.statement = g.statement) :
    f.unterminated.declares? = g.unterminated.declares? := by
  unfold Frame.unterminated
  rw [h]
  cases g.statement.error <;> rfl

/-! ## outlines -/

/-- a list of trees: the line that opened the block that they are in, and what they declare -/
structure Level where
  opening : Option (Statement × BlockKind)
  declared : List Directive

/-- the lists of trees that further statements may still go to, the innermost one first -/
def outline (b : Nesting) : List Level :=
  b.frames.map (fun f => ⟨some (f.statement, f.kind), declared f.children⟩) ++ [⟨none, declared b.top⟩]

/-- the outermost blocks, without the `n` innermost ones -/
def outer (n : Nat) (b : Nesting) : Nesting :=
  { b with frames := b.frames.drop n }

theorem outline_cons (f : Frame) (fs : List Frame) (top : List Node) :
    outline ⟨f :: fs, top⟩ = ⟨some (f.statement, f.kind), declared f.children⟩ :: outline ⟨fs, top⟩ := rfl

theorem map_declared_outline (b : Nesting) : b.outline.map Level.declared = b.containers.map declared := by
  simp only [outline, containers, List.map_append, List.map_map, List.map_cons, List.map_nil]
  rfl

theorem stack_eq_outline (b : Nesting) : b.stack = b.outline.filterMap fun l => l.opening.map Prod.snd := by
  rw [outline, List.filterMap_append, List.filterMap_map]
  show b.frames.map Frame.kind = b.frames.filterMap (fun f => some f.kind) ++ []
  rw [List.append_nil, List.filterMap_eq_map']

theorem outline_outer {n : Nat} {b : Nesting} (h : n ≤ b.frames.length) :
    (b.outer n).outline = b.outline.drop n := by
  rw [outline, outline, List.drop_append_of_le_length (by rwa [List.length_map]), ← List.map_drop]
  rfl

theorem length_frames_eq (b : Nesting) : b.frames.length + 1 = b.outline.length := by
  rw [outline, List.length_append, List.length_map]
  rfl

section
variable {b b' : Nesting} (h : b.outline = b'.outline)
include h

theorem stack_congr : b.stack = b'.stack := by
  rw [stack_eq_outline, h, stack_eq_outline]

theorem length_frames_congr : b.frames.length = b'.frames.length :=
  Nat.succ.inj (by rw [Nat.succ_eq_add_one, length_frames_eq, h, ← length_frames_eq])

theorem declared_innermost : declared b.innermost = declared b'.innermost := by
  have hc := congrArg (List.map Level.declared) h
  rw [map_declared_outline, map_declared_outline, containers_eq, containers_eq b'] at hc
  exact (List.cons.inj hc).1

theorem outline_mapInnermost {g g' : List Node → List Node}
    (hg : declared (g b.innermost) = declared (g' b'.innermost)) :
    (b.mapInnermost g).outline = (b'.mapInnermost g').outline := by
  obtain ⟨frames, top⟩ := b
  obtain ⟨frames', top'⟩ := b'
  have hlength := length_frames_congr h
  cases frames with
  | nil =>
    obtain rfl : frames' = [] := List.length_eq_zero_iff.mp hlength.symm
    show [Level.mk none (declared (g top))] = [⟨none, declared (g' top')⟩]
    rw [show declared (g top) = declared (g' top') from hg]
  | cons f fs =>
    obtain ⟨f', fs', rfl⟩ := List.exists_cons_of_length_eq_add_one hlength.symm
    rw [outline_cons, outline_cons] at h
    obtain ⟨hf, hfs⟩ := List.cons.inj h
    show outline ⟨{ f with children := g f.children } :: fs, top⟩ =
      outline ⟨{ f' with children := g' f'.children } :: fs', top'⟩
    rw [outline_cons, outline_cons, hfs]
    show Level.mk _ (declared (g f.children)) :: _ = Level.mk _ (declared (g' f'.children)) :: _
    rw [show declared (g f.children) = declared (g' f'.children) from hg, (Level.mk.inj hf).1]

theorem outline_add {n n' : Node} (hn : n.declares? = n'.declares?) : (b.add n).outline = (b'.add n').outline := by
  apply outline_mapInnermost h
  rw [declared_append, declared_append, declared_innermost h, declared_cons, declared_cons, hn]

theorem outline_unwindOne : b.unwindOne.outline = b'.unwindOne.outline := by
  obtain ⟨frames, top⟩ := b
  obtain ⟨frames', top'⟩ := b'
  have hlength := length_frames_congr h
  cases frames with
  | nil =>
    obtain rfl : frames' = [] := List.length_eq_zero_iff.mp hlength.symm
    exact h
  | cons f fs =>
    obtain ⟨f', fs', rfl⟩ := List.exists_cons_of_length_eq_add_one hlength.symm
    rw [outline_cons, outline_cons] at h
    obtain ⟨hf, hfs⟩ := List.cons.inj h
    have hopening := Option.some.inj (Level.mk.inj hf).1
    exact outline_add hfs (declares?_unterminated (Prod.mk.inj hopening).1)

end

theorem outline_unwind (n : Nat) {b b' : Nesting} (h : b.outline = b'.outline) :
    (b.unwind n).outline = (b'.unwind n).outline := by
  induction n generalizing b b' with
  | zero => exact h
  | succ n ih => exact ih (outline_unwindOne h)

theorem outline_metBy (s : Statement) {b b' : Nesting} (h : b.outline = b'.outline) :
    (b.metBy s).outline = (b'.metBy s).outline := by
  unfold metBy
  split
  · rw [unwindAll, unwindAll, length_frames_congr h]
    exact outline_unwind _ h
  · exact h

/-! ## ends of blocks -/

/-- the end `s` closes a block that has `m` open blocks inside it -/
def ClosesIn (s : Statement) (k : BlockKind) (m : Nat) (b : Nesting) : Prop :=
  ∃ f fs top, b.unwind m = ⟨f :: fs, top⟩ ∧ b.close s k = add (f.closedBy s) ⟨fs, top⟩

theorem closesIn_of_ne (s : Statement) {k : BlockKind} {b : Nesting}
    (h : (b.frames.takeWhile fun f => f.kind != k).length ≠ b.frames.length) :
    b.ClosesIn s k (b.frames.takeWhile fun f => f.kind != k).length := by
  obtain ⟨f, fs, hf, -⟩ := exists_frame_of_close h
  refine ⟨f, fs, (b.unwind (b.frames.takeWhile fun f => f.kind != k).length).top, by rw [← hf], ?_⟩
  simp only [close, if_neg h, hf]

/-- an end has nothing to close in two nestings of one outline, or it closes blocks at one depth -/
theorem close_cases (s : Statement) (k : BlockKind) {b b' : Nesting} (h : b.outline = b'.outline) :
    (b.close s k = b.addStray s k ∧ b'.close s k = b'.addStray s k) ∨
      ∃ m, b.ClosesIn s k m ∧ b'.ClosesIn s k m := by
  have hinside : (b.frames.takeWhile fun f => f.kind != k).length =
      (b'.frames.takeWhile fun f => f.kind != k).length := by
    rw [inside_eq, inside_eq, stack_congr h]
  have hlength := length_frames_congr h
  by_cases hlacks : (b.frames.takeWhile fun f => f.kind != k).length = b.frames.length
  · refine .inl ⟨?_, ?_⟩
    · simp only [close, if_pos hlacks]
    · rw [hinside, hlength] at hlacks
      simp only [close, if_pos hlacks]
  · refine .inr ⟨_, closesIn_of_ne s hlacks, ?_⟩
    rw [hinside, hlength] at hlacks
    rw [hinside]
    exact closesIn_of_ne s hlacks

theorem outline_close (s : Statement) (k : BlockKind) {b b' : Nesting} (h : b.outline = b'.outline) :
    (b.close s k).outline = (b'.close s k).outline := by
  rcases close_cases s k h with ⟨hb, hb'⟩ | ⟨m, ⟨f, fs, top, hu, hb⟩, f', fs', top', hu', hb'⟩
  · rw [hb, hb']
    exact outline_add h rfl
  · have hunwind := outline_unwind m h
    rw [hu, hu', outline_cons, outline_cons] at hunwind
    rw [hb, hb']
    exact outline_add (List.cons.inj hunwind).2 rfl

/-- where a declaration is found depends on what is declared only -/
theorem fst_declaration? (k : BlockKind) (cs : List (List Node)) :
    (declaration? (declares k) cs).map Prod.fst = (cs.map declared).findIdx? (declares k ∈ ·) := by
  induction cs with
  | nil => rfl
  | cons nodes cs ih =>
    have hfind := findLastIdx?_declared k nodes
    rw [declaration?, List.map_cons, List.findIdx?_cons, ← ih]
    cases h : findLastIdx? (isOpenDeclaration (declares k)) nodes with
    | some i =>
      rw [h] at hfind
      rw [if_pos (decide_eq_true hfind.1)]
      rfl
    | none =>
      rw [h] at hfind
      rw [if_neg (by simpa using hfind), Option.map_map, Option.map_map]
      rfl

/-- the declaration is found among the innermost trees, once the blocks inside are left out -/
theorem findLastIdx?_of_declaration? {d : Directive} {b : Nesting} {m i : Nat}
    (h : declaration? d b.containers = some (m, i)) :
    m ≤ b.frames.length ∧ findLastIdx? (isOpenDeclaration d) (b.outer m).innermost = some i := by
  obtain ⟨frames, top⟩ := b
  induction frames generalizing m with
  | nil =>
    cases hl : findLastIdx? (isOpenDeclaration d) top with
    | none => simp [containers, declaration?, hl] at h
    | some j =>
      obtain ⟨rfl, rfl⟩ : 0 = m ∧ j = i := by simpa [containers, declaration?, hl] using h
      exact ⟨Nat.le_refl _, hl⟩
  | cons f fs ih =>
    rw [containers, List.map_cons, List.cons_append, declaration?] at h
    cases hl : findLastIdx? (isOpenDeclaration d) f.children with
    | some j =>
      obtain ⟨rfl, rfl⟩ : 0 = m ∧ j = i := by simpa [hl] using h
      exact ⟨Nat.zero_le _, hl⟩
    | none =>
      rw [hl] at h
      obtain ⟨⟨n, j⟩, hn, he⟩ := Option.map_eq_some_iff.mp h
      obtain ⟨rfl, rfl⟩ : n + 1 = m ∧ j = i := by simpa using he
      obtain ⟨hle, hfind⟩ := ih hn
      exact ⟨Nat.succ_le_succ hle, hfind⟩

/-- ending blocks puts trees behind those of the block around them -/
theorem exists_unwind_eq (n : Nat) (b : Nesting) (hn : n ≤ b.frames.length) :
    ∃ extra, b.unwind n = (b.outer n).mapInnermost (· ++ extra) := by
  induction n generalizing b with
  | zero => exact ⟨[], by simp only [List.append_nil]; exact (mapInnermost_id b).symm⟩
  | succ n ih =>
    obtain ⟨frames, top⟩ := b
    cases frames with
    | nil => exact absurd hn (Nat.not_succ_le_zero n)
    | cons f fs =>
      have hlength : (unwindOne ⟨f :: fs, top⟩).frames.length = fs.length := by
        have hstack := congrArg List.length (stack_unwindOne ⟨f :: fs, top⟩)
        rwa [stack, List.length_map, stack, List.length_tail, List.length_map] at hstack
      obtain ⟨extra, he⟩ := ih (unwindOne ⟨f :: fs, top⟩) (by rw [hlength]; exact Nat.le_of_succ_le_succ hn)
      have hunwind : unwind (n + 1) ⟨f :: fs, top⟩ = _ := he
      rw [hunwind, unwindOne_cons]
      -- the tree of the innermost block is still to be seen only when no further block ends
      cases fs with
      | nil =>
        obtain rfl : n = 0 := Nat.le_zero.mp (Nat.le_of_succ_le_succ hn)
        exact ⟨[f.unterminated] ++ extra, by
          show (⟨[], top ++ [f.unterminated] ++ extra⟩ : Nesting) = ⟨[], top ++ ([f.unterminated] ++ extra)⟩
          rw [List.append_assoc]⟩
      | cons g fs =>
        cases n with
        | zero =>
          exact ⟨[f.unterminated] ++ extra, by
            show (⟨{ g with children := g.children ++ [f.unterminated] ++ extra } :: fs, top⟩ : Nesting) =
              ⟨{ g with children := g.children ++ ([f.unterminated] ++ extra) } :: fs, top⟩
            rw [List.append_assoc]⟩
        | succ n => exact ⟨extra, rfl⟩

/-- The end `s` closes a declaration that has `m` open blocks behind it.  The trees of these blocks, `extra`, come
behind the trees that the declaration is among. -/
def ClaimsIn (s : Statement) (k : BlockKind) (m : Nat) (b : Nesting) : Prop :=
  ∃ i extra, m ≤ b.frames.length ∧
    findLastIdx? (isOpenDeclaration (declares k)) (b.outer m).innermost = some i ∧
    b.unwind m = (b.outer m).mapInnermost (· ++ extra) ∧
    b.closeDeclaration s k = (b.outer m).mapInnermost fun nodes => claimAt k s i (nodes ++ extra)

theorem claimsIn_of_declaration? (s : Statement) {k : BlockKind} {b : Nesting} {m i : Nat}
    (h : declaration? (declares k) b.containers = some (m, i)) : b.ClaimsIn s k m := by
  obtain ⟨hle, hfind⟩ := findLastIdx?_of_declaration? h
  obtain ⟨extra, hunwind⟩ := exists_unwind_eq m b hle
  refine ⟨i, extra, hle, hfind, hunwind, ?_⟩
  rw [closeDeclaration, h]
  dsimp only
  rw [hunwind, mapInnermost_mapInnermost]

/-- an end finds no declaration in two nestings of one outline, or it finds declarations at one depth -/
theorem closeDeclaration_cases (s : Statement) (k : BlockKind) {b b' : Nesting} (h : b.outline = b'.outline) :
    (b.closeDeclaration s k = b.addStray s k ∧ b'.closeDeclaration s k = b'.addStray s k) ∨
      ∃ m, b.ClaimsIn s k m ∧ b'.ClaimsIn s k m := by
  have hfst : (declaration? (declares k) b.containers).map Prod.fst =
      (declaration? (declares k) b'.containers).map Prod.fst := by
    rw [fst_declaration?, fst_declaration?, ← map_declared_outline, ← map_declared_outline, h]
  cases hd : declaration? (declares k) b.containers with
  | none =>
    rw [hd, Option.map_none, eq_comm, Option.map_eq_none_iff] at hfst
    exact .inl ⟨by rw [closeDeclaration, hd], by rw [closeDeclaration, hfst]⟩
  | some p =>
    rw [hd, Option.map_some, eq_comm] at hfst
    obtain ⟨p', hd', hp⟩ := Option.map_eq_some_iff.mp hfst
    exact .inr ⟨p.1, claimsIn_of_declaration? s hd, hp ▸ claimsIn_of_declaration? s hd'⟩

theorem outline_closeDeclaration (s : Statement) (k : BlockKind) {b b' : Nesting} (h : b.outline = b'.outline) :
    (b.closeDeclaration s k).outline = (b'.closeDeclaration s k).outline := by
  rcases closeDeclaration_cases s k h with
    ⟨hb, hb'⟩ | ⟨m, ⟨i, extra, hle, hfind, -, hb⟩, i', extra', hle', hfind', -, hb'⟩
  · rw [hb, hb']
    exact outline_add h rfl
  · have houter : (b.outer m).outline = (b'.outer m).outline := by
      rw [outline_outer hle, outline_outer hle', h]
    have hnodes := findLastIdx?_declared k (b.outer m).innermost
    have hnodes' := findLastIdx?_declared k (b'.outer m).innermost
    rw [hfind] at hnodes
    rw [hfind'] at hnodes'
    rw [hb, hb']
    apply outline_mapInnermost houter
    -- the trees of the blocks that were ended are behind the declaration, which takes them along
    rw [declared_claimAt, declared_claimAt, List.take_append_of_le_length (Nat.le_of_lt hnodes.2.1),
      List.take_append_of_le_length (Nat.le_of_lt hnodes'.2.1), hnodes.2.2, hnodes'.2.2,
      declared_innermost houter]

/-! ## one statement -/

/-- **One step.**  Nestings of one outline have one outline after the same statement. -/
theorem outline_push (s : Statement) {b b' : Nesting} (h : b.outline = b'.outline) :
    (b.push s).outline = (b'.push s).outline := by
  have hmet := outline_metBy s h
  cases hc : s.closes with
  | some k =>
    rw [push_of_closes hc, push_of_closes hc]
    split
    · exact outline_closeDeclaration s k hmet
    · exact outline_close s k hmet
  | none =>
    cases ho : s.opens with
    | some k =>
      rw [push_of_opens hc ho, push_of_opens hc ho]
      exact congrArg (_ :: ·) hmet
    | none =>
      rw [push_of_neither hc ho, push_of_neither hc ho]
      exact outline_add hmet rfl

end Nesting

/-- The statement neither opens nor closes a block, nor does it declare a parameter or belong to the class
itself. -/
structure Statement.IsInert (s : Statement) : Prop where
  opens : s.opens = none
  closes : s.closes = none
  directive : ∀ d, s.directive? = some d → d.isTopLevel = false ∧ d ≠ .param

theorem Statement.isInert_iff (s : Statement) :
    s.IsInert ↔ s.opens = none ∧ s.closes = none ∧ ∀ d ∈ s.directive?, d.isTopLevel = false ∧ d ≠ .param :=
  ⟨fun h => ⟨h.opens, h.closes, h.directive⟩, fun ⟨ho, hc, hd⟩ => ⟨ho, hc, hd⟩⟩

instance (s : Statement) : Decidable s.IsInert :=
  decidable_of_iff _ s.isInert_iff.symm

theorem Statement.IsInert.declares?_leaf {s : Statement} (hs : s.IsInert) : (Node.leaf s).declares? = none := by
  show s.directive?.filter _ = none
  cases hd : s.directive? with
  | none => rfl
  | some d =>
    obtain ⟨htop, hparam⟩ := hs.directive d hd
    have hfield : d ≠ .field := by
      rintro rfl
      cases htop
    simp [hfield, hparam]

theorem Statement.IsInert.isTopLevel {s : Statement} (hs : s.IsInert) : s.isTopLevel = false := by
  rw [Statement.isTopLevel]
  cases hd : s.directive? with
  | none => rfl
  | some d => exact (hs.directive d hd).1

/-- an inert statement leaves the outline as it is -/
theorem Nesting.outline_push_of_isInert {s : Statement} (hs : s.IsInert) (b : Nesting) :
    (b.push s).outline = b.outline := by
  have hmet : b.metBy s = b := by
    rw [metBy, hs.isTopLevel]
    rfl
  rw [push_of_neither hs.closes hs.opens, hmet]
  calc (b.add (.leaf s)).outline = (b.mapInnermost fun nodes => nodes).outline := by
        apply outline_mapInnermost rfl
        rw [declared_append, declared_cons, hs.declares?_leaf]
        exact List.append_nil _
    _ = b.outline := by rw [mapInnermost_id]

/-! ## the run over the lines -/

section
variable (language : Language) {text text' : Text} {i : Nat}

theorem outline_nestingBefore_succ_of_inert
    (h : ∀ s, (lineStatements language text)[i]? = some s → s.IsInert) :
    (nestingBefore language text (i + 1)).outline = (nestingBefore language text i).outline := by
  cases hs : (lineStatements language text)[i]? with
  | none => rw [nestingBefore_succ_of_none language text hs]
  | some s =>
    rw [nestingBefore_succ language text hs]
    split
    · exact Nesting.outline_push_of_isInert (h s hs) _
    · rfl

/-- a line that is the same in both texts is read alike where the outlines are the same -/
theorem lineStatements_congr {j : Nat} (hline : (Text.lines text)[j]? = (Text.lines text')[j]?)
    (houtline : (nestingBefore language text j).outline = (nestingBefore language text' j).outline) :
    (lineStatements language text)[j]? = (lineStatements language text')[j]? := by
  rw [lineStatements_getElem?, lineStatements_getElem?, hline, Nesting.stack_congr houtline]

theorem outline_nestingBefore (hsame : ∀ j ≠ i, (Text.lines text)[j]? = (Text.lines text')[j]?)
    (h : ∀ s, (lineStatements language text)[i]? = some s → s.IsInert)
    (h' : ∀ s, (lineStatements language text')[i]? = some s → s.IsInert) (j : Nat) :
    (nestingBefore language text j).outline = (nestingBefore language text' j).outline := by
  induction j with
  | zero => rfl
  | succ j ih =>
    by_cases hj : j = i
    · subst hj
      rw [outline_nestingBefore_succ_of_inert language h, outline_nestingBefore_succ_of_inert language h', ih]
    · have hline := lineStatements_congr language (hsame j hj) ih
      cases hs : (lineStatements language text')[j]? with
      | none =>
        rw [nestingBefore_succ_of_none _ _ (hline.trans hs), nestingBefore_succ_of_none _ _ hs, ih]
      | some s =>
        rw [nestingBefore_succ _ _ (hline.trans hs), nestingBefore_succ _ _ hs]
        split
        · exact Nesting.outline_push s ih
        · exact ih

end

/-- **A line that opens, closes and declares nothing has no effect on other lines.**  When two texts differ in
such a line only, the same blocks are open before every line, and all other lines have the same statements. -/
theorem lineStatements_inert (language : Language) {text text' : Text} {i : Nat}
    (hsame : ∀ j ≠ i, (Text.lines text)[j]? = (Text.lines text')[j]?)
    (h : ∀ s, (lineStatements language text)[i]? = some s → s.IsInert)
    (h' : ∀ s, (lineStatements language text')[i]? = some s → s.IsInert) :
    (∀ j, (nestingBefore language text j).stack = (nestingBefore language text' j).stack) ∧
      ∀ j ≠ i, (lineStatements language text)[j]? = (lineStatements language text')[j]? := by
  have houtline := outline_nestingBefore language hsame h h'
  refine ⟨fun j => Nesting.stack_congr (houtline j), ?_⟩
  intro j hj
  exact lineStatements_congr language (hsame j hj) (houtline j)

/-- a field with its end, and an instruction between them, where none may stand -/
def fieldAround : Text :=
  ".field a:I\nnop\n.end field\n".toList

/-- the same field around a quote, which is no lexeme -/
def fieldAroundQuote : Text :=
  ".field a:I\n\"\n.end field\n".toList

/-- the end finds the field across either of the two lines -/
theorem lineStatements_fieldAround :
    (lineStatements (.builtin .standard) fieldAround)[1]?.map (fun s => (s.kind, s.error)) ≠
        (lineStatements (.builtin .standard) fieldAroundQuote)[1]?.map (fun s => (s.kind, s.error)) ∧
      (lineStatements (.builtin .standard) fieldAround)[2]? = (lineStatements (.builtin .standard) fieldAroundQuote)[2]? ∧
      (nestingBefore (.builtin .standard) fieldAround 3).stack = (nestingBefore (.builtin .standard) fieldAroundQuote 3).stack := by
  have hread : (lineStatements (.builtin .standard) fieldAround)[1]?.map (fun s => (s.kind, s.error)) ≠
        (lineStatements (.builtin .standard) fieldAroundQuote)[1]?.map (fun s => (s.kind, s.error)) ∧
      (∀ s ∈ (lineStatements (.builtin .standard) fieldAround)[1]?, s.IsInert) ∧
      ∀ s ∈ (lineStatements (.builtin .standard) fieldAroundQuote)[1]?, s.IsInert := by
    rw [Language.builtin, Catalog.builtin_eq_spelled]
    decide +kernel
  have hlines : Text.lines fieldAround = [".field a:I".toList, "nop".toList, ".end field".toList] ∧
      Text.lines fieldAroundQuote = [".field a:I".toList, "\"".toList, ".end field".toList] := by
    decide +kernel
  have hsame : ∀ j ≠ 1, (Text.lines fieldAround)[j]? = (Text.lines fieldAroundQuote)[j]? := by
    intro j hj
    rw [hlines.1, hlines.2]
    match j with
    | 0 => rfl
    | 1 => exact absurd rfl hj
    | j + 2 => rfl
  obtain ⟨hdiffer, h, h'⟩ := hread
  obtain ⟨hstack, hline⟩ := lineStatements_inert (.builtin .standard) hsame h h'
  exact ⟨hdiffer, hline 2 (by decide), hstack 3⟩

end Smali
