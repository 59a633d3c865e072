import Smali.Document.Nesting

/-!
# What a statement does to a nesting

`Nesting.push` has five outcomes, and before each of them some of the innermost blocks may be ended
without their closing lines.  Every property of documents is proved from these two facts.

* `Nesting.innermost`   the list of trees that the next statement goes to;
* `Nesting.Placed s b b'`  the outcomes: `s` opens a block, is a line of its own, is an end without a
                        block, closes the innermost block, or closes a declaration among the innermost
                        trees;
* `Nesting.push_placed`  `push` unwinds and then places;
* `Nesting.Kept Q I`    unwinding and placing keep the property `I` when the statements satisfy `Q`;
* `Nesting.Opened Q`    each frame has the statement that opened it, which satisfies `Q`;
* `Nesting.MembersOutside`  in an open block there is no statement of the class itself.
-/

namespace Smali
namespace Nesting

/-! ## the last element with a property -/

theorem findLastIdx?_eq_none_iff {α : Type} {p : α → Bool} {l : List α} :
    findLastIdx? p l = none ↔ ∀ a ∈ l, p a = false := by
  induction l with
  | nil => simp [findLastIdx?]
  | cons a l ih =>
    rw [List.forall_mem_cons, ← ih]
    cases hl : findLastIdx? p l with
    | some i => simp [findLastIdx?, hl]
    | none => simp [findLastIdx?, hl]

theorem findLastIdx?_append_cons {α : Type} (p : α → Bool) (before : List α) (a : α) (after : List α)
    (ha : p a = true) (h : ∀ x ∈ after, p x = false) :
    findLastIdx? p (before ++ a :: after) = some before.length := by
  have hnone : findLastIdx? p after = none := findLastIdx?_eq_none_iff.mpr h
  induction before with
  | nil => simp [findLastIdx?, hnone, ha]
  | cons x l ih => simp [findLastIdx?, ih]

theorem exists_of_findLastIdx? {α : Type} {p : α → Bool} {l : List α} {i : Nat}
    (h : findLastIdx? p l = some i) :
    ∃ before a after, l = before ++ a :: after ∧ before.length = i ∧ p a = true ∧ ∀ x ∈ after, p x = false := by
  induction l generalizing i with
  | nil => simp [findLastIdx?] at h
  | cons x l ih =>
    cases hl : findLastIdx? p l with
    | some j =>
      have hi : j + 1 = i := by simpa [findLastIdx?, hl] using h
      obtain ⟨before, a, after, rfl, hj, ha, hlast⟩ := ih hl
      exact ⟨x :: before, a, after, rfl, by rw [List.length_cons, hj, hi], ha, hlast⟩
    | none =>
      have hx : p x = true ∧ 0 = i := by simpa [findLastIdx?, hl] using h
      exact ⟨[], x, l, rfl, hx.2, hx.1, findLastIdx?_eq_none_iff.mp hl⟩

/-! ## the innermost trees -/

/-- the list of trees that the next statement goes to -/
def innermost (b : Nesting) : List Node :=
  match b.frames with
  | [] => b.top
  | f :: _ => f.children

theorem innermost_mapInnermost (g : List Node → List Node) (b : Nesting) :
    (b.mapInnermost g).innermost = g b.innermost := by
  obtain ⟨frames, top⟩ := b
  cases frames <;> rfl

theorem stack_mapInnermost (g : List Node → List Node) (b : Nesting) :
    (b.mapInnermost g).stack = b.stack := by
  obtain ⟨frames, top⟩ := b
  cases frames <;> rfl

theorem mapInnermost_mapInnermost (g h : List Node → List Node) (b : Nesting) :
    (b.mapInnermost h).mapInnermost g = b.mapInnermost fun nodes => g (h nodes) := by
  obtain ⟨frames, top⟩ := b
  cases frames <;> rfl

theorem mapInnermost_congr {g h : List Node → List Node} {b : Nesting}
    (e : g b.innermost = h b.innermost) : b.mapInnermost g = b.mapInnermost h := by
  obtain ⟨frames, top⟩ := b
  cases frames with
  | nil =>
    show (⟨[], g top⟩ : Nesting) = ⟨[], h top⟩
    rw [show g top = h top from e]
  | cons f fs =>
    show (⟨{ f with children := g f.children } :: fs, top⟩ : Nesting)
      = ⟨{ f with children := h f.children } :: fs, top⟩
    rw [show g f.children = h f.children from e]

theorem mapInnermost_id (b : Nesting) : b.mapInnermost (fun nodes => nodes) = b := by
  obtain ⟨frames, top⟩ := b
  cases frames <;> rfl

theorem containers_eq (b : Nesting) : b.containers = b.innermost :: b.containers.tail := by
  obtain ⟨frames, top⟩ := b
  cases frames <;> rfl

theorem containers_mapInnermost (g : List Node → List Node) (b : Nesting) :
    (b.mapInnermost g).containers = g b.innermost :: b.containers.tail := by
  obtain ⟨frames, top⟩ := b
  cases frames <;> rfl

/-! ## unwinding -/

theorem unwindOne_cons (f : Frame) (fs : List Frame) (top : List Node) :
    unwindOne ⟨f :: fs, top⟩ = add f.unterminated ⟨fs, top⟩ := rfl

theorem stack_unwindOne (b : Nesting) : b.unwindOne.stack = b.stack.tail := by
  obtain ⟨frames, top⟩ := b
  cases frames with
  | nil => rfl
  | cons f fs => exact stack_mapInnermost _ _

theorem stack_unwind (n : Nat) (b : Nesting) : (b.unwind n).stack = b.stack.drop n := by
  induction n generalizing b with
  | zero => rfl
  | succ n ih =>
    show (b.unwindOne.unwind n).stack = b.stack.drop (n + 1)
    rw [ih, stack_unwindOne, List.drop_tail]

theorem unwind_unwind (m n : Nat) (b : Nesting) : (b.unwind m).unwind n = b.unwind (m + n) := by
  induction m generalizing b with
  | zero => rw [Nat.zero_add]; rfl
  | succ m ih =>
    show (b.unwindOne.unwind m).unwind n = b.unwind (m + 1 + n)
    rw [ih, Nat.add_right_comm]
    rfl

theorem frames_eq_nil_iff (b : Nesting) : b.frames = [] ↔ b.stack = [] := by
  rw [stack, List.map_eq_nil_iff]

theorem frames_unwindAll (b : Nesting) : b.unwindAll.frames = [] := by
  rw [frames_eq_nil_iff, unwindAll, stack_unwind, stack, ← List.length_map Frame.kind, List.drop_length]

theorem unwindAll_of_frames_eq_nil {b : Nesting} (h : b.frames = []) : b.unwindAll = b := by
  rw [unwindAll, h]
  rfl

theorem unwind_keeps {I : Nesting → Prop} (h : ∀ b, I b → I b.unwindOne) (n : Nat) {b : Nesting}
    (hb : I b) : I (b.unwind n) := by
  induction n generalizing b with
  | zero => exact hb
  | succ n ih => exact ih (h b hb)

/-! ## what is found -/

/-- how many blocks an end of kind `k` leaves without their ends -/
theorem inside_eq (k : BlockKind) (b : Nesting) :
    (b.frames.takeWhile fun f => f.kind != k).length = (b.stack.takeWhile (· != k)).length := by
  rw [stack, List.takeWhile_map, List.length_map]
  rfl

theorem drop_length_takeWhile {α : Type} (p : α → Bool) (l : List α) :
    l.drop (l.takeWhile p).length = l.dropWhile p := by
  have h : (l.takeWhile p ++ l.dropWhile p).drop (l.takeWhile p).length = l.dropWhile p :=
    List.drop_left
  rwa [List.takeWhile_append_dropWhile] at h

/-- there is no block of kind `k` exactly when the search passes over all open blocks -/
theorem inside_eq_length_iff (k : BlockKind) (b : Nesting) :
    (b.frames.takeWhile fun f => f.kind != k).length = b.frames.length ↔
      b.stack.dropWhile (· != k) = [] := by
  have hlen : b.frames.length = b.stack.length := (List.length_map Frame.kind).symm
  rw [inside_eq, hlen, ← drop_length_takeWhile, List.drop_eq_nil_iff]
  have := (List.takeWhile_prefix (l := b.stack) (· != k)).length_le
  omega

/-- the innermost block of kind `k`, once the blocks inside it are ended -/
theorem exists_frame_of_close {k : BlockKind} {b : Nesting}
    (h : (b.frames.takeWhile fun f => f.kind != k).length ≠ b.frames.length) :
    ∃ f fs, (b.unwind (b.frames.takeWhile fun f => f.kind != k).length).frames = f :: fs ∧
      f.kind = k := by
  have hs := stack_unwind (b.frames.takeWhile fun f => f.kind != k).length b
  rw [Ne, inside_eq_length_iff] at h
  rw [inside_eq, drop_length_takeWhile, ← inside_eq] at hs
  have hx := List.head?_dropWhile_not (· != k) b.stack
  cases hd : b.stack.dropWhile (· != k) with
  | nil => exact absurd hd h
  | cons x rest =>
    rw [hd] at hx hs
    obtain ⟨f, fs, hf, hfx, -⟩ := List.map_eq_cons_iff.mp hs
    refine ⟨f, fs, hf, ?_⟩
    rw [hfx]
    simpa using hx

theorem exists_of_innermost {p : Node → Bool} {b : Nesting} {nodes extra : List Node} {i : Nat}
    (hb : b.innermost = nodes ++ extra) (h : findLastIdx? p nodes = some i) :
    ∃ before n after, b.innermost = before ++ n :: after ∧ before.length = i ∧ p n = true := by
  obtain ⟨before, n, after, rfl, hi, hn, -⟩ := exists_of_findLastIdx? h
  exact ⟨before, n, after ++ extra, by rw [hb, List.append_assoc]; rfl, hi, hn⟩

/-- The declaration that was found is still at its place once the blocks open inside are ended: their
trees come after it.  `extra` are the trees that the blocks ended so far have put there. -/
theorem exists_of_declaration? {d : Directive} {inside i : Nat} (outer : List (List Node)) :
    ∀ (b : Nesting) (nodes extra : List Node), b.containers = (nodes ++ extra) :: outer →
      declaration? d (nodes :: outer) = some (inside, i) →
      ∃ before n after, (b.unwind inside).innermost = before ++ n :: after ∧ before.length = i ∧
        isOpenDeclaration d n = true := by
  induction outer generalizing inside i with
  | nil =>
    intro b nodes extra hb hd
    rw [containers_eq, List.cons_eq_cons] at hb
    cases hl : findLastIdx? (isOpenDeclaration d) nodes with
    | none => simp [declaration?, hl] at hd
    | some j =>
      obtain ⟨rfl, rfl⟩ : 0 = inside ∧ j = i := by simpa [declaration?, hl] using hd
      exact exists_of_innermost hb.1 hl
  | cons nodes' outer ih =>
    intro b nodes extra hb hd
    cases hl : findLastIdx? (isOpenDeclaration d) nodes with
    | some j =>
      rw [containers_eq, List.cons_eq_cons] at hb
      obtain ⟨rfl, rfl⟩ : 0 = inside ∧ j = i := by simpa [declaration?, hl] using hd
      exact exists_of_innermost hb.1 hl
    | none =>
      rw [declaration?, hl] at hd
      obtain ⟨⟨m, j⟩, hm, he⟩ := Option.map_eq_some_iff.mp hd
      obtain ⟨rfl, rfl⟩ : m + 1 = inside ∧ j = i := by simpa using he
      obtain ⟨frames, top⟩ := b
      cases frames with
      | nil => simp [containers] at hb
      | cons f fs =>
        have ht : (⟨fs, top⟩ : Nesting).containers = nodes' :: outer := (List.cons.inj hb).2
        rw [containers_eq, List.cons_eq_cons] at ht
        have h1 : (unwindOne ⟨f :: fs, top⟩).containers = (nodes' ++ [f.unterminated]) :: outer := by
          rw [unwindOne_cons, add, containers_mapInnermost, ht.1, ht.2]
        exact ih (unwindOne ⟨f :: fs, top⟩) nodes' [f.unterminated] h1 hm

/-! ## the outcomes of a push -/

theorem isOpenDeclaration_iff {d : Directive} {n : Node} :
    isOpenDeclaration d n = true ↔ n.closing = none ∧ n.statement.directive? = some d := by
  rw [isOpenDeclaration, Bool.and_eq_true_iff, Option.isNone_iff_eq_none, beq_iff_eq]

/-- What becomes of a statement once the blocks that it ends are ended. -/
inductive Placed (s : Statement) (b : Nesting) : Nesting → Prop
  /-- the statement opens a block -/
  | opened (k : BlockKind) (hc : s.closes = none) (ho : s.opens = some k) :
      Placed s b { b with frames := ⟨s, k, []⟩ :: b.frames }
  /-- the statement is a line of its own -/
  | line (hc : s.closes = none) (ho : s.opens = none) : Placed s b (b.add (.leaf s))
  /-- the statement is an end, but there is nothing to close -/
  | stray (k : BlockKind) (hc : s.closes = some k) : Placed s b (b.addStray s k)
  /-- the statement closes the innermost block -/
  | closed (f : Frame) (fs : List Frame) (hb : b.frames = f :: fs) (hc : s.closes = some f.kind)
      (hk : f.kind.isOptional = false) : Placed s b (add (f.closedBy s) { b with frames := fs })
  /-- the statement closes a declaration among the innermost trees -/
  | claimed (k : BlockKind) (before : List Node) (n : Node) (after : List Node)
      (hc : s.closes = some k) (hk : k.isOptional = true) (hb : b.innermost = before ++ n :: after)
      (hn : isOpenDeclaration (declares k) n = true) :
      Placed s b (b.mapInnermost fun _ => before ++ [claim k s n after])

theorem close_placed {s : Statement} {k : BlockKind} (b : Nesting) (hc : s.closes = some k)
    (hk : k.isOptional = false) : ∃ n, Placed s (b.unwind n) (b.close s k) := by
  by_cases h : (b.frames.takeWhile fun f => f.kind != k).length = b.frames.length
  · refine ⟨0, ?_⟩
    simp only [close, if_pos h]
    exact .stray k hc
  · obtain ⟨f, fs, hf, rfl⟩ := exists_frame_of_close h
    refine ⟨(b.frames.takeWhile fun g => g.kind != f.kind).length, ?_⟩
    simp only [close, if_neg h, hf]
    exact .closed f fs hf hc hk

theorem claimAt_append_cons (k : BlockKind) (s : Statement) (before : List Node) (n : Node)
    (after : List Node) :
    claimAt k s before.length (before ++ n :: after) = before ++ [claim k s n after] := by
  rw [claimAt, List.drop_left, List.take_left]

/-- the end of a declaration that is found makes a block of it and of the trees after it -/
theorem exists_closeDeclaration {k : BlockKind} {b : Nesting} {inside i : Nat}
    (h : declaration? (declares k) b.containers = some (inside, i)) (s : Statement) :
    ∃ before n after, (b.unwind inside).innermost = before ++ n :: after ∧
      isOpenDeclaration (declares k) n = true ∧
      b.closeDeclaration s k = (b.unwind inside).mapInnermost fun _ => before ++ [claim k s n after] := by
  have hb : b.containers = (b.innermost ++ []) :: b.containers.tail := by
    rw [List.append_nil]
    exact containers_eq b
  rw [containers_eq] at h
  obtain ⟨before, n, after, hi, rfl, hn⟩ :=
    exists_of_declaration? b.containers.tail b b.innermost [] hb h
  rw [← containers_eq] at h
  refine ⟨before, n, after, hi, hn, ?_⟩
  simp only [closeDeclaration, h]
  apply mapInnermost_congr
  rw [hi, claimAt_append_cons]

theorem closeDeclaration_placed {s : Statement} {k : BlockKind} (b : Nesting)
    (hc : s.closes = some k) (hk : k.isOptional = true) :
    ∃ n, Placed s (b.unwind n) (b.closeDeclaration s k) := by
  cases h : declaration? (declares k) b.containers with
  | none =>
    refine ⟨0, ?_⟩
    simp only [closeDeclaration, h]
    exact .stray k hc
  | some p =>
    obtain ⟨before, n, after, hi, hn, hclose⟩ := exists_closeDeclaration h s
    refine ⟨p.1, ?_⟩
    rw [hclose]
    exact .claimed k before n after hc hk hi hn

/-- **A push ends some blocks and then places the statement.**  A statement of the class itself is placed
outside all blocks. -/
theorem push_placed (s : Statement) (b : Nesting) :
    ∃ n, Placed s (b.unwind n) (b.push s) ∧ (s.isTopLevel = true → (b.unwind n).frames = []) := by
  -- the blocks that the statement ends because it belongs to the class
  obtain ⟨m, hm, htop⟩ : ∃ m, (if s.isTopLevel then b.unwindAll else b) = b.unwind m ∧
      (s.isTopLevel = true → (b.unwind m).frames = []) := by
    by_cases ht : s.isTopLevel = true
    · exact ⟨b.frames.length, by rw [if_pos ht]; rfl, fun _ => frames_unwindAll b⟩
    · exact ⟨0, by rw [if_neg ht]; rfl, fun h => absurd h ht⟩
  have hlate : ∀ n, s.isTopLevel = true → (b.unwind (m + n)).frames = [] := by
    intro n ht
    have hs := (frames_eq_nil_iff _).mp (htop ht)
    rw [frames_eq_nil_iff, ← unwind_unwind, stack_unwind, hs, List.drop_nil]
  simp only [push, hm]
  cases hc : s.closes with
  | some k =>
    cases hk : k.isOptional with
    | true =>
      obtain ⟨n, h⟩ := closeDeclaration_placed (b.unwind m) hc hk
      rw [unwind_unwind] at h
      refine ⟨m + n, ?_, hlate n⟩
      show Placed s _ (if k.isOptional = true then _ else _)
      rwa [if_pos hk]
    | false =>
      obtain ⟨n, h⟩ := close_placed (b.unwind m) hc hk
      rw [unwind_unwind] at h
      refine ⟨m + n, ?_, hlate n⟩
      show Placed s _ (if k.isOptional = true then _ else _)
      rwa [if_neg (by rw [hk]; decide)]
  | none =>
    cases ho : s.opens with
    | some k => exact ⟨m, .opened k hc ho, htop⟩
    | none => exact ⟨m, .line hc ho, htop⟩

/-! ## what every push keeps -/

/-- `I` is kept when a block ends without its closing line, and when a statement with the property `Q` is
placed. -/
structure Kept (Q : Statement → Prop) (I : Nesting → Prop) : Prop where
  unwindOne : ∀ b, I b → I b.unwindOne
  placed : ∀ s b b', Q s → (s.isTopLevel = true → b.frames = []) → I b → Placed s b b' → I b'

namespace Kept

theorem unwind {Q : Statement → Prop} {I : Nesting → Prop} (h : Kept Q I) (n : Nat) {b : Nesting}
    (hb : I b) : I (b.unwind n) :=
  unwind_keeps h.unwindOne n hb

theorem push {Q : Statement → Prop} {I : Nesting → Prop} (h : Kept Q I) {s : Statement} (hs : Q s)
    {b : Nesting} (hb : I b) : I (b.push s) := by
  obtain ⟨n, hp, ht⟩ := push_placed s b
  exact h.placed s _ _ hs ht (h.unwind n hb) hp

end Kept

/-- each frame has the statement that opened it -/
def Opened (Q : Statement → Prop) (b : Nesting) : Prop :=
  ∀ f ∈ b.frames, Q f.statement ∧ f.statement.closes = none ∧ f.statement.opens = some f.kind

theorem opened_empty (Q : Statement → Prop) : Opened Q empty := by
  intro f hf
  cases hf

theorem opened_mapInnermost {Q : Statement → Prop} (g : List Node → List Node) {b : Nesting} :
    Opened Q (b.mapInnermost g) ↔ Opened Q b := by
  obtain ⟨frames, top⟩ := b
  cases frames with
  | nil => rfl
  | cons f fs =>
    show (∀ f' ∈ { f with children := g f.children } :: fs, _) ↔ ∀ f' ∈ f :: fs, _
    rw [List.forall_mem_cons, List.forall_mem_cons]

theorem kept_opened (Q : Statement → Prop) : Kept Q (Opened Q) where
  unwindOne := by
    intro b hb
    obtain ⟨frames, top⟩ := b
    cases frames with
    | nil => exact hb
    | cons f fs =>
      rw [unwindOne_cons, add, opened_mapInnermost]
      exact fun g hg => hb g (List.mem_cons_of_mem _ hg)
  placed := by
    intro s b b' hs _ hb hp
    cases hp with
    | opened k hc ho =>
      intro g hg
      rcases List.mem_cons.mp hg with rfl | hg
      · exact ⟨hs, hc, ho⟩
      · exact hb g hg
    | line hc ho => exact (opened_mapInnermost _).mpr hb
    | stray k hc => exact (opened_mapInnermost _).mpr hb
    | closed f fs hf hc hk =>
      rw [add, opened_mapInnermost]
      exact fun g hg => hb g (hf ▸ List.mem_cons_of_mem _ hg)
    | claimed k before n after hc hk hi hn => exact (opened_mapInnermost _).mpr hb

/-- In an open block there is no statement of the class itself, and only the outermost open block may be
opened by one. -/
def MembersOutside (b : Nesting) : Prop :=
  (∀ f ∈ b.frames, ∀ n ∈ f.children, n.statement.isTopLevel = false) ∧
    ∀ f ∈ b.frames.dropLast, f.statement.isTopLevel = false

theorem membersOutside_of_frames_eq_nil {b : Nesting} (h : b.frames = []) : b.MembersOutside := by
  rw [MembersOutside, h]
  exact ⟨List.forall_mem_nil _, List.forall_mem_nil _⟩

theorem membersOutside_mapInnermost {g : List Node → List Node} {b : Nesting} (hb : b.MembersOutside)
    (hg : b.frames ≠ [] → (∀ n ∈ b.innermost, n.statement.isTopLevel = false) →
      ∀ n ∈ g b.innermost, n.statement.isTopLevel = false) : (b.mapInnermost g).MembersOutside := by
  obtain ⟨frames, top⟩ := b
  cases frames with
  | nil => exact membersOutside_of_frames_eq_nil rfl
  | cons f fs =>
    obtain ⟨hf, hfs⟩ := List.forall_mem_cons.mp hb.1
    refine ⟨List.forall_mem_cons.mpr ⟨hg (List.cons_ne_nil _ _) hf, hfs⟩, ?_⟩
    cases fs with
    | nil => exact List.forall_mem_nil _
    | cons f' fs =>
      obtain ⟨hs, hss⟩ := List.forall_mem_cons.mp hb.2
      exact List.forall_mem_cons.mpr ⟨hs, hss⟩

theorem membersOutside_add {n : Node} {b : Nesting} (hb : b.MembersOutside)
    (hn : b.frames ≠ [] → n.statement.isTopLevel = false) : (b.add n).MembersOutside := by
  apply membersOutside_mapInnermost hb
  intro hne hin m hm
  rcases List.mem_append.mp hm with hm | hm
  · exact hin m hm
  · obtain rfl := List.mem_singleton.mp hm
    exact hn hne

theorem membersOutside_pop {f : Frame} {fs : List Frame} {top : List Node} {n : Node}
    (hb : MembersOutside ⟨f :: fs, top⟩) (hn : n.statement.isTopLevel = f.statement.isTopLevel) :
    (add n ⟨fs, top⟩).MembersOutside := by
  cases fs with
  | nil => exact membersOutside_of_frames_eq_nil rfl
  | cons f' fs =>
    obtain ⟨hs, hss⟩ := List.forall_mem_cons.mp hb.2
    apply membersOutside_add
    · exact ⟨(List.forall_mem_cons.mp hb.1).2, hss⟩
    · exact fun _ => hn.trans hs

theorem isTopLevel_unterminated (f : Frame) :
    f.unterminated.statement.isTopLevel = f.statement.isTopLevel := by
  unfold Frame.unterminated
  cases f.statement.error <;> rfl

theorem kept_membersOutside : Kept (fun _ => True) MembersOutside where
  unwindOne := by
    intro b hb
    obtain ⟨frames, top⟩ := b
    cases frames with
    | nil => exact hb
    | cons f fs =>
      rw [unwindOne_cons]
      exact membersOutside_pop hb (isTopLevel_unterminated f)
  placed := by
    intro s b b' _ htop hb hp
    -- a statement of the class itself is only placed when no block is open
    have hs : b.frames ≠ [] → s.isTopLevel = false := by
      intro hne
      cases ht : s.isTopLevel with
      | true => exact absurd (htop ht) hne
      | false => rfl
    cases hp with
    | opened k hc ho =>
      refine ⟨List.forall_mem_cons.mpr ⟨List.forall_mem_nil _, hb.1⟩, ?_⟩
      show ∀ f ∈ List.dropLast (⟨s, k, []⟩ :: b.frames), _
      cases hfs : b.frames with
      | nil => exact List.forall_mem_nil _
      | cons f fs =>
        rw [List.dropLast_cons_cons, List.forall_mem_cons, ← hfs]
        exact ⟨hs (by rw [hfs]; exact List.cons_ne_nil _ _), hb.2⟩
    | line hc ho => exact membersOutside_add hb hs
    | stray k hc => exact membersOutside_add hb hs
    | closed f fs hf hc hk =>
      obtain ⟨frames, top⟩ := b
      obtain rfl : frames = f :: fs := hf
      exact membersOutside_pop hb rfl
    | claimed k before n after hc hk hi hn =>
      apply membersOutside_mapInnermost hb
      intro _ hin m hm
      rw [hi] at hin
      rcases List.mem_append.mp hm with hm | hm
      · exact hin m (List.mem_append_left _ hm)
      · obtain rfl := List.mem_singleton.mp hm
        exact hin n (List.mem_append_right _ List.mem_cons_self)

end Nesting
end Smali
