import Smali.Proofs.Document.Members
import Smali.Proofs.Line.Move

/-!
# What comes before a class member

A statement of the class itself ends all open blocks, so the lines from it on are nested as if they were a
text of their own.  Only the end of a declaration without its declaration could still reach back.

* `Node.move`, `Nesting.move`   trees and nestings with all their positions moved;
* `Nesting.push_move`           a moved statement does to a moved nesting what the statement does;
* `Nesting.after older b`       the nesting `b`, with older trees before the ones outside its blocks;
* `Nesting.push_after`          a push leaves the older trees alone, if the end of a declaration finds its
                                declaration without them;
* `parseLine_of_isTopLevel`     a line of the class itself is read alike inside all blocks;
* `parseDocument_append`        the document of two texts, the second of which starts with such a line.
-/

namespace Smali

section
variable (m : Move)

mutual

def Node.move : Node → Node
  | ⟨s, children, closing⟩ => ⟨s.move m, moveAll children, closing.map (Statement.move m)⟩

def Node.moveAll : List Node → List Node
  | [] => []
  | n :: ns => n.move :: moveAll ns

end

theorem Node.moveAll_eq (ns : List Node) : moveAll m ns = ns.map (Node.move m) := by
  induction ns with
  | nil => rfl
  | cons n ns ih => rw [moveAll, ih, List.map_cons]

theorem Node.move_mk (s : Statement) (children : List Node) (closing : Option Statement) :
    Node.move m ⟨s, children, closing⟩ =
      ⟨s.move m, children.map (Node.move m), closing.map (Statement.move m)⟩ := by
  rw [move, moveAll_eq]

theorem Node.statement_move (n : Node) : (n.move m).statement = n.statement.move m := by
  obtain ⟨s, children, closing⟩ := n
  rw [move_mk]

def Frame.move (f : Frame) : Frame :=
  ⟨f.statement.move m, f.kind, f.children.map (Node.move m)⟩

def Nesting.move (b : Nesting) : Nesting :=
  ⟨b.frames.map (Frame.move m), b.top.map (Node.move m)⟩

end

namespace Nesting

/-! ## a moved push -/

section
variable {m : Move}

theorem stack_move (b : Nesting) : (b.move m).stack = b.stack := by
  show (b.frames.map (Frame.move m)).map Frame.kind = b.frames.map Frame.kind
  rw [List.map_map]
  rfl

theorem length_frames_move (b : Nesting) : (b.move m).frames.length = b.frames.length :=
  List.length_map _

theorem mapInnermost_move {g g' : List Node → List Node} (b : Nesting)
    (h : g' (b.innermost.map (Node.move m)) = (g b.innermost).map (Node.move m)) :
    (b.move m).mapInnermost g' = (b.mapInnermost g).move m := by
  obtain ⟨frames, top⟩ := b
  cases frames with
  | nil =>
    show (⟨[], g' (top.map (Node.move m))⟩ : Nesting) = ⟨[], (g top).map (Node.move m)⟩
    rw [show g' (top.map (Node.move m)) = _ from h]
    rfl
  | cons f fs =>
    show (⟨{ f.move m with children := g' (f.children.map (Node.move m)) } :: _, _⟩ : Nesting) =
      ⟨Frame.move m { f with children := g f.children } :: _, _⟩
    rw [show g' (f.children.map (Node.move m)) = _ from h]
    rfl

theorem add_move (n : Node) (b : Nesting) : (b.move m).add (n.move m) = (b.add n).move m := by
  refine mapInnermost_move b ?_
  rw [List.map_append]
  rfl

theorem leaf_move (s : Statement) : (Node.leaf s).move m = .leaf (s.move m) := by
  rw [Node.leaf, Node.move_mk]
  rfl

theorem extent_move (f : Frame) : (f.move m).extent = f.extent.move m := by
  have hlast : (f.move m).children.getLast? = f.children.getLast?.map (Node.move m) := List.getLast?_map
  rw [Frame.extent, hlast, Frame.extent]
  cases f.children.getLast? with
  | none => rfl
  | some last =>
    show (f.statement.span.move m).cover (last.move m).statement.span = _
    rw [Node.statement_move]
    exact Span.cover_move _ _

theorem unterminated_move (f : Frame) : (f.move m).unterminated = f.unterminated.move m := by
  unfold Frame.unterminated
  rw [extent_move]
  have herror : (f.move m).statement.error = f.statement.error.map (Diagnostic.move m) := rfl
  dsimp only
  rw [herror]
  cases f.statement.error with
  | none =>
    rw [Node.move_mk]
    rfl
  | some e =>
    rw [Node.move_mk]
    rfl

theorem closedBy_move (f : Frame) (s : Statement) :
    (f.move m).closedBy (s.move m) = (f.closedBy s).move m := by
  unfold Frame.closedBy
  rw [Node.move_mk]
  show (⟨{ f.statement.move m with span := (f.statement.span.move m).cover (s.span.move m) }, _, _⟩ : Node)
    = _
  rw [Span.cover_move]
  rfl

theorem unwindOne_move (b : Nesting) : (b.move m).unwindOne = b.unwindOne.move m := by
  obtain ⟨frames, top⟩ := b
  cases frames with
  | nil => rfl
  | cons f fs =>
    show add (f.move m).unterminated (Nesting.move m ⟨fs, top⟩) = _
    rw [unterminated_move, add_move]
    rfl

theorem unwind_move (n : Nat) (b : Nesting) : (b.move m).unwind n = (b.unwind n).move m := by
  induction n generalizing b with
  | zero => rfl
  | succ n ih =>
    show (b.move m).unwindOne.unwind n = (b.unwindOne.unwind n).move m
    rw [unwindOne_move, ih]

theorem unwindAll_move (b : Nesting) : (b.move m).unwindAll = b.unwindAll.move m := by
  rw [unwindAll, length_frames_move, unwind_move]
  rfl

theorem addStray_move (s : Statement) (k : BlockKind) (b : Nesting) :
    (b.move m).addStray (s.move m) k = (b.addStray s k).move m := by
  rw [addStray, addStray, ← add_move, leaf_move]
  rfl

theorem close_move (s : Statement) (k : BlockKind) (b : Nesting) :
    (b.move m).close (s.move m) k = (b.close s k).move m := by
  have hinside : ((b.move m).frames.takeWhile fun f => f.kind != k).length =
      (b.frames.takeWhile fun f => f.kind != k).length := by
    rw [inside_eq, inside_eq, stack_move]
  unfold close
  simp only [hinside, length_frames_move, addStray_move, unwind_move]
  split
  · rfl
  · generalize b.unwind (b.frames.takeWhile fun f => f.kind != k).length = b'
    obtain ⟨frames, top⟩ := b'
    cases frames with
    | nil => rfl
    | cons f fs =>
      show add ((f.move m).closedBy (s.move m)) (Nesting.move m ⟨fs, top⟩) = _
      rw [closedBy_move, add_move]

theorem isOpenDeclaration_move (d : Directive) (n : Node) :
    isOpenDeclaration d (n.move m) = isOpenDeclaration d n := by
  obtain ⟨s, children, closing⟩ := n
  rw [Node.move_mk]
  cases closing <;> rfl

theorem findLastIdx?_move (d : Directive) (ns : List Node) :
    findLastIdx? (isOpenDeclaration d) (ns.map (Node.move m)) = findLastIdx? (isOpenDeclaration d) ns := by
  induction ns with
  | nil => rfl
  | cons n ns ih => rw [List.map_cons, findLastIdx?, findLastIdx?, ih, isOpenDeclaration_move]

theorem declaration?_move (d : Directive) (cs : List (List Node)) :
    declaration? d (cs.map (List.map (Node.move m))) = declaration? d cs := by
  induction cs with
  | nil => rfl
  | cons ns cs ih => rw [List.map_cons, declaration?, declaration?, ih, findLastIdx?_move]

theorem containers_move (b : Nesting) :
    (b.move m).containers = b.containers.map (List.map (Node.move m)) := by
  show (b.frames.map (Frame.move m)).map Frame.children ++ [b.top.map (Node.move m)] = _
  rw [containers, List.map_append, List.map_map, List.map_map]
  rfl

theorem claim_move (k : BlockKind) (s : Statement) (n : Node) (ns : List Node) :
    claim k (s.move m) (n.move m) (ns.map (Node.move m)) = (claim k s n ns).move m := by
  obtain ⟨head, children, closing⟩ := n
  unfold claim
  rw [Node.move_mk, Node.move_mk]
  show (⟨{ head.move m with opens := some k, span := (head.span.move m).cover (s.span.move m) }, _, _⟩ : Node)
    = _
  rw [Span.cover_move, List.map_append]
  rfl

theorem claimAt_move (k : BlockKind) (s : Statement) (i : Nat) (ns : List Node) :
    claimAt k (s.move m) i (ns.map (Node.move m)) = (claimAt k s i ns).map (Node.move m) := by
  unfold claimAt
  rw [← List.map_drop, ← List.map_take]
  cases ns.drop i with
  | nil => rfl
  | cons n after =>
    rw [List.map_append, List.map_singleton, ← claim_move]
    rfl

theorem closeDeclaration_move (s : Statement) (k : BlockKind) (b : Nesting) :
    (b.move m).closeDeclaration (s.move m) k = (b.closeDeclaration s k).move m := by
  unfold closeDeclaration
  rw [containers_move, declaration?_move]
  cases declaration? (declares k) b.containers with
  | none => exact addStray_move s k b
  | some p =>
    dsimp only
    rw [unwind_move]
    exact mapInnermost_move _ (claimAt_move k s p.2 _)

/-- **A moved statement does to a moved nesting what the statement does.** -/
theorem push_move (s : Statement) (b : Nesting) : (b.move m).push (s.move m) = (b.push s).move m := by
  have hb : (if (s.move m).isTopLevel then (b.move m).unwindAll else b.move m) =
      (if s.isTopLevel then b.unwindAll else b).move m := by
    rw [unwindAll_move]
    show (if s.isTopLevel then _ else _) = _
    split <;> rfl
  unfold push
  rw [hb]
  generalize (if s.isTopLevel then b.unwindAll else b) = b'
  rw [show (s.move m).closes = s.closes from rfl, show (s.move m).opens = s.opens from rfl]
  cases s.closes with
  | some k =>
    dsimp only
    rw [closeDeclaration_move, close_move]
    split <;> rfl
  | none =>
    cases s.opens with
    | some k => rfl
    | none =>
      dsimp only
      rw [← leaf_move, add_move]

end
/-! ## older trees -/

/-- the nesting with older trees before the ones outside its blocks -/
def after (older : List Node) (b : Nesting) : Nesting :=
  { b with top := older ++ b.top }

section
variable {older : List Node}

theorem mapInnermost_after {g g' : List Node → List Node} (b : Nesting)
    (hin : b.frames ≠ [] → g' = g) (htop : b.frames = [] → g' (older ++ b.top) = older ++ g b.top) :
    (b.after older).mapInnermost g' = (b.mapInnermost g).after older := by
  obtain ⟨frames, top⟩ := b
  cases frames with
  | nil =>
    show (⟨[], g' (older ++ top)⟩ : Nesting) = ⟨[], older ++ g top⟩
    rw [htop rfl]
  | cons f fs =>
    rw [hin (List.cons_ne_nil _ _)]
    rfl

theorem add_after (n : Node) (b : Nesting) : (b.after older).add n = (b.add n).after older :=
  mapInnermost_after b (fun _ => rfl) fun _ => List.append_assoc _ _ _

theorem unwindOne_after (b : Nesting) : (b.after older).unwindOne = b.unwindOne.after older := by
  obtain ⟨frames, top⟩ := b
  cases frames with
  | nil => rfl
  | cons f fs => exact add_after f.unterminated ⟨fs, top⟩

theorem unwind_after (n : Nat) (b : Nesting) : (b.after older).unwind n = (b.unwind n).after older := by
  induction n generalizing b with
  | zero => rfl
  | succ n ih =>
    show (b.after older).unwindOne.unwind n = (b.unwindOne.unwind n).after older
    rw [unwindOne_after, ih]

theorem unwindAll_after (b : Nesting) : (b.after older).unwindAll = b.unwindAll.after older :=
  unwind_after _ b

theorem addStray_after (s : Statement) (k : BlockKind) (b : Nesting) :
    (b.after older).addStray s k = (b.addStray s k).after older :=
  add_after _ b

theorem close_after (s : Statement) (k : BlockKind) (b : Nesting) :
    (b.after older).close s k = (b.close s k).after older := by
  have hframes : (b.after older).frames = b.frames := rfl
  unfold close
  simp only [hframes, addStray_after, unwind_after]
  split
  · rfl
  · generalize b.unwind (b.frames.takeWhile fun f => f.kind != k).length = b'
    obtain ⟨frames, top⟩ := b'
    cases frames with
    | nil => rfl
    | cons f fs => exact add_after (f.closedBy s) ⟨fs, top⟩

theorem findLastIdx?_append {p : Node → Bool} {ns : List Node} {i : Nat} (older : List Node)
    (h : findLastIdx? p ns = some i) : findLastIdx? p (older ++ ns) = some (older.length + i) := by
  induction older with
  | nil =>
    rw [List.nil_append, h, List.length_nil, Nat.zero_add]
  | cons n older ih =>
    rw [List.cons_append, findLastIdx?, ih, List.length_cons]
    show some (older.length + i + 1) = some (older.length + 1 + i)
    rw [Nat.add_right_comm]

/-- A declaration that is found without the older trees is found with them: the last list comes last, and
the last declaration in it counts. -/
theorem declaration?_older (older : List Node) {d : Directive} {inside i : Nat} (cs : List (List Node)) (top : List Node)
    (h : declaration? d (cs ++ [top]) = some (inside, i)) :
    (inside < cs.length ∧ declaration? d (cs ++ [older ++ top]) = some (inside, i)) ∨
      (inside = cs.length ∧ declaration? d (cs ++ [older ++ top]) = some (inside, older.length + i)) := by
  induction cs generalizing inside with
  | nil =>
    rw [List.nil_append, declaration?] at h
    cases hl : findLastIdx? (isOpenDeclaration d) top with
    | none =>
      rw [hl] at h
      cases h
    | some j =>
      rw [hl] at h
      cases h
      refine .inr ⟨rfl, ?_⟩
      rw [List.nil_append, declaration?, findLastIdx?_append older hl]
  | cons ns cs ih =>
    rw [List.cons_append, declaration?] at h
    rw [List.cons_append, declaration?]
    cases hl : findLastIdx? (isOpenDeclaration d) ns with
    | some j =>
      rw [hl] at h
      cases h
      exact .inl ⟨Nat.succ_pos _, rfl⟩
    | none =>
      rw [hl] at h
      obtain ⟨⟨n, j⟩, hn, he⟩ := Option.map_eq_some_iff.mp h
      cases he
      rcases ih hn with ⟨hlt, hd⟩ | ⟨rfl, hd⟩
      · exact .inl ⟨Nat.succ_lt_succ hlt, by rw [hd]; rfl⟩
      · exact .inr ⟨rfl, by rw [hd]; rfl⟩

theorem claimAt_older (k : BlockKind) (s : Statement) (i : Nat) (ns : List Node) :
    claimAt k s (older.length + i) (older ++ ns) = older ++ claimAt k s i ns := by
  have hdrop : (older ++ ns).drop (older.length + i) = ns.drop i := by
    rw [← List.drop_drop, List.drop_left]
  have htake : (older ++ ns).take (older.length + i) = older ++ ns.take i := by
    rw [List.take_append, List.take_of_length_le (Nat.le_add_right _ _), Nat.add_sub_cancel_left]
  unfold claimAt
  rw [hdrop, htake]
  cases ns.drop i with
  | nil => rfl
  | cons n after => exact List.append_assoc _ _ _

theorem closeDeclaration_after (s : Statement) (k : BlockKind) {b : Nesting}
    (h : (declaration? (declares k) b.containers).isSome) :
    (b.after older).closeDeclaration s k = (b.closeDeclaration s k).after older := by
  obtain ⟨⟨inside, i⟩, hd⟩ := Option.isSome_iff_exists.mp h
  have hlength : (b.frames.map Frame.children).length = b.stack.length := by
    rw [List.length_map, stack, List.length_map]
  have hstack := stack_unwind inside b
  unfold closeDeclaration
  rw [hd]
  rcases declaration?_older older _ _ hd with ⟨hlt, hold⟩ | ⟨heq, hold⟩
  · rw [show (b.after older).containers = b.frames.map Frame.children ++ [older ++ b.top] from rfl, hold]
    dsimp only
    rw [unwind_after]
    refine mapInnermost_after _ (fun _ => rfl) fun hnil => ?_
    -- the declaration is in an open block, so not all blocks are ended
    rw [(frames_eq_nil_iff _).mp hnil, eq_comm, List.drop_eq_nil_iff] at hstack
    omega
  · rw [show (b.after older).containers = b.frames.map Frame.children ++ [older ++ b.top] from rfl, hold]
    dsimp only
    rw [unwind_after]
    refine mapInnermost_after _ (fun hne => ?_) fun _ => claimAt_older k s i _
    rw [List.drop_eq_nil_of_le (by omega), ← frames_eq_nil_iff] at hstack
    exact absurd hstack hne

/-- **A push leaves the older trees alone**, if the end of a declaration finds its declaration without
them. -/
theorem push_after {s : Statement} {b : Nesting}
    (h : ∀ k, s.closes = some k → k.isOptional = true → s.isTopLevel = false ∧
      (declaration? (declares k) b.containers).isSome) :
    (b.after older).push s = (b.push s).after older := by
  have hb : (if s.isTopLevel then (b.after older).unwindAll else b.after older) =
      (if s.isTopLevel then b.unwindAll else b).after older := by
    rw [unwindAll_after]
    split <;> rfl
  unfold push
  rw [hb]
  cases hc : s.closes with
  | some k =>
    cases hk : k.isOptional with
    | true =>
      obtain ⟨ht, hd⟩ := h k hc hk
      simp only [ht, hk, if_true, Bool.false_eq_true, if_false]
      exact closeDeclaration_after s k hd
    | false =>
      simp only [hk, Bool.false_eq_true, if_false]
      exact close_after s k _
  | none =>
    cases s.opens with
    | some k => rfl
    | none => exact add_after _ _

end
end Nesting
/-! ## lines of the class itself -/

/-- whether a statement with the header belongs to the class itself -/
def Header.isTopLevel (h : Header) : Bool :=
  ((h.opcode.bind Entry.directive?).or (h.keyword.bind Directive.ofKeyword?)).any Directive.isTopLevel

namespace LineParser

theorem codeLine_not_isTopLevel (options : ParseOptions) (head : Token) :
    Yields (codeLine (.builtin options) head) start (fun h => h.isTopLevel = false) := by
  refine yields_codeLine _ rfl rfl fun entry he => ?_
  obtain ⟨hentry, hword⟩ := Catalog.ofKeyword?_of_instruction? he
  simp [Header.isTopLevel, hentry, hword]

theorem valueKeyword_not_isTopLevel {head : Token} (h : isValueKeyword head = true) :
    Yields (directive .builtin head) start (fun h => h.isTopLevel = false) := by
  have hword : Directive.ofKeyword? head.text = some .enumValue ∨
      Directive.ofKeyword? head.text = some .subannot := by
    rw [isValueKeyword, Bool.or_eq_true_iff, beq_iff_eq, beq_iff_eq] at h
    rcases h with h | h
    · rw [h]
      exact .inl rfl
    · rw [h]
      exact .inr rfl
  refine yields_directive rfl (fun d hd _ => ?_) fun he => ?_
  · rw [Header.isTopLevel, Catalog.builtin_directive? hd]
    rcases hword with hw | hw <;> (rw [hw] at hd; cases hd; rfl)
  · rcases hword with hw | hw <;> (rw [hw] at he; cases he)

/-- the blocks around a line count only for lines that are not of the class itself -/
theorem statement_eq_or_not_isTopLevel (options : ParseOptions) (stack : BlockStack) (head : Token) :
    statement (.builtin options) stack head = statement (.builtin options) [] head ∨
      Yields (statement (.builtin options) [] head) start (fun h => h.isTopLevel = false) := by
  have hnil : statement (.builtin options) [] head =
      if head.isDirective then directive .builtin head else codeLine (.builtin options) head := by
    unfold statement
    cases head.isDirective <;> rfl
  rw [hnil]
  by_cases hdir : head.isDirective = true
  · rw [if_pos hdir]
    by_cases hval : isValueKeyword head = true
    · exact .inr (valueKeyword_not_isTopLevel hval)
    · left
      rw [Bool.not_eq_true] at hval
      unfold statement
      rw [hdir, hval, Bool.and_false]
      rfl
  · rw [if_neg hdir]
    exact .inr (codeLine_not_isTopLevel options head)

end LineParser

/-- **A line of the class itself is read alike inside all blocks.** -/
theorem parseLine_of_isTopLevel {options : ParseOptions} {line : Text} {number : Nat}
    (h : (parseLine (.builtin options) [] line number).isTopLevel = true) (stack : BlockStack) :
    parseLine (.builtin options) stack line number = parseLine (.builtin options) [] line number := by
  unfold parseLine at h ⊢
  dsimp only at h ⊢
  split
  · rfl
  · rename_i head more hsig
    rw [hsig] at h
    dsimp only at h
    split
    · rfl
    · rename_i hbad
      rw [hbad] at h
      dsimp only at h
      rcases LineParser.statement_eq_or_not_isTopLevel options stack head with heq | hy
      · rw [heq]
      · exfalso
        generalize hd : Draft.start ⟨line, number, head :: more, _⟩ = d at h
        have hyd := hy d (by rw [← hd]; rfl)
        cases hr : LineParser.statement (.builtin options) [] head d with
        | ok a d' =>
          rw [hr] at h hyd
          exact absurd h (Bool.eq_false_iff.mp hyd)
        | error e d' =>
          rw [hr] at h hyd
          exact absurd h (Bool.eq_false_iff.mp hyd.1)

/-! ## two texts -/

namespace Text

theorem lines_ne_nil {t : Text} (h : t ≠ []) : lines t ≠ [] := by
  induction t with
  | nil => exact absurd rfl h
  | cons c r ih =>
    rw [lines]
    split
    · exact List.cons_ne_nil _ _
    · split
      · rename_i hcr
        refine ih ?_
        rintro rfl
        cases hcr.2
      · split <;> exact List.cons_ne_nil _ _

/-- the text is empty or ends with a line feed -/
def Complete (t : Text) : Prop :=
  t = [] ∨ t.getLast? = some '\n'

theorem lines_append {p : Text} (hp : p.Complete) (s : Text) : lines (p ++ s) = lines p ++ lines s := by
  induction p with
  | nil => rfl
  | cons c r ih =>
    by_cases hc : c = '\n'
    · have hr : Complete r := by
        cases r with
        | nil => exact .inl rfl
        | cons d r =>
          rcases hp with hp | hp
          · cases hp
          · rw [List.getLast?_cons_cons] at hp
            exact .inr hp
      rw [List.cons_append, lines, lines, if_pos hc, if_pos hc, ih hr, List.cons_append]
    · -- the line goes on, so there is more of the first text
      obtain ⟨hr, hne⟩ : Complete r ∧ r ≠ [] := by
        rcases hp with hp | hp
        · cases hp
        · cases r with
          | nil =>
            rw [List.getLast?_singleton] at hp
            exact absurd (Option.some.inj hp) hc
          | cons d r =>
            rw [List.getLast?_cons_cons] at hp
            exact ⟨.inr hp, List.cons_ne_nil _ _⟩
      have hhead : (r ++ s).head? = r.head? := List.head?_append_of_ne_nil _ hne
      rw [List.cons_append, lines, lines, if_neg hc, if_neg hc, hhead, ih hr]
      cases hl : lines r with
      | nil => exact absurd hl (lines_ne_nil hne)
      | cons l ls => split <;> rfl

end Text

/-- every end of a field or a parameter finds its declaration -/
def EndsDeclared (language : Language) (text : Text) : Prop :=
  ∀ i s, (lineStatements language text)[i]? = some s →
    ∀ k, s.closes = some k → k.isOptional = true →
      (Nesting.declaration? (Nesting.declares k) (nestingBefore language text i).containers).isSome

section
variable {options : ParseOptions} {before text : Text}

theorem getElem?_lines_append (hbefore : before.Complete) (text : Text) (k : Nat) :
    (Text.lines (before ++ text))[(Text.lines before).length + k]? = (Text.lines text)[k]? := by
  rw [Text.lines_append hbefore, List.getElem?_append_right (Nat.le_add_right _ _),
    Nat.add_sub_cancel_left]

theorem nestingBefore_append (language : Language) (hbefore : before.Complete) :
    nestingBefore language (before ++ text) (Text.lines before).length =
      nestingBefore language before (Text.lines before).length := by
  unfold nestingBefore numberedLines
  rw [Text.lines_append hbefore, List.zipIdx_append, ← List.length_zipIdx (l := Text.lines before) (i := 0),
    List.take_left, List.take_length]

theorem keeps_move (language : Language) (m : Move) (s : Statement) :
    language.keeps (s.move m) = language.keeps s := rfl

/-- what the ends of declarations need for the older trees to be left alone -/
theorem push_move_after {b : Nesting} {s : Statement} (hs : (Language.builtin options).IsLine s)
    (h : ∀ k, s.closes = some k → k.isOptional = true →
      (Nesting.declaration? (Nesting.declares k) b.containers).isSome) (m : Move) (older : List Node) :
    ((b.move m).after older).push (s.move m) = ((b.push s).move m).after older := by
  rw [Nesting.push_after, Nesting.push_move]
  intro k hc hk
  rw [Nesting.containers_move, Nesting.declaration?_move]
  exact ⟨hs.isTopLevel_eq_false hc, h k hc hk⟩

theorem push_of_isTopLevel {s : Statement} (hs : s.isTopLevel = true) (b : Nesting) :
    b.push s = b.unwindAll.push s := by
  unfold Nesting.push
  rw [hs, if_pos rfl, if_pos rfl, Nesting.unwindAll_of_frames_eq_nil (Nesting.frames_unwindAll b)]

theorem keeps_of_isTopLevel {language : Language} {s : Statement} (hs : language.IsLine s)
    (ht : s.isTopLevel = true) : language.keeps s = true := by
  cases hk : language.keeps s with
  | true => rfl
  | false =>
    obtain ⟨hw, ho, -, -⟩ := hs.of_kind_blank (kind_of_keeps_eq_false language hk)
    rw [Statement.isTopLevel, Statement.directive?_eq_none hw ho] at ht
    cases ht

section
variable {first : Text} (hbefore : before.Complete) (hfirst : (Text.lines text).head? = some first)
  (htop : (parseLine (.builtin options) [] first 0).isTopLevel = true)
include hbefore hfirst htop

/-- **The first line.**  It ends what the text before left open, as the end of that text does. -/
theorem nestingBefore_append_one :
    nestingBefore (.builtin options) (before ++ text) ((Text.lines before).length + 1) =
      ((nestingBefore (.builtin options) text 1).move (.down (Text.lines before).length)).after
        (parseDocument (.builtin options) before).nodes := by
  set n := (Text.lines before).length with hn
  set s := parseLine (.builtin options) [] first 0 with hs
  have hline : (Language.builtin options).IsLine s := ⟨_, _, _, rfl⟩
  rw [List.head?_eq_getElem?] at hfirst
  -- the line is read as the first one of its own text, only further down
  have hmoved : parseLine (.builtin options) [] first n = s.move (.down n) := by
    have h := parseLine_down (.builtin options) [] first 0 n
    rwa [Nat.zero_add] at h
  have hread : ∀ stack, parseLine (.builtin options) stack first n = s.move (.down n) := by
    intro stack
    rw [← hmoved]
    refine parseLine_of_isTopLevel ?_ stack
    rw [hmoved]
    exact htop
  have hstatement : (lineStatements (.builtin options) (before ++ text))[n]? = some (s.move (.down n)) := by
    have hl := getElem?_lines_append hbefore text 0
    rw [hfirst] at hl
    rw [lineStatements_getElem?, show (Text.lines (before ++ text))[n]? = some first from hl, Option.map_some,
      hread]
  have hstatement0 : (lineStatements (.builtin options) text)[0]? = some s := by
    rw [lineStatements_getElem?, hfirst]
    rfl
  have hkeeps : (Language.builtin options).keeps s = true := keeps_of_isTopLevel hline htop
  have hopen : (nestingBefore (.builtin options) before n).unwindAll =
      (Nesting.move (.down n) .empty).after (parseDocument (.builtin options) before).nodes := by
    have hframes := Nesting.frames_unwindAll (nestingBefore (.builtin options) before n)
    rw [parseDocument_eq_finish, Nesting.finish, ← hn]
    generalize (nestingBefore (.builtin options) before n).unwindAll = b at hframes
    obtain ⟨frames, top⟩ := b
    obtain rfl : frames = [] := hframes
    show _ = (⟨[], top ++ []⟩ : Nesting)
    rw [List.append_nil]
  rw [nestingBefore_succ _ _ hstatement, keeps_move, if_pos hkeeps, nestingBefore_succ _ _ hstatement0,
    if_pos hkeeps, nestingBefore_append _ hbefore,
    push_of_isTopLevel (s := s.move (.down n)) htop, hopen]
  refine push_move_after hline ?_ _ _
  intro k hc _
  have hnot := hline.isTopLevel_eq_false hc
  rw [htop] at hnot
  cases hnot

/-- **One more line.** -/
theorem nestingBefore_append_succ (hends : EndsDeclared (.builtin options) text) (k : Nat) :
    nestingBefore (.builtin options) (before ++ text) ((Text.lines before).length + (k + 1)) =
      ((nestingBefore (.builtin options) text (k + 1)).move (.down (Text.lines before).length)).after
        (parseDocument (.builtin options) before).nodes := by
  induction k with
  | zero => exact nestingBefore_append_one hbefore hfirst htop
  | succ k ih =>
    set n := (Text.lines before).length
    have hlines := getElem?_lines_append hbefore text (k + 1)
    have hstatements : (lineStatements (.builtin options) (before ++ text))[n + (k + 1)]? =
        (lineStatements (.builtin options) text)[k + 1]?.map (Statement.move (.down n)) := by
      rw [lineStatements_getElem?, hlines, ih, lineStatements_getElem?, Option.map_map]
      congr 1
      funext line
      show parseLine _ (Nesting.stack (Nesting.move _ _)) line (n + (k + 1)) = _
      rw [Nesting.stack_move, Nat.add_comm n, parseLine_down]
      rfl
    rw [← Nat.add_assoc]
    cases hs : (lineStatements (.builtin options) text)[k + 1]? with
    | none =>
      rw [hs, Option.map_none] at hstatements
      rw [nestingBefore_succ_of_none _ _ hstatements, nestingBefore_succ_of_none _ _ hs, ih]
    | some s =>
      rw [hs, Option.map_some] at hstatements
      rw [nestingBefore_succ _ _ hstatements, nestingBefore_succ _ _ hs, ih, keeps_move]
      split
      · exact push_move_after (isLine_of_mem_lineStatements _ _ (List.mem_of_getElem? hs))
          (hends (k + 1) s hs) _ _
      · rfl

end

/-- **Recovery at a class member.**  Before a text whose first line belongs to the class itself, and whose
ends of declarations find them in that text, any complete lines may stand: the document consists of their
trees and of the trees of the text, further down by the number of these lines. -/
theorem parseDocument_append (options : ParseOptions) {before text first : Text}
    (hbefore : before = [] ∨ before.getLast? = some '\n')
    (hfirst : (Text.lines text).head? = some first)
    (htop : (parseLine (.builtin options) [] first 0).isTopLevel = true)
    (hends : EndsDeclared (.builtin options) text) :
    (parseDocument (.builtin options) (before ++ text)).nodes =
      (parseDocument (.builtin options) before).nodes ++
        (parseDocument (.builtin options) text).nodes.map
          (Node.move (.down (Text.lines before).length)) := by
  obtain ⟨k, hk⟩ : ∃ k, (Text.lines text).length = k + 1 := by
    cases hl : Text.lines text with
    | nil =>
      rw [hl] at hfirst
      cases hfirst
    | cons l ls => exact ⟨ls.length, rfl⟩
  have hrun := nestingBefore_append_succ hbefore hfirst htop hends k
  rw [parseDocument_eq_finish _ (before ++ text), parseDocument_eq_finish _ text, Text.lines_append hbefore,
    List.length_append, hk, hrun]
  show (Nesting.unwindAll (Nesting.after _ (Nesting.move _ _))).top = _
  rw [Nesting.unwindAll_after, Nesting.unwindAll_move]
  rfl

end

/-! ## a field after a method without its end -/

/-- a method without its end, and a string without its end in it -/
def openMethod : Text :=
  ".method a\nconst-string v0, \"x\n".toList

def endedField : Text :=
  ".field a:I\n.end field\n".toList

theorem endedField_lines :
    ((numberedLines endedField).map Nesting.outside).map
        (fun s => (s.kind, s.keyword, s.opens, s.closes)) =
      [(.directive .field, some ".field".toList, none, none),
        (.directive .endBlock, some ".end".toList, none, some .field)] := by
  decide +kernel

/-- the first line declares the field, and the second one ends it -/
theorem exists_endedField :
    ∃ a b : Text, numberedLines endedField = [(a, 0), (b, 1)] ∧
      (Text.lines endedField).head? = some a ∧
      (Nesting.outside (a, 0)).directive? = some .field ∧ (Nesting.outside (b, 1)).closes = some .field ∧
      nestingBefore (.builtin .standard) endedField 1 = ⟨[], [.leaf (Nesting.outside (a, 0))]⟩ ∧
      (Nesting.outside (a, 0)).closes = none := by
  obtain ⟨a, b, hab, ha⟩ : ∃ a b, numberedLines endedField = [(a, 0), (b, 1)] ∧
      (Text.lines endedField).head? = some a := ⟨_, _, rfl, rfl⟩
  have h := endedField_lines
  rw [hab] at h
  simp only [List.map_cons, List.map_nil, List.cons.injEq, Prod.mk.injEq, and_true] at h
  obtain ⟨⟨k0, w0, o0, c0⟩, ⟨-, -, -, c1⟩⟩ := h
  refine ⟨a, b, hab, ha, Language.IsLine.directive?_of_keyword ⟨_, _, _, rfl⟩ w0 rfl, c1, ?_, c0⟩
  rw [nestingBefore, hab]
  exact Nesting.pushLine_field [] k0 o0 c0

theorem endsDeclared_endedField : EndsDeclared (.builtin .standard) endedField := by
  obtain ⟨a, b, hab, -, hd, c1, hone, c0⟩ := exists_endedField
  intro i s hs k hc _
  rw [lineStatements, hab] at hs
  rcases i with _ | _ | i
  · obtain rfl := Option.some.inj hs
    exact absurd (c0.symm.trans hc) (Option.some_ne_none _).symm
  · simp only [List.map_cons, List.getElem?_cons_succ, List.getElem?_cons_zero, hone] at hs
    obtain rfl := Option.some.inj hs
    obtain rfl := Option.some.inj (c1.symm.trans hc)
    have hopen : Nesting.isOpenDeclaration .field (.leaf (Nesting.outside (a, 0))) = true :=
      Nesting.isOpenDeclaration_iff.mpr ⟨rfl, hd⟩
    rw [hone]
    simp [Nesting.containers, Nesting.declaration?, Nesting.findLastIdx?, Nesting.declares, hopen]
  · cases hs

theorem parseDocument_append_endedField :
    (parseDocument (.builtin .standard) (openMethod ++ endedField)).nodes =
      (parseDocument (.builtin .standard) openMethod).nodes ++
        (parseDocument (.builtin .standard) endedField).nodes.map (Node.move (.down 2)) := by
  obtain ⟨a, b, -, ha, hd, -⟩ := exists_endedField
  have htop : (parseLine (.builtin .standard) [] a 0).isTopLevel = true := by
    have h : (parseLine (.builtin .standard) [] a 0).directive? = some .field := hd
    rw [Statement.isTopLevel, h]
    rfl
  exact parseDocument_append .standard (.inr rfl) ha htop endsDeclared_endedField

end Smali
