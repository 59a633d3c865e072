import Smali.Proofs.Document.Order
import Smali.Proofs.Document.WellNested
import Smali.Proofs.Line.Builtin

/-!
# The place of class members

A statement of the class itself ends all open blocks, so it is placed outside them.  What can still put it
below another one is the end of a declaration, which takes all trees after the declaration along.

* `Node.beneath`           the statements below the one of a tree, its end included;
* `Node.Flat`            none of them belongs to the class itself;
* `Nesting.claims s b`   the trees that the end of a declaration puts below it;
* `Nesting.flat_push_iff`  one step: the trees stay flat exactly when no tree that is claimed has a
                         statement of the class itself;
* `parseDocument_members_iff`  the run: the statements of the class itself are all outside exactly when
                         no line claims one;
* `fieldInField`         a text where a line does.
-/

namespace Smali
namespace Node

/-- the statements below the one of the tree -/
def beneath (n : Node) : List Statement :=
  walkAll n.children ++ n.closing.toList

/-- no statement below the one of the tree belongs to the class itself -/
def Flat (n : Node) : Prop :=
  ∀ s ∈ n.beneath, s.isTopLevel = false

theorem mem_walkAll_iff {s : Statement} {ns : List Node} :
    s ∈ walkAll ns ↔ ∃ n ∈ ns, s = n.statement ∨ s ∈ n.beneath := by
  induction ns with
  | nil => simp [walkAll]
  | cons n ns ih =>
    have hw : n.walk = n.statement :: n.beneath := by
      obtain ⟨head, children, closing⟩ := n
      rw [walk_mk]
      rfl
    rw [walkAll, List.mem_append, ih, hw, List.mem_cons]
    simp only [List.mem_cons, exists_eq_or_imp]

theorem flat_iff {n : Node} :
    n.Flat ↔ (∀ m ∈ n.children, m.statement.isTopLevel = false ∧ m.Flat) ∧
      ∀ c, n.closing = some c → c.isTopLevel = false := by
  constructor
  · intro h
    refine ⟨fun m hm => ⟨?_, fun s hs => ?_⟩, fun c hc => ?_⟩
    · exact h _ (List.mem_append_left _ (mem_walkAll_iff.mpr ⟨m, hm, .inl rfl⟩))
    · exact h _ (List.mem_append_left _ (mem_walkAll_iff.mpr ⟨m, hm, .inr hs⟩))
    · exact h _ (List.mem_append_right _ (Option.mem_toList.mpr hc))
  · rintro ⟨hchildren, hclosing⟩ s hs
    rcases List.mem_append.mp hs with hs | hs
    · obtain ⟨m, hm, rfl | hs⟩ := mem_walkAll_iff.mp hs
      · exact (hchildren m hm).1
      · exact (hchildren m hm).2 s hs
    · exact hclosing s (Option.mem_toList.mp hs)

theorem flat_leaf (s : Statement) : (leaf s).Flat :=
  flat_iff.mpr ⟨List.forall_mem_nil _, fun _ h => by cases h⟩

end Node

namespace Nesting
open Node

/-- all trees of the nesting are flat -/
def Flat (b : Nesting) : Prop :=
  ∀ nodes ∈ b.containers, ∀ n ∈ nodes, n.Flat

theorem flat_mapInnermost_iff (g : List Node → List Node) (b : Nesting) :
    (b.mapInnermost g).Flat ↔
      (∀ n ∈ g b.innermost, n.Flat) ∧ ∀ nodes ∈ b.containers.tail, ∀ n ∈ nodes, n.Flat := by
  rw [Flat, containers_mapInnermost, List.forall_mem_cons]

theorem flat_iff_innermost (b : Nesting) :
    b.Flat ↔ (∀ n ∈ b.innermost, n.Flat) ∧ ∀ nodes ∈ b.containers.tail, ∀ n ∈ nodes, n.Flat := by
  rw [Flat, containers_eq, List.forall_mem_cons]
  rfl

theorem flat_add_iff (n : Node) (b : Nesting) : (b.add n).Flat ↔ b.Flat ∧ n.Flat := by
  rw [add, flat_mapInnermost_iff, flat_iff_innermost b, List.forall_mem_append]
  simp only [List.mem_singleton, forall_eq]
  exact and_right_comm

theorem flat_cons_iff (f : Frame) (fs : List Frame) (top : List Node) :
    Flat ⟨f :: fs, top⟩ ↔ (∀ n ∈ f.children, n.Flat) ∧ Flat ⟨fs, top⟩ :=
  List.forall_mem_cons

/-! ## ends of blocks -/

theorem flat_unterminated_iff {f : Frame} (hf : ∀ n ∈ f.children, n.statement.isTopLevel = false) :
    f.unterminated.Flat ↔ ∀ n ∈ f.children, n.Flat := by
  have hclosing : ∀ c, f.unterminated.closing = some c → c.isTopLevel = false := by
    intro c hc
    unfold Frame.unterminated at hc
    cases he : f.statement.error with
    | none => rw [he] at hc; cases hc
    | some e => rw [he] at hc; obtain rfl := Option.some.inj hc; rfl
  have hchildren : f.unterminated.children = f.children := by
    unfold Frame.unterminated
    cases f.statement.error <;> rfl
  rw [flat_iff, hchildren, and_iff_left hclosing]
  exact ⟨fun h n hn => (h n hn).2, fun h n hn => ⟨hf n hn, h n hn⟩⟩

theorem flat_unwindOne_iff {b : Nesting} (hb : b.MembersOutside) : b.unwindOne.Flat ↔ b.Flat := by
  obtain ⟨frames, top⟩ := b
  cases frames with
  | nil => rfl
  | cons f fs =>
    rw [unwindOne_cons, flat_add_iff, flat_cons_iff, flat_unterminated_iff (hb.1 f List.mem_cons_self)]
    exact and_comm

theorem flat_unwind_iff (n : Nat) {b : Nesting} (hb : b.MembersOutside) :
    (b.unwind n).Flat ↔ b.Flat := by
  induction n generalizing b with
  | zero => rfl
  | succ n ih =>
    show (b.unwindOne.unwind n).Flat ↔ b.Flat
    rw [ih (kept_membersOutside.unwindOne b hb), flat_unwindOne_iff hb]

theorem flat_closedBy_iff {f : Frame} {s : Statement}
    (hf : ∀ n ∈ f.children, n.statement.isTopLevel = false) (hs : s.isTopLevel = false) :
    (f.closedBy s).Flat ↔ ∀ n ∈ f.children, n.Flat := by
  have hclosing : ∀ c, (f.closedBy s).closing = some c → c.isTopLevel = false := by
    rintro c hc
    obtain rfl := Option.some.inj hc
    exact hs
  rw [flat_iff, and_iff_left hclosing]
  exact ⟨fun h n hn => (h n hn).2, fun h n hn => ⟨hf n hn, h n hn⟩⟩

theorem flat_claim_iff {k : BlockKind} {s : Statement} {n : Node} (after : List Node)
    (hn : n.closing = none) (hs : s.isTopLevel = false) :
    (claim k s n after).Flat ↔
      n.Flat ∧ (∀ m ∈ after, m.Flat) ∧ ∀ m ∈ after, m.statement.isTopLevel = false := by
  have hclosing : ∀ c, (claim k s n after).closing = some c → c.isTopLevel = false := by
    rintro c hc
    obtain rfl := Option.some.inj hc
    exact hs
  have hopen : ∀ c, n.closing = some c → c.isTopLevel = false := by
    intro c hc
    rw [hn] at hc
    cases hc
  rw [flat_iff, and_iff_left hclosing, @flat_iff n, and_iff_left hopen]
  show (∀ m ∈ n.children ++ after, _) ↔ _
  rw [List.forall_mem_append]
  refine and_congr_right fun _ => ⟨fun h => ?_, fun h m hm => ⟨h.2 m hm, h.1 m hm⟩⟩
  exact ⟨fun m hm => (h m hm).2, fun m hm => (h m hm).1⟩

/-! ## one step -/

/-- the trees that a statement puts below a declaration whose end it is -/
def claims (s : Statement) (b : Nesting) : List Node :=
  match s.closes with
  | some k =>
    if k.isOptional then
      match declaration? (declares k) b.containers with
      | some (inside, i) => (b.unwind inside).innermost.drop (i + 1)
      | none => []
    else []
  | none => []

theorem claims_of_closes_eq_none {s : Statement} (hc : s.closes = none) (b : Nesting) :
    b.claims s = [] := by
  rw [claims, hc]

theorem flat_closeDeclaration_iff {s : Statement} {k : BlockKind} {b : Nesting}
    (hb : b.MembersOutside) (hc : s.closes = some k) (hk : k.isOptional = true)
    (hs : s.isTopLevel = false) :
    (b.closeDeclaration s k).Flat ↔ b.Flat ∧ ∀ n ∈ b.claims s, n.statement.isTopLevel = false := by
  unfold closeDeclaration claims
  rw [hc]
  cases h : declaration? (declares k) b.containers with
  | none =>
    simp only [hk, if_true, h]
    rw [addStray, flat_add_iff, and_iff_left (flat_leaf _), and_iff_left (List.forall_mem_nil _)]
  | some p =>
    obtain ⟨inside, i⟩ := p
    have hcontainers : b.containers = (b.innermost ++ []) :: b.containers.tail := by
      rw [List.append_nil]
      exact containers_eq b
    have h' := h
    rw [containers_eq] at h'
    obtain ⟨before, n, after, hi, rfl, hn⟩ :=
      exists_of_declaration? b.containers.tail b b.innermost [] hcontainers h'
    have hdrop : (b.unwind inside).innermost.drop (before.length + 1) = after := by
      rw [hi, ← List.drop_drop, List.drop_left]
      rfl
    simp only [hk, if_true, h, hdrop]
    rw [flat_mapInnermost_iff, hi, claimAt_append_cons, ← flat_unwind_iff inside hb,
      flat_iff_innermost (b.unwind inside), hi]
    simp only [List.forall_mem_append, List.forall_mem_cons,
      flat_claim_iff after (isOpenDeclaration_iff.mp hn).1 hs]
    constructor
    · rintro ⟨⟨hbefore, ⟨hn, hafter, htop⟩, -⟩, htail⟩
      exact ⟨⟨⟨hbefore, hn, hafter⟩, htail⟩, htop⟩
    · rintro ⟨⟨⟨hbefore, hn, hafter⟩, htail⟩, htop⟩
      exact ⟨⟨hbefore, ⟨hn, hafter, htop⟩, List.forall_mem_nil _⟩, htail⟩

theorem flat_placed_iff {s : Statement} {b b' : Nesting} (hb : b.MembersOutside)
    (hs : ∀ k, s.closes = some k → k.isOptional = false ∧ s.isTopLevel = false) (hp : Placed s b b') :
    b'.Flat ↔ b.Flat := by
  cases hp with
  | opened k hc ho =>
    obtain ⟨frames, top⟩ := b
    rw [flat_cons_iff, and_iff_right (List.forall_mem_nil _)]
  | line hc ho => rw [flat_add_iff, and_iff_left (flat_leaf _)]
  | stray k hc => rw [addStray, flat_add_iff, and_iff_left (flat_leaf _)]
  | closed f fs hf hc hk =>
    obtain ⟨frames, top⟩ := b
    obtain rfl : frames = f :: fs := hf
    rw [flat_add_iff, flat_cons_iff, flat_closedBy_iff (hb.1 f List.mem_cons_self) (hs _ hc).2]
    exact and_comm
  | claimed k before n after hc hk hi hn =>
    have := (hs k hc).1
    rw [hk] at this
    cases this

/-- **One step.**  What was below a tree stays there, and only the end of a declaration adds to it. -/
theorem flat_push_iff {options : ParseOptions} {s : Statement} {b : Nesting}
    (hs : (Language.builtin options).IsLine s) (hb : b.MembersOutside) :
    (b.push s).Flat ↔ b.Flat ∧ ∀ n ∈ b.claims s, n.statement.isTopLevel = false := by
  by_cases h : ∃ k, s.closes = some k ∧ k.isOptional = true
  · obtain ⟨k, hc, hk⟩ := h
    have ht : s.isTopLevel = false := hs.isTopLevel_eq_false hc
    have hpush : b.push s = b.closeDeclaration s k := by
      simp only [push, ht, hc, hk, if_true, Bool.false_eq_true, if_false]
    rw [hpush]
    exact flat_closeDeclaration_iff hb hc hk ht
  · have hs' : ∀ k, s.closes = some k → k.isOptional = false ∧ s.isTopLevel = false := by
      intro k hc
      refine ⟨?_, hs.isTopLevel_eq_false hc⟩
      cases hk : k.isOptional with
      | false => rfl
      | true => exact absurd ⟨k, hc, hk⟩ h
    have hclaims : b.claims s = [] := by
      unfold claims
      split
      · rename_i k hc
        rw [(hs' k hc).1]
        rfl
      · rfl
    obtain ⟨n, hp, -⟩ := push_placed s b
    rw [flat_placed_iff (kept_membersOutside.unwind n hb) hs' hp, flat_unwind_iff n hb, hclaims,
      and_iff_left (List.forall_mem_nil _)]

end Nesting

/-! ## the run over the lines -/

section
variable (options : ParseOptions) (text : Text)

theorem flat_nestingBefore_iff (k : Nat) :
    (nestingBefore (.builtin options) text k).Flat ↔
      ∀ i < k, ∀ s, (lineStatements (.builtin options) text)[i]? = some s →
        ∀ n ∈ (nestingBefore (.builtin options) text i).claims s, n.statement.isTopLevel = false := by
  induction k with
  | zero =>
    refine iff_of_true ?_ fun i hi => absurd hi (Nat.not_lt_zero i)
    rw [nestingBefore_zero]
    exact List.forall_mem_singleton.mpr (List.forall_mem_nil _)
  | succ k ih =>
    have hsplit : ∀ P : Nat → Prop, (∀ i < k + 1, P i) ↔ (∀ i < k, P i) ∧ P k := by
      intro P
      refine ⟨fun h => ⟨fun i hi => h i (Nat.lt_succ_of_lt hi), h k (Nat.lt_succ_self k)⟩, ?_⟩
      rintro ⟨h, hk⟩ i hi
      rcases Nat.lt_succ_iff_lt_or_eq.mp hi with hi | rfl
      · exact h i hi
      · exact hk
    have hb : (nestingBefore (.builtin options) text k).MembersOutside :=
      nestingBefore_keeps _ text Nesting.kept_membersOutside
        (Nesting.membersOutside_of_frames_eq_nil rfl) (fun _ _ => trivial) k
    rw [hsplit, ← ih]
    cases hs : (lineStatements (.builtin options) text)[k]? with
    | none =>
      rw [nestingBefore_succ_of_none _ _ hs, and_iff_left]
      intro s hs
      cases hs
    | some s =>
      have hline := isLine_of_mem_lineStatements _ _ (List.mem_of_getElem? hs)
      rw [nestingBefore_succ _ _ hs]
      simp only [Option.some.injEq, forall_eq']
      cases hk : (Language.builtin options).keeps s with
      | true => exact Nesting.flat_push_iff hline hb
      | false =>
        -- a line that is left out is blank, so it ends nothing
        have hc := (hline.of_kind_blank (kind_of_keeps_eq_false _ hk)).2.2.2
        rw [if_neg Bool.false_ne_true, Nesting.claims_of_closes_eq_none hc,
          and_iff_left (List.forall_mem_nil _)]

theorem flat_finish_iff {b : Nesting} (hb : b.MembersOutside) :
    (∀ n ∈ b.finish.nodes, n.Flat) ↔ b.Flat := by
  have h := Nesting.flat_unwind_iff b.frames.length hb
  have hframes := Nesting.frames_unwindAll b
  rw [← h]
  show (∀ n ∈ b.unwindAll.top, n.Flat) ↔ b.unwindAll.Flat
  rw [Nesting.Flat, Nesting.containers, hframes]
  exact (List.forall_mem_singleton (p := fun nodes => ∀ n ∈ nodes, Node.Flat n)).symm

/-- **When class members are outside all blocks.**  No statement below a tree of the document belongs to the
class itself exactly when no line is the end of a declaration that such a statement follows. -/
theorem parseDocument_members_iff :
    (∀ n ∈ (parseDocument (.builtin options) text).nodes, ∀ s ∈ n.beneath, s.isTopLevel = false) ↔
      ∀ i s, (lineStatements (.builtin options) text)[i]? = some s →
        ∀ n ∈ (nestingBefore (.builtin options) text i).claims s, n.statement.isTopLevel = false := by
  have hb : (nestingBefore (.builtin options) text (Text.lines text).length).MembersOutside :=
    nestingBefore_keeps _ text Nesting.kept_membersOutside
      (Nesting.membersOutside_of_frames_eq_nil rfl) (fun _ _ => trivial) _
  have hflat := flat_finish_iff hb
  rw [flat_nestingBefore_iff] at hflat
  rw [parseDocument_eq_finish]
  refine hflat.trans ⟨fun h i s hs => ?_, fun h i _ => h i⟩
  have hi : i < (lineStatements (.builtin options) text).length := by
    by_contra hi
    rw [List.getElem?_eq_none (Nat.le_of_not_lt hi)] at hs
    cases hs
  rw [length_lineStatements] at hi
  exact h i hi s hs

end

/-! ## a field in a field -/

namespace Nesting

/-- a line that is read outside all blocks -/
def outside (line : Text × Nat) : Statement :=
  parseLine (.builtin .standard) [] line.1 line.2

theorem pushLine_outside {line : Text × Nat} {d : Directive} (top : List Node)
    (hk : (outside line).kind = .directive d) :
    pushLine (.builtin .standard) ⟨[], top⟩ line = push (outside line) ⟨[], top⟩ := by
  have hkeeps : (Language.builtin .standard).keeps (outside line) = true := by
    rw [Language.keeps, hk]
    rfl
  exact if_pos hkeeps

theorem pushLine_field {line : Text × Nat} {d : Directive} (top : List Node)
    (hk : (outside line).kind = .directive d) (ho : (outside line).opens = none)
    (hc : (outside line).closes = none) :
    pushLine (.builtin .standard) ⟨[], top⟩ line = ⟨[], top ++ [.leaf (outside line)]⟩ := by
  rw [pushLine_outside top hk, push_line (fun _ => rfl) ho hc]
  rfl

/-- the end of a field takes the last field without an end, and all trees after it -/
theorem pushLine_fieldEnd {line : Text × Nat} {d : Directive} {field : Statement}
    (before after : List Node) (hk : (outside line).kind = .directive d)
    (hc : (outside line).closes = some .field) (hf : field.directive? = some .field)
    (hafter : ∀ n ∈ after, n.closing.isSome) :
    pushLine (.builtin .standard) ⟨[], before ++ .leaf field :: after⟩ line =
      ⟨[], before ++ [claim .field (outside line) (.leaf field) after]⟩ := by
  have hline : (Language.builtin .standard).IsLine (outside line) := ⟨_, _, _, rfl⟩
  rw [pushLine_outside _ hk]
  refine push_declaration_end (hline.isTopLevel_eq_false hc) hc (.inl ⟨rfl, rfl⟩) hf rfl ?_
  rintro n hn ⟨hclosing, -⟩
  have := hafter n hn
  rw [hclosing] at this
  cases this

end Nesting

/-- two fields, and then two ends of fields: the second one is taken for the end of the first field -/
def fieldInField : Text :=
  ".field a:I\n.field b:I\n.end field\n.end field\n".toList

/-- what the four lines are; the entries of the catalog are not looked at -/
theorem fieldInField_lines :
    ((numberedLines fieldInField).map Nesting.outside).map
        (fun s => (s.kind, s.keyword, s.opens, s.closes)) =
      [(.directive .field, some ".field".toList, none, none),
        (.directive .field, some ".field".toList, none, none),
        (.directive .endBlock, some ".end".toList, none, some .field),
        (.directive .endBlock, some ".end".toList, none, some .field)] := by
  decide +kernel

/-- the second field is a child of the first one -/
theorem fieldInField_beneath :
    ¬∀ n ∈ (parseDocument (.builtin .standard) fieldInField).nodes, ∀ s ∈ n.beneath,
      s.isTopLevel = false := by
  have hlines := fieldInField_lines
  have hdoc : parseDocument (.builtin .standard) fieldInField =
    ((numberedLines fieldInField).foldl (Nesting.pushLine (.builtin .standard)) ⟨[], []⟩).finish := rfl
  obtain ⟨a, b, c, d, h⟩ : ∃ a b c d, numberedLines fieldInField = [a, b, c, d] := ⟨_, _, _, _, rfl⟩
  rw [h] at hlines hdoc
  simp only [List.map_cons, List.map_nil, List.cons.injEq, Prod.mk.injEq, and_true] at hlines
  obtain ⟨⟨ka, wa, oa, ca⟩, ⟨kb, wb, ob, cb⟩, ⟨kc, wc, oc, cc⟩, ⟨kd, wd, od, cd⟩⟩ := hlines
  have field : ∀ line, (Nesting.outside line).keyword = some ".field".toList →
      (Nesting.outside line).directive? = some .field := by
    intro line hw
    exact Language.IsLine.directive?_of_keyword ⟨_, _, _, rfl⟩ hw rfl
  have hrun : parseDocument (.builtin .standard) fieldInField =
      ⟨[Nesting.claim .field (Nesting.outside d) (.leaf (Nesting.outside a))
        [Nesting.claim .field (Nesting.outside c) (.leaf (Nesting.outside b)) []]]⟩ := by
    have hc := Nesting.pushLine_fieldEnd [.leaf (Nesting.outside a)] [] kc cc (field b wb)
      (List.forall_mem_nil _)
    have hd := Nesting.pushLine_fieldEnd []
      [Nesting.claim .field (Nesting.outside c) (.leaf (Nesting.outside b)) []] kd cd (field a wa)
      (List.forall_mem_singleton.mpr rfl)
    rw [List.nil_append, List.nil_append] at hd
    rw [hdoc, List.foldl_cons, Nesting.pushLine_field [] ka oa ca, List.foldl_cons,
      Nesting.pushLine_field _ kb ob cb, List.foldl_cons, List.nil_append, hc, List.foldl_cons,
      List.singleton_append, hd, List.foldl_nil]
    rfl
  intro hall
  rw [hrun] at hall
  have htop : (Nesting.outside b).isTopLevel = false := by
    refine hall _ List.mem_cons_self { Nesting.outside b with
      opens := some .field
      span := (Nesting.outside b).span.cover (Nesting.outside c).span } ?_
    refine List.mem_append_left _ (Node.mem_walkAll_iff.mpr ⟨_, List.mem_cons_self, .inl rfl⟩)
  rw [Statement.isTopLevel, field b wb] at htop
  cases htop

end Smali
