import Smali.Proofs.Document.Order
import Smali.Proofs.Document.Trees
import Smali.Proofs.Line.Builtin

/-!
# The ends of blocks

Every block of a document is closed by a line of its kind, or it has one diagnostic that says that its end
is missing.

* `Node.missingEnds`      the diagnostics at a tree that say so;
* `Node.ClosedIn lines k` a line closes the block, and nothing is said to be missing;
* `Node.EndMissing l k`   no line closes the block that the line `l` opens, and that is said once, at the
                          opening line or, when that has a diagnostic of its own, at an end that stands for
                          the missing one;
* `parseDocument_blocks`  each block of a document is one or the other, and only blocks have children and
                          ends.
-/

namespace Smali

/-- the end that stands for the missing one of a block of kind `k` -/
def missingEnd (k : BlockKind) (opening : Span) : Statement :=
  { Statement.bare .error [] opening with error := some ⟨.unterminated k, opening, none⟩ }

namespace Node

/-- the diagnostics at a tree that its end is missing -/
def missingEnds (n : Node) : List Diagnostic :=
  (n.statement.error.toList ++ (n.closing.bind Statement.error).toList).filter fun e =>
    e.category == .unterminated

/-- one of the lines closes the block of kind `k`, and nothing is said to be missing -/
def ClosedIn (lines : List Statement) (k : BlockKind) (n : Node) : Prop :=
  (∃ s ∈ lines, n.closing = some s ∧ s.closes = some k) ∧ n.missingEnds = []

/-- The line `l` opens a block of kind `k` that no line closes, and one diagnostic says so, whose span is
that of `l`. -/
structure EndMissing (l : Statement) (k : BlockKind) (n : Node) : Prop where
  content : n.statement.content = l.content
  opens : l.opens = some k
  missing : n.missingEnds = [⟨.unterminated k, l.span, none⟩]
  place : (l.error = none ∧ n.statement.error = some ⟨.unterminated k, l.span, none⟩ ∧ n.closing = none) ∨
    ∃ e, l.error = some e ∧ n.statement.error = some e ∧ n.closing = some (missingEnd k l.span)

/-- a block is closed or its end is missing, and a line that is no block has nothing below it -/
def Accounted (lines : List Statement) (n : Node) : Prop :=
  match n.statement.opens with
  | some k => ClosedIn lines k n ∨ ∃ l ∈ lines, EndMissing l k n
  | none => n.children = [] ∧ n.closing = none ∧ n.missingEnds = []

theorem isLocal_of_missingEnds {n : Node} (h : n.missingEnds = []) {e : Diagnostic}
    (he : n.statement.error = some e) : e.IsLocal := by
  rw [missingEnds, List.filter_eq_nil_iff] at h
  have := h e (List.mem_append_left _ (Option.mem_toList.mpr he))
  rwa [beq_iff_eq] at this

theorem missingEnds_eq_nil {n : Node} (hs : ∀ e, n.statement.error = some e → e.IsLocal)
    (hc : ∀ c e, n.closing = some c → c.error = some e → e.IsLocal) : n.missingEnds = [] := by
  rw [missingEnds, List.filter_eq_nil_iff]
  intro e he
  have hl : e.IsLocal := by
    rcases List.mem_append.mp he with he | he
    · exact hs e (Option.mem_toList.mp he)
    · obtain ⟨c, hc', hce⟩ := Option.bind_eq_some_iff.mp (Option.mem_toList.mp he)
      exact hc c e hc' hce
  rw [beq_iff_eq]
  exact hl

end Node

section
variable {options : ParseOptions} {lines : List Statement}
  (hlines : ∀ s ∈ lines, (Language.builtin options).IsLine s)
include hlines

theorem endMissing_unterminated {f : Frame} (hf : f.statement ∈ lines)
    (ho : f.statement.opens = some f.kind) :
    Node.EndMissing f.statement f.kind f.unterminated := by
  unfold Frame.unterminated
  cases he : f.statement.error with
  | none => exact ⟨rfl, ho, rfl, .inl ⟨he, rfl, rfl⟩⟩
  | some e =>
    have hl : (e.category == .unterminated) = false := by
      rw [beq_eq_false_iff_ne]
      exact (hlines _ hf).isLocal he
    refine ⟨rfl, ho, ?_, .inr ⟨e, he, he, rfl⟩⟩
    show List.filter _ (f.statement.error.toList ++ _) = _
    rw [he]
    show List.filter _ [e, _] = _
    rw [List.filter_cons_of_neg (by rw [hl]; exact nofun)]
    rfl

/-- a declaration without an end is no block yet, so nothing is said to be missing -/
theorem Node.Accounted.missingEnds_of_declaration {n : Node} (hn : n.Accounted lines) {k : BlockKind}
    (hk : k.isOptional = true) (hc : n.closing = none)
    (hd : n.statement.directive? = some (Nesting.declares k)) : n.missingEnds = [] := by
  unfold Accounted at hn
  split at hn
  · exfalso
    rcases hn with ⟨⟨s, -, hs, -⟩, -⟩ | ⟨l, hl, hm⟩
    · rw [hc] at hs
      cases hs
    · have hdl : l.directive? = some (Nesting.declares k) := by
        rw [← hd, Statement.directive?, Statement.directive?]
        rw [show n.statement.opcode = l.opcode from congrArg LineContent.opcode hm.content,
          show n.statement.keyword = l.keyword from congrArg LineContent.keyword hm.content]
      obtain ⟨hf, hp⟩ := (hlines l hl).declares_nothing (by rw [hm.opens]; rfl)
      cases k with
      | field => exact hf hdl
      | param => exact hp hdl
      | method | annot | subannot | arrayData | packedSwitch | sparseSwitch | valueArray => cases hk
  · exact hn.2.2

theorem Node.Accounted.opens_closing {n : Node} (hn : n.Accounted lines) {c : Statement}
    (hc : n.closing = some c) : c.opens = none := by
  unfold Accounted at hn
  split at hn
  · rcases hn with ⟨⟨s, hs, hcs, hk⟩, -⟩ | ⟨l, -, hm⟩
    · obtain rfl := Option.some.inj (hc.symm.trans hcs)
      exact (hlines c hs).opens_eq_none hk
    · rcases hm.place with ⟨-, -, hnone⟩ | ⟨e, -, -, hsome⟩
      · rw [hc] at hnone
        cases hnone
      · obtain rfl := Option.some.inj (hc.symm.trans hsome)
        rfl
  · rw [hc] at hn
    cases hn.2.1

theorem accounted_laws : Nesting.TreeLaws (· ∈ lines) (Node.Accounted lines) where
  line := by
    intro s hs hc ho
    show match s.opens with | some k => _ | none => _
    rw [ho]
    refine ⟨rfl, rfl, Node.missingEnds_eq_nil (fun e he => (hlines s hs).isLocal he) ?_⟩
    intro c e hc
    cases hc
  stray := by
    intro s k hs hc
    show match s.opens with | some k => _ | none => _
    rw [(hlines s hs).opens_eq_none hc]
    exact ⟨rfl, rfl, rfl⟩
  unterminated := by
    intro f hf ho
    have hm := endMissing_unterminated hlines hf ho
    have hopens : f.unterminated.statement.opens = some f.kind := by
      unfold Frame.unterminated
      cases f.statement.error <;> exact ho
    unfold Node.Accounted
    rw [hopens]
    exact .inr ⟨f.statement, hf, hm⟩
  closed := by
    intro f s hf ho hs hc
    show match f.statement.opens with | some k => _ | none => _
    rw [ho]
    refine .inl ⟨⟨s, hs, rfl, hc⟩, Node.missingEnds_eq_nil (fun e he => (hlines _ hf).isLocal he) ?_⟩
    intro c e hcl he
    obtain rfl := Option.some.inj hcl
    exact (hlines _ hs).isLocal he
  claimed := by
    intro k s n after hs hc hk hn hd
    obtain ⟨hcl, hdir⟩ := Nesting.isOpenDeclaration_iff.mp hd
    have hm : n.missingEnds = [] := hn.missingEnds_of_declaration hlines hk hcl hdir
    refine .inl ⟨⟨s, hs, rfl, hc⟩, Node.missingEnds_eq_nil ?_ ?_⟩
    · exact fun e he => Node.isLocal_of_missingEnds hm he
    · intro c e hcs he
      obtain rfl := Option.some.inj hcs
      exact (hlines _ hs).isLocal he

end

/-- **Every block is closed by its own end, or its end is said to be missing, once.**  What opens no block
has neither children nor an end.  The statements that the walk meets are those of the trees. -/
theorem parseDocument_blocks (options : ParseOptions) (text : Text) :
    (parseDocument (.builtin options) text).walk =
        (parseDocument (.builtin options) text).subtrees.map Node.statement ∧
    ∀ n ∈ (parseDocument (.builtin options) text).subtrees,
      match n.statement.opens with
      | some k =>
        (n.ClosedIn (lineStatements (.builtin options) text) k ∨
          ∃ l ∈ lineStatements (.builtin options) text, n.EndMissing l k) ∧
        ¬(n.ClosedIn (lineStatements (.builtin options) text) k ∧
          ∃ l ∈ lineStatements (.builtin options) text, n.EndMissing l k)
      | none => n.children = [] ∧ n.closing = none := by
  refine ⟨Document.walk_eq _, ?_⟩
  intro n hn
  have hlines : ∀ s ∈ lineStatements (.builtin options) text, (Language.builtin options).IsLine s :=
    fun _ hs => isLine_of_mem_lineStatements _ _ hs
  have hall := parseDocument_everywhere _ _ (accounted_laws hlines)
  rcases hall.of_mem_subtreesAll hn with h | ⟨p, c, hp, hpc, rfl⟩
  · unfold Node.Accounted at h
    cases hk : n.statement.opens with
    | some k =>
      rw [hk] at h
      refine ⟨h, ?_⟩
      rintro ⟨hclosed, l, -, hmiss⟩
      have := hclosed.2.symm.trans hmiss.missing
      cases this
    | none =>
      rw [hk] at h
      exact ⟨h.1, h.2.1⟩
  · have ho : c.opens = none := hp.opens_closing hlines hpc
    show match c.opens with | some k => _ | none => _
    rw [ho]
    exact ⟨rfl, rfl⟩

end Smali
