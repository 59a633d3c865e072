import Smali.Line

/-!
# The faults of a line

A line can be wrong in itself; that a block lacks its end is never a fault of a line.

* `Diagnostic.IsLocal`   the diagnostic is not one of a block without an end;
* `Reader.Local r`       all diagnostics that the reader `r` fails with are local;
* `Reader.Local.bind`    the rule for readers that run one after the other, from which the lemma of each
                         reader follows its definition.
-/

namespace Smali

/-- the diagnostic is not one of a block without an end -/
def Diagnostic.IsLocal (e : Diagnostic) : Prop :=
  e.category ≠ .unterminated

namespace Reader

variable {α β : Type}

/-- all diagnostics that the reader fails with are local -/
def Local (r : Reader α) : Prop :=
  ∀ c e, r c = .error e → e.IsLocal

namespace Local

theorem pure (a : α) : Local (Pure.pure a : Reader α) := by
  intro c e h
  cases h

theorem get : Local (MonadState.get : Reader Cursor) := by
  intro c e h
  cases h

theorem bind {x : Reader α} {f : α → Reader β} (hx : Local x) (hf : ∀ a, Local (f a)) :
    Local (x >>= f) := by
  intro c e h
  change Except.bind (x c) (fun p => f p.1 p.2) = .error e at h
  cases hxc : x c with
  | error e' =>
    rw [hxc] at h
    obtain rfl : e' = e := Except.error.inj h
    exact hx c _ hxc
  | ok p =>
    rw [hxc] at h
    exact hf p.1 p.2 e h

theorem ite {p : Prop} [Decidable p] {x y : Reader α} (hx : Local x) (hy : Local y) :
    Local (if p then x else y) := by
  split
  · exact hx
  · exact hy

end Local

/-! ## where readers fail -/

theorem local_fail {p : Problem} (h : p.category ≠ .unterminated) : Local (fail p : Reader α) := by
  intro c e he
  obtain rfl := Except.error.inj he
  exact h

theorem local_expected (what : Text) : Local (expected what : Reader α) := by
  intro c e he
  obtain rfl := Except.error.inj he
  exact nofun

theorem local_failAt {p : Problem} (span : Span) (h : p.category ≠ .unterminated) :
    Local (failAt span p : Reader α) := by
  intro c e he
  obtain rfl := Except.error.inj he
  exact h

theorem local_descriptor (what : Text) (read? : Text → Option (α × Text)) :
    Local (descriptor what read?) := by
  intro c e he
  unfold descriptor at he
  split at he
  · obtain rfl := Except.error.inj he
    exact nofun
  · split at he
    · obtain rfl := Except.error.inj he
      exact nofun
    · dsimp only at he
      split at he
      · cases he
      · obtain rfl := Except.error.inj he
        exact nofun

/-! ## punctuation and words -/

theorem local_advance : Local advance := by
  intro c e h
  cases h

theorem local_atEnd : Local atEnd :=
  Local.get.bind fun _ => Local.pure _

theorem local_eat (text : Text) : Local (eat text) :=
  Local.get.bind fun _ => (local_advance.bind fun _ => Local.pure _).ite (Local.pure _)

theorem local_eatWord (word : Text) : Local (eatWord word) :=
  Local.get.bind fun _ => (local_advance.bind fun _ => Local.pure _).ite (Local.pure _)

theorem local_delimiter (text : Text) : Local (delimiter text) := by
  refine Local.get.bind fun c => ?_
  split
  · exact (local_advance.bind fun _ => Local.pure _).ite (local_expected _)
  · exact local_expected _

theorem local_finish : Local finish := by
  refine Local.get.bind fun c => ?_
  split
  · exact local_fail nofun
  · exact Local.pure _

/-! ## plain operands -/

theorem local_bareRegister : Local bareRegister := by
  refine Local.get.bind fun c => ?_
  split
  · refine Local.ite ?_ (local_expected _)
    split
    · exact local_advance.bind fun _ => Local.pure _
    · exact local_fail nofun
  · exact local_expected _

theorem local_register : Local register :=
  local_bareRegister.bind fun _ => Local.pure _

theorem local_registers (n : Nat) : Local (registers n) := by
  induction n with
  | zero => exact Local.pure _
  | succ n ih =>
    refine local_bareRegister.bind fun _ => (local_eat _).bind fun _ => Local.ite ?_ (Local.pure _)
    exact ih.bind fun _ => Local.pure _

theorem local_registerList : Local registerList := by
  refine (local_delimiter _).bind fun opening => Local.get.bind fun c => ?_
  have close : ∀ rs : List Register, Local (do
      let closing ← delimiter "\x7d".toList
      return (⟨.registerList rs, opening.cover closing⟩ : Operand)) :=
    fun _ => (local_delimiter _).bind fun _ => Local.pure _
  exact Local.ite ((Local.pure _).bind close) ((local_registers _).bind close)

theorem local_registerRange : Local registerRange := by
  refine (local_delimiter _).bind fun opening => Local.get.bind fun c => Local.ite ?_ ?_
  · exact (local_delimiter _).bind fun _ => Local.pure _
  · refine local_bareRegister.bind fun ⟨first, _⟩ => (local_eat _).bind fun _ => ?_
    have close : ∀ last : Register, Local (do
        let closing ← delimiter "\x7d".toList
        return (⟨.registerRange ⟨first, last⟩, opening.cover closing⟩ : Operand)) :=
      fun _ => (local_delimiter _).bind fun _ => Local.pure _
    exact Local.ite ((local_bareRegister.bind fun _ => Local.pure _).bind close)
      ((Local.pure _).bind close)

theorem local_bareLiteral : Local bareLiteral := by
  refine Local.get.bind fun c => ?_
  split
  · refine Local.ite ?_ (local_expected _)
    split
    · exact local_advance.bind fun _ => Local.pure _
    · exact local_fail nofun
  · exact local_expected _

theorem local_literal : Local literal :=
  local_bareLiteral.bind fun _ => Local.pure _

theorem local_string : Local string := by
  refine Local.get.bind fun c => ?_
  split
  · exact (local_advance.bind fun _ => Local.pure _).ite (local_expected _)
  · exact local_expected _

theorem local_bareLabel : Local bareLabel := by
  refine Local.get.bind fun c => ?_
  split
  · refine Local.ite ?_ (local_expected _)
    exact local_advance.bind fun _ => local_advance.bind fun _ => Local.pure _
  · exact local_expected _

theorem local_label : Local label :=
  local_bareLabel.bind fun _ => Local.pure _

theorem local_labelRange : Local labelRange :=
  (local_delimiter _).bind fun _ => local_bareLabel.bind fun _ => (local_delimiter _).bind fun _ =>
    local_bareLabel.bind fun _ => (local_delimiter _).bind fun _ => Local.pure _

theorem local_index : Local index := by
  refine Local.get.bind fun c => ?_
  split
  · refine Local.ite ?_ (local_expected _)
    refine local_advance.bind fun _ => local_advance.bind fun _ =>
      local_bareLiteral.bind fun ⟨l, span⟩ => ?_
    dsimp only
    split
    · exact Local.pure _
    · exact local_failAt _ nofun
  · exact local_expected _

theorem local_classType : Local classType := by
  refine (local_descriptor _ _).bind fun ⟨_, span⟩ => Local.ite (local_failAt span ?_) (Local.pure _)
  exact nofun

/-! ## values -/

theorem local_single (v : OperandValue) : Local (single v) :=
  Local.get.bind fun _ => local_advance.bind fun _ => Local.pure _

theorem local_enumValue : Local enumValue :=
  Local.get.bind fun _ => local_advance.bind fun _ =>
    (local_descriptor _ _).bind fun _ => Local.pure _

theorem local_scalar (t : Token) : Local (scalar t) := by
  unfold scalar
  refine Local.ite local_literal ?_
  refine Local.ite (Local.ite (local_single _) local_string) ?_
  refine Local.ite (local_single _) (Local.ite (local_single _) (Local.ite (local_single _) ?_))
  refine Local.ite local_enumValue ?_
  exact (local_descriptor _ _).bind fun _ => Local.pure _

/-- the two readers of values call each other with a smaller bound -/
theorem local_valueWithin_and_elementsWithin (n : Nat) :
    Local (valueWithin n) ∧ Local (elementsWithin n) := by
  induction n with
  | zero => exact ⟨local_expected _, local_expected _⟩
  | succ n ih =>
    constructor
    · refine Local.get.bind fun c => ?_
      split
      · exact local_expected _
      · refine Local.ite ?_ (local_scalar _)
        refine (local_delimiter _).bind fun opening => Local.get.bind fun _ =>
          local_atEnd.bind fun _ => ?_
        have close : ∀ elements : List Operand, Local (do
            let closing ← delimiter "\x7d".toList
            return (⟨.array elements, opening.cover closing⟩ : Operand)) :=
          fun _ => (local_delimiter _).bind fun _ => Local.pure _
        refine Local.ite ((Local.pure _).bind close) (Local.ite ?_ (ih.2.bind close))
        exact (local_expected _).bind close
    · refine ih.1.bind fun v => (local_eat _).bind fun _ => Local.ite ?_ (Local.pure _)
      exact ih.2.bind fun _ => Local.pure _

theorem local_inlineValue : Local inlineValue :=
  Local.get.bind fun _ => (local_valueWithin_and_elementsWithin _).1

theorem local_elementValue : Local elementValue := by
  have complete : Local (do return ElementValue.complete (← inlineValue)) :=
    local_inlineValue.bind fun _ => Local.pure _
  have annot : Local (do advance; return ElementValue.subannot (← classType)) :=
    local_advance.bind fun _ => local_classType.bind fun _ => Local.pure _
  refine Local.get.bind fun c => ?_
  split
  · exact Local.ite (local_advance.bind fun _ => Local.pure _) (Local.ite annot complete)
  · exact Local.ite annot complete
  · exact local_expected _

end Reader

namespace LineParser
open Reader

/-! ## the operands of directives, entries and instructions -/

theorem local_count (what : Text) : Local (count what) := by
  intro c e he
  unfold count at he
  split at he
  · obtain rfl := Except.error.inj he
    exact nofun
  · split at he
    · cases he
    · obtain rfl := Except.error.inj he
      exact nofun

theorem local_visibility : Local visibility := by
  refine Local.get.bind fun c => ?_
  split
  · split
    · exact local_single _
    · exact local_expected _
  · exact local_expected _

theorem local_elementWidth : Local elementWidth := by
  refine local_bareLiteral.bind fun ⟨l, span⟩ => ?_
  dsimp only
  split
  · exact Local.ite (Local.pure _) (local_failAt _ nofun)
  · exact local_failAt _ nofun

theorem local_localName : Local localName := by
  refine Local.get.bind fun c => ?_
  split
  · exact Local.ite (local_single _) local_string
  · exact local_string

theorem local_elementName : Local elementName := by
  refine Local.get.bind fun c => ?_
  split
  · exact Local.ite (local_single _) (local_expected _)
  · exact local_expected _

theorem local_reference (kind : OperandKind) : Local (reference kind) := by
  refine (local_descriptor _ _).bind fun ⟨r, span⟩ => Local.ite (Local.pure _) (local_failAt span ?_)
  exact nofun

theorem local_operand (kind : OperandKind) : Local (operand kind) := by
  cases kind with
  | register => exact local_register
  | registerList => exact local_registerList
  | registerRange => exact local_registerRange
  | literal => exact local_literal
  | string => exact local_string
  | type => exact (local_descriptor _ _).bind fun _ => Local.pure _
  | field => exact local_reference _
  | method => exact local_reference _
  | label => exact local_label
  | index => exact local_index
  | proto => exact (local_descriptor _ _).bind fun _ => Local.pure _

end LineParser
end Smali
