import Smali.Proofs.Line.Alike
import Smali.Proofs.Line.Builtin

/-!
# Lines with and without their comment

What a line says does not depend on its comment, but for lines that are malformed without it: where a class path
is not closed, the rest of it is looked for in the comment.

* `LineParser.Twin`, `LineParser.Alike`  how the runs of a parser with and without the comment compare, as for
                         readers;
* `LineParser.Alike.bind_closes`  at the end of a line on which the two runs parted, the run without the comment
                         has failed;
* `LineParser.alike_statement`  so it is for every line;
* `Commented.spells_of_lexer`  the tokens that the two runs go by;
* `Commented.Compares`   how what a line says with and without its comment compares;
* `reading_parseLine_comment`  what a line says with and without its comment.
-/

namespace Smali

open Commented

variable {k : Commented}

/-! ## parsers of lines -/

/-- the same draft on the line with the comment -/
def Draft.extend (k : Commented) (d : Draft) : Draft :=
  { d with cursor := d.cursor.extend k }

/-- a draft of the line without the comment, whose operands end before it -/
structure Draft.Fits (k : Commented) (d : Draft) : Prop where
  cursor : d.cursor.Fits k
  operands : ∀ o ∈ d.operands, o.span.ClearOf k

namespace LineParser

variable {α β : Type}

/-- what is left, or the diagnostic -/
def ending : EStateM.Result Diagnostic Draft α → Except Diagnostic Cursor
  | .ok _ d => .ok d.cursor
  | .error e _ => .error e

/-- How the runs without and with the comment compare, as for readers; a failure has the same draft. -/
inductive Twin (k : Commented) (S : Except Diagnostic Cursor → Prop) (A : α → Prop) :
    EStateM.Result Diagnostic Draft α → EStateM.Result Diagnostic Draft α → Prop
  | ok {v : α} {d : Draft} (hv : A v) (hd : d.Fits k) : Twin k S A (.ok v d) (.ok v (d.extend k))
  | error (e : Diagnostic) {d : Draft} (hd : d.Fits k) : Twin k S A (.error e d) (.error e (d.extend k))
  | parted {b w : EStateM.Result Diagnostic Draft α} (hover : k.Overrun) (hb : S (ending b))
    (hw : k.Spent (ending w)) : Twin k S A b w

/-- the parser gives the same with the comment, as far as `Twin` says -/
def Alike (k : Commented) (S : Except Diagnostic Cursor → Prop) (A : α → Prop) (p : LineParser α) : Prop :=
  ∀ d : Draft, d.Fits k → Twin k S A (p d) (p (d.extend k))

/-- A parser that goes on after the two runs parted, as for readers. -/
structure Settles (k : Commented) (S : Except Diagnostic Cursor → Prop) (p : LineParser α) : Prop where
  stuck : ∀ d : Draft, d.cursor.AtHyphen k → S (ending (p d))
  spent : ∀ d : Draft, d.cursor.tokens = [] → k.Spent (ending (p d))

variable {S : Except Diagnostic Cursor → Prop}

namespace Alike

theorem pure {A : α → Prop} {a : α} (h : A a) : Alike k S A (Pure.pure a : LineParser α) :=
  fun _ hd => .ok h hd

theorem get_bind {B : β → Prop} {f : Draft → LineParser β} (hf : ∀ d, f (d.extend k) = f d)
    (h : ∀ d : Draft, Alike k S B (f d)) : Alike k S B (MonadState.get >>= f) := by
  intro d hd
  show Twin k S B (f d d) (f (d.extend k) (d.extend k))
  rw [hf]
  exact h d d hd

theorem bind {A : α → Prop} {B : β → Prop} {p : LineParser α} {f : α → LineParser β} (hp : Alike k Never A p)
    (hf : ∀ a, A a → Alike k S B (f a)) : Alike k S B (p >>= f) := by
  intro d hd
  have hpd := hp d hd
  show Twin k S B (EStateM.bind p f d) (EStateM.bind p f (d.extend k))
  unfold EStateM.bind
  generalize p d = b at hpd
  generalize p (d.extend k) = w at hpd
  cases hpd with
  | ok hv hd => exact hf _ hv _ hd
  | error e hd => exact .error e hd
  | parted _ hb _ => exact hb.elim

/-- after the two runs of `p` parted, those of `f` settle it -/
theorem bind_of_settles {A : α → Prop} {B : β → Prop} {p : LineParser α} {f : α → LineParser β}
    (hp : Alike k k.Stuck A p) (hf : ∀ a, A a → Alike k S B (f a)) (hs : ∀ a, Settles k S (f a))
    (hfail : ∀ e : Diagnostic, e.PointsBefore k → S (.error e)) : Alike k S B (p >>= f) := by
  intro d hd
  have hpd := hp d hd
  show Twin k S B (EStateM.bind p f d) (EStateM.bind p f (d.extend k))
  unfold EStateM.bind
  generalize p d = b at hpd
  generalize p (d.extend k) = w at hpd
  cases hpd with
  | ok hv hd => exact hf _ hv _ hd
  | error e hd => exact .error e hd
  | parted hover hb hw =>
    refine .parted hover ?_ ?_
    · cases b with
      | ok a d => exact (hs a).stuck d hb
      | error e d => exact hfail e hb
    · cases w with
      | ok a d => exact (hs a).spent d hw
      | error e d => exact hw

theorem bind_settles {A : α → Prop} {B : β → Prop} {p : LineParser α} {f : α → LineParser β}
    (hp : Alike k k.Stuck A p) (hf : ∀ a, A a → Alike k k.Stuck B (f a)) (hs : ∀ a, Settles k k.Stuck (f a)) :
    Alike k k.Stuck B (p >>= f) :=
  hp.bind_of_settles hf hs fun _ he => he

/-- the end of a line, where the run without the comment has failed if the two parted -/
theorem bind_closes {A : α → Prop} {B : β → Prop} {p : LineParser α} {f : α → LineParser β}
    (hp : Alike k k.Stuck A p) (hf : ∀ a, A a → Alike k k.Failed B (f a)) (hs : ∀ a, Settles k k.Failed (f a)) :
    Alike k k.Failed B (p >>= f) :=
  hp.bind_of_settles hf hs fun _ he => he

theorem ite {c : Prop} [Decidable c] {A : α → Prop} {p q : LineParser α} (hp : Alike k S A p) (hq : Alike k S A q) :
    Alike k S A (if c then p else q) := by
  split
  · exact hp
  · exact hq

theorem bind_modify {B : β → Prop} {g : Draft → Draft} {f : Unit → LineParser β}
    (hcursor : ∀ d, (g d).cursor = d.cursor) (hoperands : ∀ d, (g d).operands = d.operands)
    (hg : ∀ d : Draft, g (d.extend k) = (g d).extend k)
    (hf : Alike k S B (f ())) : Alike k S B (modify g >>= f) := by
  intro d hd
  show Twin k S B (f () (g d)) (f () (g (d.extend k)))
  rw [hg]
  refine hf (g d) ⟨?_, ?_⟩
  · rw [hcursor]
    exact hd.cursor
  · rw [hoperands]
    exact hd.operands

theorem read {A : α → Prop} {r : Reader α} (hr : Reader.Alike k S A r) : Alike k S A (read r) := by
  intro d hd
  have hrd := hr d.cursor hd.cursor
  have hcursor : (d.extend k).cursor = d.cursor.extend k := rfl
  unfold LineParser.read
  rw [hcursor]
  generalize r d.cursor = b at hrd
  generalize r (d.cursor.extend k) = w at hrd
  cases hrd with
  | ok hv hc => exact .ok hv ⟨hc, hd.operands⟩
  | error e => exact .error e hd
  | parted hover hb hw =>
    refine .parted hover ?_ ?_
    · cases b <;> exact hb
    · cases w <;> exact hw

theorem push {o : Operand} (ho : o.span.ClearOf k) : Alike k S (fun _ => True) (push o) := by
  intro d hd
  refine .ok trivial ⟨hd.cursor, ?_⟩
  intro x hx
  rcases List.mem_append.mp hx with hx | hx
  · exact hd.operands x hx
  · rw [List.mem_singleton.mp hx]
    exact ho

theorem setKind (kind : StatementKind) : Alike k S (fun _ => True) (setKind kind) :=
  fun _ hd => .ok trivial ⟨hd.cursor, hd.operands⟩

theorem setOpens (b : BlockKind) : Alike k S (fun _ => True) (setOpens b) :=
  fun _ hd => .ok trivial ⟨hd.cursor, hd.operands⟩

theorem setCloses (b : BlockKind) : Alike k S (fun _ => True) (setCloses b) :=
  fun _ hd => .ok trivial ⟨hd.cursor, hd.operands⟩

theorem add {r : Reader Operand} (hr : Reader.Alike k Never (fun o => o.span.ClearOf k) r) :
    Alike k S (fun _ => True) (add r) :=
  (read hr).bind fun _ ho => push ho

theorem eat (text : Text) : Alike k S (fun _ => True) (eat text) :=
  read (Reader.alike_eat text)

theorem finish : Alike k S (fun _ => True) finish :=
  read Reader.alike_finish

/-- citing a pattern does not change where a failure points -/
theorem expecting (entry : Option Entry) {A : α → Prop} {p : LineParser α} (hp : Alike k k.Failed A p) :
    Alike k k.Failed A (expecting entry p) := by
  intro d hd
  have hpd := hp d hd
  unfold LineParser.expecting
  generalize p d = b at hpd
  generalize p (d.extend k) = w at hpd
  cases hpd with
  | ok hv hd => exact .ok hv hd
  | error e hd => cases entry <;> exact .error _ hd
  | parted hover hb hw =>
    refine .parted hover ?_ ?_
    · cases b with
      | ok a d => exact hb.elim
      | error e d => cases entry <;> exact ⟨hb.nonempty, hb.clear⟩
    · cases w with
      | ok a d => exact hw
      | error e d => cases entry <;> exact fun he => hw ⟨he.nonempty, he.clear⟩

end Alike

theorem alike_pure (a : α) : Alike k S (fun _ => True) (pure a : LineParser α) :=
  Alike.pure trivial

/-! ## what follows a descriptor -/

/-- the parser fails for want of something else -/
def Rejects (k : Commented) (p : LineParser α) : Prop :=
  ∀ d : Draft, d.cursor.AtHyphen k ∨ d.cursor.tokens = [] → ∃ what d', p d = .error (d.cursor.expected what) d'

theorem Rejects.read {r : Reader α} (hr : Reader.Rejects k r) : Rejects k (read r) := by
  intro d hd
  obtain ⟨what, hwhat⟩ := hr d.cursor hd
  refine ⟨what, d, ?_⟩
  unfold LineParser.read
  rw [hwhat]

theorem Rejects.bind {p : LineParser α} (hp : Rejects k p) (f : α → LineParser β) : Rejects k (p >>= f) := by
  intro d hd
  obtain ⟨what, d', hwhat⟩ := hp d hd
  refine ⟨what, d', ?_⟩
  show EStateM.bind p f d = _
  unfold EStateM.bind
  rw [hwhat]

theorem Rejects.settles {p : LineParser α} (hp : Rejects k p) : Settles k k.Stuck p := by
  constructor
  · intro d hd
    obtain ⟨what, d', hwhat⟩ := hp d (.inl hd)
    obtain ⟨t, ts, ht, -, hlt, hclear⟩ := hd
    rw [hwhat]
    exact Cursor.pointsBefore_error ht hlt hclear _
  · intro d hd
    obtain ⟨what, d', hwhat⟩ := hp d (.inr hd)
    rw [hwhat]
    exact Cursor.not_pointsBefore_error hd _

theorem settles_pure (a : α) : Settles k k.Stuck (pure a : LineParser α) :=
  ⟨fun _ hd => hd, fun _ hd => hd⟩

theorem settles_push (o : Operand) : Settles k k.Stuck (push o) :=
  ⟨fun _ hd => hd, fun _ hd => hd⟩

theorem settles_eat_bind {text : Text} (htext : text.head? ≠ some '-') {f : Bool → LineParser β}
    (hf : Settles k S (f false)) : Settles k S (eat text >>= f) := by
  have hrun : ∀ d : Draft, d.cursor.atDelimiter text = false → (eat text >>= f) d = f false d := by
    intro d hd
    show EStateM.bind (eat text) f d = _
    unfold EStateM.bind eat read
    rw [Reader.eat_of_atDelimiter_eq_false hd]
  constructor
  · intro d hd
    rw [hrun d (Reader.atDelimiter_eq_false htext (.inl hd))]
    exact hf.stuck d hd
  · intro d hd
    rw [hrun d (Reader.atDelimiter_eq_false (k := k) htext (.inr hd))]
    exact hf.spent d hd

/-- at the end of a line, a hyphen is too much -/
theorem settles_finish : Settles k k.Failed finish := by
  constructor
  · rintro d ⟨t, ts, ht, -, hlt, hclear⟩
    have hfinish : Reader.finish d.cursor = .error (d.cursor.error (.trailing t.text)) := by
      unfold Reader.finish
      rw [Reader.run_get_bind, ht]
      rfl
    have hrun : finish d = .error (d.cursor.error (.trailing t.text)) d := by
      unfold finish read
      rw [hfinish]
    rw [hrun]
    exact Cursor.pointsBefore_error ht hlt hclear _
  · intro d hd
    have hfinish : Reader.finish d.cursor = .ok ((), d.cursor) := by
      unfold Reader.finish
      rw [Reader.run_get_bind, hd]
      rfl
    show k.Spent (ending (read Reader.finish d))
    unfold read
    rw [hfinish]
    exact hd

theorem alike_add {r : Reader Operand} (hr : Reader.Alike k k.Stuck (fun o => o.span.ClearOf k) r) :
    Alike k k.Stuck (fun _ => True) (add r) :=
  (Alike.read hr).bind_settles (fun _ ho => Alike.push ho) settles_push

theorem alike_addDescriptor (what : Text) {read? : Text → Option (α × Text)} (f : α → OperandValue)
    (hread : ∀ x, Overlooks read? x k.comment ∨ Overruns read? x k.comment) :
    Alike k k.Stuck (fun _ => True) (addDescriptor what read? f) :=
  alike_add (Reader.alike_descriptor what f hread)

/-! ## directives -/

theorem clearOf_foldl_cover {words : List Token} {span : Span} (hspan : span.ClearOf k)
    (hwords : ∀ t ∈ words, t.span.ClearOf k) : (words.foldl (fun s w => s.cover w.span) span).ClearOf k := by
  induction words generalizing span with
  | nil => exact hspan
  | cons t words ih =>
    obtain ⟨ht, hwords⟩ := List.forall_mem_cons.mp hwords
    exact ih (hspan.cover ht) hwords

theorem alike_flags : Alike k S (fun _ => True) flags := by
  intro d hd
  have hcut := cutFlags_append d.cursor.tokens
  unfold flags
  dsimp only [bind, EStateM.bind, get, getThe, MonadStateOf.get, EStateM.get]
  have hsame : (d.extend k).cursor.tokens = d.cursor.tokens := rfl
  rw [hsame]
  cases hwords : cutFlags d.cursor.tokens with
  | mk words rest =>
    rw [hwords] at hcut
    cases words with
    | nil => exact .ok trivial hd
    | cons t words =>
      have hclear : ∀ u ∈ t :: words, u.span.ClearOf k := by
        intro u hu
        refine (hd.cursor.of_mem ?_).2
        rw [← hcut]
        exact List.mem_append_left _ hu
      obtain ⟨ht, hws⟩ := List.forall_mem_cons.mp hclear
      have hrest : Draft.Fits k { d with cursor := { d.cursor with tokens := rest } } :=
        ⟨hd.cursor.pass ⟨t :: words, hcut⟩, hd.operands⟩
      exact Alike.push (clearOf_foldl_cover ht hws) _ hrest

theorem alike_localVar : Alike k k.Stuck (fun _ => True) localVar := by
  refine (Alike.add Reader.alike_register).bind fun _ _ => (Alike.eat _).bind fun _ _ =>
    Alike.ite ?_ (alike_pure _)
  refine (Alike.add alike_localName).bind fun _ _ => (Alike.read (Reader.alike_delimiter _)).bind fun _ _ => ?_
  refine (alike_addDescriptor _ _ fun x => TypeDescriptor.overlooks_or_overruns x _).bind_settles (fun _ _ => ?_)
    fun _ => settles_eat_bind (by decide) (settles_pure _)
  exact (Alike.eat _).bind fun _ _ => Alike.ite (Alike.add Reader.alike_string) (alike_pure _)

theorem alike_blockEnd : Alike k S (fun _ => True) blockEnd := by
  have peek : Alike k Never (fun _ => True) peek? := Alike.get_bind (fun _ => rfl) fun _ => alike_pure _
  refine peek.bind fun t _ => ?_
  dsimp only
  split
  · exact Alike.read (Reader.alike_expected _)
  · refine (Alike.read Reader.alike_advance).bind fun _ _ => (Alike.setCloses _).bind fun _ _ => ?_
    exact Alike.ite ((Alike.eat _).bind fun _ _ => alike_pure _) (alike_pure _)

theorem alike_endOperands : Alike k S (fun _ => True) (directiveOperands .endBlock) := by
  refine (Alike.read (Reader.alike_eatWord _)).bind fun _ _ => Alike.ite ?_ alike_blockEnd
  exact (Alike.setKind _).bind fun _ _ => Alike.add Reader.alike_register

theorem alike_directiveOperands (d : Directive) : Alike k k.Stuck (fun _ => True) (directiveOperands d) := by
  have types : ∀ x, Overlooks TypeDescriptor.read? x k.comment ∨ Overruns TypeDescriptor.read? x k.comment :=
    fun x => TypeDescriptor.overlooks_or_overruns x _
  cases d with
  | classDecl => exact alike_flags.bind fun _ _ => alike_add Reader.alike_classType
  | superclass | implements | subannot => exact alike_add Reader.alike_classType
  | source => exact Alike.add Reader.alike_string
  | field =>
    refine alike_flags.bind fun _ _ => (alike_addDescriptor _ _ ?_).bind_settles (fun _ _ => ?_) ?_
    · exact fun x => Member.overlooks_or_overruns_field x _
    · exact (Alike.eat _).bind fun _ _ => Alike.ite (alike_add Reader.alike_inlineValue) (alike_pure _)
    · exact fun _ => settles_eat_bind (by decide) (settles_pure _)
  | method =>
    exact alike_flags.bind fun _ _ => alike_addDescriptor _ _ fun x => MethodSignature.overlooks_or_overruns x _
  | locals | registers | line => exact Alike.add (alike_count _)
  | param =>
    refine (Alike.add Reader.alike_register).bind fun _ _ => (Alike.eat _).bind fun _ _ => ?_
    exact Alike.ite (Alike.add Reader.alike_string) (alike_pure _)
  | annot => exact (Alike.add alike_visibility).bind fun _ _ => alike_add Reader.alike_classType
  | enumValue => exact alike_addDescriptor _ _ fun x => Reference.overlooks_or_overruns x _
  | catchType =>
    refine (alike_add Reader.alike_classType).bind_settles (fun _ _ => ?_) fun _ => ?_
    · exact (Alike.add Reader.alike_labelRange).bind fun _ _ => Alike.add Reader.alike_label
    · exact (((Rejects.read ((Reader.rejects_delimiter (by decide)).bind _)).bind _).bind _).settles
  | catchAll => exact (Alike.add Reader.alike_labelRange).bind fun _ _ => Alike.add Reader.alike_label
  | arrayData => exact Alike.add alike_elementWidth
  | packedSwitch => exact Alike.add Reader.alike_literal
  | sparseSwitch | prologue | epilogue => exact alike_pure _
  | localVar => exact alike_localVar
  | endBlock | endLocal => exact alike_endOperands
  | restartLocal =>
    refine (Alike.read (Reader.alike_eatWord _)).bind fun _ _ => Alike.ite (Alike.add Reader.alike_register) ?_
    exact Alike.read (Reader.alike_expected _)

theorem alike_directive (catalog : Catalog) (head : Token) : Alike k k.Failed (fun _ => True) (directive catalog head) := by
  refine (Alike.read Reader.alike_advance).bind fun _ _ => ?_
  split
  · exact Alike.read (Reader.alike_failAt _ _)
  · refine Alike.bind_modify (fun _ => rfl) (fun _ => rfl) (fun _ => rfl) (Alike.expecting _ ?_)
    exact (alike_directiveOperands _).bind_closes (fun _ _ => Alike.finish) fun _ => settles_finish

/-! ## instructions and entries -/

theorem settles_moreOperands (ks : List OperandKind) : Settles k k.Stuck (moreOperands ks) := by
  cases ks with
  | nil => exact settles_pure _
  | cons o ks => exact ((Rejects.read (Reader.rejects_delimiter (by decide))).bind _).settles

theorem alike_moreOperands (ks : List OperandKind) : Alike k k.Stuck (fun _ => True) (moreOperands ks) := by
  induction ks with
  | nil => exact alike_pure _
  | cons o ks ih =>
    refine (Alike.read (Reader.alike_delimiter _)).bind fun _ _ => ?_
    exact (alike_add (alike_operand o)).bind_settles (fun _ _ => ih) fun _ => settles_moreOperands ks

theorem alike_operands (ks : List OperandKind) : Alike k k.Stuck (fun _ => True) (operands ks) := by
  cases ks with
  | nil => exact alike_pure _
  | cons o ks =>
    exact (alike_add (alike_operand o)).bind_settles (fun _ _ => alike_moreOperands ks) fun _ => settles_moreOperands ks

theorem alike_instruction (odex : Bool) (entry : Entry) (head : Token) :
    Alike k k.Failed (fun _ => True) (instruction odex entry head) := by
  refine (Alike.read Reader.alike_advance).bind fun _ _ =>
    Alike.bind_modify (fun _ => rfl) (fun _ => rfl) (fun _ => rfl) (Alike.expecting _ ?_)
  have rest : Alike k k.Failed (fun _ => True) (do operands entry.operandKinds; finish) :=
    (alike_operands _).bind_closes (fun _ _ => Alike.finish) fun _ => settles_finish
  refine Alike.ite ?_ rest
  exact (Alike.read (A := fun _ => True) (Reader.alike_failAt _ _)).bind fun _ _ => rest

theorem alike_moreLiterals (m : Nat) : Alike k S (fun _ => True) (moreLiterals m) := by
  induction m with
  | zero => exact alike_pure _
  | succ m ih =>
    refine (Alike.read Reader.alike_atEnd).bind fun _ _ => Alike.ite (alike_pure _) ?_
    exact (Alike.eat _).bind fun _ _ => (Alike.add Reader.alike_literal).bind fun _ _ => ih

theorem alike_arrayEntry : Alike k S (fun _ => True) arrayEntry :=
  (Alike.setKind _).bind fun _ _ => (Alike.add Reader.alike_literal).bind fun _ _ =>
    Alike.get_bind (fun _ => rfl) fun _ => alike_moreLiterals _

theorem alike_packedSwitchEntry : Alike k S (fun _ => True) packedSwitchEntry :=
  (Alike.setKind _).bind fun _ _ => (Alike.add Reader.alike_label).bind fun _ _ => Alike.finish

theorem alike_sparseSwitchEntry : Alike k S (fun _ => True) sparseSwitchEntry :=
  (Alike.setKind _).bind fun _ _ => (Alike.add Reader.alike_literal).bind fun _ _ =>
    (Alike.read (Reader.alike_delimiter _)).bind fun _ _ => (Alike.add Reader.alike_label).bind fun _ _ =>
      Alike.finish

theorem alike_elementValue : Alike k k.Stuck (fun _ => True) elementValue := by
  refine (Alike.read Reader.alike_elementValue).bind_settles (fun v hv => ?_) fun v => ?_
  · cases v with
    | complete o => exact Alike.push hv
    | openArray => exact Alike.setOpens _
    | subannot type => exact (Alike.push hv).bind fun _ _ => Alike.setOpens _
  · cases v <;> exact ⟨fun _ hd => hd, fun _ hd => hd⟩

theorem alike_element : Alike k k.Failed (fun _ => True) element :=
  (Alike.setKind _).bind fun _ _ => (Alike.add alike_elementName).bind fun _ _ =>
    (Alike.read (Reader.alike_delimiter _)).bind fun _ _ =>
      alike_elementValue.bind_closes (fun _ _ => Alike.finish) fun _ => settles_finish

theorem alike_arrayElement : Alike k k.Failed (fun _ => True) arrayElement := by
  refine (Alike.setKind _).bind fun _ _ => (Alike.eat _).bind fun _ _ => Alike.ite ?_ ?_
  · exact (Alike.setCloses _).bind fun _ _ => Alike.finish
  · refine alike_elementValue.bind_closes (fun _ _ => ?_) fun _ => settles_eat_bind (by decide) settles_finish
    exact (Alike.eat _).bind fun _ _ => Alike.finish

/-! ## the line -/

theorem alike_codeLine (language : Language) (head : Token) :
    Alike k k.Failed (fun _ => True) (codeLine language head) := by
  have fails : ∀ p : Problem, Alike k k.Failed (fun _ => True) (read (Reader.fail p : Reader Unit)) :=
    fun p => Alike.read (Reader.alike_fail p)
  refine Alike.ite (fails _) (Alike.ite ?_ ?_)
  · exact (Alike.setKind _).bind fun _ _ => (Alike.add Reader.alike_label).bind fun _ _ => Alike.finish
  · split
    · exact alike_instruction _ _ _
    · exact Alike.ite (fails _) (fails _)

theorem alike_statement (language : Language) (stack : BlockStack) (head : Token) :
    Alike k k.Failed (fun _ => True) (statement language stack head) := by
  refine Alike.ite (alike_directive _ _) ?_
  split
  · exact alike_arrayEntry
  · exact alike_packedSwitchEntry
  · exact alike_sparseSwitchEntry
  · exact alike_element
  · exact alike_element
  · exact alike_arrayElement
  · exact alike_codeLine language head

end LineParser

/-! ## the tokens of the line -/

/-- the tokens of the part before the comment that belong to the statement -/
theorem Commented.spells_of_lexer (catalog : Catalog) (l : Lexer) (htext : l.text = k.before) (hline : l.line = k.number)
    (hno : ∀ t ∈ l.tokens catalog, t.kind ≠ .comment) : k.Spells l.rest (l.significant catalog) := by
  induction l using Lexer.run_induct catalog with
  | done l h =>
    have hrest := Lexer.rest_eq_nil_of_lex h
    rw [Lexer.significant_of_rest_eq_nil catalog hrest, hrest]
    exact .nil
  | step l t m h ih =>
    obtain ⟨hrest, -, hne⟩ := Lexer.rest_of_lex h
    obtain ⟨hstart, -, -, hmtext⟩ := Lexer.offset_of_lex h
    obtain ⟨htline, hmline⟩ := Lexer.line_of_lex h
    rw [Lexer.tokens_of_lex h] at hno
    obtain ⟨ht, hno⟩ := List.forall_mem_cons.mp hno
    have hm := ih (hmtext.trans htext) (hmline.trans hline) hno
    rw [Lexer.significant_of_lex h, hrest]
    by_cases hblank : t.kind = .whitespace
    · have hall := (Lexer.isBlank_of_lex h).1 hblank
      have hsig : t.isSignificant = false := by
        rw [Token.isSignificant, hblank]
        rfl
      rw [hsig]
      exact Spells.blanks hall hm
    · have hsig : t.isSignificant = true := by
        rw [Token.isSignificant]
        cases hk : t.kind with
        | whitespace => exact absurd hk hblank
        | comment => exact absurd hk ht
        | _ => rfl
      rw [hsig]
      refine .token hne (htline.trans hline) ?_ hm
      rw [hstart, ← hrest, ← htext, Lexer.size_text]

/-! ## what the line says -/

/-- The line says the same without its comment, with operands that end before it, or a class path runs into the
comment and the diagnostics of the two lines are different. -/
def Commented.Compares (k : Commented) (whole bare : Reading) : Prop :=
  (whole = bare ∧ ∀ o ∈ whole.operands, o.span.ClearOf k) ∨
    (k.Overrun ∧ bare.error.isSome = true ∧ whole.error ≠ bare.error)

/-- the two runs of a line read the same, or they fail at different places -/
theorem LineParser.Twin.reading {b w : EStateM.Result Diagnostic Draft Unit} (h : Twin k k.Failed (fun _ => True) b w) :
    k.Compares (LineParser.reading w) (LineParser.reading b) := by
  cases h with
  | ok _ hd => exact .inl ⟨rfl, hd.operands⟩
  | error e hd => exact .inl ⟨rfl, hd.operands⟩
  | parted hover hb hw =>
    refine .inr ⟨hover, ?_⟩
    cases b with
    | ok _ d => exact hb.elim
    | error e d =>
      refine ⟨rfl, ?_⟩
      cases w with
      | ok _ d => exact (Option.some_ne_none e).symm
      | error e' d =>
        intro he
        obtain rfl : e' = e := Option.some.inj he
        exact hw hb

/-- the draft of the line without the comment, before anything is read -/
theorem Commented.fits_start {head : Token} {more : List Token} (h : k.Spells k.before (head :: more)) :
    (Draft.start ⟨k.before, k.number, head :: more, stopOf (head :: more)⟩).Fits k := by
  refine ⟨⟨rfl, rfl, ?_, k.before, List.suffix_refl _, h⟩, List.forall_mem_nil _⟩
  have hlast := List.getLast?_eq_some_getLast (List.cons_ne_nil head more)
  show stopOf (head :: more) ≤ _
  rw [stopOf, hlast]
  exact (h.of_mem (List.getLast_mem _)).2.2

/-- a line is read by its tokens that belong to the statement, so two lines compare when these are the same -/
theorem Commented.compares_of_significant (language : Language) (stack : BlockStack)
    (hno : ∀ t ∈ (Lexer.start k.before k.number).tokens language.catalog, t.kind ≠ .comment)
    (hsig : (tokenize language.catalog (k.before ++ k.comment) k.number).filter Token.isSignificant =
      (tokenize language.catalog k.before k.number).filter Token.isSignificant)
    (hne : (tokenize language.catalog k.before k.number).filter Token.isSignificant ≠ []) :
    k.Compares (parseLine language stack (k.before ++ k.comment) k.number).reading
      (parseLine language stack k.before k.number).reading := by
  have hspells : k.Spells k.before ((tokenize language.catalog k.before k.number).filter Token.isSignificant) := by
    rw [tokenize_significant]
    exact spells_of_lexer language.catalog (Lexer.start k.before k.number) rfl rfl hno
  cases hbare : (tokenize language.catalog k.before k.number).filter Token.isSignificant with
  | nil => exact absurd hbare hne
  | cons head more =>
    rw [hbare] at hspells hsig
    rw [reading_parseLine language stack _ _ hsig, reading_parseLine language stack _ _ hbare]
    cases (head :: more).find? fun t => t.kind == .error with
    | some bad => exact .inl ⟨rfl, List.forall_mem_nil _⟩
    | none => exact (LineParser.alike_statement language stack head _ (fits_start hspells)).reading

/-- a comment is no part of the statement -/
theorem filter_isSignificant_append {ts : List Token} {c : Token} (hkind : c.kind = .comment) :
    (ts ++ [c]).filter Token.isSignificant = ts.filter Token.isSignificant := by
  have hcsig : c.isSignificant = false := by
    rw [Token.isSignificant, hkind]
    rfl
  rw [List.filter_append, List.filter_cons_of_neg (by rw [hcsig]; exact Bool.false_ne_true), List.filter_nil,
    List.append_nil]

theorem Commented.reading_or (language : Language) (stack : BlockStack) {c : Token}
    (hc : c ∈ tokenize language.catalog (k.before ++ k.comment) k.number) (hkind : c.kind = .comment)
    (hstart : Text.takeBytes c.start (k.before ++ k.comment) = k.before)
    (hne : (tokenize language.catalog (k.before ++ k.comment) k.number).filter Token.isSignificant ≠ []) :
    k.Compares (parseLine language stack (k.before ++ k.comment) k.number).reading
      (parseLine language stack k.before k.number).reading := by
  obtain ⟨r, -, -, -, htokens, hno⟩ := tokenize_of_comment hc hkind
  rw [hstart] at htokens hno
  have hsig : (tokenize language.catalog (k.before ++ k.comment) k.number).filter Token.isSignificant =
      (tokenize language.catalog k.before k.number).filter Token.isSignificant := by
    rw [htokens, filter_isSignificant_append hkind]
  rw [hsig] at hne
  exact k.compares_of_significant language stack hno hsig hne

/-- **Comments and what a line says.**  A line is read as without its comment exactly when its diagnostic is the
same without the comment, and then its operands end before the comment.  Otherwise a class path runs into the
comment, and the line without it is malformed. -/
theorem reading_parseLine_comment (language : Language) (stack : BlockStack) {line : Text} {number : Nat} {c : Token}
    (hc : c ∈ tokenize language.catalog line number) (hkind : c.kind = .comment)
    (hne : (tokenize language.catalog line number).filter Token.isSignificant ≠ []) :
    let whole := parseLine language stack line number
    let bare := parseLine language stack (Text.takeBytes c.start line) number
    (whole.reading = bare.reading ↔ whole.error = bare.error) ∧
      (whole.reading = bare.reading → ∀ o ∈ whole.operands, o.span.stop ≤ c.span.start) ∧
      (whole.reading ≠ bare.reading →
        ClassPath.Across (Text.takeBytes c.start line) c.text ∧ bare.error.isSome = true) := by
  intro whole bare
  obtain ⟨r, hr, hline, hstart, -, -⟩ := tokenize_of_comment hc hkind
  let k : Commented := ⟨Text.takeBytes c.start line, r, number⟩
  have hk : k.before ++ k.comment = line := by
    show Text.takeBytes c.start line ++ '#' :: r = line
    rw [← hr]
    exact hline.symm
  have hedge : c.span.start = k.edge := by
    show Position.mk c.line c.start = ⟨number, Text.size (Text.takeBytes c.start line)⟩
    rw [line_of_mem_tokenize hc, ← hstart]
  have h := k.reading_or language stack (by rw [hk]; exact hc) hkind (by rw [hk]) (by rw [hk]; exact hne)
  rw [hk] at h
  rw [hedge, hr]
  rcases h with ⟨hsame, hclear⟩ | ⟨hover, hsome, hdiff⟩
  · refine ⟨iff_of_true hsame (congrArg Reading.error hsame), fun _ => hclear, fun h => absurd hsame h⟩
  · have hreading : whole.reading ≠ bare.reading := fun h => hdiff (congrArg Reading.error h)
    exact ⟨iff_of_false hreading hdiff, fun h => absurd h hreading, fun _ => ⟨hover, hsome⟩⟩

/-- a string that looks like the start of a class path, with a comment that looks like its end -/
def hashedSource : Text :=
  ".source \"L\"#b;".toList

/-- the string is no descriptor, so nothing runs into the comment -/
theorem reading_hashedSource :
    ClassPath.Across (Text.takeBytes 11 hashedSource) "#b;".toList ∧
      (parseLine ⟨.empty, .standard⟩ [] hashedSource 0).reading =
        (parseLine ⟨.empty, .standard⟩ [] (Text.takeBytes 11 hashedSource) 0).reading := by
  have hc : ⟨.comment, "#b;".toList, 11, 0, none, false⟩ ∈ tokenize .empty hashedSource 0 := by decide +kernel
  have hne : (tokenize .empty hashedSource 0).filter Token.isSignificant ≠ [] := by decide +kernel
  refine ⟨by decide +kernel, ?_⟩
  exact (reading_parseLine_comment ⟨.empty, .standard⟩ [] hc rfl hne).1.mpr (by decide +kernel)

/-- a class path with a comment in it -/
def hashedSuper : Text :=
  ".super Lfoo#bar;".toList

/-- the exception: the class is read into the comment, and there is none without it -/
theorem not_reading_hashedSuper :
    ∃ c ∈ tokenize .builtin hashedSuper 0, c.kind = .comment ∧
      (tokenize .builtin hashedSuper 0).filter Token.isSignificant ≠ [] ∧
      (parseLine (.builtin .standard) [] hashedSuper 0).reading ≠
        (parseLine (.builtin .standard) [] (Text.takeBytes c.start hashedSuper) 0).reading ∧
      (parseLine (.builtin .standard) [] (Text.takeBytes c.start hashedSuper) 0).error.isSome = true ∧
      ∃ o ∈ (parseLine (.builtin .standard) [] hashedSuper 0).operands, c.span.start < o.span.stop := by
  rw [Language.builtin, Catalog.builtin_eq_spelled]
  refine ⟨⟨.comment, "#bar;".toList, 11, 0, none, false⟩, by decide +kernel, rfl, by decide +kernel, ?_,
    by decide +kernel, by decide +kernel⟩
  intro h
  have herror := congrArg Reading.error h
  revert herror
  decide +kernel

end Smali
