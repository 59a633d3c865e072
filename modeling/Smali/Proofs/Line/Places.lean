import Smali.Proofs.Token.Tiling
import Smali.Line

/-!
# The places of diagnostics

What is wrong with a line is found on that line, and it is never a matter of blocks.

* `Diagnostic.Own n`     the diagnostic is on line `n`, and its problem is one of the line itself;
* `Cursor.On n`          the tokens that are left are on line `n`;
* `Reader.Stays n A r`   on line `n`, the reader `r` gives values in `A` and leaves tokens of the line, or
                         fails with a diagnostic of the line;
* `Reader.Stays.bind`    the rule for readers that run one after the other, from which the lemma of each
                         reader follows its definition;
* `own_of_parseLine`     the diagnostic of a line is one of that line.
-/

namespace Smali

def Span.On (n : Nat) (s : Span) : Prop :=
  s.start.line = n ∧ s.stop.line = n

/-- whether the problem is one of a line itself, and not of the blocks around it -/
def Problem.isOwn : Problem → Bool
  | .unmatched _ | .unterminated _ => false
  | _ => true

/-- the diagnostic is one of line `n` itself -/
structure Diagnostic.Own (n : Nat) (e : Diagnostic) : Prop where
  place : e.span.On n
  problem : e.problem.isOwn = true

/-- the tokens that are left are on line `n` -/
structure Cursor.On (n : Nat) (c : Cursor) : Prop where
  number : c.number = n
  tokens : ∀ t ∈ c.tokens, t.line = n

section
variable {n : Nat}

theorem Token.span_on {t : Token} (h : t.line = n) : t.span.On n :=
  ⟨h, h⟩

theorem Cursor.On.here {c : Cursor} (hc : c.On n) : c.here.On n := by
  obtain ⟨line, number, tokens, stop⟩ := c
  cases tokens with
  | nil => exact ⟨hc.number, hc.number⟩
  | cons t ts => exact Token.span_on (hc.tokens t List.mem_cons_self)

theorem Cursor.On.expected {c : Cursor} (hc : c.On n) (what : Text) : (c.expected what).Own n :=
  ⟨hc.here, rfl⟩

/-- passing over tokens stays on the line -/
theorem Cursor.On.pass {c : Cursor} (hc : c.On n) {tokens : List Token} (h : tokens ⊆ c.tokens) :
    Cursor.On n { c with tokens } :=
  ⟨hc.number, fun t ht => hc.tokens t (h ht)⟩

end

namespace Reader

variable {α β : Type}

theorem run_get_bind (f : Cursor → Reader α) (c : Cursor) : (MonadState.get >>= f : Reader α) c = f c c := rfl

/-- a value in `A` and tokens of line `n` that are left, or a diagnostic of line `n` -/
def Outcome (n : Nat) (A : α → Prop) : Except Diagnostic (α × Cursor) → Prop
  | .ok (a, c) => A a ∧ c.On n
  | .error e => e.Own n

/-- On line `n`, the reader gives values in `A` and leaves tokens of the line, or fails with a diagnostic of
the line. -/
def Stays (n : Nat) (A : α → Prop) (r : Reader α) : Prop :=
  ∀ c : Cursor, c.On n → Outcome n A (r c)

/-- the same, with nothing said about the values -/
abbrev StaysOn (n : Nat) (r : Reader α) : Prop :=
  Stays n (fun _ => True) r

variable {n : Nat}

namespace Stays

theorem pure {A : α → Prop} {a : α} (h : A a) : Stays n A (Pure.pure a : Reader α) :=
  fun _ hc => ⟨h, hc⟩

theorem get : Stays n (Cursor.On n) (MonadState.get : Reader Cursor) :=
  fun _ hc => ⟨hc, hc⟩

theorem bind {A : α → Prop} {B : β → Prop} {x : Reader α} {f : α → Reader β} (hx : Stays n A x)
    (hf : ∀ a, A a → Stays n B (f a)) : Stays n B (x >>= f) := by
  intro c hc
  have hxc := hx c hc
  show Outcome n B (Except.bind (x c) fun p => f p.1 p.2)
  cases hr : x c with
  | error e =>
    rw [hr] at hxc
    exact hxc
  | ok p =>
    rw [hr] at hxc
    exact hf p.1 hxc.1 p.2 hxc.2

theorem ite {p : Prop} [Decidable p] {A : α → Prop} {x y : Reader α} (hx : Stays n A x) (hy : Stays n A y) :
    Stays n A (if p then x else y) := by
  split
  · exact hx
  · exact hy

end Stays

theorem staysOn_pure (a : α) : StaysOn n (pure a : Reader α) :=
  Stays.pure trivial

/-! ## where readers fail -/

theorem stays_fail {A : α → Prop} {p : Problem} (h : p.isOwn = true) : Stays n A (fail p : Reader α) :=
  fun _ hc => ⟨hc.here, h⟩

theorem stays_expected {A : α → Prop} (what : Text) : Stays n A (expected what : Reader α) :=
  fun _ hc => hc.expected what

theorem stays_failAt {A : α → Prop} {p : Problem} {span : Span} (hs : span.On n) (h : p.isOwn = true) :
    Stays n A (failAt span p : Reader α) :=
  fun _ _ => ⟨hs, h⟩

theorem passTo_subset {stop : Nat} {ts rest : List Token} (h : passTo stop ts = .ok rest) : rest ⊆ ts := by
  induction ts with
  | nil =>
    obtain rfl := Except.ok.inj h
    exact List.Subset.refl _
  | cons t ts ih =>
    rw [passTo] at h
    split at h
    · obtain rfl := Except.ok.inj h
      exact List.Subset.refl _
    · split at h
      · cases h
      · exact List.Subset.trans (ih h) (List.subset_cons_self _ _)

theorem stays_descriptor (what : Text) (read? : Text → Option (α × Text)) :
    Stays n (fun p => p.2.On n) (descriptor what read?) := by
  intro c hc
  unfold descriptor
  split
  · exact hc.expected what
  · split
    · exact hc.expected what
    · dsimp only
      split
      · rename_i h
        exact ⟨⟨hc.number, hc.number⟩, hc.pass (passTo_subset h)⟩
      · exact ⟨⟨hc.number, hc.number⟩, rfl⟩

/-! ## punctuation and words -/

theorem stays_advance : StaysOn n advance :=
  fun _ hc => ⟨trivial, hc.pass (List.tail_suffix _).subset⟩

theorem stays_atEnd : StaysOn n atEnd :=
  Stays.get.bind fun _ _ => staysOn_pure _

theorem stays_eat (text : Text) : StaysOn n (eat text) :=
  Stays.get.bind fun _ _ => (stays_advance.bind fun _ _ => staysOn_pure _).ite (staysOn_pure _)

theorem stays_eatWord (word : Text) : StaysOn n (eatWord word) :=
  Stays.get.bind fun _ _ => (stays_advance.bind fun _ _ => staysOn_pure _).ite (staysOn_pure _)

theorem stays_delimiter (text : Text) : StaysOn n (delimiter text) := by
  refine Stays.get.bind fun c _ => ?_
  split
  · exact (stays_advance.bind fun _ _ => staysOn_pure _).ite (stays_expected _)
  · exact stays_expected _

theorem stays_finish : StaysOn n finish := by
  refine Stays.get.bind fun c _ => ?_
  split
  · exact stays_fail rfl
  · exact staysOn_pure _

/-! ## plain operands -/

theorem stays_bareRegister : StaysOn n bareRegister := by
  refine Stays.get.bind fun c _ => ?_
  split
  · refine Stays.ite ?_ (stays_expected _)
    split
    · exact stays_advance.bind fun _ _ => staysOn_pure _
    · exact stays_fail rfl
  · exact stays_expected _

theorem stays_register : StaysOn n register :=
  stays_bareRegister.bind fun _ _ => staysOn_pure _

theorem stays_registers (m : Nat) : StaysOn n (registers m) := by
  induction m with
  | zero => exact staysOn_pure _
  | succ m ih =>
    refine stays_bareRegister.bind fun _ _ => (stays_eat _).bind fun _ _ => Stays.ite ?_ (staysOn_pure _)
    exact ih.bind fun _ _ => staysOn_pure _

theorem stays_registerList : StaysOn n registerList := by
  refine (stays_delimiter _).bind fun opening _ => Stays.get.bind fun c _ => ?_
  have close : ∀ rs : List Register, StaysOn n (do
      let closing ← delimiter "\x7d".toList
      return (⟨.registerList rs, opening.cover closing⟩ : Operand)) :=
    fun _ => (stays_delimiter _).bind fun _ _ => staysOn_pure _
  exact Stays.ite ((staysOn_pure _).bind fun rs _ => close rs) ((stays_registers _).bind fun rs _ => close rs)

theorem stays_registerRange : StaysOn n registerRange := by
  refine (stays_delimiter _).bind fun opening _ => Stays.get.bind fun c _ => Stays.ite ?_ ?_
  · exact (stays_delimiter _).bind fun _ _ => staysOn_pure _
  · refine stays_bareRegister.bind fun ⟨first, _⟩ _ => (stays_eat _).bind fun _ _ => ?_
    have close : ∀ last : Register, StaysOn n (do
        let closing ← delimiter "\x7d".toList
        return (⟨.registerRange ⟨first, last⟩, opening.cover closing⟩ : Operand)) :=
      fun _ => (stays_delimiter _).bind fun _ _ => staysOn_pure _
    exact Stays.ite ((stays_bareRegister.bind fun _ _ => staysOn_pure _).bind fun last _ => close last)
      ((staysOn_pure _).bind fun last _ => close last)

theorem stays_bareLiteral : Stays n (fun p => p.2.On n) bareLiteral := by
  refine Stays.get.bind fun c hc => ?_
  split
  · rename_i t ts htokens
    have ht : t.line = n := hc.tokens t (by rw [htokens]; exact List.mem_cons_self)
    refine Stays.ite ?_ (stays_expected _)
    split
    · exact stays_advance.bind fun _ _ => Stays.pure (Token.span_on ht)
    · exact stays_fail rfl
  · exact stays_expected _

theorem stays_literal : StaysOn n literal :=
  stays_bareLiteral.bind fun _ _ => staysOn_pure _

theorem stays_string : StaysOn n string := by
  refine Stays.get.bind fun c _ => ?_
  split
  · exact (stays_advance.bind fun _ _ => staysOn_pure _).ite (stays_expected _)
  · exact stays_expected _

theorem stays_bareLabel : StaysOn n bareLabel := by
  refine Stays.get.bind fun c _ => ?_
  split
  · refine Stays.ite ?_ (stays_expected _)
    exact stays_advance.bind fun _ _ => stays_advance.bind fun _ _ => staysOn_pure _
  · exact stays_expected _

theorem stays_label : StaysOn n label :=
  stays_bareLabel.bind fun _ _ => staysOn_pure _

theorem stays_labelRange : StaysOn n labelRange :=
  (stays_delimiter _).bind fun _ _ => stays_bareLabel.bind fun _ _ => (stays_delimiter _).bind fun _ _ =>
    stays_bareLabel.bind fun _ _ => (stays_delimiter _).bind fun _ _ => staysOn_pure _

theorem stays_index : StaysOn n index := by
  refine Stays.get.bind fun c _ => ?_
  split
  · refine Stays.ite ?_ (stays_expected _)
    refine stays_advance.bind fun _ _ => stays_advance.bind fun _ _ =>
      stays_bareLiteral.bind fun ⟨l, span⟩ hspan => ?_
    dsimp only
    split
    · exact staysOn_pure _
    · exact stays_failAt hspan rfl
  · exact stays_expected _

theorem stays_classType : StaysOn n classType :=
  (stays_descriptor _ _).bind fun ⟨_, _⟩ hspan => Stays.ite (stays_failAt hspan rfl) (staysOn_pure _)

/-! ## values -/

theorem stays_single (v : OperandValue) : StaysOn n (single v) :=
  Stays.get.bind fun _ _ => stays_advance.bind fun _ _ => staysOn_pure _

theorem stays_enumValue : StaysOn n enumValue :=
  Stays.get.bind fun _ _ => stays_advance.bind fun _ _ =>
    (stays_descriptor _ _).bind fun _ _ => staysOn_pure _

theorem stays_scalar (t : Token) : StaysOn n (scalar t) := by
  unfold scalar
  refine Stays.ite stays_literal ?_
  refine Stays.ite (Stays.ite (stays_single _) stays_string) ?_
  refine Stays.ite (stays_single _) (Stays.ite (stays_single _) (Stays.ite (stays_single _) ?_))
  refine Stays.ite stays_enumValue ?_
  exact (stays_descriptor _ _).bind fun _ _ => staysOn_pure _

/-- the two readers of values call each other with a smaller bound -/
theorem stays_valueWithin_and_elementsWithin (m : Nat) :
    StaysOn n (valueWithin m) ∧ StaysOn n (elementsWithin m) := by
  induction m with
  | zero => exact ⟨stays_expected _, stays_expected _⟩
  | succ m ih =>
    constructor
    · refine Stays.get.bind fun c _ => ?_
      split
      · exact stays_expected _
      · refine Stays.ite ?_ (stays_scalar _)
        refine (stays_delimiter _).bind fun opening _ => Stays.get.bind fun _ _ =>
          stays_atEnd.bind fun _ _ => ?_
        have close : ∀ elements : List Operand, StaysOn n (do
            let closing ← delimiter "\x7d".toList
            return (⟨.array elements, opening.cover closing⟩ : Operand)) :=
          fun _ => (stays_delimiter _).bind fun _ _ => staysOn_pure _
        refine Stays.ite ((staysOn_pure _).bind fun os _ => close os)
          (Stays.ite ?_ (ih.2.bind fun os _ => close os))
        exact Stays.bind (A := fun _ => True) (stays_expected _) fun os _ => close os
    · refine ih.1.bind fun v _ => (stays_eat _).bind fun _ _ => Stays.ite ?_ (staysOn_pure _)
      exact ih.2.bind fun _ _ => staysOn_pure _

theorem stays_inlineValue : StaysOn n inlineValue :=
  Stays.get.bind fun _ _ => (stays_valueWithin_and_elementsWithin _).1

theorem stays_elementValue : StaysOn n elementValue := by
  have complete : StaysOn n (do return ElementValue.complete (← inlineValue)) :=
    stays_inlineValue.bind fun _ _ => staysOn_pure _
  have annot : StaysOn n (do advance; return ElementValue.subannot (← classType)) :=
    stays_advance.bind fun _ _ => stays_classType.bind fun _ _ => staysOn_pure _
  refine Stays.get.bind fun c _ => ?_
  split
  · exact Stays.ite (stays_advance.bind fun _ _ => staysOn_pure _) (Stays.ite annot complete)
  · exact Stays.ite annot complete
  · exact stays_expected _

end Reader

namespace LineParser
open Reader

/-! ## the operands of directives, entries and instructions -/

section
variable {n : Nat}

theorem stays_count (what : Text) : StaysOn n (count what) := by
  intro c hc
  have hl := stays_bareLiteral c hc
  unfold count
  cases hr : bareLiteral c with
  | error e => exact hc.expected what
  | ok p =>
    obtain ⟨⟨l, span⟩, rest⟩ := p
    rw [hr] at hl
    dsimp only
    split
    · exact ⟨trivial, hl.2⟩
    · exact ⟨hl.1, rfl⟩

theorem stays_visibility : StaysOn n visibility := by
  refine Stays.get.bind fun c _ => ?_
  split
  · split
    · exact stays_single _
    · exact stays_expected _
  · exact stays_expected _

theorem stays_elementWidth : StaysOn n elementWidth := by
  refine stays_bareLiteral.bind fun ⟨l, span⟩ hspan => ?_
  dsimp only
  split
  · exact Stays.ite (staysOn_pure _) (stays_failAt hspan rfl)
  · exact stays_failAt hspan rfl

theorem stays_localName : StaysOn n localName := by
  refine Stays.get.bind fun c _ => ?_
  split
  · exact Stays.ite (stays_single _) stays_string
  · exact stays_string

theorem stays_elementName : StaysOn n elementName := by
  refine Stays.get.bind fun c _ => ?_
  split
  · exact Stays.ite (stays_single _) (stays_expected _)
  · exact stays_expected _

theorem stays_reference (kind : OperandKind) : StaysOn n (reference kind) :=
  (stays_descriptor _ _).bind fun ⟨_, _⟩ hspan => Stays.ite (staysOn_pure _) (stays_failAt hspan rfl)

theorem stays_operand (kind : OperandKind) : StaysOn n (operand kind) := by
  cases kind with
  | register => exact stays_register
  | registerList => exact stays_registerList
  | registerRange => exact stays_registerRange
  | literal => exact stays_literal
  | string => exact stays_string
  | type => exact (stays_descriptor _ _).bind fun _ _ => staysOn_pure _
  | field => exact stays_reference _
  | method => exact stays_reference _
  | label => exact stays_label
  | index => exact stays_index
  | proto => exact (stays_descriptor _ _).bind fun _ _ => staysOn_pure _

end

/-! ## parsers of lines -/

variable {α β : Type}

/-- a draft whose tokens that are left are on line `n`, or a diagnostic of line `n` -/
def Outcome (n : Nat) : EStateM.Result Diagnostic Draft α → Prop
  | .ok _ d => d.cursor.On n
  | .error e _ => e.Own n

/-- on line `n`, the parser leaves tokens of the line, or fails with a diagnostic of the line -/
def Stays (n : Nat) (p : LineParser α) : Prop :=
  ∀ d : Draft, d.cursor.On n → Outcome n (p d)

section
variable {n : Nat}

namespace Stays

theorem pure (a : α) : Stays n (Pure.pure a : LineParser α) :=
  fun _ hd => hd

theorem get : Stays n (MonadState.get : LineParser Draft) :=
  fun _ hd => hd

theorem bind {p : LineParser α} {f : α → LineParser β} (hp : Stays n p) (hf : ∀ a, Stays n (f a)) :
    Stays n (p >>= f) := by
  intro d hd
  have hpd := hp d hd
  show Outcome n (EStateM.bind p f d)
  unfold EStateM.bind
  cases hr : p d with
  | ok a d' =>
    rw [hr] at hpd
    exact hf a d' hpd
  | error e d' =>
    rw [hr] at hpd
    exact hpd

theorem bind_modify {g : Draft → Draft} {f : Unit → LineParser β} (hg : ∀ d, (g d).cursor = d.cursor)
    (hf : Stays n (f ())) : Stays n (modify g >>= f) := by
  intro d hd
  apply hf (g d)
  rw [hg]
  exact hd

theorem ite {c : Prop} [Decidable c] {p q : LineParser α} (hp : Stays n p) (hq : Stays n q) :
    Stays n (if c then p else q) := by
  split
  · exact hp
  · exact hq

theorem read {A : α → Prop} {r : Reader α} (hr : Reader.Stays n A r) : Stays n (read r) := by
  intro d hd
  have hrd := hr d.cursor hd
  unfold LineParser.read
  cases hc : r d.cursor with
  | ok p =>
    rw [hc] at hrd
    exact hrd.2
  | error e =>
    rw [hc] at hrd
    exact hrd

theorem push (o : Operand) : Stays n (push o) :=
  fun _ hd => hd

theorem setKind (kind : StatementKind) : Stays n (setKind kind) :=
  fun _ hd => hd

theorem setOpens (k : BlockKind) : Stays n (setOpens k) :=
  fun _ hd => hd

theorem setCloses (k : BlockKind) : Stays n (setCloses k) :=
  fun _ hd => hd

theorem add {r : Reader Operand} (hr : StaysOn n r) : Stays n (add r) :=
  (read hr).bind push

theorem addDescriptor (what : Text) (read? : Text → Option (α × Text)) (f : α → OperandValue) :
    Stays n (addDescriptor what read? f) :=
  add ((stays_descriptor _ _).bind fun _ _ => staysOn_pure _)

theorem eat (text : Text) : Stays n (eat text) :=
  read (stays_eat text)

theorem finish : Stays n finish :=
  read stays_finish

/-- citing a pattern changes neither the place nor the problem -/
theorem expecting (entry : Option Entry) {p : LineParser α} (hp : Stays n p) : Stays n (expecting entry p) := by
  intro d hd
  have hpd := hp d hd
  unfold LineParser.expecting
  cases hr : p d with
  | ok a d' =>
    rw [hr] at hpd
    exact hpd
  | error e d' =>
    rw [hr] at hpd
    cases entry with
    | none => exact hpd
    | some entry => exact ⟨hpd.place, hpd.problem⟩

end Stays

theorem cutFlags_subset (ts : List Token) : (cutFlags ts).2 ⊆ ts := by
  have h := List.subset_append_right (cutFlags ts).1 (cutFlags ts).2
  rwa [cutFlags_append] at h

theorem stays_flags : Stays n flags := by
  intro d hd
  have hrest : Cursor.On n { d.cursor with tokens := (cutFlags d.cursor.tokens).2 } :=
    hd.pass (cutFlags_subset _)
  unfold flags
  dsimp only [bind, EStateM.bind, get, getThe, MonadStateOf.get, EStateM.get]
  cases hcut : cutFlags d.cursor.tokens with
  | mk words rest =>
    rw [hcut] at hrest
    cases words with
    | nil => exact hd
    | cons t words => exact hrest

theorem stays_localVar : Stays n localVar := by
  refine (Stays.add stays_register).bind fun _ => (Stays.eat _).bind fun _ => Stays.ite ?_ (Stays.pure _)
  refine (Stays.add stays_localName).bind fun _ => (Stays.read (stays_delimiter _)).bind fun _ => ?_
  refine (Stays.addDescriptor _ _ _).bind fun _ => (Stays.eat _).bind fun _ => ?_
  exact Stays.ite (Stays.add stays_string) (Stays.pure _)

theorem stays_blockEnd : Stays n blockEnd := by
  refine (Stays.get.bind fun _ => Stays.pure _).bind fun t => ?_
  dsimp only
  split
  · exact Stays.read (A := fun _ => True) (stays_expected _)
  · refine (Stays.read stays_advance).bind fun _ => (Stays.setCloses _).bind fun _ => ?_
    exact Stays.ite ((Stays.eat _).bind fun _ => Stays.pure _) (Stays.pure _)

theorem stays_endOperands : Stays n (directiveOperands .endBlock) := by
  refine (Stays.read (stays_eatWord _)).bind fun _ => Stays.ite ?_ stays_blockEnd
  exact (Stays.setKind _).bind fun _ => Stays.add stays_register

theorem stays_directiveOperands (d : Directive) : Stays n (directiveOperands d) := by
  cases d with
  | classDecl => exact stays_flags.bind fun _ => Stays.add stays_classType
  | superclass | implements | subannot => exact Stays.add stays_classType
  | source => exact Stays.add stays_string
  | field =>
    refine stays_flags.bind fun _ => (Stays.addDescriptor _ _ _).bind fun _ => (Stays.eat _).bind fun _ => ?_
    exact Stays.ite (Stays.add stays_inlineValue) (Stays.pure _)
  | method => exact stays_flags.bind fun _ => Stays.addDescriptor _ _ _
  | locals | registers | line => exact Stays.add (stays_count _)
  | param =>
    refine (Stays.add stays_register).bind fun _ => (Stays.eat _).bind fun _ => ?_
    exact Stays.ite (Stays.add stays_string) (Stays.pure _)
  | annot => exact (Stays.add stays_visibility).bind fun _ => Stays.add stays_classType
  | enumValue => exact Stays.addDescriptor _ _ _
  | catchType =>
    exact (Stays.add stays_classType).bind fun _ => (Stays.add stays_labelRange).bind fun _ =>
      Stays.add stays_label
  | catchAll => exact (Stays.add stays_labelRange).bind fun _ => Stays.add stays_label
  | arrayData => exact Stays.add stays_elementWidth
  | packedSwitch => exact Stays.add stays_literal
  | sparseSwitch | prologue | epilogue => exact Stays.pure _
  | localVar => exact stays_localVar
  | endBlock | endLocal => exact stays_endOperands
  | restartLocal =>
    refine (Stays.read (stays_eatWord _)).bind fun _ => Stays.ite (Stays.add stays_register) ?_
    exact Stays.read (A := fun _ => True) (stays_expected _)

theorem stays_directive (catalog : Catalog) {head : Token} (hhead : head.line = n) :
    Stays n (directive catalog head) := by
  refine (Stays.read stays_advance).bind fun _ => ?_
  split
  · exact Stays.read (A := fun _ => True) (stays_failAt (Token.span_on hhead) rfl)
  · refine Stays.bind_modify ?_ (Stays.expecting _ ?_)
    · exact fun _ => rfl
    exact (stays_directiveOperands _).bind fun _ => Stays.finish

/-! ## instructions and entries -/

theorem stays_moreOperands (ks : List OperandKind) : Stays n (moreOperands ks) := by
  induction ks with
  | nil => exact Stays.pure _
  | cons k ks ih =>
    exact (Stays.read (stays_delimiter _)).bind fun _ => (Stays.add (stays_operand k)).bind fun _ => ih

theorem stays_operands (ks : List OperandKind) : Stays n (operands ks) := by
  cases ks with
  | nil => exact Stays.pure _
  | cons k ks => exact (Stays.add (stays_operand k)).bind fun _ => stays_moreOperands ks

theorem stays_instruction (odex : Bool) (entry : Entry) {head : Token} (hhead : head.line = n) :
    Stays n (instruction odex entry head) := by
  refine (Stays.read stays_advance).bind fun _ => Stays.bind_modify ?_ (Stays.expecting _ ?_)
  · exact fun _ => rfl
  have rest : Stays n (do operands entry.operandKinds; finish) :=
    (stays_operands _).bind fun _ => Stays.finish
  refine Stays.ite ?_ rest
  exact (Stays.read (A := fun _ => True) (stays_failAt (Token.span_on hhead) rfl)).bind fun _ => rest

theorem stays_moreLiterals (m : Nat) : Stays n (moreLiterals m) := by
  induction m with
  | zero => exact Stays.pure _
  | succ m ih =>
    refine (Stays.read stays_atEnd).bind fun _ => Stays.ite (Stays.pure _) ?_
    exact (Stays.eat _).bind fun _ => (Stays.add stays_literal).bind fun _ => ih

theorem stays_arrayEntry : Stays n arrayEntry :=
  (Stays.setKind _).bind fun _ => (Stays.add stays_literal).bind fun _ =>
    Stays.get.bind fun _ => stays_moreLiterals _

theorem stays_packedSwitchEntry : Stays n packedSwitchEntry :=
  (Stays.setKind _).bind fun _ => (Stays.add stays_label).bind fun _ => Stays.finish

theorem stays_sparseSwitchEntry : Stays n sparseSwitchEntry :=
  (Stays.setKind _).bind fun _ => (Stays.add stays_literal).bind fun _ =>
    (Stays.read (stays_delimiter _)).bind fun _ => (Stays.add stays_label).bind fun _ => Stays.finish

theorem stays_elementValueLine : Stays n elementValue := by
  refine (Stays.read stays_elementValue).bind fun v => ?_
  cases v with
  | complete o => exact Stays.push o
  | openArray => exact Stays.setOpens _
  | subannot type => exact (Stays.push type).bind fun _ => Stays.setOpens _

theorem stays_element : Stays n element :=
  (Stays.setKind _).bind fun _ => (Stays.add stays_elementName).bind fun _ =>
    (Stays.read (stays_delimiter _)).bind fun _ => stays_elementValueLine.bind fun _ => Stays.finish

theorem stays_arrayElement : Stays n arrayElement := by
  refine (Stays.setKind _).bind fun _ => (Stays.eat _).bind fun _ => Stays.ite ?_ ?_
  · exact (Stays.setCloses _).bind fun _ => Stays.finish
  · exact stays_elementValueLine.bind fun _ => (Stays.eat _).bind fun _ => Stays.finish

/-! ## the line -/

theorem stays_codeLine (language : Language) {head : Token} (hhead : head.line = n) :
    Stays n (codeLine language head) := by
  have fails : ∀ p : Problem, p.isOwn = true → Stays n (read (fail p : Reader Unit)) :=
    fun p hp => Stays.read (A := fun _ => True) (stays_fail hp)
  refine Stays.ite (fails _ rfl) (Stays.ite ?_ ?_)
  · exact (Stays.setKind _).bind fun _ => (Stays.add stays_label).bind fun _ => Stays.finish
  · split
    · exact stays_instruction _ _ hhead
    · exact Stays.ite (fails _ rfl) (fails _ rfl)

theorem stays_statement (language : Language) (stack : BlockStack) {head : Token} (hhead : head.line = n) :
    Stays n (statement language stack head) := by
  refine Stays.ite (stays_directive _ hhead) ?_
  split
  · exact stays_arrayEntry
  · exact stays_packedSwitchEntry
  · exact stays_sparseSwitchEntry
  · exact stays_element
  · exact stays_element
  · exact stays_arrayElement
  · exact stays_codeLine language hhead

end
end LineParser

theorem Token.isOwn_problem (t : Token) : t.problem.isOwn = true := by
  unfold Token.problem
  split
  · rfl
  · split
    · rfl
    · split <;> rfl

theorem line_of_mem_tokenize {catalog : Catalog} {line : Text} {number : Nat} {t : Token}
    (h : t ∈ tokenize catalog line number) : t.line = number :=
  Lexer.forall_mem_tokens catalog (P := fun _ number t => t.line = number)
    (fun _ _ _ h => (Lexer.line_of_lex h).1) (Lexer.start line number) t (mem_tokenizeWith.mp h).1

/-- **The diagnostic of a line** is on that line, and it is neither that of an end without a block nor that
of a block without an end. -/
theorem own_of_parseLine {language : Language} {stack : BlockStack} {line : Text} {number : Nat}
    {e : Diagnostic} (h : (parseLine language stack line number).error = some e) : e.Own number := by
  have htokens : ∀ t ∈ (tokenize language.catalog line number).filter Token.isSignificant, t.line = number :=
    fun t ht => line_of_mem_tokenize (List.mem_filter.mp ht).1
  unfold parseLine at h
  dsimp only at h
  generalize (tokenize language.catalog line number).filter Token.isSignificant = tokens at h htokens
  cases tokens with
  | nil =>
    dsimp only at h
    split at h <;> cases h
  | cons head more =>
    dsimp only at h
    split at h
    · rename_i bad hbad
      obtain rfl := Option.some.inj h
      exact ⟨Token.span_on (htokens bad (List.mem_of_find?_eq_some hbad)), bad.isOwn_problem⟩
    · have hstays := LineParser.stays_statement language stack (htokens head List.mem_cons_self)
        (Draft.start ⟨line, number, head :: more, ((head :: more).getLast?.map Token.stop).getD 0⟩)
        ⟨rfl, htokens⟩
      split at h
      · cases h
      · rename_i e' d hd
        rw [hd] at hstays
        obtain rfl := Option.some.inj h
        exact hstays

end Smali
