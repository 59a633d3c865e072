import Smali.Proofs.Line.Faults

/-!
# What a line can be

Whether a line could be read or not, what its statement says about its kind, its keyword and its block is
one of a few things.  Everything that nesting depends on is read off here.

* `Header`              kind, keyword, entry and blocks of a statement or a draft;
* `Header.Shape`        what a line can be;
* `LineParser.Yields p h H`  from a draft with header `h` the parser `p` comes to a header in `H`, also when
                        it fails, and it fails with local diagnostics only;
* `Language.IsLine`     the statement of some line: its header is one of the shapes, or that shape with the
                        kind `error`, and its diagnostic is local (`shape_and_local`);
* `Reading`             header, operands and diagnostic of a statement, which `reading_parseLine` reads off the
                        tokens that belong to the statement.
-/

namespace Smali

/-- what a statement says about its kind, its keyword and its block -/
structure Header where
  kind : StatementKind
  keyword : Option Text
  opcode : Option Entry
  opens : Option BlockKind
  closes : Option BlockKind

def Draft.header (d : Draft) : Header := ⟨d.kind, d.keyword, d.opcode, d.opens, d.closes⟩

def Statement.header (s : Statement) : Header := ⟨s.kind, s.keyword, s.opcode, s.opens, s.closes⟩

/-- what a line can be -/
inductive Header.Shape (catalog : Catalog) : Header → Prop
  /-- a line without keyword that neither opens nor closes a block -/
  | plain (kind : StatementKind)
      (hk : kind = .blank ∨ kind = .comment ∨ kind = .label ∨ kind = .entry) :
      Shape catalog ⟨kind, none, none, none, none⟩
  /-- an element whose value goes on in the next lines -/
  | openValue (k : BlockKind) (hk : k = .valueArray ∨ k = .subannot) :
      Shape catalog ⟨.entry, none, none, some k, none⟩
  /-- the brace after an array of values -/
  | closeValue : Shape catalog ⟨.entry, none, none, none, some .valueArray⟩
  | instruction (word : Text) (entry : Entry) (h : catalog.instruction? word = some entry) :
      Shape catalog ⟨.instruction, some word, some entry, none, none⟩
  | directive (word : Text) (d : Directive) (h : Directive.ofKeyword? word = some d) :
      Shape catalog ⟨.directive d, some word, catalog.lookup word, d.opens?, none⟩
  /-- the end of a local variable -/
  | endLocal (word : Text) (h : Directive.ofKeyword? word = some .endBlock) :
      Shape catalog ⟨.directive .endLocal, some word, catalog.lookup word, none, none⟩
  /-- the end of a block -/
  | blockEnd (word : Text) (k : BlockKind) (h : Directive.ofKeyword? word = some .endBlock) :
      Shape catalog ⟨.directive .endBlock, some word, catalog.lookup word, none, some k⟩

/-- no keyword stands for the directive that only its second word makes -/
theorem Directive.ofKeyword?_ne_endLocal (word : Text) : ofKeyword? word ≠ some .endLocal := by
  intro h
  have := List.mem_of_find?_eq_some h
  revert this
  decide

namespace LineParser
open Reader

variable {α β : Type}

theorem run_bind_ok {p : LineParser α} {f : α → LineParser β} {d d' : Draft} {a : α} (h : p d = .ok a d') :
    (p >>= f) d = f a d' := by
  show EStateM.bind p f d = _
  rw [EStateM.bind, h]

theorem run_bind_error {p : LineParser α} {f : α → LineParser β} {d d' : Draft} {e : Diagnostic}
    (h : p d = .error e d') : (p >>= f) d = .error e d' := by
  show EStateM.bind p f d = _
  rw [EStateM.bind, h]

theorem run_read_ok {r : Reader α} {d : Draft} {a : α} {c : Cursor} (h : r d.cursor = .ok (a, c)) :
    read r d = .ok a { d with cursor := c } := by
  rw [read, h]

theorem run_read_error {r : Reader α} {d : Draft} {e : Diagnostic} (h : r d.cursor = .error e) :
    read r d = .error e d := by
  rw [read, h]

/-- From a draft with header `h`, the parser comes to a header in `H`, also when it fails, and it fails
with local diagnostics only. -/
def Yields (p : LineParser α) (h : Header) (H : Header → Prop) : Prop :=
  ∀ d, d.header = h →
    match p d with
    | .ok _ d' => H d'.header
    | .error e d' => H d'.header ∧ e.IsLocal

/-- the parser leaves the header alone -/
def Keeps (p : LineParser α) : Prop :=
  ∀ h, Yields p h (· = h)

theorem Keeps.yields {p : LineParser α} (hp : Keeps p) {h : Header} {H : Header → Prop} (hh : H h) :
    Yields p h H := by
  intro d hd
  have hpd := hp h d hd
  cases hr : p d with
  | ok a d' =>
    rw [hr] at hpd
    have hd' : d'.header = h := hpd
    show H d'.header
    rw [hd']
    exact hh
  | error e d' =>
    rw [hr] at hpd
    have hd' : d'.header = h := hpd.1
    refine ⟨?_, hpd.2⟩
    rw [hd']
    exact hh

namespace Yields

theorem bind {p : LineParser α} {f : α → LineParser β} {h : Header} {H : Header → Prop}
    (hp : Keeps p) (hh : H h) (hf : ∀ a, Yields (f a) h H) : Yields (p >>= f) h H := by
  intro d hd
  have hpd := hp h d hd
  change match EStateM.bind p f d with
    | .ok _ d' => H d'.header
    | .error e d' => H d'.header ∧ e.IsLocal
  unfold EStateM.bind
  cases hr : p d with
  | ok a d' =>
    rw [hr] at hpd
    exact hf a d' hpd
  | error e d' =>
    rw [hr] at hpd
    have hd' : d'.header = h := hpd.1
    refine ⟨?_, hpd.2⟩
    rw [hd']
    exact hh

theorem bind_modify {g : Draft → Draft} {f : Unit → LineParser β} {h : Header} (h' : Header)
    {H : Header → Prop} (hg : ∀ d, d.header = h → (g d).header = h') (hf : Yields (f ()) h' H) :
    Yields (modify g >>= f) h H := by
  intro d hd
  exact hf (g d) (hg d hd)

theorem bind_keeps {p : LineParser α} {f : α → LineParser β} {h : Header} {H : Header → Prop}
    (hp : Yields p h H) (hf : ∀ a, Keeps (f a)) : Yields (p >>= f) h H := by
  intro d hd
  have hpd := hp d hd
  change match EStateM.bind p f d with
    | .ok _ d' => H d'.header
    | .error e d' => H d'.header ∧ e.IsLocal
  unfold EStateM.bind
  cases hr : p d with
  | ok a d' =>
    rw [hr] at hpd
    exact (hf a).yields hpd d' rfl
  | error e d' =>
    rw [hr] at hpd
    exact hpd

theorem ite {c : Prop} [Decidable c] {p q : LineParser α} {h : Header} {H : Header → Prop}
    (hp : Yields p h H) (hq : Yields q h H) : Yields (if c then p else q) h H := by
  split
  · exact hp
  · exact hq

end Yields

/-! ## parsers that leave the header alone -/

namespace Keeps

theorem bind {p : LineParser α} {f : α → LineParser β} (hp : Keeps p) (hf : ∀ a, Keeps (f a)) :
    Keeps (p >>= f) :=
  fun h => Yields.bind hp rfl fun a => hf a h

theorem pure (a : α) : Keeps (Pure.pure a : LineParser α) :=
  fun _ _ hd => hd

theorem get : Keeps (MonadState.get : LineParser Draft) :=
  fun _ _ hd => hd

theorem ite {c : Prop} [Decidable c] {p q : LineParser α} (hp : Keeps p) (hq : Keeps q) :
    Keeps (if c then p else q) :=
  fun h => (hp h).ite (hq h)

end Keeps

theorem keeps_read {r : Reader α} (hr : Local r) : Keeps (read r) := by
  intro h d hd
  unfold read
  cases hc : r d.cursor with
  | ok p => exact hd
  | error e => exact ⟨hd, hr _ _ hc⟩

theorem keeps_push (o : Operand) : Keeps (push o) :=
  fun _ _ hd => hd

theorem keeps_add {r : Reader Operand} (hr : Local r) : Keeps (add r) :=
  (keeps_read hr).bind keeps_push

theorem keeps_addDescriptor (what : Text) (read? : Text → Option (α × Text))
    (f : α → OperandValue) : Keeps (addDescriptor what read? f) :=
  keeps_add ((local_descriptor _ _).bind fun _ => Local.pure _)

theorem keeps_eat (text : Text) : Keeps (eat text) :=
  keeps_read (local_eat text)

theorem keeps_finish : Keeps finish :=
  keeps_read local_finish

theorem keeps_flags : Keeps flags := by
  refine Keeps.get.bind fun d => ?_
  dsimp only
  split
  · exact Keeps.pure _
  · exact fun h => Yields.bind_modify h (fun _ hd => hd) (keeps_push _ h)

theorem yields_expecting {p : LineParser α} {h : Header} {H : Header → Prop} (entry : Option Entry)
    (hp : Yields p h H) : Yields (expecting entry p) h H := by
  intro d hd
  have hpd := hp d hd
  unfold expecting
  cases hr : p d with
  | ok a d' =>
    rw [hr] at hpd
    exact hpd
  | error e d' =>
    rw [hr] at hpd
    cases entry with
    | none => exact hpd
    | some entry => exact hpd

theorem keeps_localVar : Keeps localVar := by
  refine (keeps_add local_register).bind fun _ => (keeps_eat _).bind fun _ => ?_
  refine Keeps.ite ?_ (Keeps.pure _)
  refine (keeps_add local_localName).bind fun _ => (keeps_read (local_delimiter _)).bind fun _ => ?_
  refine (keeps_addDescriptor _ _ _).bind fun _ => (keeps_eat _).bind fun _ => ?_
  exact Keeps.ite (keeps_add local_string) (Keeps.pure _)

theorem keeps_moreOperands (ks : List OperandKind) : Keeps (moreOperands ks) := by
  induction ks with
  | nil => exact Keeps.pure _
  | cons k ks ih =>
    exact (keeps_read (local_delimiter _)).bind fun _ => (keeps_add (local_operand k)).bind fun _ => ih

theorem keeps_operands (ks : List OperandKind) : Keeps (operands ks) := by
  cases ks with
  | nil => exact Keeps.pure _
  | cons k ks => exact (keeps_add (local_operand k)).bind fun _ => keeps_moreOperands ks

theorem keeps_moreLiterals (n : Nat) : Keeps (moreLiterals n) := by
  induction n with
  | zero => exact Keeps.pure _
  | succ n ih =>
    refine (keeps_read local_atEnd).bind fun _ => Keeps.ite (Keeps.pure _) ?_
    exact (keeps_eat _).bind fun _ => (keeps_add local_literal).bind fun _ => ih

theorem keeps_directiveOperands {d : Directive} (h1 : d ≠ .endBlock) (h2 : d ≠ .endLocal) :
    Keeps (directiveOperands d) := by
  cases d with
  | classDecl => exact keeps_flags.bind fun _ => keeps_add local_classType
  | superclass => exact keeps_add local_classType
  | implements => exact keeps_add local_classType
  | source => exact keeps_add local_string
  | field =>
    refine keeps_flags.bind fun _ => (keeps_addDescriptor _ _ _).bind fun _ => ?_
    exact (keeps_eat _).bind fun _ => Keeps.ite (keeps_add local_inlineValue) (Keeps.pure _)
  | method => exact keeps_flags.bind fun _ => keeps_addDescriptor _ _ _
  | locals => exact keeps_add (local_count _)
  | registers => exact keeps_add (local_count _)
  | param =>
    refine (keeps_add local_register).bind fun _ => (keeps_eat _).bind fun _ => ?_
    exact Keeps.ite (keeps_add local_string) (Keeps.pure _)
  | annot => exact (keeps_add local_visibility).bind fun _ => keeps_add local_classType
  | subannot => exact keeps_add local_classType
  | enumValue => exact keeps_addDescriptor _ _ _
  | catchType =>
    exact (keeps_add local_classType).bind fun _ => (keeps_add local_labelRange).bind fun _ =>
      keeps_add local_label
  | catchAll => exact (keeps_add local_labelRange).bind fun _ => keeps_add local_label
  | arrayData => exact keeps_add local_elementWidth
  | packedSwitch => exact keeps_add local_literal
  | sparseSwitch => exact Keeps.pure _
  | prologue => exact Keeps.pure _
  | epilogue => exact Keeps.pure _
  | line => exact keeps_add (local_count _)
  | localVar => exact keeps_localVar
  | restartLocal =>
    refine (keeps_read (local_eatWord _)).bind fun _ => ?_
    exact Keeps.ite (keeps_add local_register) (keeps_read (local_expected _))
  | endLocal => exact absurd rfl h2
  | endBlock => exact absurd rfl h1

/-! ## parsers that write the header -/

theorem yields_setKind {kind : StatementKind} {h : Header} {H : Header → Prop}
    (hh : H { h with kind }) : Yields (setKind kind) h H := by
  rintro d rfl
  exact hh

theorem yields_setOpens {k : BlockKind} {h : Header} {H : Header → Prop}
    (hh : H { h with opens := some k }) : Yields (setOpens k) h H := by
  rintro d rfl
  exact hh

theorem yields_setCloses {k : BlockKind} {h : Header} {H : Header → Prop}
    (hh : H { h with closes := some k }) : Yields (setCloses k) h H := by
  rintro d rfl
  exact hh

/-- the header before anything is read -/
def start : Header := ⟨.blank, none, none, none, none⟩

/-- the header of an entry -/
def entryHeader : Header := ⟨.entry, none, none, none, none⟩

section
variable {catalog : Catalog}

theorem shape_start : start.Shape catalog := .plain _ (.inl rfl)

theorem shape_entryHeader : entryHeader.Shape catalog := .plain _ (.inr (.inr (.inr rfl)))

theorem yields_instruction (odex : Bool) {entry : Entry} {head : Token} {H : Header → Prop}
    (h0 : H start) (hs : H ⟨.instruction, some head.text, some entry, none, none⟩) :
    Yields (instruction odex entry head) start H := by
  refine Yields.bind (keeps_read local_advance) h0 fun _ => ?_
  refine Yields.bind_modify ⟨.instruction, some head.text, some entry, none, none⟩ ?_ ?_
  · intro d hd
    injection hd with _ _ _ ho hc
    rw [Draft.header, ho, hc]
  · have rest : Keeps (do operands entry.operandKinds; finish) :=
      (keeps_operands _).bind fun _ => keeps_finish
    refine yields_expecting _ (Keeps.yields (Keeps.ite ?_ rest) hs)
    refine (keeps_read (local_failAt _ ?_)).bind fun _ => rest
    exact nofun

/-! ## entries -/

theorem yields_bind_entry {f : Unit → LineParser β} {H : Header → Prop}
    (hf : Yields (f ()) entryHeader H) : Yields (setKind .entry >>= f) start H := by
  refine Yields.bind_modify entryHeader ?_ hf
  intro d hd
  injection hd with _ hk ho hs hc
  rw [Draft.header, hk, ho, hs, hc]
  rfl

section
variable {H : Header → Prop} (h0 : H entryHeader)
include h0

theorem yields_arrayEntry : Yields arrayEntry start H := by
  refine Yields.bind_keeps (yields_setKind h0) fun _ => ?_
  exact (keeps_add local_literal).bind fun _ => Keeps.get.bind fun _ => keeps_moreLiterals _

theorem yields_packedSwitchEntry : Yields packedSwitchEntry start H := by
  refine Yields.bind_keeps (yields_setKind h0) fun _ => ?_
  exact (keeps_add local_label).bind fun _ => keeps_finish

theorem yields_sparseSwitchEntry : Yields sparseSwitchEntry start H := by
  refine Yields.bind_keeps (yields_setKind h0) fun _ => ?_
  refine (keeps_add local_literal).bind fun _ => (keeps_read (local_delimiter _)).bind fun _ => ?_
  exact (keeps_add local_label).bind fun _ => keeps_finish

variable (hopen : ∀ k, k = .valueArray ∨ k = .subannot → H ⟨.entry, none, none, some k, none⟩)
include hopen

theorem yields_elementValue : Yields elementValue entryHeader H := by
  refine Yields.bind (keeps_read local_elementValue) h0 fun v => ?_
  cases v with
  | complete o => exact (keeps_push o).yields h0
  | openArray => exact yields_setOpens (hopen .valueArray (.inl rfl))
  | subannot type =>
    refine Yields.bind (keeps_push type) h0 fun _ => ?_
    exact yields_setOpens (hopen .subannot (.inr rfl))

theorem yields_element : Yields element start H := by
  refine yields_bind_entry ?_
  refine Yields.bind (keeps_add local_elementName) h0 fun _ => ?_
  refine Yields.bind (keeps_read (local_delimiter _)) h0 fun _ => ?_
  exact (yields_elementValue h0 hopen).bind_keeps fun _ => keeps_finish

theorem yields_arrayElement (hclose : H ⟨.entry, none, none, none, some .valueArray⟩) :
    Yields arrayElement start H := by
  refine yields_bind_entry (Yields.bind (keeps_eat _) h0 fun _ => Yields.ite ?_ ?_)
  · exact (yields_setCloses hclose).bind_keeps fun _ => keeps_finish
  · exact (yields_elementValue h0 hopen).bind_keeps fun _ => (keeps_eat _).bind fun _ => keeps_finish

end

/-! ## directives -/

/-- after `.end`, the second word says whether a block or a local variable ends -/
theorem yields_endOperands {word : Option Text} {entry : Option Entry} {H : Header → Prop}
    (hs : H ⟨.directive .endBlock, word, entry, none, none⟩)
    (hl : H ⟨.directive .endLocal, word, entry, none, none⟩)
    (hb : ∀ k, H ⟨.directive .endBlock, word, entry, none, some k⟩) :
    Yields (directiveOperands .endBlock) ⟨.directive .endBlock, word, entry, none, none⟩ H := by
  refine Yields.bind (keeps_read (local_eatWord _)) hs fun _ => Yields.ite ?_ ?_
  · exact (yields_setKind hl).bind_keeps fun _ => keeps_add local_register
  · refine Yields.bind (Keeps.get.bind fun _ => Keeps.pure _) hs fun _ => ?_
    dsimp only
    split
    · exact (keeps_read (local_expected _)).yields hs
    · refine Yields.bind (keeps_read local_advance) hs fun _ => ?_
      refine (yields_setCloses (hb _)).bind_keeps fun _ => ?_
      exact Keeps.ite ((keeps_eat _).bind fun _ => Keeps.pure _) (Keeps.pure _)

/-- a directive other than `.end` leaves its header as its keyword decides it -/
theorem yields_directive {head : Token} {H : Header → Prop} (h0 : H start)
    (hd : ∀ d, Directive.ofKeyword? head.text = some d → d ≠ .endBlock →
      H ⟨.directive d, some head.text, catalog.lookup head.text, d.opens?, none⟩)
    (hend : Directive.ofKeyword? head.text = some .endBlock → Yields (directiveOperands .endBlock)
      ⟨.directive .endBlock, some head.text, catalog.lookup head.text, none, none⟩ H) :
    Yields (directive catalog head) start H := by
  refine Yields.bind (keeps_read local_advance) h0 fun _ => ?_
  split
  · refine (keeps_read (local_failAt _ ?_)).yields h0
    exact nofun
  · rename_i d hw
    refine Yields.bind_modify
      ⟨.directive d, some head.text, catalog.lookup head.text, d.opens?, none⟩ ?_ ?_
    · intro s hs
      injection hs with _ _ _ _ hc
      rw [Draft.header, hc]
    · refine yields_expecting _ (Yields.bind_keeps ?_ fun _ => keeps_finish)
      by_cases he : d = .endBlock
      · subst he
        exact hend hw
      · have hl : d ≠ .endLocal := fun e => Directive.ofKeyword?_ne_endLocal _ (e ▸ hw)
        exact (keeps_directiveOperands he hl).yields (hd d hw he)

/-! ## the line -/

theorem yields_codeLine (language : Language) {head : Token} {H : Header → Prop} (h0 : H start)
    (hl : H ⟨.label, none, none, none, none⟩)
    (hi : ∀ entry, language.catalog.instruction? head.text = some entry →
      H ⟨.instruction, some head.text, some entry, none, none⟩) :
    Yields (codeLine language head) start H := by
  refine Yields.ite ((keeps_read (local_fail ?_)).yields h0) (Yields.ite ?_ ?_)
  · exact nofun
  · refine Yields.bind_keeps (yields_setKind hl) fun _ => ?_
    exact (keeps_add local_label).bind fun _ => keeps_finish
  · split
    · rename_i entry he
      exact yields_instruction _ h0 (hi entry (Option.ite_none_right_eq_some.mp he).2)
    · refine Keeps.yields (Keeps.ite (keeps_read (local_fail ?_)) (keeps_read (local_fail ?_))) h0
      · exact nofun
      · exact nofun

theorem yields_statement (language : Language) (stack : BlockStack) (head : Token) :
    Yields (statement language stack head) start (Header.Shape language.catalog) := by
  refine Yields.ite ?_ ?_
  · refine yields_directive shape_start ?_ fun hw => ?_
    · exact fun d hw _ => .directive head.text d hw
    · exact yields_endOperands (.directive _ _ hw) (.endLocal _ hw) fun k => .blockEnd _ k hw
  split
  · exact yields_arrayEntry shape_entryHeader
  · exact yields_packedSwitchEntry shape_entryHeader
  · exact yields_sparseSwitchEntry shape_entryHeader
  · exact yields_element shape_entryHeader .openValue
  · exact yields_element shape_entryHeader .openValue
  · exact yields_arrayElement shape_entryHeader .openValue .closeValue
  · refine yields_codeLine language shape_start (.plain .label (.inr (.inr (.inl rfl)))) ?_
    exact fun entry he => .instruction head.text entry he

end
end LineParser

/-! ## statements of lines -/

theorem Token.isLocal_problem (t : Token) : Diagnostic.IsLocal ⟨t.problem, t.span, none⟩ := by
  unfold Token.problem
  split
  · exact nofun
  · split
    · exact nofun
    · split <;> exact nofun

/-- the statement of some line -/
def Language.IsLine (language : Language) (s : Statement) : Prop :=
  ∃ stack line number, s = parseLine language stack line number

namespace Language.IsLine

variable {language : Language} {s : Statement}

/-- **What a line can be.**  The header of a line is one of the shapes, or that shape with the kind
`error`, and the diagnostic of a line is one of the line itself. -/
theorem shape_and_local (hs : language.IsLine s) :
    (∃ h : Header, h.Shape language.catalog ∧ (s.header = h ∨ s.header = { h with kind := .error })) ∧
      ∀ e, s.error = some e → e.IsLocal := by
  obtain ⟨stack, line, number, rfl⟩ := hs
  unfold parseLine
  dsimp only
  split
  · refine ⟨?_, ?_⟩
    · split
      · exact ⟨_, .plain .comment (.inr (.inl rfl)), .inl rfl⟩
      · exact ⟨_, .plain .blank (.inl rfl), .inl rfl⟩
    · split <;> exact nofun
  · split
    · refine ⟨⟨_, .plain .blank (.inl rfl), .inr rfl⟩, ?_⟩
      intro e he
      obtain rfl := Option.some.inj he
      exact Token.isLocal_problem _
    · rename_i head more _ _ _
      have hy := LineParser.yields_statement language stack head
        (Draft.start ⟨line, number, head :: more, ((head :: more).getLast?.map Token.stop).getD 0⟩) rfl
      split
      · rename_i d hd
        rw [hd] at hy
        exact ⟨⟨_, hy, .inl rfl⟩, nofun⟩
      · rename_i e d hd
        rw [hd] at hy
        refine ⟨⟨_, hy.1, .inr rfl⟩, ?_⟩
        intro e' he'
        obtain rfl := Option.some.inj he'
        exact hy.2

theorem isLocal (hs : language.IsLine s) {e : Diagnostic} (he : s.error = some e) : e.IsLocal :=
  hs.shape_and_local.2 e he

theorem exists_shape (hs : language.IsLine s) :
    ∃ h : Header, h.Shape language.catalog ∧ s.keyword = h.keyword ∧ s.opcode = h.opcode ∧
      s.opens = h.opens ∧ s.closes = h.closes ∧ (s.kind = h.kind ∨ s.kind = .error) := by
  obtain ⟨h, hh, he⟩ := hs.shape_and_local.1
  refine ⟨h, hh, ?_⟩
  rcases he with rfl | he
  · exact ⟨rfl, rfl, rfl, rfl, .inl rfl⟩
  · injection he with hk hw ho hs hc
    exact ⟨hw, ho, hs, hc, .inr hk⟩

theorem opens_eq_none (hs : language.IsLine s) {k : BlockKind} (hc : s.closes = some k) :
    s.opens = none := by
  obtain ⟨h, hh, -, -, ho, hc', -⟩ := hs.exists_shape
  rw [hc] at hc'
  rw [ho]
  cases hh with
  | closeValue => rfl
  | blockEnd word k h => rfl
  | plain | openValue | instruction | directive | endLocal => cases hc'

theorem kind_ne_label (hs : language.IsLine s) {k : BlockKind} (hc : s.closes = some k) :
    s.kind ≠ .label := by
  obtain ⟨h, hh, -, -, -, hc', hk⟩ := hs.exists_shape
  rw [hc] at hc'
  cases hh with
  | closeValue => rcases hk with hk | hk <;> rw [hk] <;> exact nofun
  | blockEnd word k h => rcases hk with hk | hk <;> rw [hk] <;> exact nofun
  | plain | openValue | instruction | directive | endLocal => cases hc'

theorem of_kind_blank (hs : language.IsLine s) (hk : s.kind = .blank) :
    s.keyword = none ∧ s.opcode = none ∧ s.opens = none ∧ s.closes = none := by
  obtain ⟨h, hh, hw, hop, ho, hc, hk'⟩ := hs.exists_shape
  rw [hk] at hk'
  rcases hk' with hk' | hk'
  · cases hh with
    | plain => exact ⟨hw, hop, ho, hc⟩
    | openValue | closeValue | instruction | directive | endLocal | blockEnd => cases hk'
  · cases hk'

theorem of_tokens_eq_nil (hs : language.IsLine s) (ht : s.tokens = []) :
    s.opens = none ∧ s.kind ≠ .error := by
  obtain ⟨stack, line, number, rfl⟩ := hs
  have htok : tokenize language.catalog line number = [] := by
    unfold parseLine at ht
    dsimp only at ht
    split at ht
    · split at ht <;> exact ht
    · split at ht
      · exact ht
      · split at ht <;> exact ht
  unfold parseLine
  rw [htok]
  exact ⟨rfl, nofun⟩

end Language.IsLine

/-! ## all that is read of a line -/

/-- what a statement says, whatever its tokens and its comment are -/
structure Reading where
  header : Header
  operands : List Operand
  error : Option Diagnostic

def Statement.reading (s : Statement) : Reading := ⟨s.header, s.operands, s.error⟩

/-- what is read of a line that was finished, or that has a fault -/
def LineParser.reading : EStateM.Result Diagnostic Draft Unit → Reading
  | .ok _ d => ⟨d.header, d.operands, none⟩
  | .error e d => ⟨{ d.header with kind := .error }, d.operands, some e⟩

/-- the offset after the last token -/
def stopOf (tokens : List Token) : Nat :=
  (tokens.getLast?.map Token.stop).getD 0

/-- a line without tokens of a statement is a comment or blank -/
theorem reading_parseLine_nil (language : Language) (stack : BlockStack) (line : Text) (number : Nat)
    (htokens : (tokenize language.catalog line number).filter Token.isSignificant = []) :
    ∃ kind, (kind = .comment ∨ kind = .blank) ∧
      (parseLine language stack line number).reading = ⟨⟨kind, none, none, none, none⟩, [], none⟩ := by
  unfold parseLine
  dsimp only
  rw [htokens]
  dsimp only
  split
  · exact ⟨.comment, .inl rfl, rfl⟩
  · exact ⟨.blank, .inr rfl, rfl⟩

theorem reading_parseLine (language : Language) (stack : BlockStack) (line : Text) (number : Nat) {head : Token}
    {more : List Token}
    (htokens : (tokenize language.catalog line number).filter Token.isSignificant = head :: more) :
    (parseLine language stack line number).reading =
      match (head :: more).find? fun t => t.kind == .error with
      | some bad => ⟨⟨.error, none, none, none, none⟩, [], some ⟨bad.problem, bad.span, none⟩⟩
      | none => LineParser.reading (LineParser.statement language stack head
          (Draft.start ⟨line, number, head :: more, stopOf (head :: more)⟩)) := by
  unfold parseLine
  dsimp only
  rw [htokens]
  dsimp only
  cases (head :: more).find? fun t => t.kind == .error with
  | some bad => rfl
  | none =>
    dsimp only
    rw [stopOf]
    cases LineParser.statement language stack head _ with
    | ok _ d => rfl
    | error e d => rfl

/-- the part of a statement that its tokens alone decide -/
theorem tokens_parseLine (language : Language) (stack : BlockStack) (line : Text) (number : Nat) :
    (parseLine language stack line number).tokens = tokenize language.catalog line number ∧
      (parseLine language stack line number).comment =
        ((tokenize language.catalog line number).find? fun t => t.kind == .comment).map Token.text ∧
      (parseLine language stack line number).span = lineSpan (tokenize language.catalog line number) number := by
  unfold parseLine
  dsimp only
  split
  · split <;> exact ⟨rfl, rfl, rfl⟩
  · split
    · exact ⟨rfl, rfl, rfl⟩
    · split <;> exact ⟨rfl, rfl, rfl⟩

theorem span_parseLine (language : Language) (stack : BlockStack) (line : Text) (number : Nat) :
    (parseLine language stack line number).span = lineSpan (tokenize language.catalog line number) number :=
  (tokens_parseLine language stack line number).2.2

end Smali
