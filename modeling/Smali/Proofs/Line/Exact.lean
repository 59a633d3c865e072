import Smali.Proofs.Document.Spans
import Smali.Proofs.Line.Extent
import Smali.Proofs.Line.Shape

/-!
# The places of a line are exact

Whatever becomes of a line, each operand of its statement stands where its span says, and so does the diagnostic.

* `Extent.Row`             operands one after the other; here those of a draft;
* `Extent.gives_inlineValue`  values at any depth: an array is around its elements;
* `Extent.Drafted`         the operands of a draft are a row, and the tokens that are left come after them;
* `Extent.Holds`           a parser keeps that, also when it fails, and it fails inside the statement; the lemma
                           of each parser follows its definition;
* `Operand.Part`           an operand in another one, at any depth;
* `parseLine_exact`        the spans of the statement of a line.
-/

namespace Smali
namespace Extent

variable {x : Extent} {ts : List Token}

/-! ## values -/

theorem gives_enumValue : x.Gives (fun _ => True) Reader.enumValue := by
  intro ts hts
  refine Yields.get_bind (Yields.advance_bind ?_)
  cases ts with
  | nil =>
    refine (yields_descriptor spelling_reference hts _).bind fun p rest h => ?_
    obtain ⟨_, _, _, hnil, -⟩ := h.1
    cases hnil
  | cons t ts =>
    refine (yields_descriptor spelling_reference (hts.suffix (List.suffix_cons t ts)) _).bind fun p rest h => ?_
    have hspans := (spans_token hts).cover hts (List.suffix_refl ts) h.1
    refine Yields.pure (reads_of_spans hts hspans ⟨h.2.1, ?_⟩ trivial)
    -- the keyword comes before the reference
    obtain ⟨u, used, stop, rfl, hspan, hused, -⟩ := h.1
    have hbefore : t.stop ≤ u.start := (List.pairwise_cons.mp hts.order).1 u List.mem_cons_self
    have hkeyword := (hts.sits t List.mem_cons_self).start_lt_stop
    have hafter := hused u List.mem_cons_self
    have hfirst := (hts.sits u (List.mem_cons_of_mem t List.mem_cons_self)).start_lt_stop
    show p.1.render <:+ (t.span.cover p.2).slice x.line
    rw [← h.2.2, hspan, hts.span_eq List.mem_cons_self, Span.cover_onLine _ (by omega) (by omega)]
    exact Span.slice_suffix _ (by omega) _

/-- a value of one token or of one descriptor -/
theorem yields_scalar {t : Token} (hts : x.Laid (t :: ts)) :
    x.Yields (t :: ts) (Reader.scalar t) (x.Reads (fun _ => True) (t :: ts)) := by
  unfold Reader.scalar
  refine Yields.ite (fun _ => ?_) fun _ => Yields.ite (fun hk => ?_) fun _ => ?_
  · exact (gives_literal.mono fun _ _ => trivial) _ hts
  · refine Yields.ite (fun hhead => ?_) fun _ => (gives_string.mono fun _ _ => trivial) _ hts
    obtain ⟨q, s, htext⟩ := (hts.sits t List.mem_cons_self).quoted (beq_iff_eq.mp hk)
    rw [htext] at hhead
    obtain rfl := Option.some.inj (beq_iff_eq.mp hhead)
    refine yields_single hts ?_ trivial
    show t.text = '\'' :: (Text.inner t.text ++ ['\''])
    rw [htext, inner_quoted]
  · refine Yields.ite (fun _ => yields_single hts trivial trivial) fun _ => ?_
    refine Yields.ite (fun _ => yields_single hts trivial trivial) fun _ => ?_
    refine Yields.ite (fun _ => yields_single hts trivial trivial) fun _ => ?_
    refine Yields.ite (fun _ => gives_enumValue _ hts) fun _ => ?_
    refine (yields_descriptor spelling_referenceOrType hts _).bind fun p rest h => ?_
    exact Yields.pure (reads_of_spans hts h.1 h.2 trivial)

/-- the brace after the elements of an array, which makes the array -/
theorem yields_arrayEnd {opening : Token} {mid rest : List Token} {es : List Operand}
    (hts : x.Laid (opening :: mid)) (hrow : x.Row mid es rest) :
    x.Yields rest (do
      let closing ← Reader.delimiter "\x7d".toList
      return (⟨.array es, opening.span.cover closing⟩ : Operand))
      (x.Reads (fun _ => True) (opening :: mid)) := by
  have hrest : x.Laid rest := hts.suffix (hrow.suffix.trans (List.suffix_cons opening mid))
  refine (yields_delimiter hrest _).bind ?_
  rintro _ rest' ⟨closing, rfl, rfl, -⟩
  have hspans := (spans_token hts).cover hts hrow.suffix (spans_token hrest)
  obtain ⟨hhas, hlt⟩ := hspans.has hts
  refine Yields.pure ⟨hspans, .array es _ hhas.toLies hlt hrow.written ?_ hrow.apart,
    Operand.constants_array _ hrow.constants, trivial⟩
  intro e he
  obtain ⟨t, ht, hstart⟩ := hrow.starts e he
  have hon := (hrow.has e he).on
  have hopen : opening.start ≤ t.start := hts.toLayout.start_le rfl (List.mem_cons_of_mem opening ht)
  have hclose : opening.start ≤ closing.start :=
    hts.toLayout.start_le rfl (List.mem_cons_of_mem opening (hrow.suffix.subset List.mem_cons_self))
  have hstop := hrow.stops e he closing List.mem_cons_self
  have hclosing := (hrest.sits closing List.mem_cons_self).start_lt_stop
  have hstop' : e.span.stop.column ≤ closing.stop := by omega
  have horder : opening.stop ≤ closing.start :=
    (List.pairwise_cons.mp hts.order).1 closing (hrow.suffix.subset List.mem_cons_self)
  show (opening.span.cover closing.span).Covers e.span
  rw [hts.span_eq List.mem_cons_self, hrest.span_eq List.mem_cons_self, Span.cover_onLine _ hclose (by omega)]
  exact ⟨.inr ⟨hon.1.symm, by rw [hstart]; exact hopen⟩, .inr ⟨hon.2, hstop'⟩⟩

/-- **Values at any depth.**  The two readers of values call each other with a smaller bound. -/
theorem yields_valueWithin_and_elementsWithin (n : Nat) :
    x.Gives (fun _ => True) (Reader.valueWithin n) ∧
      ∀ ts, x.Laid ts → x.Yields ts (Reader.elementsWithin n) (x.Row ts) := by
  induction n with
  | zero => exact ⟨fun ts hts => yields_expected hts _, fun ts hts => yields_expected hts _⟩
  | succ n ih =>
    obtain ⟨ihvalue, ihelements⟩ := ih
    constructor
    · intro ts hts
      refine Yields.get_bind ?_
      cases ts with
      | nil => exact yields_expected hts _
      | cons t ts =>
        refine Yields.ite (fun _ => ?_) fun _ => yields_scalar hts
        refine (yields_delimiter hts _).bind ?_
        rintro _ mid ⟨opening, hcons, rfl, -⟩
        obtain ⟨rfl, rfl⟩ := List.cons.inj hcons
        have hmid : x.Laid ts := hts.suffix (List.suffix_cons t ts)
        refine Yields.get_bind (Yields.bind (R := fun _ rest => rest = ts) (Yields.get_bind (Yields.pure rfl)) ?_)
        rintro _ rest rfl
        refine Yields.ite (fun _ => ?_) fun _ => Yields.ite (fun _ => ?_) fun _ => ?_
        · exact yields_arrayEnd hts (row_nil rest)
        · exact Yields.bind (R := x.Row rest) (yields_expected hmid _) fun es _ hrow => yields_arrayEnd hts hrow
        · exact (ihelements rest hmid).bind fun es rest' hrow => yields_arrayEnd hts hrow
    · intro ts hts
      refine (ihvalue ts hts).bind fun v rest hv => ?_
      have hrow := hv.row hts
      refine (passes_eat _ rest (hts.suffix hrow.suffix)).bind fun comma rest' hrest' => ?_
      refine Yields.ite (fun _ => ?_) fun _ => Yields.pure (hrow.pass hrest')
      refine (ihelements rest' (hts.suffix (hrest'.trans hrow.suffix))).bind fun vs rest'' hrows => ?_
      exact Yields.pure ((hrow.pass hrest').append hrows)

theorem gives_inlineValue : x.Gives (fun _ => True) Reader.inlineValue :=
  fun ts hts => Yields.get_bind ((yields_valueWithin_and_elementsWithin _).1 ts hts)

theorem gives_classType : x.Gives (fun _ => True) Reader.classType := by
  intro ts hts
  refine (yields_descriptor spelling_type hts _).bind fun ⟨type, span⟩ rest h => ?_
  refine Yields.ite (fun _ => yields_failAt (h.1.has hts).1 _) fun _ => ?_
  exact Yields.pure (reads_of_spans hts h.1 h.2.2 trivial)

end Extent

/-- the operands of the value of an annotation element -/
def Reader.ElementValue.operands : Reader.ElementValue → List Operand
  | .complete o => [o]
  | .openArray => []
  | .subannot type => [type]

namespace Extent

variable {x : Extent} {ts : List Token}

theorem yields_elementValue (hts : x.Laid ts) :
    x.Yields ts Reader.elementValue fun v rest => x.Row ts v.operands rest := by
  have complete : x.Yields ts (do return Reader.ElementValue.complete (← Reader.inlineValue)) fun v rest =>
      x.Row ts v.operands rest :=
    (gives_inlineValue ts hts).bind fun _ _ ho => Yields.pure (ho.row hts)
  have subannot : x.Yields ts (do
      Reader.advance
      return Reader.ElementValue.subannot (← Reader.classType)) fun v rest => x.Row ts v.operands rest := by
    have htail : x.Laid ts.tail := hts.suffix (List.tail_suffix ts)
    refine Yields.advance_bind ((gives_classType ts.tail htail).bind fun type rest ho => Yields.pure ?_)
    exact ((row_nil ts).pass (List.tail_suffix ts)).append (ho.row htail)
  refine Yields.get_bind ?_
  match ts with
  | [] => exact yields_expected hts _
  | [t] =>
    refine Yields.ite (fun _ => ?_) fun _ => Yields.ite (fun _ => subannot) fun _ => complete
    exact Yields.advance_bind (Yields.pure ((row_nil [t]).pass (List.suffix_cons t [])))
  | t :: u :: ts => exact Yields.ite (fun _ => subannot) fun _ => complete

/-! ## the operands of directives, entries and instructions -/

theorem gives_count (what : Text) : x.Gives (fun _ => True) (LineParser.count what) := by
  intro ts hts
  have hl := yields_bareLiteral hts
  unfold Yields at hl ⊢
  unfold LineParser.count
  cases hr : Reader.bareLiteral (x.cursor ts) with
  | error e => exact hts.has_here
  | ok p =>
    rw [hr] at hl
    obtain ⟨⟨l, span⟩, c⟩ := p
    obtain ⟨rest, rfl, hspans, htext⟩ := hl
    dsimp only
    split
    · exact ⟨rest, rfl, reads_of_spans hts hspans htext trivial⟩
    · exact (hspans.has hts).1

theorem gives_visibility : x.Gives (fun _ => True) LineParser.visibility := by
  intro ts hts
  refine Yields.get_bind ?_
  cases ts with
  | nil => exact yields_expected hts _
  | cons t ts =>
    dsimp only
    split
    · exact yields_single hts trivial trivial
    · exact yields_expected hts _

theorem gives_elementWidth : x.Gives (fun _ => True) LineParser.elementWidth := by
  intro ts hts
  refine (yields_bareLiteral hts).bind fun ⟨l, span⟩ rest h => ?_
  have hfail : x.Yields rest (Reader.failAt span .elementWidth) (x.Reads (fun _ => True) ts) :=
    yields_failAt (h.1.has hts).1 _
  dsimp only
  split
  · exact Yields.ite (fun _ => Yields.pure (reads_of_spans hts h.1 h.2 trivial)) fun _ => hfail
  · exact hfail

theorem gives_localName : x.Gives (fun _ => True) LineParser.localName := by
  intro ts hts
  have hstring := (gives_string.mono fun _ _ => trivial : x.Gives (fun _ => True) _) ts hts
  refine Yields.get_bind ?_
  cases ts with
  | nil => exact hstring
  | cons t ts => exact Yields.ite (fun _ => yields_single hts trivial trivial) fun _ => hstring

theorem gives_elementName : x.Gives (fun _ => True) LineParser.elementName := by
  intro ts hts
  refine Yields.get_bind ?_
  cases ts with
  | nil => exact yields_expected hts _
  | cons t ts => exact Yields.ite (fun _ => yields_single hts rfl trivial) fun _ => yields_expected hts _

/-- the operand of a descriptor that has a text -/
theorem gives_descriptor {α : Type} {read? : Text → Option (α × Text)} {P : α → Text → Prop}
    {A : OperandValue → Prop} (hspelling : Spelling read? P) (what : Text) {f : α → OperandValue}
    (hf : ∀ a t, P a t → (f a).SpelledAs t ∧ A (f a)) :
    x.Gives A (do
      let (a, span) ← Reader.descriptor what read?
      return ⟨f a, span⟩) := by
  intro ts hts
  refine (yields_descriptor hspelling hts what).bind fun ⟨a, span⟩ rest h => ?_
  obtain ⟨htext, hA⟩ := hf a _ h.2
  exact Yields.pure (reads_of_spans hts h.1 htext hA)

theorem gives_reference {kind : OperandKind} (hkind : kind = .field ∨ kind = .method) :
    x.Gives kind.Fits (LineParser.reference kind) := by
  intro ts hts
  refine (yields_descriptor spelling_reference hts _).bind fun ⟨r, span⟩ rest h => ?_
  refine Yields.ite (fun hfield => ?_) fun _ => yields_failAt (h.1.has hts).1 _
  refine Yields.pure (reads_of_spans hts h.1 h.2.2 ?_)
  rcases hkind with rfl | rfl
  · exact ⟨beq_iff_eq.mp hfield, h.2.1.2.1⟩
  · exact ⟨beq_iff_eq.mp hfield, h.2.1.2.1⟩

/-- **The operand of a place fits it.** -/
theorem gives_operand (kind : OperandKind) : x.Gives kind.Fits (LineParser.operand kind) := by
  cases kind with
  | register => exact gives_register
  | registerList => exact gives_registerList
  | registerRange => exact gives_registerRange
  | literal => exact gives_literal
  | string => exact gives_string
  | type => exact gives_descriptor spelling_type _ fun _ _ h => ⟨h.2, trivial⟩
  | field => exact gives_reference (.inl rfl)
  | method => exact gives_reference (.inr rfl)
  | label => exact gives_label
  | index => exact gives_index
  | proto =>
    exact gives_descriptor (Prototype.exact_read?.spelling Prototype.endsSolid_render) _ fun _ _ h =>
      ⟨h.2, trivial⟩

/-! ## parsers of lines -/

variable (x ts) in
/-- the operands of the draft are a row, and the tokens that are left come after them -/
def Drafted (d : Draft) : Prop :=
  ∃ rest, d.cursor = x.cursor rest ∧ x.Row ts d.operands rest

variable (x ts) in
/-- the parser keeps the operands of the draft in a row, also when it fails, and fails inside the statement -/
def Holds {α : Type} (p : LineParser α) : Prop :=
  ∀ d, x.Drafted ts d →
    match p d with
    | .ok _ d' => x.Drafted ts d'
    | .error e d' => x.Drafted ts d' ∧ x.Has e.span

section
variable {α β : Type}

namespace Holds

theorem pure (a : α) : x.Holds ts (Pure.pure a : LineParser α) :=
  fun _ hd => hd

theorem get : x.Holds ts (MonadState.get : LineParser Draft) :=
  fun _ hd => hd

theorem bind {p : LineParser α} {f : α → LineParser β} (hp : x.Holds ts p) (hf : ∀ a, x.Holds ts (f a)) :
    x.Holds ts (p >>= f) := by
  intro d hd
  have hpd := hp d hd
  change match EStateM.bind p f d with
    | .ok _ d' => x.Drafted ts d'
    | .error e d' => x.Drafted ts d' ∧ x.Has e.span
  unfold EStateM.bind
  cases hr : p d with
  | ok a d' =>
    rw [hr] at hpd
    exact hf a d' hpd
  | error e d' =>
    rw [hr] at hpd
    exact hpd

theorem ite {c : Prop} [Decidable c] {p q : LineParser α} (hp : x.Holds ts p) (hq : x.Holds ts q) :
    x.Holds ts (if c then p else q) := by
  split
  · exact hp
  · exact hq

/-- changing a draft but for its operands and its tokens -/
theorem modify {g : Draft → Draft} (hg : ∀ d, (g d).cursor = d.cursor ∧ (g d).operands = d.operands) :
    x.Holds ts (modify g : LineParser Unit) := by
  rintro d ⟨rest, hc, hrow⟩
  obtain ⟨hcursor, hoperands⟩ := hg d
  exact ⟨rest, by rw [← hc]; exact hcursor, by rw [← hoperands] at hrow; exact hrow⟩

theorem setKind (kind : StatementKind) : x.Holds ts (LineParser.setKind kind) :=
  modify fun _ => ⟨rfl, rfl⟩

theorem setOpens (k : BlockKind) : x.Holds ts (LineParser.setOpens k) :=
  modify fun _ => ⟨rfl, rfl⟩

theorem setCloses (k : BlockKind) : x.Holds ts (LineParser.setCloses k) :=
  modify fun _ => ⟨rfl, rfl⟩

/-- citing a pattern does not change the place -/
theorem expecting (entry : Option Entry) {p : LineParser α} (hp : x.Holds ts p) :
    x.Holds ts (LineParser.expecting entry p) := by
  intro d hd
  have hpd := hp d hd
  unfold LineParser.expecting
  cases hr : p d with
  | ok a d' =>
    rw [hr] at hpd
    exact hpd
  | error e d' =>
    rw [hr] at hpd
    cases entry with
    | none => exact hpd
    | some entry => exact hpd

end Holds

/-- operands that a reader gives go behind those of the draft -/
theorem holds_read_bind (hts : x.Laid ts) {r : Reader α} {f : α → LineParser β} {os : α → List Operand}
    (hr : ∀ us, x.Laid us → x.Yields us r fun a rest => x.Row us (os a) rest)
    (hf : ∀ a d, x.Drafted ts { d with operands := d.operands ++ os a } →
      match f a d with
      | .ok _ d' => x.Drafted ts d'
      | .error e d' => x.Drafted ts d' ∧ x.Has e.span) :
    x.Holds ts (LineParser.read r >>= f) := by
  rintro d ⟨rest, hc, hrow⟩
  have hrun := hr rest (hts.suffix hrow.suffix)
  change match EStateM.bind (LineParser.read r) f d with
    | .ok _ d' => x.Drafted ts d'
    | .error e d' => x.Drafted ts d' ∧ x.Has e.span
  unfold EStateM.bind LineParser.read
  unfold Yields at hrun
  rw [hc]
  cases hread : r (x.cursor rest) with
  | error e =>
    rw [hread] at hrun
    exact ⟨⟨rest, hc, hrow⟩, hrun⟩
  | ok p =>
    rw [hread] at hrun
    obtain ⟨a, c⟩ := p
    obtain ⟨rest', rfl, hrow'⟩ := hrun
    exact hf a _ ⟨rest', rfl, hrow.append hrow'⟩

theorem holds_read (hts : x.Laid ts) {r : Reader α} (hr : x.Passes r) : x.Holds ts (LineParser.read r) := by
  have hrows : ∀ us, x.Laid us → x.Yields us r fun _ rest => x.Row us [] rest :=
    fun us hus => (hr us hus).mono fun _ _ hrest => (row_nil us).pass hrest
  have h := holds_read_bind hts (f := fun a => (pure a : LineParser α)) hrows fun a d hd => by
    rw [List.append_nil] at hd
    exact hd
  rwa [bind_pure] at h

theorem holds_add (hts : x.Laid ts) {A : OperandValue → Prop} {r : Reader Operand} (hr : x.Gives A r) :
    x.Holds ts (LineParser.add r) :=
  holds_read_bind hts (fun us hus => (hr us hus).mono fun _ _ ho => ho.row hus) fun _ _ hd => hd

end

section
variable (hts : x.Laid ts)
include hts

theorem holds_eat (text : Text) : x.Holds ts (LineParser.eat text) :=
  holds_read hts (passes_eat text)

theorem holds_finish : x.Holds ts LineParser.finish :=
  holds_read hts passes_finish

theorem holds_delimiter (text : Text) : x.Holds ts (LineParser.read (Reader.delimiter text)) :=
  holds_read hts (passes_delimiter text)

theorem holds_fail (p : Problem) : x.Holds ts (LineParser.read (Reader.fail p : Reader Unit)) :=
  holds_read hts fun _ hus => yields_fail hus p

theorem holds_expected (what : Text) : x.Holds ts (LineParser.read (Reader.expected what : Reader Unit)) :=
  holds_read hts fun _ hus => yields_expected hus what

theorem holds_failAt {s : Span} (hs : x.Has s) (p : Problem) :
    x.Holds ts (LineParser.read (Reader.failAt s p : Reader Unit)) :=
  holds_read hts fun _ _ => yields_failAt hs p

theorem holds_register : x.Holds ts (LineParser.add Reader.register) :=
  holds_add hts gives_register

theorem holds_literal : x.Holds ts (LineParser.add Reader.literal) :=
  holds_add hts gives_literal

theorem holds_string : x.Holds ts (LineParser.add Reader.string) :=
  holds_add hts gives_string

theorem holds_label : x.Holds ts (LineParser.add Reader.label) :=
  holds_add hts gives_label

theorem holds_addDescriptor {α : Type} {read? : Text → Option (α × Text)} {P : α → Text → Prop}
    (hspelling : Spelling read? P) (what : Text) (f : α → OperandValue)
    (hf : ∀ a t, P a t → (f a).SpelledAs t) : x.Holds ts (LineParser.addDescriptor what read? f) :=
  holds_add hts (gives_descriptor (A := fun _ => True) hspelling what fun a t h => ⟨hf a t h, trivial⟩)

theorem holds_classType : x.Holds ts (LineParser.add Reader.classType) :=
  holds_add hts gives_classType

theorem holds_elementValue : x.Holds ts LineParser.elementValue := by
  refine holds_read_bind hts (fun us hus => yields_elementValue hus) fun v d hd => ?_
  cases v with
  | complete o => exact hd
  | openArray =>
    obtain ⟨rest, hc, hrow⟩ := hd
    refine ⟨rest, hc, ?_⟩
    rw [show Reader.ElementValue.openArray.operands = [] from rfl, List.append_nil] at hrow
    exact hrow
  | subannot type => exact hd

/-! ## directives -/

/-- the span of several tokens goes from the first one to the last one -/
theorem spans_foldl_cover {rest : List Token} {s : Span} (words : List Token)
    (hs : x.Spans ts (words ++ rest) s) :
    x.Spans ts rest (words.foldl (fun s w => s.cover w.span) s) := by
  induction words generalizing s with
  | nil => exact hs
  | cons w words ih =>
    have hmid : x.Laid (w :: (words ++ rest)) := hts.suffix hs.suffix
    exact ih (hs.cover hts (List.suffix_refl _) (spans_token hmid))

theorem holds_flags : x.Holds ts LineParser.flags := by
  rintro d ⟨rest, hc, hrow⟩
  have hrest : x.Laid rest := hts.suffix hrow.suffix
  have hcut := LineParser.cutFlags_append rest
  unfold LineParser.flags
  dsimp only [bind, EStateM.bind, get, getThe, MonadStateOf.get, EStateM.get]
  rw [hc]
  cases hwords : LineParser.cutFlags (x.cursor rest).tokens with
  | mk words rest' =>
    rw [hwords] at hcut
    cases words with
    | nil => exact ⟨rest, hc, hrow⟩
    | cons t words =>
      obtain rfl : t :: words ++ rest' = rest := hcut
      have hspans := spans_foldl_cover hrest words (spans_token hrest)
      have hreads : x.Reads (fun _ => True) (t :: words ++ rest')
          ⟨.flags (LineParser.flagsOf (t :: words)), words.foldl (fun s w => s.cover w.span) t.span⟩ rest' :=
        reads_of_spans hrest hspans trivial trivial
      exact ⟨rest', rfl, hrow.append (hreads.row hrest)⟩

theorem holds_localVar : x.Holds ts LineParser.localVar := by
  refine (holds_register hts).bind fun _ => (holds_eat hts _).bind fun _ => Holds.ite ?_ (Holds.pure _)
  refine (holds_add hts gives_localName).bind fun _ => (holds_delimiter hts _).bind fun _ => ?_
  refine (holds_addDescriptor hts spelling_type _ .type fun _ _ h => h.2).bind fun _ => ?_
  exact (holds_eat hts _).bind fun _ => Holds.ite (holds_string hts) (Holds.pure _)

theorem holds_blockEnd : x.Holds ts LineParser.blockEnd := by
  refine (Holds.get.bind fun _ => Holds.pure _).bind fun t => ?_
  dsimp only
  split
  · exact holds_expected hts _
  · refine (holds_read hts passes_advance).bind fun _ => (Holds.setCloses _).bind fun _ => ?_
    exact Holds.ite ((holds_eat hts _).bind fun _ => Holds.pure _) (Holds.pure _)

theorem holds_endOperands : x.Holds ts (LineParser.directiveOperands .endBlock) := by
  refine (holds_read hts (passes_eatWord _)).bind fun _ => Holds.ite ?_ (holds_blockEnd hts)
  exact (Holds.setKind _).bind fun _ => holds_register hts

theorem holds_directiveOperands (d : Directive) : x.Holds ts (LineParser.directiveOperands d) := by
  cases d with
  | classDecl => exact (holds_flags hts).bind fun _ => holds_classType hts
  | superclass | implements | subannot => exact holds_classType hts
  | source => exact holds_string hts
  | field =>
    have hspelling := Member.exact_readField?.spelling Member.endsSolid_render
    refine (holds_flags hts).bind fun _ => ?_
    refine (holds_addDescriptor hts hspelling _ .member fun _ _ h => h.2).bind fun _ => ?_
    refine (holds_eat hts _).bind fun _ => ?_
    exact Holds.ite (holds_add hts gives_inlineValue) (Holds.pure _)
  | method =>
    have hspelling := MethodSignature.exact_read?.spelling fun m => (Member.method m).endsSolid_render
    exact (holds_flags hts).bind fun _ => holds_addDescriptor hts hspelling _ _ fun _ _ h => h.2
  | locals | registers | line => exact holds_add hts (gives_count _)
  | param =>
    refine (holds_register hts).bind fun _ => (holds_eat hts _).bind fun _ => ?_
    exact Holds.ite (holds_string hts) (Holds.pure _)
  | annot => exact (holds_add hts gives_visibility).bind fun _ => holds_classType hts
  | enumValue =>
    exact holds_addDescriptor hts spelling_reference _ .enumValue fun r t h => ⟨h.1, h.2 ▸ List.suffix_refl _⟩
  | catchType =>
    exact (holds_classType hts).bind fun _ => (holds_add hts gives_labelRange).bind fun _ => holds_label hts
  | catchAll => exact (holds_add hts gives_labelRange).bind fun _ => holds_label hts
  | arrayData => exact holds_add hts gives_elementWidth
  | packedSwitch => exact holds_literal hts
  | sparseSwitch | prologue | epilogue => exact Holds.pure _
  | localVar => exact holds_localVar hts
  | endBlock | endLocal => exact holds_endOperands hts
  | restartLocal =>
    refine (holds_read hts (passes_eatWord _)).bind fun _ => ?_
    exact Holds.ite (holds_register hts) (holds_expected hts _)

theorem holds_directive (catalog : Catalog) {head : Token} (hhead : x.Has head.span) :
    x.Holds ts (LineParser.directive catalog head) := by
  refine (holds_read hts passes_advance).bind fun _ => ?_
  split
  · exact holds_failAt hts hhead _
  · refine Holds.bind (Holds.modify fun _ => ⟨rfl, rfl⟩) fun _ => Holds.expecting _ ?_
    exact (holds_directiveOperands hts _).bind fun _ => holds_finish hts

/-! ## instructions and entries -/

theorem holds_moreOperands (ks : List OperandKind) : x.Holds ts (LineParser.moreOperands ks) := by
  induction ks with
  | nil => exact Holds.pure _
  | cons k ks ih =>
    exact (holds_delimiter hts _).bind fun _ => (holds_add hts (gives_operand k)).bind fun _ => ih

theorem holds_operands (ks : List OperandKind) : x.Holds ts (LineParser.operands ks) := by
  cases ks with
  | nil => exact Holds.pure _
  | cons k ks => exact (holds_add hts (gives_operand k)).bind fun _ => holds_moreOperands hts ks

theorem holds_instruction (odex : Bool) (entry : Entry) {head : Token} (hhead : x.Has head.span) :
    x.Holds ts (LineParser.instruction odex entry head) := by
  refine (holds_read hts passes_advance).bind fun _ => ?_
  refine Holds.bind (Holds.modify fun _ => ⟨rfl, rfl⟩) fun _ => Holds.expecting _ ?_
  have rest : x.Holds ts (do LineParser.operands entry.operandKinds; LineParser.finish) :=
    (holds_operands hts _).bind fun _ => holds_finish hts
  exact Holds.ite ((holds_failAt hts hhead _).bind fun _ => rest) rest

theorem holds_moreLiterals (n : Nat) : x.Holds ts (LineParser.moreLiterals n) := by
  induction n with
  | zero => exact Holds.pure _
  | succ n ih =>
    refine (holds_read hts passes_atEnd).bind fun _ => Holds.ite (Holds.pure _) ?_
    exact (holds_eat hts _).bind fun _ => (holds_literal hts).bind fun _ => ih

theorem holds_arrayEntry : x.Holds ts LineParser.arrayEntry :=
  (Holds.setKind _).bind fun _ => (holds_literal hts).bind fun _ => Holds.get.bind fun _ =>
    holds_moreLiterals hts _

theorem holds_packedSwitchEntry : x.Holds ts LineParser.packedSwitchEntry :=
  (Holds.setKind _).bind fun _ => (holds_label hts).bind fun _ => holds_finish hts

theorem holds_sparseSwitchEntry : x.Holds ts LineParser.sparseSwitchEntry :=
  (Holds.setKind _).bind fun _ => (holds_literal hts).bind fun _ => (holds_delimiter hts _).bind fun _ =>
    (holds_label hts).bind fun _ => holds_finish hts

theorem holds_element : x.Holds ts LineParser.element :=
  (Holds.setKind _).bind fun _ => (holds_add hts gives_elementName).bind fun _ =>
    (holds_delimiter hts _).bind fun _ => (holds_elementValue hts).bind fun _ => holds_finish hts

theorem holds_arrayElement : x.Holds ts LineParser.arrayElement := by
  refine (Holds.setKind _).bind fun _ => (holds_eat hts _).bind fun _ => Holds.ite ?_ ?_
  · exact (Holds.setCloses _).bind fun _ => holds_finish hts
  · exact (holds_elementValue hts).bind fun _ => (holds_eat hts _).bind fun _ => holds_finish hts

theorem holds_codeLine (language : Language) {head : Token} (hhead : x.Has head.span) :
    x.Holds ts (LineParser.codeLine language head) := by
  refine Holds.ite (holds_fail hts _) (Holds.ite ?_ ?_)
  · exact (Holds.setKind _).bind fun _ => (holds_label hts).bind fun _ => holds_finish hts
  · split
    · exact holds_instruction hts _ _ hhead
    · exact Holds.ite (holds_fail hts _) (holds_fail hts _)

theorem holds_statement (language : Language) (stack : BlockStack) {head : Token} (hhead : x.Has head.span) :
    x.Holds ts (LineParser.statement language stack head) := by
  refine Holds.ite (holds_directive hts _ hhead) ?_
  split
  · exact holds_arrayEntry hts
  · exact holds_packedSwitchEntry hts
  · exact holds_sparseSwitchEntry hts
  · exact holds_element hts
  · exact holds_element hts
  · exact holds_arrayElement hts
  · exact holds_codeLine hts language hhead

end

/-! ## the line -/

theorem Has.covers {s : Span} (h : x.Has s) : (Span.onLine x.number x.first x.last).Covers s :=
  ⟨.inr ⟨h.on.1.symm, h.first_le⟩, .inr ⟨h.on.2, h.le_last⟩⟩

end Extent

theorem stopOf_eq {ts : List Token} {t : Token} (h : ts.getLast? = some t) : stopOf ts = t.stop := by
  rw [stopOf, h]
  rfl

/-- the stretch of the statement of a line: from its first token to its last one, the comment with it -/
theorem exists_extent (catalog : Catalog) (line : Text) (number : Nat) {head : Token} {more : List Token}
    (htokens : (tokenize catalog line number).filter Token.isSignificant = head :: more) :
    ∃ x : Extent, x.line = line ∧ x.number = number ∧ x.stop = stopOf (head :: more) ∧
      lineSpan (tokenize catalog line number) number = Span.onLine number x.first x.last ∧
      x.Laid (head :: more) := by
  have hlayout := layout_tokenize catalog line number
  have hsub : (head :: more).Sublist (tokenize catalog line number) := htokens ▸ List.filter_sublist
  have hsolid := fun a c b => exists_stop_of_not_blank catalog line number (a := a) (b := b) (c := c)
  have hnames := names_significant catalog line number
  rw [htokens] at hnames
  generalize tokenize catalog line number = ts at hlayout hsub hsolid
  obtain ⟨first, us, rfl⟩ := List.exists_cons_of_ne_nil (List.ne_nil_of_mem (hsub.subset List.mem_cons_self))
  obtain ⟨last, hlast⟩ := Option.isSome_iff_exists.mp (List.getLast?_isSome.mpr (List.cons_ne_nil first us))
  obtain ⟨final, hfinal⟩ := Option.isSome_iff_exists.mp (List.getLast?_isSome.mpr (List.cons_ne_nil head more))
  have hmem := hsub.subset (List.mem_of_getLast? hfinal)
  have hfirst : ∀ t ∈ first :: us, first.start ≤ t.start := fun t ht => hlayout.start_le rfl ht
  have hstops : ∀ t ∈ first :: us, t.stop ≤ last.stop := fun t ht => hlayout.stop_le hlast ht
  refine ⟨{
    line
    number
    first := first.start
    stop := final.stop
    last := last.stop
    first_le_stop := Nat.le_trans (hfirst final hmem) (Nat.le_of_lt (hlayout.sits final hmem).start_lt_stop)
    stop_le_last := hstops final hmem
    isBoundary_stop := (hlayout.sits final hmem).cut.stop
    solid := fun a c b hline hc => by
      obtain ⟨t, ht, hle⟩ := hsolid a c b hline hc
      exact Nat.le_trans hle (hstops t ht) }, rfl, rfl, (stopOf_eq hfinal).symm, ?_, ?_⟩
  · have hlast' := List.mem_of_getLast? hlast
    have hspan : ∀ t ∈ first :: us, t.span = Span.onLine number t.start t.stop := by
      intro t ht
      rw [Token.span, (hlayout.sits t ht).line]
    rw [lineSpan, List.head?_cons, hlast]
    dsimp only
    rw [hspan first List.mem_cons_self, hspan last hlast',
      Span.cover_onLine number (hfirst last hlast') (hstops first List.mem_cons_self)]
  · exact ⟨hlayout.sublist hsub, hnames, fun t ht => hfirst t (hsub.subset ht),
      fun t ht => (hlayout.sublist hsub).stop_le hfinal ht⟩

theorem Operand.AsWritten.of_part {line : Text} {number : Nat} {o e : Operand} (ho : o.AsWritten line number)
    (h : o.Part e) : e.AsWritten line number ∧ o.span.Covers e.span := by
  induction h with
  | self => exact ⟨ho, Span.Covers.refl _⟩
  | element _ he ih =>
    obtain ⟨harray, hcovers⟩ := ih
    cases harray with
    | plain _ _ _ htext => exact absurd htext id
    | array _ _ _ _ heach hinside _ => exact ⟨heach _ he, hcovers.trans (hinside _ he)⟩

theorem Header.Shape.kind_ne_error {catalog : Catalog} {h : Header} (hh : h.Shape catalog) : h.kind ≠ .error := by
  cases hh with
  | plain kind hk => rcases hk with rfl | rfl | rfl | rfl <;> exact nofun
  | openValue | closeValue | instruction | directive | endLocal | blockEnd => exact nofun

/-- what is said of the places in a statement: `span` is the one of the statement -/
structure Reading.Exact (line : Text) (number : Nat) (span : Span) (r : Reading) : Prop where
  kind : r.header.kind = .error ↔ r.error.isSome = true
  written : ∀ o ∈ r.operands, o.AsWritten line number ∧ span.Covers o.span
  constants : ∀ o ∈ r.operands, o.Constants line
  apart : r.operands.Pairwise fun a b => a.span.stop ≤ b.span.start
  error : ∀ d, r.error = some d → d.span.Lies line number ∧ span.Covers d.span

theorem Extent.Row.exact {x : Extent} {ts rest : List Token} {h : Header} {os : List Operand}
    {error : Option Diagnostic} (hrow : x.Row ts os rest) (hkind : h.kind = .error ↔ error.isSome = true)
    (herror : ∀ d, error = some d → x.Has d.span) :
    Reading.Exact x.line x.number (Span.onLine x.number x.first x.last) ⟨h, os, error⟩ where
  kind := hkind
  written := fun o ho => ⟨hrow.written o ho, (hrow.has o ho).covers⟩
  constants := hrow.constants
  apart := hrow.apart
  error := fun d hd => ⟨(herror d hd).toLies, (herror d hd).covers⟩

theorem reading_exact (language : Language) (stack : BlockStack) (line : Text) (number : Nat) :
    (parseLine language stack line number).reading.Exact line number
      (parseLine language stack line number).span := by
  cases htokens : (tokenize language.catalog line number).filter Token.isSignificant with
  | nil =>
    obtain ⟨kind, hkind, hreading⟩ := reading_parseLine_nil language stack line number htokens
    have hne : kind ≠ .error := by rcases hkind with rfl | rfl <;> exact nofun
    rw [hreading]
    exact ⟨iff_of_false hne Bool.false_ne_true, List.forall_mem_nil _, List.forall_mem_nil _, .nil, nofun⟩
  | cons head more =>
    obtain ⟨x, rfl, rfl, hstop, hspan, hlaid⟩ := exists_extent language.catalog line number htokens
    rw [span_parseLine, hspan, reading_parseLine language stack x.line x.number htokens]
    cases hbad : (head :: more).find? fun t => t.kind == .error with
    | some bad =>
      refine (Extent.row_nil (head :: more)).exact (iff_of_true rfl rfl) fun d hd => ?_
      obtain rfl := Option.some.inj hd
      exact hlaid.has_span (List.mem_of_find?_eq_some hbad)
    | none =>
      have hholds := Extent.holds_statement hlaid language stack (hlaid.has_span List.mem_cons_self)
        (Draft.start (x.cursor (head :: more))) ⟨head :: more, rfl, Extent.row_nil _⟩
      have hyields := LineParser.yields_statement language stack head (Draft.start (x.cursor (head :: more))) rfl
      dsimp only
      rw [← hstop]
      cases hrun : LineParser.statement language stack head (Draft.start (x.cursor (head :: more))) with
      | ok _ d =>
        rw [hrun] at hholds hyields
        obtain ⟨rest, -, hrow⟩ := hholds
        exact hrow.exact (iff_of_false hyields.kind_ne_error Bool.false_ne_true) nofun
      | error e d =>
        rw [hrun] at hholds
        obtain ⟨⟨rest, -, hrow⟩, he⟩ := hholds
        refine hrow.exact (iff_of_true rfl rfl) fun d' hd' => ?_
        obtain rfl := Option.some.inj hd'
        exact he

/-- **Every span of a line is exact,** whether the line could be read or not.  The kind is `error` exactly when
there is a diagnostic.  Each operand, and each element of an array at any depth, lies on the line inside the
statement, cuts no character, and is what is written there; the operands come one after the other.  The diagnostic
lies on the line inside the statement, too. -/
theorem parseLine_exact (language : Language) (stack : BlockStack) (line : Text) (number : Nat) :
    let s := parseLine language stack line number
    (s.kind = .error ↔ s.error.isSome = true) ∧
      (∀ o ∈ s.operands, ∀ e, o.Part e → e.AsWritten line number ∧ s.span.Covers e.span) ∧
      (s.operands.Pairwise fun a b => a.span.stop ≤ b.span.start) ∧
      ∀ d, s.error = some d → d.span.Lies line number ∧ s.span.Covers d.span := by
  intro s
  have h : s.reading.Exact line number s.span := reading_exact language stack line number
  refine ⟨h.kind, fun o ho e he => ?_, h.apart, h.error⟩
  obtain ⟨hwritten, hinside⟩ := h.written o ho
  obtain ⟨hpart, hcovers⟩ := hwritten.of_part he
  exact ⟨hpart, hinside.trans hcovers⟩

end Smali
