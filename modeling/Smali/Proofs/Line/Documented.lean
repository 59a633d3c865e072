import Smali.Proofs.Line.Accepted
import Smali.Proofs.Literal.Float

/-!
# Operands of directives and their grammar

The grammar of directives wants a constant of an enumeration to be a field, and a count to be an integer.  What is
accepted is more: constants are read like references of instructions, which may also be methods, and a count may be
written as a floating point number when it is whole.

* `Statement.IsDocumented`   what the grammar says about constants, counts and widths of elements;
* `Text.HasParameters`       a parenthesis follows the last angle bracket, as in the text of a method;
* `Statement.IsPlain`        no constant has parameters, and counts and widths are written as integers;
* `LineParser.directive_of_kind`   only one of the parsers of lines makes directives;
* `Extent.yields_count`, `Extent.yields_elementWidth`  the numbers that are accepted;
* `parseLine_documented_iff` an accepted line keeps to the grammar exactly when its text is plain.
-/

namespace Smali

/-! ## the grammar -/

/-- the directives that have a count -/
def Directive.counted : List Directive := [.locals, .registers, .line]

/-- the constant `r` of an enumeration stands at `e`, which is an operand or an element of an array at any depth -/
def Statement.HasConstant (s : Statement) (e : Operand) (r : Reference) : Prop :=
  ∃ o ∈ s.operands, o.Part e ∧ e.value = .enumValue r

/-- the only operand is a literal -/
def Statement.HasLiteral (s : Statement) (l : Literal) : Prop :=
  ∃ span, s.operands = [⟨.literal l, span⟩]

/-- What the grammar says about constants of enumerations, counts and the widths of elements. -/
structure Statement.IsDocumented (s : Statement) : Prop where
  constant : ∀ e r, s.HasConstant e r → r.member.isField = true
  count : ∀ d ∈ Directive.counted, s.kind = .directive d →
    ∃ v width hex, s.HasLiteral ⟨.int v, width, hex⟩ ∧ 0 ≤ v.toInt ∧ v.toInt ≤ 2 ^ 32 - 1
  width : s.kind = .directive .arrayData →
    ∃ v width hex, s.HasLiteral ⟨.int v, width, hex⟩ ∧ v.toInt ∈ ([1, 2, 4, 8] : List Int)

/-- a parenthesis follows the last angle bracket -/
def Text.HasParameters (t : Text) : Prop :=
  ∃ a b, t = a ++ '>' :: b ∧ '>' ∉ b ∧ '(' ∈ b

/-- how the line of a statement is written: no constant has parameters, and the literals of counts and widths are
those of integers -/
structure Statement.IsPlain (line : Text) (s : Statement) : Prop where
  constant : ∀ e r, s.HasConstant e r → ¬ Text.HasParameters (e.span.slice line)
  literal : ∀ d ∈ .arrayData :: Directive.counted, s.kind = .directive d → ∀ o ∈ s.operands,
    ∃ l, Literal.IntegerText (o.span.slice line) l

/-! ## the text of references -/

/-- what follows the last angle bracket is the same wherever the text before is cut -/
theorem Text.hasParameters_iff {a b : Text} (hb : '>' ∉ b) : HasParameters (a ++ '>' :: b) ↔ '(' ∈ b := by
  constructor
  · rintro ⟨a', b', heq, hb', hmem⟩
    rcases List.append_eq_append_iff.mp heq with ⟨s, -, hs⟩ | ⟨s, -, hs⟩
    · cases s with
      | nil => exact (List.cons.inj hs).2 ▸ hmem
      | cons c s =>
        refine absurd ?_ hb
        rw [(List.cons.inj hs).2]
        exact List.mem_append_right s List.mem_cons_self
    · cases s with
      | nil => exact (List.cons.inj hs).2 ▸ hmem
      | cons c s =>
        refine absurd ?_ hb'
        rw [(List.cons.inj hs).2]
        exact List.mem_append_right s List.mem_cons_self
  · intro hmem
    exact ⟨a, b, rfl, hb, hmem⟩

theorem TypeDescriptor.mem_render {t : TypeDescriptor} (ht : t.WellFormed) : ∀ c ∈ t.render, c ≠ '>' ∧ c ≠ '(' := by
  intro c hc
  rcases List.mem_append.mp hc with hc | hc
  · rw [List.eq_of_mem_replicate hc]
    decide
  · rw [WellFormed] at ht
    cases hb : t.base with
    | primitive p =>
      rw [hb] at hc
      rw [List.mem_singleton.mp hc]
      cases p <;> decide
    | object path =>
      rw [hb] at ht hc
      rw [BaseType.render, ClassPath.render, List.cons_append, List.mem_cons, List.mem_append,
        List.mem_singleton] at hc
      rcases hc with rfl | hc | rfl
      · decide
      · have hchar := ht.2 c hc
        constructor <;> rintro rfl <;> cases hchar
      · decide

/-- a name ends in an angle bracket or has none -/
theorem MemberName.exists_cut {n : Text} (hn : WellFormed n) :
    ∃ a b, '>' :: n = a ++ '>' :: b ∧ ∀ c ∈ b, c ≠ '>' ∧ c ≠ '(' := by
  rcases hn with rfl | rfl | ⟨-, hall⟩
  · exact ⟨"><init".toList, [], rfl, List.forall_mem_nil _⟩
  · exact ⟨"><clinit".toList, [], rfl, List.forall_mem_nil _⟩
  · refine ⟨[], n, rfl, fun c hc => ?_⟩
    have hchar := hall c hc
    constructor <;> rintro rfl <;> cases hchar

/-- what follows the name of a member has a parenthesis when the member is a method -/
theorem Member.exists_tail {m : Member} (hm : m.WellFormed) : ∃ tail, m.render = m.name ++ tail ∧
    MemberName.WellFormed m.name ∧ '>' ∉ tail ∧ ('(' ∈ tail ↔ m.isField = false) := by
  cases m with
  | field name type =>
    have htype := TypeDescriptor.mem_render hm.2
    refine ⟨':' :: type.render, rfl, hm.1, ?_, iff_of_false ?_ nofun⟩
    · intro h
      rcases List.mem_cons.mp h with h | h
      · cases h
      · exact (htype _ h).1 rfl
    · intro h
      rcases List.mem_cons.mp h with h | h
      · cases h
      · exact (htype _ h).2 rfl
  | method m =>
    refine ⟨m.prototype.render, rfl, hm.1, ?_, iff_of_true List.mem_cons_self rfl⟩
    intro h
    rw [Prototype.render, List.cons_append, List.mem_cons, List.mem_append, List.mem_cons] at h
    rcases h with h | h | h | h
    · cases h
    · obtain ⟨t, ht, hc⟩ := List.mem_flatten.mp h
      obtain ⟨type, htype, rfl⟩ := List.mem_map.mp ht
      exact (TypeDescriptor.mem_render (hm.2.1 type htype) _ hc).1 rfl
    · cases h
    · exact (TypeDescriptor.mem_render hm.2.2 _ h).1 rfl

/-- **A text that ends with a reference has parameters when the reference is to a method.** -/
theorem Reference.hasParameters_iff {r : Reference} (hr : r.WellFormed) {t : Text} (ht : r.render <:+ t) :
    t.HasParameters ↔ r.member.isField = false := by
  obtain ⟨tail, hmember, hname, htail, hfield⟩ := Member.exists_tail hr.2.2
  obtain ⟨a, b, hcut, hb⟩ := MemberName.exists_cut hname
  obtain ⟨before, rfl⟩ := ht
  have htext : before ++ r.render = (before ++ r.owner.render ++ '-' :: a) ++ '>' :: (b ++ tail) := by
    have harrow : r.render = r.owner.render ++ '-' :: ('>' :: r.member.name ++ tail) := by
      rw [render, hmember, List.append_assoc]
      rfl
    rw [harrow, hcut]
    simp only [List.append_assoc, List.cons_append]
  have hafter : '>' ∉ b ++ tail := by
    intro h
    rcases List.mem_append.mp h with h | h
    · exact (hb _ h).1 rfl
    · exact htail h
  rw [htext, Text.hasParameters_iff hafter, ← hfield, List.mem_append]
  exact or_iff_right fun h => (hb _ h).2 rfl

/-! ## directives that are accepted -/

namespace LineParser

variable {d d' : Draft}

/-- **Only the routine for directives makes directives.** -/
theorem directive_of_kind {language : Language} {stack : BlockStack} {head : Token} {k : Directive}
    (hd : d.header = start) (h : statement language stack head d = .ok () d') (hkind : d'.kind = .directive k) :
    directive language.catalog head d = .ok () d' := by
  rcases statement_cases language stack head with hs | hs | hs
  · rw [hs] at h
    exact h
  · have hentry : d'.kind = .entry := header_of_ok hs hd h
    rw [hentry] at hkind
    cases hkind
  · rw [hs] at h
    have hne : d'.kind ≠ .directive k :=
      header_of_ok (H := fun h => h.kind ≠ .directive k) (yields_codeLine language nofun nofun fun _ _ => nofun) hd h
    exact absurd hkind hne

/-- a directive that is no end keeps the kind that its keyword gives it, and an end becomes no other directive -/
theorem eq_of_directiveOperands_ok {catalog : Catalog} {word : Text} {j k : Directive}
    (hword : Directive.ofKeyword? word = some j)
    (hd : d.header = ⟨.directive j, some word, catalog.lookup word, j.opens?, none⟩)
    (h : directiveOperands j d = .ok () d') (hkind : d'.kind = .directive k) (hblock : k ≠ .endBlock)
    (hlocal : k ≠ .endLocal) : j = k := by
  by_cases hj : j = .endBlock
  · subst hj
    have hends : Yields (directiveOperands .endBlock)
        ⟨.directive .endBlock, some word, catalog.lookup word, Directive.endBlock.opens?, none⟩
        fun h => h.kind = .directive .endBlock ∨ h.kind = .directive .endLocal :=
      yields_endOperands (.inl rfl) (.inr rfl) fun _ => .inl rfl
    have hend := hends d hd
    rw [h] at hend
    rcases hend with hend | hend
    · exact absurd (StatementKind.directive.inj (hkind.symm.trans hend)) hblock
    · exact absurd (StatementKind.directive.inj (hkind.symm.trans hend)) hlocal
  · have hlocal' : j ≠ .endLocal := fun e => Directive.ofKeyword?_ne_endLocal _ (e ▸ hword)
    have hkeeps := keeps_directiveOperands hj hlocal' _ d hd
    rw [h] at hkeeps
    exact StatementKind.directive.inj ((congrArg Header.kind hkeeps).symm.trans hkind)

/-- the operands of a directive that is no end are those that its own routine reads -/
theorem exists_of_directive_ok {catalog : Catalog} {head : Token} {k : Directive} (hd : d.header = start)
    (h : directive catalog head d = .ok () d') (hkind : d'.kind = .directive k) (hblock : k ≠ .endBlock)
    (hlocal : k ≠ .endLocal) :
    ∃ d₁ d₂, d₁.cursor = { d.cursor with tokens := d.cursor.tokens.tail } ∧ d₁.operands = d.operands ∧
      directiveOperands k d₁ = .ok () d₂ ∧ d'.operands = d₂.operands := by
  obtain ⟨_, d₀, hread, h⟩ := exists_of_bind_ok h
  obtain ⟨c, hc, rfl⟩ := exists_of_read_ok hread
  obtain ⟨-, rfl⟩ := Prod.mk.inj (Except.ok.inj hc)
  cases hword : Directive.ofKeyword? head.text with
  | none =>
    rw [hword] at h
    obtain ⟨c, hc, -⟩ := exists_of_read_ok h
    cases hc
  | some j =>
    rw [hword] at h
    obtain ⟨_, d₁, hmodify, h⟩ := exists_of_bind_ok h
    obtain ⟨-, hd₁⟩ := EStateM.Result.ok.inj hmodify
    have hcloses : d.closes = none := congrArg Header.closes hd
    have hheader : d₁.header = ⟨.directive j, some head.text, catalog.lookup head.text, j.opens?, none⟩ := by
      rw [← hd₁, Draft.header, ← hcloses]
    obtain ⟨_, d₂, hoperands, hfinish⟩ := exists_of_bind_ok (of_expecting_ok h)
    obtain ⟨c, -, rfl⟩ := exists_of_read_ok hfinish
    obtain rfl := eq_of_directiveOperands_ok hword hheader hoperands hkind hblock hlocal
    exact ⟨d₁, d₂, by rw [← hd₁], by rw [← hd₁], hoperands, rfl⟩

end LineParser

/-! ## numbers that are accepted -/

theorem Literal.toIntIn?_eq_some_iff {low high i : Int} {l : Literal} :
    l.toIntIn? low high = some i ↔ l.toInt? = some i ∧ low ≤ i ∧ i ≤ high := by
  rw [toIntIn?, Option.filter_eq_some_iff, Bool.and_eq_true_iff, decide_eq_true_iff, decide_eq_true_iff]

/-- the operand is a literal whose value is a whole number as `Q` says -/
def Operand.IsWhole (Q : Int → Prop) (o : Operand) : Prop :=
  ∃ l i, o.value = .literal l ∧ l.toInt? = some i ∧ Q i

namespace Extent

variable {x : Extent} {ts : List Token}

theorem yields_count (hts : x.Laid ts) (what : Text) :
    x.Yields ts (LineParser.count what) fun o _ => o.IsWhole fun i => 0 ≤ i ∧ i ≤ 2 ^ 32 - 1 := by
  have hl := yields_bareLiteral hts
  unfold Yields at hl ⊢
  unfold LineParser.count
  cases hr : Reader.bareLiteral (x.cursor ts) with
  | error e => exact hts.has_here
  | ok p =>
    rw [hr] at hl
    obtain ⟨⟨l, span⟩, c⟩ := p
    obtain ⟨rest, rfl, hspans, -⟩ := hl
    dsimp only
    split
    · rename_i i hi
      exact ⟨rest, rfl, l, i, rfl, Literal.toIntIn?_eq_some_iff.mp hi⟩
    · exact (hspans.has hts).1

theorem yields_elementWidth (hts : x.Laid ts) :
    x.Yields ts LineParser.elementWidth fun o _ => o.IsWhole (· ∈ ([1, 2, 4, 8] : List Int)) := by
  refine (yields_bareLiteral hts).bind fun ⟨l, span⟩ rest h => ?_
  have hfail : ∀ {Q}, x.Yields rest (Reader.failAt span .elementWidth : Reader Operand) Q :=
    yields_failAt (h.1.has hts).1 _
  dsimp only
  split
  · rename_i i hi
    refine Yields.ite (fun hwidth => Yields.pure ⟨l, i, rfl, ?_⟩) fun _ => hfail
    exact ⟨(Literal.toIntIn?_eq_some_iff.mp hi).1, by simpa using hwidth⟩
  · exact hfail

end Extent

/-! ## the line -/

section
variable {language : Language} {stack : BlockStack} {line : Text} {number : Nat}

/-- a directive whose only operand is read by `r` has what `r` gives -/
theorem operands_of_directive {k : Directive} {r : Reader Operand} {P : Operand → Prop}
    (herror : (parseLine language stack line number).error = none)
    (hkind : (parseLine language stack line number).kind = .directive k)
    (hblock : k ≠ .endBlock) (hlocal : k ≠ .endLocal) (hr : LineParser.directiveOperands k = LineParser.add r)
    (hgives : ∀ (x : Extent) ts, x.Laid ts → x.Yields ts r fun o _ => P o) :
    ∃ o, (parseLine language stack line number).operands = [o] ∧ P o := by
  obtain ⟨x, head, more, d, -, hlaid, hrun, hreading⟩ :=
    exists_run_of_error_eq_none herror (by rw [hkind]; exact ⟨nofun, nofun⟩)
  have hheader : (parseLine language stack line number).header = d.header := congrArg Reading.header hreading
  have hoperands : (parseLine language stack line number).operands = d.operands := congrArg Reading.operands hreading
  have hd : d.kind = .directive k := (congrArg Header.kind hheader).symm.trans hkind
  obtain ⟨d₁, d₂, hcursor, hnil, hadd, hlast⟩ :=
    LineParser.exists_of_directive_ok rfl (LineParser.directive_of_kind rfl hrun hd) hd hblock hlocal
  rw [hr] at hadd
  obtain ⟨o, c, hc, rfl⟩ := LineParser.exists_of_add_ok hadd
  rw [hcursor] at hc
  obtain ⟨rest, -, ho⟩ := (hgives x more (hlaid.suffix (List.suffix_cons head more))).of_ok hc
  refine ⟨o, ?_, ho⟩
  rw [hoperands, hlast, hnil]
  rfl

theorem count_of_directive {k : Directive} (hk : k ∈ Directive.counted)
    (herror : (parseLine language stack line number).error = none)
    (hkind : (parseLine language stack line number).kind = .directive k) :
    ∃ o, (parseLine language stack line number).operands = [o] ∧ o.IsWhole fun i => 0 ≤ i ∧ i ≤ 2 ^ 32 - 1 := by
  simp only [Directive.counted, List.mem_cons, List.not_mem_nil, or_false] at hk
  rcases hk with rfl | rfl | rfl
  · exact operands_of_directive herror hkind nofun nofun rfl fun _ _ hts => Extent.yields_count hts _
  · exact operands_of_directive herror hkind nofun nofun rfl fun _ _ hts => Extent.yields_count hts _
  · exact operands_of_directive herror hkind nofun nofun rfl fun _ _ hts => Extent.yields_count hts _

theorem width_of_directive (herror : (parseLine language stack line number).error = none)
    (hkind : (parseLine language stack line number).kind = .directive .arrayData) :
    ∃ o, (parseLine language stack line number).operands = [o] ∧ o.IsWhole (· ∈ ([1, 2, 4, 8] : List Int)) :=
  operands_of_directive herror hkind nofun nofun rfl fun _ _ hts => Extent.yields_elementWidth hts

/-- the text at the place of the only operand is that of its literal -/
theorem parse_of_literal {o : Operand} {l : Literal} (ho : (parseLine language stack line number).operands = [o])
    (hl : o.value = .literal l) : Literal.parse (o.span.slice line) = .ok l := by
  have hmem : o ∈ (parseLine language stack line number).operands := by rw [ho]; exact List.mem_singleton_self o
  have hwritten := ((reading_exact language stack line number).written o hmem).1
  obtain ⟨v, span⟩ := o
  obtain rfl : v = .literal l := hl
  cases hwritten with
  | plain _ _ _ htext => exact htext

/-- a whole number is an integer exactly when it is written as one -/
theorem isInteger_iff {Q : Int → Prop} {o : Operand} (ho : (parseLine language stack line number).operands = [o])
    (hwhole : o.IsWhole Q) : (∃ l, Literal.IntegerText (o.span.slice line) l) ↔
      ∃ v width hex, (parseLine language stack line number).HasLiteral ⟨.int v, width, hex⟩ ∧ Q v.toInt := by
  obtain ⟨l, i, hl, hi, hQ⟩ := hwhole
  have hparse := parse_of_literal ho hl
  obtain ⟨v, span⟩ := o
  obtain rfl : v = .literal l := hl
  constructor
  · rintro ⟨m, hm⟩
    obtain ⟨hm, v, hv⟩ := Literal.parse_eq_ok_int_iff.mpr hm
    obtain rfl := Except.ok.inj (hparse.symm.trans hm)
    obtain ⟨value, width, hex⟩ := l
    obtain rfl : value = .int v := hv
    obtain rfl : v.toInt = i := Option.some.inj hi
    exact ⟨v, width, hex, ⟨span, ho⟩, hQ⟩
  · rintro ⟨v, width, hex, ⟨span', hspan⟩, -⟩
    rw [ho] at hspan
    obtain ⟨hvalue, -⟩ := Located.mk.inj (List.cons.inj hspan).1
    obtain rfl := OperandValue.literal.inj hvalue
    exact ⟨_, Literal.parse_eq_ok_int_iff.mp ⟨hparse, v, rfl⟩⟩

/-- **Which accepted lines keep to the grammar of directives.**  The operand of a count or of a width is always one
literal with a whole value in its range.  The line keeps to the grammar exactly when no constant of an enumeration on
it is written with parameters and the literals of counts and widths are written as integers. -/
theorem parseLine_documented_iff (herror : (parseLine language stack line number).error = none) :
    let s := parseLine language stack line number
    (∀ d ∈ Directive.counted, s.kind = .directive d →
      ∃ o, s.operands = [o] ∧ o.IsWhole fun i => 0 ≤ i ∧ i ≤ 2 ^ 32 - 1) ∧
    (s.kind = .directive .arrayData → ∃ o, s.operands = [o] ∧ o.IsWhole (· ∈ ([1, 2, 4, 8] : List Int))) ∧
    (s.IsDocumented ↔ s.IsPlain line) := by
  intro s
  have hconstant : ∀ e r, s.HasConstant e r →
      (r.member.isField = true ↔ ¬ Text.HasParameters (e.span.slice line)) := by
    rintro e r ⟨o, ho, hpart, hr⟩
    obtain ⟨hwell, htext⟩ := (reading_exact language stack line number).constants o ho e r hpart hr
    rw [Reference.hasParameters_iff hwell htext, Bool.not_eq_false]
  refine ⟨fun d hd hkind => count_of_directive hd herror hkind, width_of_directive herror, ?_, ?_⟩
  · intro h
    refine ⟨fun e r he => (hconstant e r he).mp (h.constant e r he), fun d hd hkind o ho => ?_⟩
    rcases List.mem_cons.mp hd with rfl | hd
    · obtain ⟨o', ho', hwhole⟩ := width_of_directive herror hkind
      rw [ho'] at ho
      obtain rfl := List.mem_singleton.mp ho
      exact (isInteger_iff ho' hwhole).mpr (h.width hkind)
    · obtain ⟨o', ho', hwhole⟩ := count_of_directive hd herror hkind
      rw [ho'] at ho
      obtain rfl := List.mem_singleton.mp ho
      exact (isInteger_iff ho' hwhole).mpr (h.count d hd hkind)
  · intro h
    refine ⟨fun e r he => (hconstant e r he).mpr (h.constant e r he), fun d hd hkind => ?_, fun hkind => ?_⟩
    · obtain ⟨o, ho, hwhole⟩ := count_of_directive hd herror hkind
      refine (isInteger_iff ho hwhole).mp (h.literal d (List.mem_cons_of_mem _ hd) hkind o ?_)
      rw [ho]
      exact List.mem_singleton_self o
    · obtain ⟨o, ho, hwhole⟩ := width_of_directive herror hkind
      refine (isInteger_iff ho hwhole).mp (h.literal _ List.mem_cons_self hkind o ?_)
      rw [ho]
      exact List.mem_singleton_self o

end

/-- the greatest count, in base sixteen -/
theorem parseLine_documented_greatest :
    let line := ".registers 0xffffffff".toList
    let s := parseLine ⟨.builtin, .standard⟩ [.method] line 3
    s.error = none ∧ s.kind = .directive .registers ∧
      (∃ o, s.operands = [o] ∧ o.IsWhole fun i => 0 ≤ i ∧ i ≤ 2 ^ 32 - 1) ∧ (s.IsDocumented ↔ s.IsPlain line) := by
  intro line s
  have herror : s.error = none := Option.isNone_iff_eq_none.mp (by decide +kernel)
  have hkind : s.kind = .directive .registers := by decide +kernel
  obtain ⟨hcount, -, hiff⟩ := parseLine_documented_iff herror
  exact ⟨herror, hkind, hcount .registers (by decide) hkind, hiff⟩

/-- whether the value is a constant of an enumeration that is a method -/
def OperandValue.isMethodConstant : OperandValue → Bool
  | .enumValue r => !r.member.isField
  | _ => false

/-- whether the value is a floating point number -/
def OperandValue.isFloating : OperandValue → Bool
  | .literal ⟨.float _, _, _⟩ => true
  | _ => false

/-- a method is accepted as a constant of an enumeration, and a floating point number as a count -/
theorem not_documented_method :
    let constant := parseLine ⟨.builtin, .standard⟩ [] ".enum La;->b()V".toList 0
    let count := parseLine ⟨.builtin, .standard⟩ [.method] ".locals 2.0".toList 0
    constant.error = none ∧ ¬ constant.IsDocumented ∧ count.error = none ∧ ¬ count.IsDocumented := by
  intro constant count
  refine ⟨Option.isNone_iff_eq_none.mp (by decide +kernel), fun h => ?_,
    Option.isNone_iff_eq_none.mp (by decide +kernel), fun h => ?_⟩
  · have hmethod : (constant.operands.any fun o => o.value.isMethodConstant) = true := by decide +kernel
    obtain ⟨o, ho, hvalue⟩ := List.any_eq_true.mp hmethod
    unfold OperandValue.isMethodConstant at hvalue
    split at hvalue
    · rename_i r hr
      rw [h.constant o r ⟨o, ho, .self, hr⟩] at hvalue
      cases hvalue
    · cases hvalue
  · have hfloat : (count.operands.any fun o => o.value.isFloating) = true := by decide +kernel
    obtain ⟨v, width, hex, ⟨span, hoperands⟩, -⟩ := h.count .locals (by decide) (by decide +kernel)
    rw [hoperands] at hfloat
    cases hfloat

end Smali
