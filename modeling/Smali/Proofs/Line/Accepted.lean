import Mathlib.Data.List.Forall2
import Smali.Catalog.Builtin
import Smali.Proofs.Line.Exact

/-!
# Accepted instructions

A line that is read as an instruction has the shape of its entry, and nothing on it is passed over.

* `LineParser.exists_of_bind_ok`, ...  what a run that succeeds has done, step by step;
* `LineParser.instruction_of_kind`  only one of the parsers of lines makes instructions;
* `Extent.Listed`        operands that each have a comma before them, and the tokens that they take;
* `Extent.listed_of_moreOperands`  the walk over the places of a shape reads such operands;
* `Token.Placed`         the token is in exactly one operand, or it is a comma between two of them;
* `parseLine_accepted`   an accepted instruction has the entry of its mnemonic and an operand for each place, and
                         all its tokens are placed.
-/

namespace Smali

/-! ## runs that succeed -/

namespace LineParser

variable {α β : Type} {d d' : Draft}

theorem exists_of_bind_ok {p : LineParser α} {f : α → LineParser β} {b : β} (h : (p >>= f) d = .ok b d') :
    ∃ a d₁, p d = .ok a d₁ ∧ f a d₁ = .ok b d' := by
  change EStateM.bind p f d = .ok b d' at h
  unfold EStateM.bind at h
  cases hp : p d with
  | ok a d₁ =>
    rw [hp] at h
    exact ⟨a, d₁, rfl, h⟩
  | error e d₁ =>
    rw [hp] at h
    cases h

theorem exists_of_read_ok {r : Reader α} {a : α} (h : read r d = .ok a d') :
    ∃ c, r d.cursor = .ok (a, c) ∧ d' = { d with cursor := c } := by
  unfold read at h
  cases hr : r d.cursor with
  | ok p =>
    rw [hr] at h
    obtain ⟨rfl, rfl⟩ := EStateM.Result.ok.inj h
    exact ⟨p.2, rfl, rfl⟩
  | error e =>
    rw [hr] at h
    cases h

theorem of_expecting_ok {entry : Option Entry} {p : LineParser α} {a : α} (h : expecting entry p d = .ok a d') :
    p d = .ok a d' := by
  unfold expecting at h
  cases hp : p d with
  | ok a' d₁ =>
    rw [hp] at h
    exact h
  | error e d₁ =>
    rw [hp] at h
    cases entry <;> cases h

theorem exists_of_add_ok {r : Reader Operand} (h : add r d = .ok () d') :
    ∃ o c, r d.cursor = .ok (o, c) ∧ d' = { d with cursor := c, operands := d.operands ++ [o] } := by
  obtain ⟨o, d₁, hread, hpush⟩ := exists_of_bind_ok h
  obtain ⟨c, hc, rfl⟩ := exists_of_read_ok hread
  obtain ⟨-, rfl⟩ := EStateM.Result.ok.inj hpush
  exact ⟨o, c, hc, rfl⟩

/-! ## which lines are instructions -/

theorem header_of_ok {p : LineParser α} {H : Header → Prop} {a : α} (hp : Yields p start H) (hd : d.header = start)
    (h : p d = .ok a d') : H d'.header := by
  have hpd := hp d hd
  rw [h] at hpd
  exact hpd

theorem directive_kind_ne (catalog : Catalog) {head : Token} (hd : d.header = start)
    (h : directive catalog head d = .ok () d') : d'.kind ≠ .instruction := by
  refine header_of_ok (H := fun h => h.kind ≠ .instruction) ?_ hd h
  refine yields_directive nofun (fun _ _ _ => nofun) fun _ => yields_endOperands nofun nofun fun _ => nofun

/-- a line is a directive, an entry of a block, or a line of code -/
theorem statement_cases (language : Language) (stack : BlockStack) (head : Token) :
    statement language stack head = directive language.catalog head ∨
      Yields (statement language stack head) start (fun h => h.kind = .entry) ∨
      statement language stack head = codeLine language head := by
  unfold statement
  split
  · exact .inl rfl
  refine .inr ?_
  split
  · exact .inl (yields_arrayEntry rfl)
  · exact .inl (yields_packedSwitchEntry rfl)
  · exact .inl (yields_sparseSwitchEntry rfl)
  · exact .inl (yields_element rfl fun _ _ => rfl)
  · exact .inl (yields_element rfl fun _ _ => rfl)
  · exact .inl (yields_arrayElement rfl (fun _ _ => rfl) rfl)
  · exact .inr rfl

theorem codeLine_cases (language : Language) (head : Token) :
    Yields (codeLine language head) start (fun h => h.kind ≠ .instruction) ∨
      ∃ entry, language.catalog.instruction? head.text = some entry ∧
        codeLine language head = instruction language.options.odex entry head := by
  have fails : ∀ p : Problem, p.category ≠ .unterminated → Yields (read (Reader.fail p : Reader Unit)) start
      fun h => h.kind ≠ .instruction :=
    fun p hp => (keeps_read (Reader.local_fail hp)).yields nofun
  unfold codeLine
  split
  · exact .inl (fails _ nofun)
  split
  · refine .inl (Yields.bind_keeps (yields_setKind nofun) fun _ => ?_)
    exact (keeps_add Reader.local_label).bind fun _ => keeps_finish
  split
  · rename_i entry hentry
    exact .inr ⟨entry, (Option.ite_none_right_eq_some.mp hentry).2, rfl⟩
  · exact .inl (Yields.ite (fails _ nofun) (fails _ nofun))

/-- **Only the routine for instructions makes instructions.** -/
theorem instruction_of_kind {language : Language} {stack : BlockStack} {head : Token} (hd : d.header = start)
    (h : statement language stack head d = .ok () d') (hkind : d'.kind = .instruction) :
    ∃ entry, language.catalog.instruction? head.text = some entry ∧
      instruction language.options.odex entry head d = .ok () d' := by
  rcases statement_cases language stack head with hs | hs | hs
  · rw [hs] at h
    exact absurd hkind (directive_kind_ne _ hd h)
  · have hentry : d'.kind = .entry := header_of_ok hs hd h
    rw [hentry] at hkind
    cases hkind
  · rw [hs] at h
    rcases codeLine_cases language head with hc | ⟨entry, hentry, hc⟩
    · exact absurd hkind (header_of_ok hc hd h)
    · rw [hc] at h
      exact ⟨entry, hentry, h⟩

end LineParser

/-! ## the places of a shape -/

namespace Extent

variable (x : Extent)

/-- operands for the places `ks`, read from `ts`, each with a comma before it; `rest` is left -/
inductive Listed : List OperandKind → List Token → List Operand → List Token → Prop
  | nil (ts : List Token) : Listed [] ts [] ts
  | cons {k : OperandKind} {ks : List OperandKind} {comma : Token} {ts mid rest : List Token} {o : Operand}
      {os : List Operand} (hcomma : comma.isDelimiter ",".toList = true) (ho : x.Reads k.Fits ts o mid)
      (h : Listed ks mid os rest) : Listed (k :: ks) (comma :: ts) (o :: os) rest

variable {x} {α : Type} {ts rest : List Token} {ks : List OperandKind} {os : List Operand} {d d' : Draft}

theorem Yields.of_ok {r : Reader α} {Q : α → List Token → Prop} (hr : x.Yields ts r Q) {a : α} {c : Cursor}
    (h : r (x.cursor ts) = .ok (a, c)) : ∃ rest, c = x.cursor rest ∧ Q a rest := by
  unfold Yields at hr
  rw [h] at hr
  exact hr

theorem exists_of_add_ok {k : OperandKind} (hts : x.Laid ts) (hd : d.cursor = x.cursor ts)
    (h : LineParser.add (LineParser.operand k) d = .ok () d') :
    ∃ o rest, x.Reads k.Fits ts o rest ∧
      d' = { d with cursor := x.cursor rest, operands := d.operands ++ [o] } := by
  obtain ⟨o, c, hc, rfl⟩ := LineParser.exists_of_add_ok h
  rw [hd] at hc
  obtain ⟨rest, rfl, ho⟩ := (gives_operand k ts hts).of_ok hc
  exact ⟨o, rest, ho, rfl⟩

/-- **The walk over places that each have a comma before them.** -/
theorem listed_of_moreOperands (hts : x.Laid ts) (hd : d.cursor = x.cursor ts)
    (h : LineParser.moreOperands ks d = .ok () d') :
    ∃ os rest, x.Listed ks ts os rest ∧
      d' = { d with cursor := x.cursor rest, operands := d.operands ++ os } := by
  induction ks generalizing ts d with
  | nil =>
    obtain ⟨-, rfl⟩ := EStateM.Result.ok.inj h
    refine ⟨[], ts, .nil ts, ?_⟩
    rw [← hd, List.append_nil]
  | cons k ks ih =>
    obtain ⟨span, d₁, hread, h⟩ := LineParser.exists_of_bind_ok h
    obtain ⟨_, d₂, hadd, h⟩ := LineParser.exists_of_bind_ok h
    obtain ⟨c, hc, rfl⟩ := LineParser.exists_of_read_ok hread
    rw [hd] at hc
    obtain ⟨ts', rfl, comma, rfl, -, hcomma⟩ := (yields_delimiter hts _).of_ok hc
    have hts' : x.Laid ts' := hts.suffix (List.suffix_cons comma ts')
    obtain ⟨o, mid, ho, rfl⟩ := exists_of_add_ok hts' rfl hadd
    obtain ⟨os, rest, hos, rfl⟩ := ih (hts'.suffix ho.spans.suffix) rfl h
    refine ⟨o :: os, rest, .cons hcomma ho hos, ?_⟩
    rw [List.append_assoc]
    rfl

theorem Listed.fits (h : x.Listed ks ts os rest) :
    List.Forall₂ OperandKind.Fits ks (os.map Located.value) := by
  induction h with
  | nil => exact .nil
  | cons _ ho _ ih => exact .cons ho.value ih

end Extent

/-! ## the tokens between the operands -/

/-- the token is a comma between two operands that follow each other -/
def Token.Separates (os : List Operand) (t : Token) : Prop :=
  t.isDelimiter ",".toList = true ∧ ∃ (i : Nat) (a b : Operand), os[i]? = some a ∧ os[i + 1]? = some b ∧
    a.span.stop ≤ t.span.start ∧ t.span.stop ≤ b.span.start

/-- the token lies in exactly one of the operands, or it is a comma between two of them -/
def Token.Placed (os : List Operand) (t : Token) : Prop :=
  (∃! i : Nat, ∃ o : Operand, os[i]? = some o ∧ o.span.Covers t.span) ∨ t.Separates os

theorem Token.Separates.cons {os : List Operand} {t : Token} (h : t.Separates os) (o : Operand) :
    t.Separates (o :: os) := by
  obtain ⟨hcomma, i, h⟩ := h
  exact ⟨hcomma, i + 1, h⟩

theorem Token.span_start_lt_stop {line : Text} {number : Nat} {t : Token} (h : t.Sits line number) :
    t.span.start < t.span.stop :=
  .inr ⟨rfl, h.start_lt_stop⟩

/-- operands that are apart do not share a token -/
theorem existsUnique_covers {os : List Operand} (hapart : os.Pairwise fun a b => a.span.stop ≤ b.span.start)
    {t : Token} (ht : t.span.start < t.span.stop) {o : Operand} (ho : o ∈ os) (hcovers : o.span.Covers t.span) :
    ∃! i : Nat, ∃ o : Operand, os[i]? = some o ∧ o.span.Covers t.span := by
  have hlt : ∀ (i j : Nat) (a b : Operand), os[i]? = some a → os[j]? = some b → a.span.Covers t.span →
      b.span.Covers t.span → ¬i < j := by
    intro i j a b ha hb hat hbt hij
    obtain ⟨hi, rfl⟩ := List.getElem?_eq_some_iff.mp ha
    obtain ⟨hj, rfl⟩ := List.getElem?_eq_some_iff.mp hb
    have hab := List.pairwise_iff_getElem.mp hapart i j hi hj hij
    exact absurd ht (not_lt_of_ge (le_trans hat.2 (le_trans hab hbt.1)))
  obtain ⟨i, hi⟩ := List.getElem?_of_mem ho
  refine ⟨i, ⟨o, hi, hcovers⟩, ?_⟩
  rintro j ⟨b, hj, hb⟩
  have h1 := hlt i j o b hi hj hcovers hb
  have h2 := hlt j i b o hj hi hb hcovers
  omega

namespace Extent

variable {x : Extent} {ts mid rest : List Token} {ks : List OperandKind} {o : Operand} {os : List Operand}

/-- what an operand is read from lies in it -/
theorem Reads.covers {A : OperandValue → Prop} (hts : x.Laid ts) (h : x.Reads A ts o mid) {t : Token}
    (ht : t ∈ ts) : o.span.Covers t.span ∨ t ∈ mid := by
  obtain ⟨first, used, stop, rfl, hspan, hused, -, -, -⟩ := h.spans
  rw [hspan, hts.span_eq ht]
  rw [← List.cons_append, List.mem_append] at ht
  rcases ht with ht | ht
  · have hfirst := hts.toLayout.start_le rfl (List.mem_append_left mid ht)
    exact .inl ⟨.inr ⟨rfl, hfirst⟩, .inr ⟨rfl, hused t ht⟩⟩
  · exact .inr ht

/-- what is left comes after the operand -/
theorem Reads.stop_le {A : OperandValue → Prop} (hts : x.Laid ts) (h : x.Reads A ts o mid) {t : Token}
    (ht : t ∈ mid) : o.span.stop ≤ t.span.start := by
  obtain ⟨first, used, stop, rfl, hspan, -, hleft, -, -⟩ := h.spans
  rw [hspan, (hts.suffix h.spans.suffix).span_eq ht]
  exact .inr ⟨rfl, hleft t ht⟩

/-- the comma before an operand stops before it -/
theorem Reads.stop_le_start {A : OperandValue → Prop} {comma : Token} (hts : x.Laid (comma :: ts))
    (h : x.Reads A ts o mid) : comma.span.stop ≤ o.span.start := by
  obtain ⟨first, used, stop, rfl, hspan, -⟩ := h.spans
  rw [hspan, hts.span_eq List.mem_cons_self]
  exact .inr ⟨rfl, (List.pairwise_cons.mp hts.order).1 first List.mem_cons_self⟩

/-- **Each token of a list of operands** lies in one of them or is a comma between two of them; `prev` is the
operand before the list. -/
theorem Listed.placed (h : x.Listed ks ts os rest) (hts : x.Laid ts) {prev : Operand}
    (hprev : ∀ t ∈ ts, prev.span.stop ≤ t.span.start) :
    ∀ t ∈ ts, (∃ o ∈ os, o.span.Covers t.span) ∨ t.Separates (prev :: os) ∨ t ∈ rest := by
  induction h generalizing prev with
  | nil ts => exact fun t ht => .inr (.inr ht)
  | @cons k ks comma ts mid rest o os hcomma ho h ih =>
    have hts' : x.Laid ts := hts.suffix (List.suffix_cons comma ts)
    intro t ht
    rcases List.mem_cons.mp ht with rfl | ht
    · refine .inr (.inl ⟨hcomma, 0, prev, o, rfl, rfl, ?_, ho.stop_le_start hts⟩)
      exact hprev _ List.mem_cons_self
    · rcases ho.covers hts' ht with hcovers | hmid
      · exact .inl ⟨o, List.mem_cons_self, hcovers⟩
      · rcases ih (hts'.suffix ho.spans.suffix) (fun u hu => ho.stop_le hts' hu) t hmid with
          ⟨o', ho', hcovers⟩ | hcomma | hrest
        · exact .inl ⟨o', List.mem_cons_of_mem o ho', hcovers⟩
        · exact .inr (.inl (hcomma.cons prev))
        · exact .inr (.inr hrest)

/-- **The walk over the places of a shape.**  Each token that it takes lies in an operand or is a comma between
two. -/
theorem placed_of_operands {d d' : Draft} (hts : x.Laid ts) (hd : d.cursor = x.cursor ts)
    (h : LineParser.operands ks d = .ok () d') :
    ∃ os rest, d' = { d with cursor := x.cursor rest, operands := d.operands ++ os } ∧
      List.Forall₂ OperandKind.Fits ks (os.map Located.value) ∧
      ∀ t ∈ ts, (∃ o ∈ os, o.span.Covers t.span) ∨ t.Separates os ∨ t ∈ rest := by
  cases ks with
  | nil =>
    obtain ⟨-, rfl⟩ := EStateM.Result.ok.inj h
    refine ⟨[], ts, ?_, .nil, fun t ht => .inr (.inr ht)⟩
    rw [← hd, List.append_nil]
  | cons k ks =>
    obtain ⟨_, d₁, hadd, h⟩ := LineParser.exists_of_bind_ok h
    obtain ⟨o, mid, ho, rfl⟩ := exists_of_add_ok hts hd hadd
    have hmid : x.Laid mid := hts.suffix ho.spans.suffix
    obtain ⟨os, rest, hos, rfl⟩ := listed_of_moreOperands hmid rfl h
    refine ⟨o :: os, rest, ?_, .cons ho.value hos.fits, fun t ht => ?_⟩
    · rw [List.append_assoc]
      rfl
    · rcases ho.covers hts ht with hcovers | ht
      · exact .inl ⟨o, List.mem_cons_self, hcovers⟩
      · rcases hos.placed hmid (fun u hu => ho.stop_le hts hu) t ht with ⟨o', ho', hcovers⟩ | hplaced
        · exact .inl ⟨o', List.mem_cons_of_mem o ho', hcovers⟩
        · exact .inr hplaced

theorem eq_nil_of_finish_ok {d d' : Draft} (hd : d.cursor = x.cursor ts)
    (h : LineParser.finish d = .ok () d') : ts = [] ∧ d' = d := by
  obtain ⟨c, hc, rfl⟩ := LineParser.exists_of_read_ok h
  rw [hd] at hc
  cases ts with
  | nil =>
    obtain ⟨-, rfl⟩ := Prod.mk.inj (Except.ok.inj hc)
    exact ⟨rfl, by rw [← hd]⟩
  | cons t ts => cases hc

/-- what an instruction that is accepted is made of -/
theorem placed_of_instruction {odex : Bool} {entry : Entry} {head : Token} {more : List Token} {d' : Draft}
    (hts : x.Laid (head :: more))
    (h : LineParser.instruction odex entry head (Draft.start (x.cursor (head :: more))) = .ok () d') :
    (entry.isOdexOnly = true → odex = true) ∧ d'.keyword = some head.text ∧ d'.opcode = some entry ∧
      List.Forall₂ OperandKind.Fits entry.operandKinds (d'.operands.map Located.value) ∧
      ∀ t ∈ more, (∃ o ∈ d'.operands, o.span.Covers t.span) ∨ t.Separates d'.operands := by
  obtain ⟨_, d₁, hread, h⟩ := LineParser.exists_of_bind_ok h
  obtain ⟨c, hc, rfl⟩ := LineParser.exists_of_read_ok hread
  obtain ⟨-, rfl⟩ := Prod.mk.inj (Except.ok.inj hc)
  obtain ⟨_, d₂, hmodify, h⟩ := LineParser.exists_of_bind_ok h
  obtain ⟨-, rfl⟩ := EStateM.Result.ok.inj hmodify
  have hrun := LineParser.of_expecting_ok h
  have hodex : ¬(entry.isOdexOnly && !odex) = true := by
    intro hc
    rw [if_pos hc] at hrun
    obtain ⟨_, d₃, hread, -⟩ := LineParser.exists_of_bind_ok hrun
    obtain ⟨c, hc, -⟩ := LineParser.exists_of_read_ok hread
    cases hc
  rw [if_neg hodex] at hrun
  obtain ⟨_, d₃, hoperands, hfinish⟩ := LineParser.exists_of_bind_ok hrun
  have hmore : x.Laid more := hts.suffix (List.suffix_cons head more)
  obtain ⟨os, rest, rfl, hfits, hplaced⟩ := placed_of_operands hmore rfl hoperands
  obtain ⟨rfl, rfl⟩ := eq_nil_of_finish_ok rfl hfinish
  refine ⟨fun ho => ?_, rfl, rfl, hfits, fun t ht => ?_⟩
  · cases odex with
    | true => rfl
    | false => exact absurd (by rw [ho]; rfl) hodex
  · rcases hplaced t ht with hcovers | hcomma | hnil
    · exact .inl hcovers
    · exact .inr hcomma
    · cases hnil

end Extent

theorem Catalog.exists_shape_of_instruction? {catalog : Catalog} {word : Text} {e : Entry}
    (h : catalog.instruction? word = some e) :
    catalog.lookup word = some e ∧ ∃ shape, e.shape? = some shape ∧ e.operandKinds = shape.operands := by
  obtain ⟨hlookup, hdirective⟩ := Option.filter_eq_some_iff.mp h
  refine ⟨hlookup, ?_⟩
  cases hrole : e.role with
  | instruction shape =>
    have hshape : e.shape? = some shape := by rw [Entry.shape?, hrole]
    exact ⟨shape, hshape, by rw [Entry.operandKinds, hshape]; rfl⟩
  | directive d =>
    rw [Entry.isDirective, Entry.directive?, hrole] at hdirective
    cases hdirective

/-- the run behind a line that is accepted and has tokens of a statement -/
theorem exists_run_of_error_eq_none {language : Language} {stack : BlockStack} {line : Text} {number : Nat}
    (herror : (parseLine language stack line number).error = none)
    (hkind : (parseLine language stack line number).kind ≠ .blank ∧
      (parseLine language stack line number).kind ≠ .comment) :
    ∃ (x : Extent) (head : Token) (more : List Token) (d : Draft),
      (tokenize language.catalog line number).filter Token.isSignificant = head :: more ∧
      x.Laid (head :: more) ∧
      LineParser.statement language stack head (Draft.start (x.cursor (head :: more))) = .ok () d ∧
      (parseLine language stack line number).reading = ⟨d.header, d.operands, none⟩ := by
  have hreading : (parseLine language stack line number).reading.error = none := herror
  cases htokens : (tokenize language.catalog line number).filter Token.isSignificant with
  | nil =>
    obtain ⟨kind, hblank, hnil⟩ := reading_parseLine_nil language stack line number htokens
    have hk : (parseLine language stack line number).kind = kind :=
      congrArg (fun r : Reading => r.header.kind) hnil
    rw [hk] at hkind
    rcases hblank with rfl | rfl
    · exact absurd rfl hkind.2
    · exact absurd rfl hkind.1
  | cons head more =>
    obtain ⟨x, rfl, rfl, hstop, -, hlaid⟩ := exists_extent language.catalog line number htokens
    rw [reading_parseLine language stack x.line x.number htokens, ← hstop] at hreading ⊢
    cases hbad : (head :: more).find? fun t => t.kind == .error with
    | some bad =>
      rw [hbad] at hreading
      cases hreading
    | none =>
      rw [hbad] at hreading
      dsimp only at hreading ⊢
      cases hrun : LineParser.statement language stack head (Draft.start (x.cursor (head :: more))) with
      | error e d =>
        rw [hrun] at hreading
        cases hreading
      | ok _ d => exact ⟨x, head, more, d, rfl, hlaid, hrun, rfl⟩

/-- the run behind a line that is an instruction -/
theorem exists_run_of_kind {language : Language} {stack : BlockStack} {line : Text} {number : Nat}
    (hkind : (parseLine language stack line number).kind = .instruction) :
    ∃ (x : Extent) (head : Token) (more : List Token) (e : Entry) (d : Draft),
      (tokenize language.catalog line number).filter Token.isSignificant = head :: more ∧
      x.Laid (head :: more) ∧ language.catalog.instruction? head.text = some e ∧
      LineParser.instruction language.options.odex e head (Draft.start (x.cursor (head :: more))) = .ok () d ∧
      (parseLine language stack line number).reading = ⟨d.header, d.operands, none⟩ := by
  have hexact := (reading_exact language stack line number).kind
  have herror : (parseLine language stack line number).error = none := by
    rw [← Option.not_isSome_iff_eq_none]
    intro hsome
    have hk : (parseLine language stack line number).kind = .error := hexact.mpr hsome
    rw [hkind] at hk
    cases hk
  obtain ⟨x, head, more, d, htokens, hlaid, hrun, hreading⟩ :=
    exists_run_of_error_eq_none herror (by rw [hkind]; exact ⟨nofun, nofun⟩)
  have hd : d.kind = .instruction := by
    have hheader : (parseLine language stack line number).header = d.header := congrArg Reading.header hreading
    exact (congrArg Header.kind hheader).symm.trans hkind
  obtain ⟨e, he, hinstruction⟩ := LineParser.instruction_of_kind rfl hrun hd
  exact ⟨x, head, more, e, d, htokens, hlaid, he, hinstruction, hreading⟩

/-- **An accepted instruction has the shape of its entry, and nothing on its line is passed over.**  It has no
diagnostic, its entry is that of its mnemonic, and one of optimized files is only accepted when these are.  There is
one operand for each place of the shape, which fits there.  Each token after the mnemonic lies in exactly one
operand or is a comma between two operands that follow each other. -/
theorem parseLine_accepted {language : Language} {stack : BlockStack} {line : Text} {number : Nat}
    (hkind : (parseLine language stack line number).kind = .instruction) :
    let s := parseLine language stack line number
    ∃ head more e shape,
      (tokenize language.catalog line number).filter Token.isSignificant = head :: more ∧
      s.error = none ∧ s.keyword = some head.text ∧ s.opcode = some e ∧
      language.catalog.lookup head.text = some e ∧ (e.isOdexOnly = true → language.options.odex = true) ∧
      e.shape? = some shape ∧ s.operands.length = shape.operands.length ∧
      List.Forall₂ OperandKind.Fits shape.operands (s.operands.map Located.value) ∧
      ∀ t ∈ more, t.Placed s.operands := by
  intro s
  obtain ⟨x, head, more, e, d, htokens, hlaid, he, hrun, hreading⟩ := exists_run_of_kind hkind
  obtain ⟨hodex, hkeyword, hopcode, hfits, hplaced⟩ := Extent.placed_of_instruction hlaid hrun
  obtain ⟨hlookup, shape, hshape, hkinds⟩ := Catalog.exists_shape_of_instruction? he
  have hoperands : s.operands = d.operands := congrArg Reading.operands hreading
  have hheader : s.header = d.header := congrArg Reading.header hreading
  have hapart := (reading_exact language stack line number).apart
  rw [hkinds, ← hoperands] at hfits
  rw [← hoperands] at hplaced
  refine ⟨head, more, e, shape, htokens, congrArg Reading.error hreading, ?_, ?_, hlookup, hodex, hshape, ?_,
    hfits, ?_⟩
  · exact (congrArg Header.keyword hheader).trans hkeyword
  · exact (congrArg Header.opcode hheader).trans hopcode
  · rw [hfits.length_eq, List.length_map]
  · intro t ht
    rcases hplaced t ht with ⟨o, ho, hcovers⟩ | hcomma
    · have hsits := hlaid.sits t (List.mem_cons_of_mem head ht)
      exact .inl (existsUnique_covers hapart (Token.span_start_lt_stop hsits) ho hcovers)
    · exact .inr hcomma

/-- a read of a field, whose reference is several tokens -/
theorem parseLine_accepted_iget :
    let s := parseLine ⟨.builtin, .standard⟩ [.method] "iget v0, p1, La;->b:I # b".toList 3
    s.kind = .instruction ∧ ∃ e shape, s.opcode = some e ∧ e.shape? = some shape ∧ s.error = none ∧
      s.operands.length = shape.operands.length ∧
      List.Forall₂ OperandKind.Fits shape.operands (s.operands.map Located.value) := by
  have hkind : (parseLine ⟨.builtin, .standard⟩ [.method] "iget v0, p1, La;->b:I # b".toList 3).kind =
      .instruction := by
    decide +kernel
  obtain ⟨head, more, e, shape, -, herror, -, hopcode, -, -, hshape, hlength, hfits, -⟩ := parseLine_accepted hkind
  exact ⟨hkind, e, shape, hopcode, hshape, herror, hlength, hfits⟩

end Smali
