import Smali.Proofs.Line.Instruction
import Smali.Proofs.Line.Shape

/-!
# From the run of a line to its statement

A line whose tokens are lexemes is read from its first token to its end.  What the parser of the line does
between two places of the lexer is put together from what its parts do, and at the end of the line it is what the
statement says.

* `LineParser.Runs l l' p values`  between these places the parser appends operands with these values;
* `LineParser.Runs.add`, `LineParser.Runs.bind`, ...  one rule for each way to put parsers together;
* `LineParser.Declares`       a place of the lexer where modifier words are over, as before each name of a member;
* `Statement.IsRead`          a statement without a fault, with its kind, its block and its operands;
* `reading_of_run`            what the parser comes to is what the statement says;
* `isRead_of_kind`, `isRead_of_directive`, `isRead_of_instruction`  the three sorts of lines.
-/

namespace Smali

open Lexer (Passes Takes)
open Reader (Reads)

/-- each keyword has its directive -/
theorem Directive.ofKeyword?_keyword {f : Directive} (hf : f ∈ keyworded) : ofKeyword? f.keyword = some f := by
  revert f
  decide

namespace Reader

theorem reads_finish {catalog : Catalog} {l : Lexer} (h : l.rest = []) :
    Reads catalog l l finish fun _ => True := by
  refine Reads.get_bind fun c hc => ?_
  rw [hc, Lexer.significant_of_rest_eq_nil catalog h]
  exact Reads.pure trivial

end Reader

namespace LineParser

variable {α : Type} {catalog : Catalog} {l m l' : Lexer} {d : Draft} {values more : List OperandValue}

theorem finish_run (hl : l.rest = []) (hd : At catalog d l) : finish d = .ok () d := by
  obtain ⟨_, -, hrun⟩ := read_run (Reader.reads_finish hl) hd
  rw [reach_of_at hd] at hrun
  exact hrun

/-- Between the tokens at two places of the lexer, the parser appends operands with these values and changes nothing
else. -/
def Runs (catalog : Catalog) (l l' : Lexer) (p : LineParser Unit) (values : List OperandValue) : Prop :=
  ∀ d, At catalog d l → ∃ os : List Operand, os.map Located.value = values ∧ p d = .ok () (d.reach catalog l' os)

namespace Runs

theorem pure (catalog : Catalog) (l : Lexer) : Runs catalog l l (Pure.pure ()) [] := by
  intro d hd
  refine ⟨[], rfl, ?_⟩
  rw [reach_of_at hd]
  rfl

theorem bind {p : LineParser Unit} {q : Unit → LineParser Unit} (hp : Runs catalog l m p values)
    (htext : m.text = l.text) (hq : Runs catalog m l' (q ()) more) : Runs catalog l l' (p >>= q) (values ++ more) := by
  intro d hd
  obtain ⟨os, hos, hrun⟩ := hp d hd
  obtain ⟨os', hos', hrun'⟩ := hq _ (at_reach hd htext os)
  refine ⟨os ++ os', by rw [List.map_append, hos, hos'], ?_⟩
  rw [run_bind_ok hrun, hrun', reach_reach]

theorem read_bind {f : Reader α} {P : α → Prop} {q : α → LineParser Unit} (hf : Reads catalog l m f P)
    (htext : m.text = l.text) (hq : ∀ a, P a → Runs catalog m l' (q a) values) :
    Runs catalog l l' (read f >>= q) values := by
  intro d hd
  obtain ⟨a, ha, hrun⟩ := read_run hf hd
  obtain ⟨os, hos, hrun'⟩ := hq a ha _ (at_reach hd htext [])
  refine ⟨os, hos, ?_⟩
  rw [run_bind_ok hrun, hrun', reach_reach, List.nil_append]

theorem add {f : Reader Operand} {v : OperandValue} (hf : Reads catalog l l' f fun o => o.value = v) :
    Runs catalog l l' (add f) [v] := by
  intro d hd
  obtain ⟨o, rfl, hrun⟩ := add_run hf hd
  exact ⟨[o], rfl, hrun⟩

/-- blanks before what is read are no tokens of the statement -/
theorem of_significant_eq {p : LineParser Unit} (htext : m.text = l.text)
    (hsig : l.significant catalog = m.significant catalog) (hp : Runs catalog m l' p values) :
    Runs catalog l l' p values :=
  fun d hd => hp d ⟨hd.1.trans htext.symm, hd.2.trans hsig⟩

theorem finish (hl : l.rest = []) : Runs catalog l l finish [] := by
  intro d hd
  refine ⟨[], rfl, ?_⟩
  rw [finish_run hl hd, reach_of_at hd]

/-- a parser that comes to the end of the line, and nothing is left -/
theorem bind_finish {p : LineParser Unit} (hp : Runs catalog l l' p values) (htext : l'.text = l.text)
    (hend : l'.rest = []) : Runs catalog l l' (p >>= fun _ => LineParser.finish) values := by
  have h := bind hp htext (q := fun _ => LineParser.finish) (finish hend)
  rwa [List.append_nil] at h

end Runs

theorem Consumes.exists_runs {p : LineParser Unit} (h : Consumes catalog p values l) :
    ∃ l', Passes catalog l l.rest l' ∧ l'.rest = [] ∧ Runs catalog l l' p values := by
  obtain ⟨l', hpass, hrun⟩ := h
  exact ⟨l', hpass, hpass.rest_eq (List.append_nil _).symm, hrun⟩

/-! ## names of members -/

/-- The modifier words are over: the next token is none, and no word before it is a name because of it. -/
def Declares (catalog : Catalog) (l : Lexer) : Prop :=
  ∃ t ts, l.significant catalog = t :: ts ∧ t.kind ≠ .delimiter ∧ isFlag t ts = false

theorem flags_of_declares (h : Declares catalog l) (hd : At catalog d l) : flags d = .ok () d := by
  obtain ⟨t, ts, hts, -, hflag⟩ := h
  have hcut : cutFlags d.cursor.tokens = ([], d.cursor.tokens) := by
    rw [hd.2, hts, cutFlags, if_neg (by rw [hflag]; exact Bool.false_ne_true)]
  have hget : (get : LineParser Draft) d = .ok d d := rfl
  unfold flags
  rw [run_bind_ok hget]
  simp only [hcut]
  rfl

/-- a name before a parenthesis or a colon is no modifier, even when it is spelled like one -/
theorem exists_declares (catalog : Catalog) {name r : Text} {c : Char} (hname : Lexer.IsMemberName name) (hl : l.Plain)
    (hrest : l.rest = name ++ c :: r) (hc : c = '(' ∨ c = ':') :
    Declares catalog l ∧ ∃ m, Passes catalog l (name ++ [c]) m ∧ m.Plain ∧ m.rest = r := by
  obtain ⟨k, u, hk, hu, hplain⟩ := Lexer.takes_plainName catalog hl hname hrest hc
  have hrest1 := hu.rest_eq hrest
  obtain ⟨m, hm, hplain'⟩ : ∃ m, Takes catalog u .delimiter [c] m ∧ m.Plain := by
    rcases hc with rfl | rfl
    · exact Lexer.takes_delimiter catalog hplain (by decide) hrest1
    · refine Lexer.takes_colon catalog hplain hrest1 ?_
      rw [hu.behind]
      exact hname.atLabel_colon _ _
  refine ⟨?_, m, hu.trans hm.toPasses, hplain', hm.rest_eq hrest1⟩
  obtain ⟨t, ht, hkind, -⟩ := hu.token
  obtain ⟨v, hv, hvkind, hvtext⟩ := hm.token
  refine ⟨t, _, ht, hkind ▸ hk, ?_⟩
  have hmark : (v.isDelimiter ":".toList || v.isDelimiter "(".toList) = true := by
    rw [Token.isDelimiter, Token.isDelimiter, hvkind, hvtext]
    rcases hc with rfl | rfl <;> rfl
  rw [isFlag, hv, List.head?_cons, Option.any_some, hmark, Bool.not_true, Bool.and_false]

/-! ## directives -/

/-- a directive, from the run of its operands -/
theorem directive_run {f : Directive} {head : Token} (hf : Directive.ofKeyword? head.text = some f) {k : TokenKind}
    {w : Text} {Q : List Operand → Prop} (hhead : Takes catalog l k w m)
    (hoperands : ∀ d, At catalog d m → ∃ os, Q os ∧ directiveOperands f d = .ok () (d.reach catalog l' os))
    (htext : l'.text = m.text) (hend : l'.rest = []) (hd : At catalog d l) :
    ∃ d' os, Q os ∧ directive catalog head d = .ok () d' ∧ d'.kind = .directive f ∧ d'.opens = f.opens? ∧
      d'.closes = d.closes ∧ d'.operands = d.operands ++ os := by
  obtain ⟨_, -, hadvance⟩ := read_run (Reader.reads_advance hhead) hd
  obtain ⟨d1, hd1⟩ : ∃ d1, d1 = { d.reach catalog m [] with
      kind := .directive f, keyword := some head.text, opcode := catalog.lookup head.text, opens := f.opens? } :=
    ⟨_, rfl⟩
  have hat : At catalog d1 m := by
    rw [hd1]
    exact at_reach hd hhead.text_eq []
  obtain ⟨os, hos, hrun⟩ := hoperands d1 hat
  have hbody : (do directiveOperands f; finish : LineParser Unit) d1 = .ok () (d1.reach catalog l' os) := by
    rw [run_bind_ok hrun]
    exact finish_run hend (at_reach hat htext _)
  refine ⟨d1.reach catalog l' os, os, hos, ?_, ?_, ?_, ?_, ?_⟩
  · unfold directive
    rw [run_bind_ok hadvance, hf]
    show expecting (catalog.lookup head.text) _ { d.reach catalog m [] with
      kind := .directive f, keyword := some head.text, opcode := catalog.lookup head.text, opens := f.opens? } = _
    rw [← hd1, expecting, hbody]
  · rw [hd1]
    rfl
  · rw [hd1]
    rfl
  · rw [hd1]
    rfl
  · rw [hd1]
    show d.operands ++ [] ++ os = _
    rw [List.append_nil]

/-- a directive whose keyword starts no value is one in every block -/
theorem statement_of_keyword {language : Language} (stack : BlockStack) {f : Directive} {head : Token}
    (hkind : head.kind = .keyword) (hf : f.keyword = head.text) (hvalue : f ≠ .enumValue ∧ f ≠ .subannot) :
    statement language stack head = directive language.catalog head := by
  have hdirective : head.isDirective = true := by
    rw [Token.isDirective, Token.isDotted, hkind, ← hf]
    cases f <;> rfl
  have hnone : isValueKeyword head = false := by
    rw [isValueKeyword, ← hf]
    cases f with
    | enumValue => exact absurd rfl hvalue.1
    | subannot => exact absurd rfl hvalue.2
    | _ => rfl
  unfold statement
  rw [hdirective, hnone, Bool.and_false, if_pos (by rfl)]

end LineParser

/-! ## lines -/

section
variable {language : Language} (stack : BlockStack) {line : Text} {number : Nat} {m l' : Lexer} {k : TokenKind}
  {w : Text}

/-- **What the parser comes to at the end of a line is what the statement says.**  All tokens are lexemes, so the line
is read. -/
theorem reading_of_run {Q : Draft → Prop} (hhead : Takes language.catalog (Lexer.start line number) k w m)
    (hsteps : Relation.ReflTransGen (Lexer.Step language.catalog) (Lexer.start line number) l') (hend : l'.rest = [])
    (hrun : ∀ (head : Token) (c : Cursor), head.kind = k → head.text = w →
      LineParser.At language.catalog (Draft.start c) (Lexer.start line number) →
      ∃ d, LineParser.statement language stack head (Draft.start c) = .ok () d ∧ Q d) :
    ∃ d, (parseLine language stack line number).reading = ⟨d.header, d.operands, none⟩ ∧ Q d := by
  obtain ⟨head, hsig, hkind, htext⟩ := hhead.token
  have herror : (head :: m.significant language.catalog).find? (fun t => t.kind == .error) = none := by
    have hnil := Lexer.significant_of_rest_eq_nil language.catalog hend
    have hfree := Lexer.error_free_of_steps hsteps (by rw [hnil]; exact nofun)
    rw [hsig] at hfree
    rw [List.find?_eq_none]
    intro t ht
    rw [beq_iff_eq]
    exact hfree t ht
  have hreading := reading_parseLine language stack line number ((tokenize_significant _ _ _).trans hsig)
  rw [herror] at hreading
  obtain ⟨d, hstatement, hd⟩ := hrun head
    ⟨line, number, head :: m.significant language.catalog, stopOf (head :: m.significant language.catalog)⟩ hkind
    htext ⟨rfl, hsig.symm⟩
  rw [hstatement] at hreading
  exact ⟨d, hreading, hd⟩

/-- The line is read without a fault as a statement of a kind, with operands of these values, and it opens a block or
none and closes none. -/
structure Statement.IsRead (s : Statement) (kind : StatementKind) (values : List OperandValue)
    (opens : Option BlockKind) : Prop where
  error : s.error = none
  kind : s.kind = kind
  operands : s.operands.map Located.value = values
  opens : s.opens = opens
  closes : s.closes = none

theorem Statement.isRead_of_reading {s : Statement} {d : Draft} (h : s.reading = ⟨d.header, d.operands, none⟩)
    (hcloses : d.closes = none) : s.IsRead d.kind (d.operands.map Located.value) d.opens := by
  refine ⟨congrArg Reading.error h, congrArg (fun x => x.header.kind) h, ?_, congrArg (fun x => x.header.opens) h, ?_⟩
  · exact congrArg (fun x => x.operands.map Located.value) h
  · exact (congrArg (fun x => x.header.closes) h).trans hcloses

variable {stack}

/-- a line that is no directive and of which nothing but the kind is known before its operands are read -/
theorem isRead_of_kind {kind : StatementKind} {values : List OperandValue} {p : LineParser Unit}
    (hhead : Takes language.catalog (Lexer.start line number) k w m)
    (hsteps : Relation.ReflTransGen (Lexer.Step language.catalog) (Lexer.start line number) l') (hend : l'.rest = [])
    (hstatement : ∀ head : Token, head.kind = k → head.text = w →
      LineParser.statement language stack head = (do LineParser.setKind kind; p))
    (hrun : LineParser.Runs language.catalog (Lexer.start line number) l' p values) :
    (parseLine language stack line number).IsRead kind values none := by
  obtain ⟨d, hreading, rfl, rfl, hopens, hcloses⟩ := reading_of_run stack
    (Q := fun d => d.kind = kind ∧ d.operands.map Located.value = values ∧ d.opens = none ∧ d.closes = none)
    hhead hsteps hend fun head c hkind htext hd => by
      obtain ⟨os, hos, hp⟩ := hrun { Draft.start c with kind } hd
      refine ⟨{ Draft.start c with kind }.reach language.catalog l' os, ?_, rfl, hos, rfl, rfl⟩
      rw [hstatement head hkind htext]
      exact hp
  exact hopens ▸ Statement.isRead_of_reading hreading hcloses

/-- the line of a directive -/
theorem isRead_of_directive {f : Directive} {values : List OperandValue} (hf : f ∈ Directive.keyworded)
    (hvalue : f ≠ .enumValue ∧ f ≠ .subannot)
    (hhead : Takes language.catalog (Lexer.start line number) .keyword f.keyword m)
    (hpass : Lexer.Passes language.catalog m m.rest l')
    (hrun : LineParser.Runs language.catalog m l' (LineParser.directiveOperands f) values) :
    (parseLine language stack line number).IsRead (.directive f) values f.opens? := by
  have hend := hpass.rest_eq (List.append_nil _).symm
  obtain ⟨d, hreading, rfl, hdkind, hopens, hcloses⟩ := reading_of_run stack
    (Q := fun d => d.operands.map Located.value = values ∧ d.kind = .directive f ∧ d.opens = f.opens? ∧
      d.closes = none)
    hhead (hhead.steps.trans hpass.steps) hend fun head c hkind htext hd => by
      obtain ⟨d, os, hos, hdirective, hdkind, hopens, hcloses, hoperands⟩ := LineParser.directive_run
        (Q := fun os => os.map Located.value = values) (htext ▸ Directive.ofKeyword?_keyword hf) hhead hrun
        hpass.text_eq hend hd
      refine ⟨d, ?_, ?_, hdkind, hopens, hcloses⟩
      · rw [LineParser.statement_of_keyword stack hkind htext.symm hvalue, hdirective]
      · rw [hoperands]
        exact hos
  exact hdkind ▸ hopens ▸ Statement.isRead_of_reading hreading hcloses

/-- the line of an instruction that the options accept, outside of tables, annotations and arrays -/
theorem isRead_of_instruction {e : Entry} {values : List OperandValue}
    (hstack : ∀ k ∈ stack.innermost?, k ∉ BlockKind.tables) (he : language.catalog.instruction? e.mnemonic = some e)
    (hodex : (e.isOdexOnly && !language.options.odex) = false) (hword : e.mnemonic.IsWord)
    (hhead : Takes language.catalog (Lexer.start line number) .keyword e.mnemonic m)
    (hconsumes : LineParser.Consumes language.catalog (LineParser.operands e.operandKinds) values m) :
    (parseLine language stack line number).IsRead .instruction values none := by
  obtain ⟨l', hpass, hend, -⟩ := hconsumes.exists_runs
  obtain ⟨d, hreading, hkind, rfl, hopens, hcloses⟩ := reading_of_run stack
    (Q := fun d => d.kind = .instruction ∧ d.operands.map Located.value = values ∧ d.opens = none ∧ d.closes = none)
    hhead (hhead.steps.trans hpass.steps) hend fun head c hkind htext hd => by
      obtain ⟨d, hrun, hdkind, -, hopens, hcloses, hvalues⟩ :=
        LineParser.instruction_run_of_accepted hodex hhead hconsumes head hd
      refine ⟨d, ?_, hdkind, hvalues, hopens, hcloses⟩
      rw [LineParser.statement_of_mnemonic hstack hkind (Token.isDotted_of_isWord (htext ▸ hword))
        (by rw [htext]; exact he)]
      exact hrun
  exact hkind ▸ hopens ▸ Statement.isRead_of_reading hreading hcloses

/-- an instruction of the builtin catalog with the texts of its operands -/
theorem isRead_of_operands (options : ParseOptions) {e : Entry} (he : e ∈ Catalog.builtin.instructions)
    (hodex : (e.isOdexOnly && !options.odex) = false) (hstack : ∀ k ∈ stack.innermost?, k ∉ BlockKind.tables)
    {ops : List (OperandValue × Text)} (hops : LineParser.Fit e.operandKinds ops) (number : Nat) :
    (parseLine (Language.builtin options) stack (e.line (ops.map Prod.snd)) number).IsRead .instruction
      (ops.map Prod.fst) none := by
  obtain ⟨hinstruction, hmnemonic⟩ := Catalog.builtin_instruction? he
  obtain ⟨m, hm, hplain, hrest⟩ := Lexer.takes_mnemonic he number (ops.map Prod.snd)
  exact isRead_of_instruction hstack hinstruction hodex (Entry.isWord_of_isMnemonic hmnemonic) hm
    (LineParser.consumes_line hops hplain hrest)

end

end Smali
