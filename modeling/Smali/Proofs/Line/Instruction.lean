import Smali.Proofs.Catalog
import Smali.Proofs.Line.Builtin
import Smali.Proofs.Line.Operands

/-!
# Instructions and their text

The text of an instruction is its mnemonic and its operands, and a line with that text is that instruction.

* `Entry.line`                           the text;
* `LineParser.Consumes`                  a parser takes the rest of a line as operands with given values;
* `LineParser.consumes_moreOperands`     operands with a comma before each of them;
* `LineParser.consumes_line`             all operands of a line;
* `parseLine_instruction`                the statement of the line.
-/

namespace Smali

open Text (Stops)
open Lexer (Passes Takes)

/-- the mnemonic and the texts of the operands, with a blank after the mnemonic and a comma and a blank
between the operands -/
def Entry.line (e : Entry) (operands : List Text) : Text :=
  e.mnemonic ++ if operands.isEmpty then [] else ' ' :: ", ".toList.intercalate operands

/-- the blocks whose lines are no instructions -/
def BlockKind.tables : List BlockKind :=
  [.arrayData, .packedSwitch, .sparseSwitch, .annot, .subannot, .valueArray]

/-! ## operands -/

/-- the draft with more operands, and with the tokens that are left at a place of the lexer -/
def Draft.reach (d : Draft) (catalog : Catalog) (l : Lexer) (os : List Operand) : Draft :=
  { d with
    operands := d.operands ++ os
    cursor := { d.cursor with tokens := l.significant catalog } }

namespace LineParser

variable {catalog : Catalog} {l l' : Lexer} {d : Draft}

/-- the draft is at a place of the lexer -/
def At (catalog : Catalog) (d : Draft) (l : Lexer) : Prop :=
  d.cursor.line = l.text ∧ d.cursor.tokens = l.significant catalog

theorem reach_of_at (h : At catalog d l) : d.reach catalog l [] = d := by
  obtain ⟨kind, keyword, opcode, operands, opens, closes, line, number, tokens, stop⟩ := d
  obtain ⟨-, rfl⟩ : _ ∧ tokens = l.significant catalog := h
  rw [Draft.reach, List.append_nil]

theorem reach_reach (m : Lexer) (os os' : List Operand) :
    (d.reach catalog m os).reach catalog l os' = d.reach catalog l (os ++ os') := by
  rw [Draft.reach, Draft.reach, Draft.reach, List.append_assoc]

theorem at_reach (h : At catalog d l) (ht : l'.text = l.text) (os : List Operand) :
    At catalog (d.reach catalog l' os) l' :=
  ⟨h.1.trans ht.symm, rfl⟩

theorem read_run {α : Type} {f : Reader α} {P : α → Prop} (hf : Reader.Reads catalog l l' f P)
    (hd : At catalog d l) : ∃ a, P a ∧ read f d = .ok a (d.reach catalog l' []) := by
  obtain ⟨a, ha, hf⟩ := hf d.cursor hd.1 hd.2
  refine ⟨a, ha, ?_⟩
  rw [read, hf, Draft.reach, List.append_nil]

theorem add_run {f : Reader Operand} {P : Operand → Prop} (hf : Reader.Reads catalog l l' f P)
    (hd : At catalog d l) : ∃ o : Operand, P o ∧ add f d = .ok () (d.reach catalog l' [o]) := by
  obtain ⟨o, ho, hread⟩ := read_run hf hd
  refine ⟨o, ho, ?_⟩
  show EStateM.bind (read f) push d = _
  rw [EStateM.bind, hread]
  show EStateM.Result.ok () ((d.reach catalog l' []).reach catalog l' [o]) = _
  rw [reach_reach, List.nil_append]

/-- From the lexer's place on, the parser reads the rest of the line and appends operands with these
values. -/
def Consumes (catalog : Catalog) (p : LineParser Unit) (values : List OperandValue) (l : Lexer) : Prop :=
  ∃ l', Passes catalog l l.rest l' ∧ ∀ d, At catalog d l →
    ∃ os : List Operand, os.map Located.value = values ∧ p d = .ok () (d.reach catalog l' os)

/-- `ops` are operands for the places `ks`, with their texts -/
def Fit (ks : List OperandKind) (ops : List (OperandValue × Text)) : Prop :=
  List.Forall₂ (fun k o => Spelled k o.1 o.2) ks ops

/-- the texts of operands with a comma before each of them -/
def moreText (ops : List (OperandValue × Text)) : Text :=
  ((ops.map Prod.snd).map (", ".toList ++ ·)).flatten

theorem stops_moreText (ops : List (OperandValue × Text)) : Stops (moreText ops) := by
  cases ops with
  | nil => exact Text.stops_nil
  | cons o ops => exact Text.stops_cons (by decide) _

/-- after a blank, an operand and what comes after it -/
theorem consumes_operands {k : OperandKind} {ks : List OperandKind} {v : OperandValue} {s : Text}
    {ops : List (OperandValue × Text)} (ho : Spelled k v s)
    (hmore : ∀ l : Lexer, l.Plain → l.rest = moreText ops →
      Consumes catalog (moreOperands ks) (ops.map Prod.fst) l)
    (hl : l.Plain) (hrest : l.rest = ' ' :: (s ++ moreText ops)) :
    Consumes catalog (operands (k :: ks)) (v :: ops.map Prod.fst) l := by
  have hblank : ∀ c, (s ++ moreText ops).head? = some c → isBlank c = false := by
    obtain ⟨c, t, rfl, hc⟩ := ho.exists_eq_cons
    intro d hd
    obtain rfl := Option.some.inj hd
    exact hc
  obtain ⟨l1, h1, hsig, hl1⟩ := Lexer.skips_blank catalog hl hrest hblank
  have hrest1 : l1.rest = s ++ moreText ops := h1.rest_eq hrest
  obtain ⟨l2, h2, hl2, hreads⟩ := ho.parses catalog l1 _ _ hl1 h1.behind hrest1 (stops_moreText ops)
  have hrest2 := h2.rest_eq hrest1
  obtain ⟨l', h3, hrun⟩ := hmore l2 hl2 hrest2
  refine ⟨l', ?_, fun d hd => ?_⟩
  · rw [hrest2] at h3
    rw [hrest]
    exact h1.trans (h2.trans h3)
  · have hd1 : At catalog d l1 := ⟨hd.1.trans h1.text_eq.symm, hd.2.trans hsig⟩
    obtain ⟨o, ho, hadd⟩ := add_run hreads hd1
    obtain ⟨os, hos, hmore⟩ := hrun _ (at_reach hd1 h2.text_eq [o])
    refine ⟨o :: os, by rw [List.map_cons, ho, hos], ?_⟩
    show EStateM.bind (add (operand k)) (fun _ => moreOperands ks) d = _
    rw [EStateM.bind, hadd]
    show moreOperands ks _ = _
    rw [hmore, reach_reach]
    rfl

theorem consumes_moreOperands {ks : List OperandKind} {ops : List (OperandValue × Text)} (h : Fit ks ops)
    (l : Lexer) (hl : l.Plain) (hrest : l.rest = moreText ops) :
    Consumes catalog (moreOperands ks) (ops.map Prod.fst) l := by
  induction h generalizing l with
  | nil =>
    refine ⟨l, ?_, fun d hd => ⟨[], rfl, ?_⟩⟩
    · rw [hrest]
      exact .refl l
    · rw [reach_of_at hd]
      rfl
  | @cons k o ks ops ho _ ih =>
    have hrest' : l.rest = ',' :: ' ' :: (o.2 ++ moreText ops) := hrest
    obtain ⟨l1, h1, hl1⟩ := Lexer.takes_delimiter catalog hl (c := ',') (by decide) hrest'
    have hrest1 : l1.rest = ' ' :: (o.2 ++ moreText ops) := h1.rest_eq hrest'
    obtain ⟨l', h2, hrun⟩ := consumes_operands ho ih hl1 hrest1
    refine ⟨l', ?_, fun d hd => ?_⟩
    · rw [hrest1] at h2
      rw [hrest']
      exact h1.trans h2
    · obtain ⟨span, -, hread⟩ := read_run (f := Reader.delimiter ",".toList) (Reader.reads_delimiter h1) hd
      obtain ⟨os, hos, hoperands⟩ := hrun _ (at_reach hd h1.text_eq [])
      refine ⟨os, hos, ?_⟩
      show EStateM.bind (read (Reader.delimiter ",".toList)) (fun _ => operands (k :: ks)) d = _
      rw [EStateM.bind, hread]
      show operands (k :: ks) _ = _
      rw [hoperands, reach_reach]
      rfl

theorem consumes_line {ks : List OperandKind} {ops : List (OperandValue × Text)} (h : Fit ks ops) (hl : l.Plain)
    (hrest : l.rest = if (ops.map Prod.snd).isEmpty then []
      else ' ' :: ", ".toList.intercalate (ops.map Prod.snd)) :
    Consumes catalog (operands ks) (ops.map Prod.fst) l := by
  cases h with
  | nil => exact consumes_moreOperands .nil l hl hrest
  | @cons k o ks ops ho hops =>
    refine consumes_operands ho (consumes_moreOperands hops) hl ?_
    rw [hrest, List.map_cons, Text.intercalate_cons]
    rfl

/-! ## instructions -/

/-- the run of an instruction that the options accept -/
theorem instruction_run_of_accepted {odex : Bool} {e : Entry} (hodex : (e.isOdexOnly && !odex) = false) {k : TokenKind}
    {m : Lexer} {values : List OperandValue} (hhead : Takes catalog l k e.mnemonic m)
    (hoperands : Consumes catalog (operands e.operandKinds) values m) (head : Token) (hd : At catalog d l) :
    ∃ d', instruction odex e head d = .ok () d' ∧ d'.kind = .instruction ∧ d'.opcode = some e ∧
      d'.opens = d.opens ∧ d'.closes = d.closes ∧
      d'.operands.map Located.value = d.operands.map Located.value ++ values := by
  obtain ⟨_, -, hadvance⟩ := read_run (Reader.reads_advance hhead) hd
  obtain ⟨l', hpass, hrun⟩ := hoperands
  obtain ⟨d1, hd1⟩ : ∃ d1, d1 = { d.reach catalog m [] with
      kind := .instruction, keyword := some head.text, opcode := some e } := ⟨_, rfl⟩
  have hat : At catalog d1 m := by
    rw [hd1]
    exact at_reach hd hhead.text_eq []
  obtain ⟨os, hos, hops⟩ := hrun d1 hat
  have hend : l'.significant catalog = [] :=
    Lexer.significant_of_rest_eq_nil catalog (hpass.rest_eq (List.append_nil _).symm)
  have hfinish : finish (d1.reach catalog l' os) = .ok () (d1.reach catalog l' os) := by
    rw [Draft.reach, hend]
    rfl
  have hbody : (do
      if e.isOdexOnly && !odex then
        read (Reader.failAt head.span (.odexOnly e.mnemonic))
      operands e.operandKinds
      finish : LineParser Unit) d1 = .ok () (d1.reach catalog l' os) := by
    rw [hodex, if_neg Bool.false_ne_true]
    show EStateM.bind (operands e.operandKinds) (fun _ => finish) d1 = _
    rw [EStateM.bind, hops]
    exact hfinish
  refine ⟨d1.reach catalog l' os, ?_, ?_, ?_, ?_, ?_, ?_⟩
  · unfold instruction
    show EStateM.bind (read Reader.advance) _ d = _
    rw [EStateM.bind, hadvance]
    show expecting (some e) _ { d.reach catalog m [] with
      kind := .instruction, keyword := some head.text, opcode := some e } = _
    rw [← hd1, expecting, hbody]
  · rw [hd1]
    rfl
  · rw [hd1]
    rfl
  · rw [hd1]
    rfl
  · rw [hd1]
    rfl
  · rw [Draft.reach, List.map_append, hos, hd1]
    show (d.operands ++ []).map _ ++ _ = _
    rw [List.append_nil]

theorem instruction_run {e : Entry} {k : TokenKind} {m : Lexer} {values : List OperandValue}
    (hhead : Takes catalog l k e.mnemonic m) (hoperands : Consumes catalog (operands e.operandKinds) values m)
    (head : Token) (hd : At catalog d l) :
    ∃ d', instruction true e head d = .ok () d' ∧ d'.kind = .instruction ∧ d'.opcode = some e ∧
      d'.operands.map Located.value = d.operands.map Located.value ++ values := by
  have hodex : (e.isOdexOnly && !true) = false := by
    rw [Bool.not_true, Bool.and_false]
  obtain ⟨d', hrun, hkind, hopcode, -, -, hvalues⟩ := instruction_run_of_accepted hodex hhead hoperands head hd
  exact ⟨d', hrun, hkind, hopcode, hvalues⟩

/-- a line that does not start with a dot, outside of tables, annotations and arrays -/
theorem statement_of_not_tables {language : Language} {stack : BlockStack} {head : Token}
    (hstack : ∀ k ∈ stack.innermost?, k ∉ BlockKind.tables) (hdotted : head.isDotted = false) :
    statement language stack head = codeLine language head := by
  unfold statement
  rw [Token.isDirective, hdotted, Bool.and_false, Bool.false_and, if_neg Bool.false_ne_true]
  cases hi : stack.innermost? with
  | none => rfl
  | some k =>
    have hk := hstack k hi
    cases k with
    | method => rfl
    | field => rfl
    | param => rfl
    | arrayData => exact absurd (by decide) hk
    | packedSwitch => exact absurd (by decide) hk
    | sparseSwitch => exact absurd (by decide) hk
    | annot => exact absurd (by decide) hk
    | subannot => exact absurd (by decide) hk
    | valueArray => exact absurd (by decide) hk

/-- a line that starts with the mnemonic of an instruction -/
theorem statement_of_mnemonic {language : Language} {stack : BlockStack} {head : Token} {e : Entry}
    (hstack : ∀ k ∈ stack.innermost?, k ∉ BlockKind.tables) (hkind : head.kind = .keyword)
    (hdotted : head.isDotted = false) (he : language.catalog.instruction? head.text = some e) :
    statement language stack head = instruction language.options.odex e head := by
  rw [statement_of_not_tables hstack hdotted]
  unfold codeLine
  rw [hdotted, Bool.false_and, if_neg Bool.false_ne_true, Token.isDelimiter, hkind,
    if_pos (beq_self_eq_true _), he]
  rfl

end LineParser

/-! ## lines -/

section
variable {e : Entry} (he : e ∈ Catalog.builtin.instructions) (number : Nat)
include he

theorem Lexer.takes_mnemonic (operands : List Text) : ∃ m,
    Takes Catalog.builtin (Lexer.start (e.line operands) number) .keyword e.mnemonic m ∧ m.Plain ∧
      m.rest = if operands.isEmpty then [] else ' ' :: ", ".toList.intercalate operands := by
  obtain ⟨hinstruction, hmnemonic⟩ := Catalog.builtin_instruction? he
  obtain ⟨r, hr⟩ : ∃ r, r = if operands.isEmpty then [] else ' ' :: ", ".toList.intercalate operands := ⟨_, rfl⟩
  have hstops : Stops r := by
    rw [hr]
    split
    · exact Text.stops_nil
    · exact Text.stops_cons (by decide) _
  have hrest : (Lexer.start (e.line operands) number).rest = e.mnemonic ++ r := by
    rw [hr]
    rfl
  have hkind : LexContext.start.wordKind Catalog.builtin e.mnemonic = .keyword := by
    obtain ⟨-, -, -, -, -, hregister⟩ := Entry.exists_of_isMnemonic hmnemonic
    rw [LexContext.wordKind, hregister, hinstruction]
    rfl
  obtain ⟨m, hm, hplain⟩ := Lexer.takes_word Catalog.builtin ⟨rfl, rfl⟩
    (Entry.isWord_of_isMnemonic hmnemonic) hrest hstops
  rw [Entry.ofWord_of_isMnemonic hmnemonic] at hm
  rw [show (Piece.ofLexeme Catalog.builtin (Lexer.start (e.line operands) number).context .word e.mnemonic r).kind =
    .keyword from hkind] at hm
  exact ⟨m, hm, hplain, hr ▸ hm.rest_eq hrest⟩

open LineParser in
/-- **Instructions are read back from their text.** -/
theorem parseLine_instruction {options : ParseOptions} (hodex : options.odex = true) {stack : BlockStack}
    (hstack : ∀ k ∈ stack.innermost?, k ∉ BlockKind.tables) {ops : List (OperandValue × Text)}
    (hops : Fit e.operandKinds ops) :
    let s := parseLine (Language.builtin options) stack (e.line (ops.map Prod.snd)) number
    s.kind = .instruction ∧ s.opcode = some e ∧ s.error = none ∧
      s.operands.map Located.value = ops.map Prod.fst := by
  obtain ⟨hinstruction, hmnemonic⟩ := Catalog.builtin_instruction? he
  obtain ⟨m, hm, hplain, hrest⟩ := Lexer.takes_mnemonic he number (ops.map Prod.snd)
  have hconsumes : Consumes Catalog.builtin (operands e.operandKinds) (ops.map Prod.fst) m :=
    consumes_line hops hplain hrest
  obtain ⟨line, hline⟩ : ∃ line, e.line (ops.map Prod.snd) = line := ⟨_, rfl⟩
  rw [hline] at hm ⊢
  obtain ⟨head, hsig, hkind, htext⟩ := hm.token
  -- all tokens are lexemes
  have herror : (head :: m.significant Catalog.builtin).find? (fun t => t.kind == .error) = none := by
    obtain ⟨l', hpass, -⟩ := hconsumes
    have hnil := Lexer.significant_of_rest_eq_nil Catalog.builtin (hpass.rest_eq (List.append_nil _).symm)
    have hfree := Lexer.error_free_of_steps (hm.steps.trans hpass.steps) (by rw [hnil]; exact nofun)
    rw [hsig] at hfree
    rw [List.find?_eq_none]
    intro t ht
    rw [beq_iff_eq]
    exact hfree t ht
  have hdotted : head.isDotted = false := by
    obtain ⟨c, w, hw, hc, -⟩ := (Entry.isWord_of_isMnemonic hmnemonic).exists_cons
    rw [Token.isDotted, htext, hw, beq_eq_false_iff_ne]
    intro h
    obtain rfl := Option.some.inj h
    exact absurd hc (by decide)
  have hstatement : statement (Language.builtin options) stack head = instruction true e head := by
    rw [statement_of_mnemonic hstack hkind hdotted (by rw [htext]; exact hinstruction), ← hodex]
    rfl
  have hrun := fun stop => instruction_run hm hconsumes head
    (d := Draft.start ⟨line, number, head :: m.significant Catalog.builtin, stop⟩) ⟨rfl, hsig.symm⟩
  have hparse : ∃ (d : Draft) (base : Statement), parseLine (Language.builtin options) stack line number =
      d.complete base none ∧ d.kind = .instruction ∧ d.opcode = some e ∧
      d.operands.map Located.value = ops.map Prod.fst := by
    have hfilter : (tokenize (Language.builtin options).catalog line number).filter Token.isSignificant =
        head :: m.significant Catalog.builtin := (tokenize_significant _ _ _).trans hsig
    unfold parseLine
    dsimp only
    rw [hfilter]
    dsimp only
    rw [herror, hstatement]
    dsimp only
    obtain ⟨d, hd, hresult⟩ := hrun _
    rw [hd]
    exact ⟨d, _, rfl, hresult⟩
  obtain ⟨d, base, hparse, hresult⟩ := hparse
  rw [hparse]
  exact ⟨hresult.1, hresult.2.1, rfl, hresult.2.2⟩

end

/-- a constructor, whose name and call-site prototype come after registers -/
theorem parseLine_instruction_invokePolymorphic :
    let s := parseLine (Language.builtin .standard) [.method]
      "invoke-polymorphic \x7bv0, p1\x7d, [La;-><init>([I)V, (JLb;)Z".toList 1
    s.kind = .instruction ∧ s.opcode = Catalog.odexOps[21]? ∧ s.error = none ∧
      s.operands.map Located.value =
        [.registerList [.var 0, .param 1],
         .reference ⟨⟨1, .object ⟨['a']⟩⟩, .method ⟨MemberName.constructor,
           ⟨[⟨1, .primitive .int⟩], .ofPrimitive .void⟩⟩⟩,
         .prototype ⟨[.ofPrimitive .long, ⟨0, .object ⟨['b']⟩⟩], .ofPrimitive .boolean⟩] := by
  have he : Catalog.odexOps.get ⟨21, by decide⟩ ∈ Catalog.builtin.instructions := by
    refine List.mem_filter.mpr ⟨?_, rfl⟩
    exact List.mem_append_left _ (List.mem_append_right _ (List.get_mem _ _))
  have hregisters : Spelled .registerList (.registerList [.var 0, .param 1]) "\x7bv0, p1\x7d".toList :=
    .registerList _
  have hmethod : Spelled .method (.reference ⟨⟨1, .object ⟨['a']⟩⟩, .method ⟨MemberName.constructor,
      ⟨[⟨1, .primitive .int⟩], .ofPrimitive .void⟩⟩⟩) "[La;-><init>([I)V".toList :=
    .method (by decide) rfl
  have hproto : Spelled .proto (.prototype ⟨[.ofPrimitive .long, ⟨0, .object ⟨['b']⟩⟩],
      .ofPrimitive .boolean⟩) "(JLb;)Z".toList :=
    .proto (by decide)
  have hline : (Catalog.odexOps.get ⟨21, by decide⟩).line
      ["\x7bv0, p1\x7d".toList, "[La;-><init>([I)V".toList, "(JLb;)Z".toList] =
      "invoke-polymorphic \x7bv0, p1\x7d, [La;-><init>([I)V, (JLb;)Z".toList := by
    decide +kernel
  have hops : LineParser.Fit (Catalog.odexOps.get ⟨21, by decide⟩).operandKinds
      [(_, "\x7bv0, p1\x7d".toList), (_, "[La;-><init>([I)V".toList), (_, "(JLb;)Z".toList)] :=
    .cons hregisters (.cons hmethod (.cons hproto .nil))
  rw [← hline]
  exact parseLine_instruction he 1 rfl (by decide) hops

end Smali
