import Smali.Proofs.Line.Run

/-!
# Labels and their text

The name of a label is any word, also one that looks like a register, a number or a mnemonic, and it is read back on
each line where a label may stand, with and without blanks around the punctuation next to it.

* `Reader.exists_reads_label`       a label after a blank, or where a colon opens one;
* `Reader.exists_reads_labelRange`  two labels in braces;
* `label_line`, `sparseSwitch_line`, `catchAll_line`  the lines, from their text to their statement;
* `parseLine_label`                 all of them.
-/

namespace Smali

open Text (Stops)
open Lexer (Passes Takes OpensLabel)
open Reader (Reads)
open LineParser (Runs)

namespace Lexer

variable (catalog : Catalog) {l : Lexer} {gap r : Text}

/-- nothing or a blank -/
theorem skips_gap (hgap : gap = [] ∨ gap = [' ']) (hl : l.Plain) (hrest : l.rest = gap ++ r)
    (hr : ∀ c, r.head? = some c → isBlank c = false) :
    ∃ l', Passes catalog l gap l' ∧ l.significant catalog = l'.significant catalog ∧ l'.Plain := by
  rcases hgap with rfl | rfl
  · exact ⟨l, .refl l, rfl, hl⟩
  · exact skips_blank catalog hl hrest hr

/-- a word ends before a gap and punctuation -/
theorem word_append_gap {n : Text} {c : Char} (hn : n.IsWord) (hgap : gap = [] ∨ gap = [' '])
    (hc : isWordChar c = false ∧ c ≠ '>') : Scan.word (n ++ (gap ++ c :: r)) = some (gap ++ c :: r) := by
  rcases hgap with rfl | rfl
  · refine Scan.word_append_of_atWord ?_ ?_ hn
    · rw [List.nil_append, Scan.atWord, hc.1]
      rfl
    · exact fun h => hc.2 (Option.some.inj h)
  · exact Scan.word_append hn (Text.stops_cons (by decide) _)

end Lexer

namespace Reader

variable (catalog : Catalog) {l : Lexer} {gap n m r : Text}

/-- a label after a blank, or directly where a colon opens one -/
theorem exists_reads_label (hnext : l.context.labelNext = false) (hgap : gap = [' '] ∨ gap = [] ∧ OpensLabel l.behind)
    (hn : n.IsWord) (hrest : l.rest = gap ++ ':' :: (n ++ r)) (hr : Scan.word (n ++ r) = some r) :
    ∃ l', Passes catalog l (gap ++ ':' :: n) l' ∧ l'.Plain ∧ Reads catalog l l' bareLabel fun p => p.1 = n := by
  rcases hgap with rfl | ⟨rfl, hb⟩
  · obtain ⟨u, hu, hsig, hplain⟩ := Lexer.skips_blank_of_labelNext catalog hnext hrest (by
      intro c hc
      obtain rfl := Option.some.inj hc
      decide)
    have hb : OpensLabel u.behind := by
      rw [hu.behind]
      exact (Lexer.opensLabel _).2.1
    obtain ⟨v, l', hv, h, hl'⟩ := Lexer.takes_label_of_opensLabel catalog hplain.1 hb hn (hu.rest_eq hrest) hr
    exact ⟨l', hu.trans (hv.trans h.toPasses), hl', .of_significant_eq hu.text_eq hsig (reads_bareLabel hv h)⟩
  · obtain ⟨v, l', hv, h, hl'⟩ := Lexer.takes_label_of_opensLabel catalog hnext hb hn hrest hr
    exact ⟨l', hv.trans h.toPasses, hl', reads_bareLabel hv h⟩

variable {catalog} in
theorem reads_label {l' : Lexer} (h : Reads catalog l l' bareLabel fun p => p.1 = n) (htext : l'.text = l.text) :
    Reads catalog l l' label fun o => o.value = .label n := by
  refine Reads.bind htext h ?_
  rintro ⟨y, span⟩ rfl
  exact Reads.pure rfl

/-- two labels in braces, with two dots between them -/
def rangeText (gap n m : Text) : Text :=
  '\x7b' :: ':' :: (n ++ (gap ++ '.' :: '.' :: (gap ++ ':' :: (m ++ ['\x7d']))))

theorem exists_reads_labelRange (hl : l.Plain) (hgap : gap = [] ∨ gap = [' ']) (hn : n.IsWord) (hm : m.IsWord)
    (hrest : l.rest = rangeText gap n m ++ r) :
    ∃ l', Passes catalog l (rangeText gap n m) l' ∧ l'.Plain ∧
      Reads catalog l l' labelRange fun o => o.value = .labelRange n m := by
  have hrest' : l.rest = '\x7b' :: ':' :: (n ++ (gap ++ '.' :: '.' :: (gap ++ ':' :: (m ++ '\x7d' :: r)))) := by
    rw [hrest, rangeText]
    simp
  obtain ⟨l1, h1, hl1⟩ := Lexer.takes_delimiter catalog hl (c := '\x7b') (by decide) hrest'
  have hrest1 : l1.rest = _ := h1.rest_eq hrest'
  have hb1 : OpensLabel l1.behind := by
    rw [h1.behind]
    exact (Lexer.opensLabel _).2.2.1
  obtain ⟨l2, h2, hl2, hfirst⟩ := exists_reads_label catalog hl1.1 (.inr ⟨rfl, hb1⟩) hn hrest1
    (Lexer.word_append_gap hn hgap (by decide))
  have hrest2 : l2.rest = _ := h2.rest_eq hrest1
  obtain ⟨l3, h3, hsig3, hl3⟩ := Lexer.skips_gap catalog hgap hl2 hrest2 (by
    intro c hc
    obtain rfl := Option.some.inj hc
    decide)
  have hrest3 := h3.rest_eq hrest2
  obtain ⟨l4, h4, hl4⟩ := Lexer.takes_dots catalog hl3 hrest3
  have hrest4 : l4.rest = _ := h4.rest_eq hrest3
  have hgap4 : gap = [' '] ∨ gap = [] ∧ OpensLabel l4.behind := by
    rw [h4.behind]
    exact hgap.symm.imp_right fun h => ⟨h, (Lexer.opensLabel _).2.2.2.1⟩
  obtain ⟨l5, h5, hl5, hlast⟩ := exists_reads_label catalog hl4.1 hgap4 hm hrest4
    (Scan.word_append hm (Text.stops_cons (by decide) _))
  have hrest5 := h5.rest_eq (s := gap ++ ':' :: m) (by rw [hrest4, List.append_assoc]; rfl)
  obtain ⟨l', h6, hl'⟩ := Lexer.takes_delimiter catalog hl5 (c := '\x7d') (by decide) hrest5
  refine ⟨l', ?_, hl', ?_⟩
  · have hpass := h1.trans (h2.trans (h3.trans (h4.trans (h5.trans h6.toPasses))))
    rw [rangeText]
    simpa using hpass
  refine Reads.bind h1.text_eq (reads_delimiter h1) fun opening _ => Reads.bind h2.text_eq hfirst ?_
  rintro ⟨x, span⟩ rfl
  refine Reads.of_significant_eq h3.text_eq hsig3 (Reads.bind h4.text_eq (reads_delimiter h4) fun dots _ => ?_)
  refine Reads.bind h5.text_eq hlast ?_
  rintro ⟨y, span'⟩ rfl
  exact Reads.bind h6.text_eq (reads_delimiter h6) fun closing _ => Reads.pure rfl

end Reader

/-! ## lines -/

section
variable (language : Language) {stack : BlockStack} (number : Nat) {n : Text} (hn : n.IsWord)
include hn

/-- a line that is a label, and what is made of it -/
theorem label_line {kind : StatementKind}
    (hstatement : ∀ head : Token, head.kind = .delimiter → head.text = [':'] →
      LineParser.statement language stack head = (do
        LineParser.setKind kind
        LineParser.add Reader.label
        LineParser.finish)) :
    (parseLine language stack (':' :: n) number).IsRead kind [.label n] none := by
  have hrest : (Lexer.start (':' :: n) number).rest = ':' :: (n ++ []) := by
    rw [List.append_nil]
    rfl
  obtain ⟨m, l', hm, h, -⟩ := Lexer.takes_label_of_opensLabel language.catalog rfl (Lexer.opensLabel []).1 hn hrest
    (Scan.word_append hn Text.stops_nil)
  have hpass := hm.trans h.toPasses
  have hend := h.rest_eq (hm.rest_eq hrest)
  exact isRead_of_kind hm hpass.steps hend hstatement
    (Runs.bind_finish (Runs.add (Reader.reads_label (Reader.reads_bareLabel hm h) hpass.text_eq)) hpass.text_eq hend)

theorem label_definition (hstack : ∀ k ∈ stack.innermost?, k ∉ BlockKind.tables) :
    (parseLine language stack (':' :: n) number).IsRead .label [.label n] none := by
  refine label_line language number hn fun head hkind htext => ?_
  have hdotted : head.isDotted = false := by
    rw [Token.isDotted, htext]
    rfl
  have hcolon : head.isDelimiter ":".toList = true := by
    rw [Token.isDelimiter, hkind, htext]
    rfl
  rw [LineParser.statement_of_not_tables hstack hdotted, LineParser.codeLine, hdotted, Bool.false_and,
    if_neg Bool.false_ne_true, if_pos hcolon]

theorem label_entry (hstack : stack.innermost? = some .packedSwitch) :
    (parseLine language stack (':' :: n) number).IsRead .entry [.label n] none := by
  refine label_line language number hn fun head _ htext => ?_
  have hdotted : head.isDotted = false := by
    rw [Token.isDotted, htext]
    rfl
  unfold LineParser.statement
  rw [Token.isDirective, hdotted, Bool.and_false, Bool.false_and, if_neg Bool.false_ne_true, hstack]
  rfl

/-- the key of a sparse switch, an arrow and a label -/
theorem sparseSwitch_line {K : Literal} (hK : K.IsInteger) {gap : Text} (hgap : gap = [] ∨ gap = [' '])
    (hstack : stack.innermost? = some .sparseSwitch) :
    (parseLine language stack (K.render ++ (gap ++ '-' :: '>' :: (gap ++ ':' :: n))) number).IsRead .entry
      [.literal K, .label n] none := by
  obtain ⟨line, hline⟩ : ∃ line, line = K.render ++ (gap ++ '-' :: '>' :: (gap ++ ':' :: n)) := ⟨_, rfl⟩
  have hrest : (Lexer.start line number).rest = K.render ++ (gap ++ '-' :: '>' :: (gap ++ ':' :: (n ++ []))) := by
    rw [List.append_nil]
    exact hline
  obtain ⟨k, l1, hk, h1, hl1⟩ := Reader.takes_literal language.catalog hK (Lexer.plain_start line number) hrest
    (by rcases hgap with rfl | rfl <;> rfl) (by rcases hgap with rfl | rfl <;> exact nofun)
  have hrest1 := h1.rest_eq hrest
  obtain ⟨l2, h2, hsig2, hl2⟩ := Lexer.skips_gap language.catalog hgap hl1 hrest1 (by
    intro c hc
    obtain rfl := Option.some.inj hc
    decide)
  have hrest2 := h2.rest_eq hrest1
  obtain ⟨l3, h3, hnext3⟩ := Lexer.takes_arrow language.catalog hl2 hrest2
  have hrest3 : l3.rest = _ := h3.rest_eq hrest2
  have hgap3 : gap = [' '] ∨ gap = [] ∧ OpensLabel l3.behind := by
    rw [h3.behind]
    exact hgap.symm.imp_right fun h => ⟨h, (Lexer.opensLabel _).2.2.2.2⟩
  obtain ⟨l', h4, hl', hlabel⟩ := Reader.exists_reads_label language.catalog hnext3 hgap3 hn hrest3
    (Scan.word_append hn Text.stops_nil)
  have hend : l'.rest = [] := h4.rest_eq (hrest3.trans (List.append_assoc gap (':' :: n) []).symm)
  have hstatement : ∀ head : Token, head.kind = k → head.text = K.render →
      LineParser.statement language stack head = LineParser.sparseSwitchEntry := by
    intro head _ htext
    unfold LineParser.statement
    rw [Token.isDirective, Token.isDotted_of_isWord (htext ▸ Literal.isWord_render hK), Bool.and_false, Bool.false_and,
      if_neg Bool.false_ne_true, hstack]
  have hliteral : Reads language.catalog (Lexer.start line number) l1 Reader.literal fun o => o.value = .literal K := by
    refine Reads.bind h1.text_eq (Reader.reads_bareLiteral hK hk h1) ?_
    rintro ⟨y, span⟩ rfl
    exact Reads.pure rfl
  -- the blank before the arrow is no token of the statement
  have hrun := Runs.bind (Runs.add hliteral) h1.text_eq (q := fun _ => do
      let _ ← LineParser.read (Reader.delimiter "->".toList)
      LineParser.add Reader.label
      LineParser.finish)
    (Runs.of_significant_eq h2.text_eq hsig2 (Runs.read_bind (Reader.reads_delimiter h3) h3.text_eq fun _ _ =>
      Runs.bind_finish (Runs.add (Reader.reads_label hlabel h4.text_eq)) h4.text_eq hend))
  rw [← hline]
  exact isRead_of_kind h1 (h1.trans (h2.trans (h3.trans h4))).steps hend hstatement hrun

/-- a handler for all exceptions -/
theorem catchAll_line (stack : BlockStack) {m gap : Text} (hm : m.IsWord) (hgap : gap = [] ∨ gap = [' ']) :
    (parseLine language stack (".catchall ".toList ++ (Reader.rangeText gap n m ++ ' ' :: ':' :: n)) number).IsRead
      (.directive .catchAll) [.labelRange n m, .label n] none := by
  obtain ⟨line, hline⟩ : ∃ line, line = ".catchall ".toList ++ (Reader.rangeText gap n m ++ ' ' :: ':' :: n) := ⟨_, rfl⟩
  have hrest : (Lexer.start line number).rest =
      Directive.catchAll.keyword ++ ' ' :: (Reader.rangeText gap n m ++ ' ' :: ':' :: (n ++ [])) := by
    rw [List.append_nil]
    exact hline
  obtain ⟨l1, h1, hl1⟩ := Lexer.takes_keyword language.catalog .catchAll (Lexer.plain_start line number) hrest
  have hrest1 := h1.rest_eq hrest
  obtain ⟨l2, h2, hsig2, hl2⟩ := Lexer.skips_blank language.catalog hl1 hrest1 (by
    intro c hc
    obtain rfl := Option.some.inj hc
    decide)
  have hrest2 : l2.rest = _ := h2.rest_eq hrest1
  obtain ⟨l3, h3, hl3, hrange⟩ := Reader.exists_reads_labelRange language.catalog hl2 hgap hn hm hrest2
  have hrest3 := h3.rest_eq hrest2
  have hgap3 : [' '] = [' '] ∨ [' '] = [] ∧ OpensLabel l3.behind := .inl rfl
  obtain ⟨l', h4, hl', hlabel⟩ := Reader.exists_reads_label language.catalog hl3.1 hgap3 hn hrest3
    (Scan.word_append hn Text.stops_nil)
  have hend : l'.rest = [] := h4.rest_eq (s := ' ' :: ':' :: n) hrest3
  have hpass := h2.trans (h3.trans h4)
  have hrun := Runs.bind (Runs.of_significant_eq h2.text_eq hsig2 (Runs.add hrange)) (h2.trans h3).text_eq
    (q := fun _ => LineParser.add Reader.label) (Runs.add (Reader.reads_label hlabel h4.text_eq))
  rw [← hline]
  refine isRead_of_directive (by decide) (by decide) h1 ?_ hrun
  have htext := hpass.rest
  rw [hend, List.append_nil] at htext
  rw [htext]
  exact hpass

end

/-! ## branches -/

/-- the two branches, each with the kinds of its operands -/
theorem Catalog.exists_branches :
    (∃ e ∈ builtin.instructions, e.mnemonic = "goto".toList ∧ e.operandKinds = [.label] ∧ e.isOdexOnly = false) ∧
    ∃ e ∈ builtin.instructions, e.mnemonic = "if-eq".toList ∧
      e.operandKinds = [.register, .register, .label] ∧ e.isOdexOnly = false := by
  rw [builtin_eq_spelled]
  decide +kernel

section
variable (options : ParseOptions) {stack : BlockStack} (number : Nat) {n : Text} (hn : n.IsWord)
  (hstack : ∀ k ∈ stack.innermost?, k ∉ BlockKind.tables)
include hn hstack

theorem goto_line :
    (parseLine (Language.builtin options) stack ("goto :".toList ++ n) number).IsRead .instruction [.label n] none := by
  obtain ⟨⟨e, he, hmnemonic, hkinds, hodex⟩, -⟩ := Catalog.exists_branches
  have hops : LineParser.Fit e.operandKinds [(.label n, ':' :: n)] := by
    rw [hkinds]
    exact .cons (.label hn) .nil
  have hline : e.line [':' :: n] = "goto :".toList ++ n := by
    rw [Entry.line, hmnemonic, List.intercalate_singleton]
    rfl
  rw [← hline]
  exact isRead_of_operands options he (by rw [hodex]; rfl) hstack hops number

theorem ifEq_line :
    (parseLine (Language.builtin options) stack ("if-eq v0, v1, :".toList ++ n) number).IsRead .instruction
      [.register (.var 0), .register (.var 1), .label n] none := by
  obtain ⟨-, e, he, hmnemonic, hkinds, hodex⟩ := Catalog.exists_branches
  have hops : LineParser.Fit e.operandKinds [(.register (.var 0), Register.render (.var 0)),
      (.register (.var 1), Register.render (.var 1)), (.label n, ':' :: n)] := by
    rw [hkinds]
    exact .cons (.register _) (.cons (.register _) (.cons (.label hn) .nil))
  have hline : e.line [Register.render (.var 0), Register.render (.var 1), ':' :: n] =
      "if-eq v0, v1, :".toList ++ n := by
    rw [Entry.line, hmnemonic, List.intercalate_cons_cons, List.intercalate_cons_cons, List.intercalate_singleton]
    rfl
  rw [← hline]
  exact isRead_of_operands options he (by rw [hodex]; rfl) hstack hops number

end

theorem Statement.IsRead.label? {s : Statement} {n : Text} {opens : Option BlockKind}
    (h : s.IsRead .label [.label n] opens) : s.label? = some n := by
  obtain ⟨o, ho, hvalue⟩ := List.map_eq_singleton_iff.mp h.operands
  obtain ⟨value, span⟩ := o
  obtain rfl : value = .label n := hvalue
  rw [Statement.label?, h.kind, ho]

/-- **Labels have the same names on every line.**  Any word is read back as the name of a label: where it is defined,
in the tables of switches, in branches and around the instructions of a handler. -/
theorem parseLine_label (options : ParseOptions) (stack : BlockStack) (number : Nat) {n m : Text} (hn : n.IsWord)
    (hm : m.IsWord) :
    let read := fun line => parseLine (Language.builtin options) stack line number
    ((∀ k ∈ stack.innermost?, k ∉ BlockKind.tables) →
      (read (':' :: n)).IsRead .label [.label n] none ∧
      (read (':' :: n)).label? = some n ∧
      (read ("goto :".toList ++ n)).IsRead .instruction [.label n] none ∧
      (read ("if-eq v0, v1, :".toList ++ n)).IsRead .instruction
        [.register (.var 0), .register (.var 1), .label n] none) ∧
    (stack.innermost? = some .packedSwitch → (read (':' :: n)).IsRead .entry [.label n] none) ∧
    (stack.innermost? = some .sparseSwitch → ∀ K : Literal, K.IsInteger →
      (read (K.render ++ " -> :".toList ++ n)).IsRead .entry [.literal K, .label n] none ∧
      (read (K.render ++ "->:".toList ++ n)).IsRead .entry [.literal K, .label n] none) ∧
    (read (".catchall \x7b:".toList ++ n ++ " .. :".toList ++ m ++ "\x7d :".toList ++ n)).IsRead (.directive .catchAll)
      [.labelRange n m, .label n] none ∧
    (read (".catchall \x7b:".toList ++ n ++ "..:".toList ++ m ++ "\x7d :".toList ++ n)).IsRead (.directive .catchAll)
      [.labelRange n m, .label n] none := by
  intro read
  refine ⟨fun hstack => ?_, fun hstack => ?_, fun hstack K hK => ⟨?_, ?_⟩, ?_, ?_⟩
  · have hlabel := label_definition (Language.builtin options) number hn hstack
    exact ⟨hlabel, hlabel.label?, goto_line options number hn hstack, ifEq_line options number hn hstack⟩
  · exact label_entry (Language.builtin options) number hn hstack
  · rw [List.append_assoc]
    exact sparseSwitch_line (Language.builtin options) number hn hK (.inr rfl) hstack
  · rw [List.append_assoc]
    exact sparseSwitch_line (Language.builtin options) number hn hK (.inl rfl) hstack
  · have h := catchAll_line (Language.builtin options) number hn stack hm (.inr rfl)
    simpa [Reader.rangeText] using h
  · have h := catchAll_line (Language.builtin options) number hn stack hm (.inl rfl)
    simpa [Reader.rangeText] using h

/-- names that look like a number, a register and a mnemonic, and the least key -/
theorem parseLine_label_lookalikes :
    let read := fun stack (line : String) => parseLine (Language.builtin .standard) stack line.toList 1
    (read [.method] ":NaN").label? = some "NaN".toList ∧
    (read [.method] "if-eq v0, v1, :-1").IsRead .instruction
      [.register (.var 0), .register (.var 1), .label "-1".toList] none ∧
    (read [.packedSwitch, .method] ":goto").IsRead .entry [.label "goto".toList] none ∧
    (read [.sparseSwitch, .method] "-0x8000000000000000L->:v0").IsRead .entry
      [.literal ⟨.int (-0x8000000000000000), some .long, true⟩, .label "v0".toList] none ∧
    (read [] ".catchall \x7b:v0..:0x1L\x7d :v0").IsRead (.directive .catchAll)
      [.labelRange "v0".toList "0x1L".toList, .label "v0".toList] none := by
  have hword : ∀ w ∈ ["NaN", "-1", "goto", "v0", "0x1L"], Text.IsWord (String.toList w) := by decide
  have hkey : Literal.render ⟨.int (-0x8000000000000000), some .long, true⟩ = "-0x8000000000000000L".toList := by
    decide +kernel
  obtain ⟨hcode, -⟩ := parseLine_label .standard [.method] 1 (hword "NaN" (by simp)) (hword "NaN" (by simp))
  obtain ⟨hbranch, -⟩ := parseLine_label .standard [.method] 1 (hword "-1" (by simp)) (hword "-1" (by simp))
  obtain ⟨-, hpacked, -⟩ := parseLine_label .standard [.packedSwitch, .method] 1 (hword "goto" (by simp))
    (hword "goto" (by simp))
  obtain ⟨-, -, hsparse, -⟩ := parseLine_label .standard [.sparseSwitch, .method] 1 (hword "v0" (by simp))
    (hword "v0" (by simp))
  obtain ⟨-, -, -, -, hcatch⟩ := parseLine_label .standard [] 1 (hword "v0" (by simp)) (hword "0x1L" (by simp))
  refine ⟨(hcode (by decide)).2.1, (hbranch (by decide)).2.2.2, hpacked rfl, ?_, hcatch⟩
  have hread := (hsparse rfl ⟨.int (-0x8000000000000000), some .long, true⟩
    ⟨⟨_, rfl⟩, .inr (.inr (.inr rfl))⟩).2
  rw [hkey] at hread
  exact hread

end Smali
