import Smali.Proofs.Line.Run
import Smali.Proofs.Line.Value

/-!
# Lines with encoded values

An encoded value is read back on each of the lines where one may stand: as the value of an annotation element, as
an element of an array that an earlier line opened, and as the initial value of a field.

* `Statement.Holds`          a statement without a fault, around no block, whose last operand is a value;
* `Reader.reads_inlineValue`, `Reader.reads_elementValue`  the bounds of the two readers are enough;
* `LineParser.element_run`, `LineParser.arrayElement_run`, `LineParser.fieldOperands_run`  the three lines, from the
                             places of the lexer between their parts;
* `holds_of_run`             from the run of a line to its statement;
* `parseLine_value`          the three lines as texts.
-/

namespace Smali

open Lexer (Passes Takes)
open Reader (Reads Within)

/-- The line is read without a fault and opens and closes no block, and its last operand is the value. -/
structure Statement.Holds (s : Statement) (v : EncodedValue) : Prop where
  error : s.error = none
  opens : s.opens = none
  closes : s.closes = none
  last : ∃ o, s.operands.getLast? = some o ∧ v.Denotes o

/-! ## the readers -/

namespace Reader

variable {catalog : Catalog} {l l' : Lexer} {s : Text} {P : Operand → Prop}

theorem reads_inlineValue (h : Within catalog valueWithin 0 l s l' P) : Reads catalog l l' inlineValue P := by
  refine Reads.get_bind fun c hc => h.reads _ ?_
  rw [hc]
  omega

/-- a value that ends on its line opens no block -/
theorem reads_elementValue (h : Within catalog valueWithin 0 l s l' P) :
    Reads catalog l l' elementValue fun e => ∃ o, e = .complete o ∧ P o := by
  obtain ⟨k, w, m, hm, -, hdot, hbrace⟩ := h.first
  obtain ⟨t, hsig, -, htext⟩ := hm.token
  have hsubannot : ¬(t.text == ".subannotation".toList) = true := by
    rw [htext, beq_iff_eq]
    rintro rfl
    exact absurd (hdot rfl) (by decide)
  have hcomplete : Reads catalog l l' (do return ElementValue.complete (← inlineValue))
      fun e => ∃ o, e = .complete o ∧ P o :=
    Reads.bind h.text_eq (reads_inlineValue h) fun o ho => Reads.pure ⟨o, rfl, ho⟩
  refine Reads.get_bind fun c hc => ?_
  rw [hc.trans hsig]
  cases hmore : m.significant catalog with
  | nil =>
    refine Reads.ite_neg ?_ (Reads.ite_neg hsubannot hcomplete)
    rw [Token.isDelimiter, htext, beq_eq_false_iff_ne.mpr fun hw => hbrace hw hmore, Bool.and_false]
    exact Bool.false_ne_true
  | cons u us => exact Reads.ite_neg hsubannot hcomplete

/-- an equals sign with blanks around it -/
theorem exists_reads_equals (catalog : Catalog) {r : Text} (hl : l.Plain) (hrest : l.rest = ' ' :: '=' :: ' ' :: r)
    (hr : ∀ c, r.head? = some c → isBlank c = false) :
    ∃ l', Passes catalog l " = ".toList l' ∧ l'.Plain ∧
      Reads catalog l l' (delimiter "=".toList) (fun _ => True) ∧ Reads catalog l l' (eat "=".toList) (· = true) := by
  obtain ⟨l1, h1, hsig1, hl1⟩ := Lexer.skips_blank catalog hl hrest (by
    intro c hc
    obtain rfl := Option.some.inj hc
    decide)
  have hrest1 : l1.rest = _ := h1.rest_eq hrest
  obtain ⟨l2, h2, hl2⟩ := Lexer.takes_delimiter catalog hl1 (c := '=') (by decide) hrest1
  have hrest2 : l2.rest = _ := h2.rest_eq hrest1
  obtain ⟨l3, h3, hsig3, hl3⟩ := Lexer.skips_blank catalog hl2 hrest2 hr
  exact ⟨l3, h1.trans (h2.trans h3), hl3,
    .of_significant_eq h1.text_eq hsig1 ((reads_delimiter h2).to_significant_eq hsig3),
    .of_significant_eq h1.text_eq hsig1 ((reads_eat h2).to_significant_eq hsig3)⟩

end Reader

/-! ## the lines -/

namespace LineParser

variable {catalog : Catalog} {l l1 l2 l' : Lexer} {d : Draft} {s : Text} {P : Operand → Prop}

theorem elementValue_run (h : Within catalog Reader.valueWithin 0 l s l' P) (hd : At catalog d l) :
    ∃ o, P o ∧ elementValue d = .ok () (d.reach catalog l' [o]) := by
  obtain ⟨e, ⟨o, rfl, ho⟩, hread⟩ := read_run (Reader.reads_elementValue h) hd
  refine ⟨o, ho, ?_⟩
  unfold elementValue
  rw [run_bind_ok hread]
  show EStateM.Result.ok () ((d.reach catalog l' []).reach catalog l' [o]) = _
  rw [reach_reach, List.nil_append]

/-- the name and the value of an annotation element -/
theorem element_run {name : Text} {k : TokenKind} (hname : Takes catalog l k name l1) (hword : name.IsWord)
    (hk : k = .keyword ∨ k = .identifier) (h2 : Passes catalog l1 " = ".toList l2)
    (hequals : Reads catalog l1 l2 (Reader.delimiter "=".toList) fun _ => True)
    (h3 : Within catalog Reader.valueWithin 0 l2 s l' P) (hend : l'.rest = []) (hd : At catalog d l) :
    ∃ o os, P o ∧ element d = .ok () ({ d with kind := .entry }.reach catalog l' (os ++ [o])) := by
  have hreads : Reads catalog l l1 elementName fun _ => True := by
    obtain ⟨t, hsig, hkind, htext⟩ := hname.token
    refine Reads.get_bind fun c hc => ?_
    rw [hc.trans hsig]
    exact Reads.ite_pos (Token.isWord_of_isWord (htext ▸ hword) (hkind ▸ hk))
      ((Reader.reads_single _ hname).mono fun _ _ => trivial)
  obtain ⟨d0, hd0⟩ : ∃ d0 : Draft, d0 = { d with kind := .entry } := ⟨_, rfl⟩
  have hat : At catalog d0 l := hd0 ▸ hd
  obtain ⟨o1, -, hadd⟩ := add_run hreads hat
  have hat1 := at_reach hat hname.text_eq [o1]
  obtain ⟨_, -, hread⟩ := read_run hequals hat1
  have hat2 := at_reach hat1 h2.text_eq []
  obtain ⟨o, ho, hvalue⟩ := elementValue_run h3 hat2
  have hat3 := at_reach hat2 h3.text_eq [o]
  refine ⟨o, [o1], ho, ?_⟩
  unfold element
  show (add elementName >>= _) { d with kind := .entry } = _
  rw [← hd0, run_bind_ok hadd, run_bind_ok hread, run_bind_ok hvalue, finish_run hend hat3, reach_reach, reach_reach]
  rfl

/-- an element of an array, with a comma after it or without one -/
theorem arrayElement_run {r : Text} (h1 : Within catalog Reader.valueWithin 0 l s l1 P) (h2 : Passes catalog l1 r l')
    (hcomma : Reads catalog l1 l' (Reader.eat ",".toList) fun _ => True) (hend : l'.rest = [])
    (hd : At catalog d l) :
    ∃ o, P o ∧ arrayElement d = .ok () ({ d with kind := .entry }.reach catalog l' [o]) := by
  -- the line is no closing brace
  obtain ⟨k, w, m, hm, hw, -⟩ := h1.first
  obtain ⟨d0, hd0⟩ : ∃ d0 : Draft, d0 = { d with kind := .entry } := ⟨_, rfl⟩
  have hat : At catalog d0 l := hd0 ▸ hd
  obtain ⟨b, rfl, hread⟩ := read_run (Reader.reads_eat_of_ne hm hw) hat
  have hbrace : eat "\x7d".toList d0 = .ok false d0 := by
    rw [reach_of_at hat] at hread
    exact hread
  obtain ⟨o, ho, hvalue⟩ := elementValue_run h1 hat
  have hat1 := at_reach hat h1.text_eq [o]
  obtain ⟨b, -, hread⟩ := read_run hcomma hat1
  have heat : eat ",".toList (d0.reach catalog l1 [o]) = .ok b _ := hread
  have hat2 := at_reach hat1 h2.text_eq []
  refine ⟨o, ho, ?_⟩
  unfold arrayElement
  show (eat "\x7d".toList >>= _) { d with kind := .entry } = _
  rw [← hd0, run_bind_ok hbrace, if_neg Bool.false_ne_true, run_bind_ok hvalue, run_bind_ok heat,
    finish_run hend hat2, reach_reach]
  rfl

/-- the name and the type of a field, with no modifiers before them -/
theorem exists_reads_field (catalog : Catalog) {name r : Text} {type : TypeDescriptor} (hname : name.IsWord)
    (htype : type.OfWords) (hl : l.Plain) (hrest : l.rest = name ++ ':' :: (type.render ++ r)) (hr : Text.Stops r) :
    ∃ l', Passes catalog l (name ++ ':' :: type.render) l' ∧ l'.Plain ∧ (∀ d, At catalog d l → flags d = .ok () d) ∧
      Reads catalog l l' (Reader.descriptor "field name and type".toList Member.readField?) fun p =>
        p.1 = .field name type := by
  have hmember : Lexer.IsMemberName name := .inr (.inr hname)
  obtain ⟨hdeclares, m, hm, hplain, hrest1⟩ := exists_declares catalog hmember hl hrest (.inr rfl)
  obtain ⟨l', h, hl'⟩ := Lexer.passes_of_stops catalog htype.forall_mem_render hplain hrest1 hr
  have hpass : Passes catalog l (Member.field name type).render l' := by
    have hall := hm.trans h
    rw [List.append_assoc] at hall
    exact hall
  obtain ⟨c, w, rfl, hc, hhash⟩ := hmember.exists_cons
  have hfirst := Lexer.exists_first catalog hrest hc hhash
  have hwf : (Member.field (c :: w) type).WellFormedField :=
    ⟨⟨MemberName.wellFormed_of_isMemberName hmember, htype.wellFormed⟩, rfl⟩
  exact ⟨l', hpass, hl', fun d hd => flags_of_declares hdeclares hd,
    Reader.reads_descriptor Member.exact_readField? _ hwf hpass hfirst⟩

/-- the operands of a field with an initial value -/
theorem fieldOperands_run {member : Member} {t : Text} (hflags : ∀ d, At catalog d l → flags d = .ok () d)
    (h1 : Passes catalog l t l1)
    (hmember : Reads catalog l l1 (Reader.descriptor "field name and type".toList Member.readField?) fun p =>
      p.1 = member)
    (h2 : Passes catalog l1 " = ".toList l2) (hequals : Reads catalog l1 l2 (Reader.eat "=".toList) (· = true))
    (h3 : Within catalog Reader.valueWithin 0 l2 s l' P) (hd : At catalog d l) :
    ∃ o os, P o ∧ directiveOperands .field d = .ok () (d.reach catalog l' (os ++ [o])) := by
  obtain ⟨o1, hadd⟩ : ∃ o1, addDescriptor "field name and type".toList Member.readField? .member d =
      .ok () (d.reach catalog l1 [o1]) := by
    obtain ⟨o1, -, hadd⟩ := add_run (P := fun _ => True)
      (Reads.bind h1.text_eq hmember fun _ _ => Reads.pure trivial) hd
    exact ⟨o1, hadd⟩
  have hat1 := at_reach hd h1.text_eq [o1]
  obtain ⟨b, rfl, hread⟩ := read_run hequals hat1
  have heat : eat "=".toList (d.reach catalog l1 [o1]) = .ok true _ := hread
  have hat2 := at_reach hat1 h2.text_eq []
  obtain ⟨o, ho, hvalue⟩ := add_run (Reader.reads_inlineValue h3) hat2
  refine ⟨o, [o1], ho, ?_⟩
  rw [directiveOperands, run_bind_ok (hflags d hd), run_bind_ok hadd, run_bind_ok heat, if_pos rfl, hvalue,
    reach_reach, reach_reach]
  rfl

end LineParser

/-- from the run of a line to its statement -/
theorem holds_of_run {language : Language} {stack : BlockStack} {line : Text} {number : Nat} {l1 l' : Lexer}
    {k : TokenKind} {w : Text} {v : EncodedValue} (hhead : Takes language.catalog (Lexer.start line number) k w l1)
    (hsteps : Relation.ReflTransGen (Lexer.Step language.catalog) (Lexer.start line number) l') (hend : l'.rest = [])
    (hrun : ∀ (head : Token) (c : Cursor), head.kind = k → head.text = w →
      LineParser.At language.catalog (Draft.start c) (Lexer.start line number) → ∃ d o os, v.Denotes o ∧
        LineParser.statement language stack head (Draft.start c) = .ok () d ∧ d.opens = none ∧ d.closes = none ∧
        d.operands = os ++ [o]) :
    (parseLine language stack line number).Holds v := by
  obtain ⟨d, hreading, o, os, ho, hopens, hcloses, hoperands⟩ := reading_of_run stack
    (Q := fun d => ∃ o os, v.Denotes o ∧ d.opens = none ∧ d.closes = none ∧ d.operands = os ++ [o])
    hhead hsteps hend fun head c hkind htext hd => by
      obtain ⟨d, o, os, ho, hstatement, hresult⟩ := hrun head c hkind htext hd
      exact ⟨d, hstatement, o, os, ho, hresult⟩
  refine ⟨congrArg Reading.error hreading, ?_, ?_, o, ?_, ho⟩
  · exact (congrArg (fun x => x.header.opens) hreading).trans hopens
  · exact (congrArg (fun x => x.header.closes) hreading).trans hcloses
  · have h : (parseLine language stack line number).operands = d.operands := congrArg Reading.operands hreading
    rw [h, hoperands, List.getLast?_concat]

/-! ## lines as texts -/

section
variable (language : Language) {v : EncodedValue} (hv : v.WellFormed) (number : Nat)
include hv

theorem holds_element {stack : BlockStack} {name : Text}
    (hstack : stack.innermost? = some .annot ∨ stack.innermost? = some .subannot) (hname : name.IsWord)
    (hword : Lexeme.ofWord name = .word) (hreg : LexContext.isRegister name = false) :
    (parseLine language stack (name ++ " = ".toList ++ v.render) number).Holds v := by
  obtain ⟨line, hline⟩ : ∃ line, line = name ++ " = ".toList ++ v.render := ⟨_, rfl⟩
  have hrest : (Lexer.start line number).rest = name ++ ' ' :: '=' :: ' ' :: v.render :=
    hline.trans (List.append_assoc _ _ _)
  obtain ⟨k, l1, hk, h1, hl1⟩ := Lexer.takes_plainWord language.catalog (Lexer.plain_start line number) hname hword
    hreg hrest (Text.stops_cons (by decide) _)
  have hrest1 := h1.rest_eq hrest
  obtain ⟨l2, h2, hl2, hequals, -⟩ := Reader.exists_reads_equals language.catalog hl1 hrest1
    (by simpa using hv.isBlank_of_head? [])
  have hrest2 : l2.rest = v.render ++ [] := (h2.rest_eq hrest1).trans (List.append_nil _).symm
  obtain ⟨l', h3⟩ := hv.readable language.catalog l2 [] hl2 hrest2 Text.stops_nil
  have hend : l'.rest = [] := h3.rest_eq hrest2
  rw [← hline]
  refine holds_of_run h1 (h1.trans (h2.trans h3.toPasses)).steps hend fun head c hkind htext hd => ?_
  have hstatement : LineParser.statement language stack head = LineParser.element := by
    unfold LineParser.statement
    rw [Token.isDirective, Token.isDotted_of_isWord (htext ▸ hname), Bool.and_false, Bool.false_and,
      if_neg Bool.false_ne_true]
    rcases hstack with h | h <;> rw [h]
  obtain ⟨o, os, ho, hrun⟩ := LineParser.element_run h1 hname hk h2 hequals h3 hend hd
  rw [hstatement]
  exact ⟨_, o, os, ho, hrun, rfl, rfl, rfl⟩

theorem holds_arrayElement {stack : BlockStack} {r : Text} (hstack : stack.innermost? = some .valueArray)
    (hr : r = [] ∨ r = [',']) : (parseLine language stack (v.render ++ r) number).Holds v := by
  obtain ⟨line, hline⟩ : ∃ line, line = v.render ++ r := ⟨_, rfl⟩
  have hrest : (Lexer.start line number).rest = v.render ++ r := hline
  have hstops : Text.Stops r := by
    rcases hr with rfl | rfl
    · exact Text.stops_nil
    · exact Text.stops_cons (by decide) _
  obtain ⟨l1, h1⟩ := hv.readable language.catalog _ r (Lexer.plain_start line number) hrest hstops
  obtain ⟨l', h2, hend, hcomma⟩ : ∃ l', Passes language.catalog l1 r l' ∧ l'.rest = [] ∧
      Reads language.catalog l1 l' (Reader.eat ",".toList) fun _ => True := by
    have hrest1 := h1.rest_eq hrest
    rcases hr with rfl | rfl
    · have hnil := Lexer.significant_of_rest_eq_nil language.catalog hrest1
      exact ⟨l1, .refl l1, hrest1, (Reader.reads_eat_of_nil hnil).mono fun _ _ => trivial⟩
    · obtain ⟨l', h2, -⟩ := Lexer.takes_delimiter language.catalog h1.plain (c := ',') (by decide) hrest1
      exact ⟨l', h2.toPasses, h2.rest_eq hrest1, (Reader.reads_eat h2).mono fun _ _ => trivial⟩
  obtain ⟨k, w, m, hm, -, hdot, -⟩ := h1.first
  rw [← hline]
  refine holds_of_run hm (h1.trans h2).steps hend fun head c hkind htext hd => ?_
  -- the keyword of the enumerations starts a value here, and no other keyword starts one
  have hstatement : LineParser.statement language stack head = LineParser.arrayElement := by
    have hcond : (head.isDirective && !(stack.innermost? == some .valueArray && LineParser.isValueKeyword head)) =
        false := by
      rw [hstack]
      cases hdirective : head.isDirective with
      | false => rfl
      | true =>
        have hdotted : head.isDotted = true := (Bool.and_eq_true_iff.mp hdirective).2
        rw [Token.isDotted, htext, beq_iff_eq] at hdotted
        rw [LineParser.isValueKeyword, htext, hdot hdotted]
        rfl
    unfold LineParser.statement
    rw [hcond, if_neg Bool.false_ne_true, hstack]
  obtain ⟨o, ho, hrun⟩ := LineParser.arrayElement_run h1 h2 hcomma hend hd
  rw [hstatement]
  exact ⟨_, o, [], ho, hrun, rfl, rfl, rfl⟩

theorem holds_field (stack : BlockStack) {name : Text} {type : TypeDescriptor} (hname : name.IsWord)
    (htype : type.OfWords) :
    (parseLine language stack (".field ".toList ++ name ++ ':' :: type.render ++ " = ".toList ++ v.render)
      number).Holds v := by
  obtain ⟨line, hline⟩ : ∃ line, line = ".field ".toList ++ name ++ ':' :: type.render ++ " = ".toList ++ v.render :=
    ⟨_, rfl⟩
  have hrest : (Lexer.start line number).rest = Directive.field.keyword ++ ' ' ::
      (name ++ ':' :: (type.render ++ ' ' :: '=' :: ' ' :: v.render)) := by
    have hfield : ".field ".toList = Directive.field.keyword ++ [' '] := rfl
    refine hline.trans ?_
    rw [hfield]
    simp only [List.append_assoc, List.cons_append, List.nil_append]
    rfl
  obtain ⟨l1, h1, hl1⟩ := Lexer.takes_keyword language.catalog .field (Lexer.plain_start line number) hrest
  have hrest1 := h1.rest_eq hrest
  obtain ⟨l2, h2, hsig2, hl2⟩ := Lexer.skips_blank language.catalog hl1 hrest1 (by
    obtain ⟨c, u, rfl, hc, -⟩ := hname.exists_cons
    intro d hd
    obtain rfl := Option.some.inj hd
    exact Text.isBlank_of_isWordChar hc)
  have hrest2 : l2.rest = _ := h2.rest_eq hrest1
  obtain ⟨l3, h3, hl3, hflags, hmember⟩ := LineParser.exists_reads_field language.catalog hname htype hl2
    hrest2 (Text.stops_cons (by decide) _)
  have hrest3 : l3.rest = ' ' :: '=' :: ' ' :: v.render :=
    h3.rest_eq (hrest2.trans (List.append_assoc _ (':' :: type.render) _).symm)
  obtain ⟨l4, h4, hl4, -, hequals⟩ := Reader.exists_reads_equals language.catalog hl3 hrest3
    (by simpa using hv.isBlank_of_head? [])
  have hrest4 : l4.rest = v.render ++ [] := (h4.rest_eq hrest3).trans (List.append_nil _).symm
  obtain ⟨l', h5⟩ := hv.readable language.catalog l4 [] hl4 hrest4 Text.stops_nil
  have hend : l'.rest = [] := h5.rest_eq hrest4
  have hoperands := h2.trans (h3.trans (h4.trans h5.toPasses))
  rw [← hline]
  refine holds_of_run h1 (h1.trans hoperands).steps hend fun head c hkind htext hd => ?_
  have hstatement : LineParser.statement language stack head = LineParser.directive language.catalog head := by
    have hdirective : head.isDirective = true := by
      rw [Token.isDirective, Token.isDotted, hkind, htext]
      rfl
    have hvalue : LineParser.isValueKeyword head = false := by
      rw [LineParser.isValueKeyword, htext]
      rfl
    unfold LineParser.statement
    rw [hdirective, hvalue, Bool.and_false, if_pos (by rfl)]
  have hfield : Directive.ofKeyword? head.text = some .field := by
    rw [htext]
    decide
  rw [hstatement]
  obtain ⟨d, _, ⟨o, os, ho, rfl⟩, hrun, -, hopens, hcloses, hresult⟩ := LineParser.directive_run
    (Q := fun os => ∃ o os', v.Denotes o ∧ os = os' ++ [o]) hfield h1 (fun d hat => by
      obtain ⟨o, os, ho, hrun⟩ := LineParser.fieldOperands_run hflags h3 hmember h4 hequals h5
        ⟨hat.1.trans h2.text_eq.symm, hat.2.trans hsig2⟩
      exact ⟨os ++ [o], ⟨o, os, ho, rfl⟩, hrun⟩) hoperands.text_eq hend hd
  exact ⟨d, o, os, ho, hrun, hopens, hcloses, hresult⟩

end

/-- **Encoded values are read back, at any depth, on each line where one may stand:** after the name of an annotation
element, as an element of an open array, with a comma after it or without one, and after the name and the type of a
field. -/
theorem parseLine_value (language : Language) (stack : BlockStack) (number : Nat) {v : EncodedValue}
    (hv : v.WellFormed) :
    (stack.innermost? = some .annot ∨ stack.innermost? = some .subannot → ∀ name : Text, name.IsWord →
      Lexeme.scan name = some (.word, []) → LexContext.isRegister name = false →
      (parseLine language stack (name ++ " = ".toList ++ v.render) number).Holds v) ∧
    (stack.innermost? = some .valueArray →
      (parseLine language stack v.render number).Holds v ∧
      (parseLine language stack (v.render ++ [',']) number).Holds v) ∧
    ∀ (name : Text) (type : TypeDescriptor), name.IsWord → type.OfWords →
      (parseLine language stack (".field ".toList ++ name ++ ':' :: type.render ++ " = ".toList ++ v.render)
        number).Holds v := by
  refine ⟨fun hstack name hname hscan hreg => ?_, fun hstack => ⟨?_, ?_⟩, fun name type hname htype => ?_⟩
  · have hlexeme := Lexeme.scan_append hname Text.stops_nil
    rw [List.append_nil, hscan] at hlexeme
    exact holds_element language hv number hstack hname (Prod.mk.inj (Option.some.inj hlexeme)).1.symm hreg
  · have h := holds_arrayElement language hv number (r := []) hstack (.inl rfl)
    rwa [List.append_nil] at h
  · exact holds_arrayElement language hv number hstack (.inr rfl)
  · exact holds_field language hv number stack hname htype

/-- arrays in arrays, one of them empty, in each of the places; the field is named like a modifier -/
theorem parseLine_value_nested :
    let v : EncodedValue := .array [.enumValue ⟨⟨0, .object ⟨['a']⟩⟩, .field ['B'] ⟨0, .object ⟨['a']⟩⟩⟩, .array [],
      .array [.char "\\u00e9".toList, .literal ⟨.int (-1), some .byte, true⟩, .type ⟨1, .primitive .int⟩]]
    let text := "\x7b.enum La;->B:La;, \x7b\x7d, \x7b'\\u00e9', -0x1t, [I\x7d\x7d".toList
    (parseLine (Language.builtin .standard) [.annot] ("null = ".toList ++ text) 1).Holds v ∧
      (parseLine (Language.builtin .standard) [.valueArray, .annot] (text ++ [',']) 1).Holds v ∧
      (parseLine (Language.builtin .standard) [] (".field final:[J = ".toList ++ text) 1).Holds v := by
  intro v text
  have hv : v.WellFormed := by
    refine .array ?_
    simp only [List.forall_mem_cons, List.not_mem_nil, false_imp_iff, implies_true, and_true]
    refine ⟨.enumValue (by decide), .array (by simp), .array ?_⟩
    simp only [List.forall_mem_cons, List.not_mem_nil, false_imp_iff, implies_true, and_true]
    exact ⟨.char (by decide), .literal ⟨⟨_, rfl⟩, .inr (.inl rfl)⟩, .type (by decide)⟩
  have htext : v.render = text := by decide +kernel
  rw [← htext]
  refine ⟨?_, ?_, ?_⟩
  · exact (parseLine_value _ [.annot] 1 hv).1 (.inl rfl) "null".toList (by decide) (by decide) rfl
  · exact ((parseLine_value _ [.valueArray, .annot] 1 hv).2.1 rfl).2
  · exact (parseLine_value _ [] 1 hv).2.2 "final".toList ⟨1, .primitive .long⟩ (by decide) (by decide)

end Smali
