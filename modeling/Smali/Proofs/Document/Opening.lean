import Smali.Proofs.Catalog
import Smali.Proofs.Document.Diagnostics
import Smali.Proofs.Line.Builtin

/-!
# Lines that open blocks

The keyword of a block decides what the line opens before anything on the line can fail, so a malformed line
opens its block, too.  There are two exceptions: a line with a token that is no lexeme is not read at all, and
an annotation inside an array of values is read as a value, which opens its block only once its class is read.

* `Directive.Heads d head`  the token is the keyword of the directive `d`;
* `LineParser.header_directive`  a directive line has the header that its keyword decides, also when it fails;
* `LineParser.opens_arrayElement`  inside an array of values the class decides;
* `Nesting.pushLine_of_opens`  the lines after a line that opens a block are read inside that block, and its
                         end is not a stray one;
* `opens_parseLine_iff`  which lines with the keyword of a block open it.
-/

namespace Smali

namespace Directive

/-- the token is the keyword of the directive -/
structure Heads (d : Directive) (head : Token) : Prop where
  kind : head.kind = .keyword
  text : head.text = d.keyword

variable {d : Directive} {k : BlockKind}

theorem ofKeyword?_keyword_of_opens? (hk : d.opens? = some k) : ofKeyword? d.keyword = some d := by
  cases d with
  | method | annot | subannot | arrayData | packedSwitch | sparseSwitch => decide
  | _ => cases hk

theorem Heads.isDirective {head : Token} (h : d.Heads head) : head.isDirective = true := by
  rw [Token.isDirective, Token.isDotted, h.kind, h.text]
  cases d <;> rfl

/-- of the directives that open blocks, one can also start a value -/
theorem Heads.isValueKeyword {head : Token} (h : d.Heads head) (hk : d.opens? = some k) :
    LineParser.isValueKeyword head = true ↔ d = .subannot := by
  rw [LineParser.isValueKeyword, h.text]
  cases d with
  | method | annot | subannot | arrayData | packedSwitch | sparseSwitch => decide
  | _ => cases hk

end Directive

namespace LineParser
open Reader

variable {α : Type}

/-- the draft after a run, whether it failed or not -/
def draftAfter (p : LineParser α) (d : Draft) : Draft :=
  match p d with
  | .ok _ d' => d'
  | .error _ d' => d'

theorem Keeps.header {p : LineParser α} (hp : Keeps p) (d : Draft) :
    (draftAfter p d).header = d.header := by
  have h := hp d.header d rfl
  unfold draftAfter
  split <;> rename_i hr <;> rw [hr] at h
  · exact h
  · exact h.1

/-! ## directives -/

/-- **A directive line has the header that its keyword decides,** also when it fails. -/
theorem header_directive (catalog : Catalog) {d : Directive} {k : BlockKind} {head : Token} (hh : d.Heads head)
    (hk : d.opens? = some k) (cursor : Cursor) :
    (draftAfter (directive catalog head) (Draft.start cursor)).header =
      ⟨.directive d, some head.text, catalog.lookup head.text, some k, none⟩ := by
  have hword : Directive.ofKeyword? head.text = some d := by
    rw [hh.text, Directive.ofKeyword?_keyword_of_opens? hk]
  have hend : d ≠ .endBlock ∧ d ≠ .endLocal := by
    constructor
    · rintro rfl
      cases hk
    · rintro rfl
      cases hk
  have hkeeps : Keeps (do directiveOperands d; finish) :=
    (keeps_directiveOperands hend.1 hend.2).bind fun _ => keeps_finish
  have hexpecting : Keeps (expecting (catalog.lookup head.text) do directiveOperands d; finish) :=
    fun h => yields_expecting _ (hkeeps h)
  have hrest := hexpecting.header
    { Draft.start { cursor with tokens := cursor.tokens.tail } with
      kind := .directive d, keyword := some head.text, opcode := catalog.lookup head.text, opens := d.opens? }
  rw [← hk]
  refine Eq.trans (congrArg Draft.header ?_) hrest
  unfold directive
  simp only [hword]
  rfl

/-! ## annotations inside arrays of values -/

section
variable {head : Token} (hh : Directive.subannot.Heads head) {more : List Token}
include hh

theorem isDelimiter_eq_false (text : Text) : head.isDelimiter text = false := by
  rw [Token.isDelimiter, hh.kind]
  rfl

theorem elementValue_subannot {c : Cursor} (hc : c.tokens = head :: more) :
    Reader.elementValue c = (classType { c with tokens := more }).map fun p => (.subannot p.1, p.2) := by
  have hvalue : (do advance; return ElementValue.subannot (← classType)) c =
      (classType { c with tokens := more }).map fun p => (.subannot p.1, p.2) := by
    show Except.bind (classType { c with tokens := c.tokens.tail }) _ = _
    rw [hc]
    show Except.bind (classType { c with tokens := more }) _ = _
    cases classType { c with tokens := more } <;> rfl
  have htext : (head.text == ".subannotation".toList) = true := by
    rw [hh.text]
    rfl
  unfold Reader.elementValue
  rw [run_get_bind, hc]
  cases more with
  | nil =>
    dsimp only
    rw [isDelimiter_eq_false hh, if_neg Bool.false_ne_true, if_pos htext, ← hvalue]
  | cons t ts =>
    dsimp only
    rw [if_pos htext, ← hvalue]

/-- **Inside an array of values the class of an annotation decides whether its block is opened.** -/
theorem opens_arrayElement {cursor : Cursor} (hc : cursor.tokens = head :: more) :
    (draftAfter arrayElement (Draft.start cursor)).opens = some .subannot ↔
      ∃ p, classType { cursor with tokens := more } = .ok p := by
  have hat : cursor.atDelimiter "\x7d".toList = false := by
    rw [Cursor.atDelimiter, hc]
    exact isDelimiter_eq_false hh _
  have heat : Reader.eat "\x7d".toList cursor = .ok (false, cursor) := by
    unfold Reader.eat
    rw [run_get_bind, hat]
    rfl
  have hkeeps : Keeps (do let _ ← eat ",".toList; finish) :=
    (keeps_eat _).bind fun _ => keeps_finish
  -- the element is not the closing brace, so its value is read
  have hrun : arrayElement (Draft.start cursor) = (do elementValue; let _ ← eat ",".toList; finish)
      { Draft.start cursor with kind := .entry } := by
    refine (run_bind_ok rfl).trans ((run_bind_ok (run_read_ok heat)).trans ?_)
    rfl
  have hvalue := elementValue_subannot hh hc
  cases hclass : classType { cursor with tokens := more } with
  | error e =>
    rw [hclass] at hvalue
    have herror : arrayElement (Draft.start cursor) = .error e { Draft.start cursor with kind := .entry } :=
      hrun.trans (run_bind_error (run_bind_error (run_read_error hvalue)))
    rw [draftAfter, herror]
    exact ⟨nofun, nofun⟩
  | ok p =>
    rw [hclass] at hvalue
    refine iff_of_true ?_ ⟨p, rfl⟩
    have hopened : elementValue { Draft.start cursor with kind := .entry } =
        .ok () { Draft.start p.2 with kind := .entry, operands := [p.1], opens := some .subannot } :=
      (run_bind_ok (run_read_ok hvalue)).trans rfl
    rw [draftAfter, hrun, run_bind_ok hopened]
    exact congrArg Header.opens (hkeeps.header _)

end
end LineParser

/-! ## lines -/

section
variable (language : Language) (stack : BlockStack) (line : Text) (number : Nat) {head : Token} {more : List Token}

/-- a line whose tokens are all lexemes opens what its parser says -/
theorem opens_parseLine_of_lexemes
    (htokens : (tokenize language.catalog line number).filter Token.isSignificant = head :: more)
    (h : ∀ t ∈ head :: more, t.kind ≠ .error) :
    (parseLine language stack line number).opens =
      (LineParser.draftAfter (LineParser.statement language stack head)
        (Draft.start ⟨line, number, head :: more, stopOf (head :: more)⟩)).opens := by
  have hfind : (head :: more).find? (fun t => t.kind == .error) = none := by
    rw [List.find?_eq_none]
    intro t ht
    simpa using h t ht
  show (parseLine language stack line number).reading.header.opens = _
  rw [reading_parseLine language stack line number htokens, hfind]
  unfold LineParser.draftAfter
  cases LineParser.statement language stack head _ <;> rfl

theorem opens_parseLine_of_error
    (htokens : (tokenize language.catalog line number).filter Token.isSignificant = head :: more)
    (h : ¬∀ t ∈ head :: more, t.kind ≠ .error) : (parseLine language stack line number).opens = none := by
  show (parseLine language stack line number).reading.header.opens = none
  rw [reading_parseLine language stack line number htokens]
  cases hfind : (head :: more).find? fun t => t.kind == .error with
  | some bad => rfl
  | none =>
    exfalso
    apply h
    intro t ht
    simpa using List.find?_eq_none.mp hfind t ht

end

/-- a line that opens a block is the last one outside it, and an end of the block is no stray one -/
theorem Nesting.pushLine_of_opens {language : Language} {b : Nesting} {line : Text} {number : Nat} {k : BlockKind}
    (hk : k.isOptional = false) (ho : (parseLine language b.stack line number).opens = some k) :
    (b.pushLine language (line, number)).stack.innermost? = some k ∧
      ∀ e : Statement, e.closes = some k → e.isTopLevel = false →
        (b.pushLine language (line, number)).strays e = false := by
  have hline : language.IsLine (parseLine language b.stack line number) := ⟨_, _, _, rfl⟩
  have hc : (parseLine language b.stack line number).closes = none := by
    cases hc : (parseLine language b.stack line number).closes with
    | none => rfl
    | some j =>
      rw [hline.opens_eq_none hc] at ho
      cases ho
  have hkeeps : language.keeps (parseLine language b.stack line number) = true := by
    cases hkeeps : language.keeps (parseLine language b.stack line number) with
    | true => rfl
    | false =>
      rw [(hline.of_kind_blank (kind_of_keeps_eq_false language hkeeps)).2.2.1] at ho
      cases ho
  have hpush : b.pushLine language (line, number) = b.push (parseLine language b.stack line number) := by
    show (if language.keeps _ then _ else _) = _
    rw [if_pos hkeeps]
  have hstack : (b.pushLine language (line, number)).stack =
      k :: (b.metBy (parseLine language b.stack line number)).stack := by
    rw [hpush, push_of_opens hc ho]
    rfl
  refine ⟨by rw [hstack]; rfl, ?_⟩
  intro e he htop
  rw [strays, he, metBy, htop, if_neg Bool.false_ne_true]
  show lacks k _ = false
  rw [lacks, hk, if_neg Bool.false_ne_true, hstack, List.contains_cons, beq_self_eq_true]
  rfl

theorem Directive.isOptional_of_opens? {d : Directive} {k : BlockKind} (hk : d.opens? = some k) :
    k.isOptional = false := by
  cases d with
  | method | annot | subannot | arrayData | packedSwitch | sparseSwitch =>
    obtain rfl := Option.some.inj hk
    rfl
  | _ => cases hk

/-- **Which lines with the keyword of a block open it.**  Those whose tokens are all lexemes, and which, when
they are annotations inside an array of values, have a class after the keyword; what else may be wrong with them
makes no difference.  The lines after such a line are read inside the block, and its end is not a stray one. -/
theorem opens_parseLine_iff (language : Language) (stack : BlockStack) (line : Text) (number : Nat)
    {d : Directive} {k : BlockKind} (hk : d.opens? = some k) {head : Token} (hh : d.Heads head) {more : List Token}
    (htokens : (tokenize language.catalog line number).filter Token.isSignificant = head :: more) :
    ((parseLine language stack line number).opens = some k ↔
      (∀ t ∈ head :: more, t.kind ≠ .error) ∧
        (d = .subannot → stack.innermost? = some .valueArray →
          ∃ p, Reader.classType ⟨line, number, more, stopOf (head :: more)⟩ = .ok p)) ∧
    ((parseLine language stack line number).opens = some k → ∀ b : Nesting, b.stack = stack →
      (b.pushLine language (line, number)).stack.innermost? = some k ∧
        ∀ e : Statement, e.closes = some k → e.isTopLevel = false →
          (b.pushLine language (line, number)).strays e = false) := by
  constructor
  · by_cases hlexemes : ∀ t ∈ head :: more, t.kind ≠ .error
    · rw [opens_parseLine_of_lexemes language stack line number htokens hlexemes, and_iff_right hlexemes]
      unfold LineParser.statement
      rw [hh.isDirective, Bool.true_and]
      by_cases hvalue : d = .subannot ∧ stack.innermost? = some .valueArray
      · obtain ⟨rfl, hinner⟩ := hvalue
        obtain rfl : BlockKind.subannot = k := Option.some.inj hk
        rw [hinner, (hh.isValueKeyword hk).mpr rfl]
        show (LineParser.draftAfter LineParser.arrayElement _).opens = _ ↔ _
        rw [LineParser.opens_arrayElement hh rfl]
        exact ⟨fun h _ _ => h, fun h => h rfl rfl⟩
      · have hdirective : (!(stack.innermost? == some .valueArray && LineParser.isValueKeyword head)) = true := by
          rw [Bool.not_eq_true', Bool.eq_false_iff, Ne, Bool.and_eq_true, beq_iff_eq, hh.isValueKeyword hk]
          exact fun h => hvalue ⟨h.2, h.1⟩
        rw [if_pos hdirective]
        refine iff_of_true ?_ (fun hd hinner => absurd ⟨hd, hinner⟩ hvalue)
        exact congrArg Header.opens (LineParser.header_directive language.catalog hh hk _)
    · rw [opens_parseLine_of_error language stack line number htokens hlexemes]
      exact iff_of_false nofun fun h => hlexemes h.1
  · rintro ho b rfl
    exact Nesting.pushLine_of_opens (Directive.isOptional_of_opens? hk) ho

/-- an annotation inside an array of values, with a word too many -/
def longAnnotation : Text :=
  ".subannotation La; x".toList

/-- the annotation has its class, so its block is opened, although the line is malformed -/
theorem opens_longAnnotation :
    (parseLine ⟨.empty, .standard⟩ [.valueArray, .annot] longAnnotation 0).kind = .error ∧
      (parseLine ⟨.empty, .standard⟩ [.valueArray, .annot] longAnnotation 0).opens = some .subannot := by
  have htokens : (tokenize .empty longAnnotation 0).filter Token.isSignificant =
      [⟨.keyword, ".subannotation".toList, 0, 0, none, false⟩, ⟨.identifier, "La".toList, 15, 0, none, false⟩,
        ⟨.delimiter, ";".toList, 17, 0, none, false⟩, ⟨.identifier, "x".toList, 19, 0, none, false⟩] := by
    decide +kernel
  have hh : Directive.subannot.Heads ⟨.keyword, ".subannotation".toList, 0, 0, none, false⟩ := ⟨rfl, rfl⟩
  refine ⟨by decide +kernel, ?_⟩
  refine (opens_parseLine_iff ⟨.empty, .standard⟩ _ longAnnotation 0 rfl hh htokens).1.mpr ⟨by decide, ?_⟩
  exact fun _ _ => ⟨_, rfl⟩

/-- a method with a quote that is not closed -/
def quotedMethod : Text :=
  ".method \"".toList

/-- an annotation without its class -/
def bareAnnotation : Text :=
  ".subannotation x".toList

/-- the two exceptions: both lines start with the keyword of a block and open none, so the end of the method is
a stray one -/
theorem not_opens_quotedMethod :
    (((tokenize .builtin quotedMethod 0).filter Token.isSignificant).head?.map fun t => (t.kind, t.text)) =
        some (.keyword, Directive.method.keyword) ∧
      (parseLine (.builtin .standard) [] quotedMethod 0).opens = none ∧
      (((tokenize .builtin bareAnnotation 0).filter Token.isSignificant).head?.map fun t => (t.kind, t.text)) =
        some (.keyword, Directive.subannot.keyword) ∧
      (parseLine (.builtin .standard) [.valueArray, .annot] bareAnnotation 0).opens = none ∧
      ⟨.unmatched .method, Span.onLine 1 0 11, none⟩ ∈
        (parseDocument (.builtin .standard) (quotedMethod ++ "\n.end method\n".toList)).diagnostics := by
  rw [Language.builtin, Catalog.builtin_eq_spelled, (Document.isStableSort_diagnostics _).perm.mem_iff]
  decide +kernel

end Smali
