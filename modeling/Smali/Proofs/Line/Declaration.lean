import Smali.Proofs.Line.Run

/-!
# Declarations and their text

A class, a field or a method is declared by modifier words and what is declared.  A word is a modifier or a name by
what comes after it, so a member may have the name of a modifier.

* `AccessFlags.IsUnion`         the flags of some words;
* `Directive.declaration`       the text of a declaration;
* `LineParser.exists_runs_flags`  the words before a place where they are over are the flags;
* `declares_member`, `declares_class`  what is declared starts at such a place;
* `parseLine_declaration`       the three declarations, from their text to their statement.
-/

namespace Smali

open Text (Stops)
open Lexer (Passes Takes IsMemberName)
open Reader (Reads)
open LineParser (Runs)

/-! ## modifier words -/

namespace AccessFlags

/-- the set has the bits of the flags of these words and no others -/
def IsUnion (f : AccessFlags) (words : List Text) : Prop :=
  ∀ i, f.bits.toBitVec.getLsbD i = true ↔
    ∃ w ∈ words, ∃ g, ofWord? w = some g ∧ g.bits.toBitVec.getLsbD i = true

/-- the flags of words, one after the other -/
def addWords (f : AccessFlags) (words : List Text) : AccessFlags :=
  words.foldl (fun f w => f.union ((ofWord? w).getD .empty)) f

theorem getLsbD_addWords (f : AccessFlags) (words : List Text) (i : Nat) :
    (f.addWords words).bits.toBitVec.getLsbD i = true ↔ f.bits.toBitVec.getLsbD i = true ∨
      ∃ w ∈ words, ∃ g, ofWord? w = some g ∧ g.bits.toBitVec.getLsbD i = true := by
  induction words generalizing f with
  | nil => simp [addWords]
  | cons w words ih =>
    have hstep : (f.union ((ofWord? w).getD .empty)).bits.toBitVec.getLsbD i = true ↔
        f.bits.toBitVec.getLsbD i = true ∨ ∃ g, ofWord? w = some g ∧ g.bits.toBitVec.getLsbD i = true := by
      rw [union, UInt32.toBitVec_or, BitVec.getLsbD_or, Bool.or_eq_true]
      cases ofWord? w with
      | none => simp [empty]
      | some g => simp
    show ((f.union _).addWords words).bits.toBitVec.getLsbD i = true ↔ _
    rw [ih, hstep, List.exists_mem_cons_iff, or_assoc]

theorem isUnion_addWords (words : List Text) : (empty.addWords words).IsUnion words := by
  intro i
  rw [getLsbD_addWords]
  simp [empty]

/-- there is only one such set -/
theorem IsUnion.eq_addWords {f : AccessFlags} {words : List Text} (h : f.IsUnion words) : f = empty.addWords words := by
  obtain ⟨bits⟩ := f
  have hbits : bits.toBitVec = (empty.addWords words).bits.toBitVec := by
    apply BitVec.eq_of_getLsbD_eq
    intro i _
    rw [Bool.eq_iff_iff, h i, isUnion_addWords words i]
  exact congrArg AccessFlags.mk (UInt32.eq_of_toBitVec_eq hbits)

/-- a modifier is a word that is neither a number nor a register -/
theorem isWord_of_isModifier {w : Text} (hw : isModifier w = true) :
    w.IsWord ∧ Lexeme.ofWord w = .word ∧ LexContext.isRegister w = false ∧ w.head? ≠ some 'L' := by
  have hall : ∀ e ∈ words, Text.IsWord e.1.toList ∧ Lexeme.ofWord e.1.toList = .word ∧
      LexContext.isRegister e.1.toList = false ∧ e.1.toList.head? ≠ some 'L' := by
    decide +kernel
  rw [isModifier, ofWord?, Option.isSome_map, List.find?_isSome] at hw
  obtain ⟨e, he, hew⟩ := hw
  rw [← beq_iff_eq.mp hew]
  exact hall e he

end AccessFlags

/-- the text of a declaration: the keyword, the modifier words and what is declared, with a blank before each -/
def Directive.declaration (f : Directive) (words : List Text) (declared : Text) : Text :=
  f.keyword ++ ((words.map (' ' :: ·)).flatten ++ ' ' :: declared)

/-- the operand of the modifier words, if there are any -/
def flagsOperand (words : List Text) (f : AccessFlags) : List OperandValue :=
  if words.isEmpty then [] else [.flags f]

namespace LineParser

variable (catalog : Catalog) {l : Lexer} {s : Text}

/-- **Modifier words.**  The words before what is declared are cut off, each of them and no more. -/
theorem exists_cutFlags {words : List Text} (hwords : ∀ w ∈ words, AccessFlags.isModifier w = true)
    (hs : ∃ c t, s = c :: t ∧ isBlank c = false)
    (hdeclares : ∀ l : Lexer, l.Plain → l.rest = s → Declares catalog l) (l : Lexer) (hl : l.Plain)
    (hrest : l.rest = (words.map (' ' :: ·)).flatten ++ ' ' :: s) :
    ∃ l' ts, Passes catalog l ((words.map (' ' :: ·)).flatten ++ [' ']) l' ∧ l'.Plain ∧ l'.rest = s ∧
      ts.map Token.text = words ∧ cutFlags (l.significant catalog) = (ts, l'.significant catalog) ∧
      ∃ t us, l.significant catalog = t :: us ∧ t.kind ≠ .delimiter := by
  induction words generalizing l with
  | nil =>
    obtain ⟨c, u, rfl, hc⟩ := hs
    obtain ⟨l', h, hsig, hl'⟩ := Lexer.skips_blank catalog hl hrest (by
      intro d hd
      obtain rfl := Option.some.inj hd
      exact hc)
    have hrest' : l'.rest = c :: u := h.rest_eq hrest
    obtain ⟨t, ts, hts, hkind, hflag⟩ := hdeclares l' hl' hrest'
    refine ⟨l', [], h, hl', hrest', rfl, ?_, t, ts, hsig.trans hts, hkind⟩
    rw [hsig, hts, cutFlags, if_neg (by rw [hflag]; exact Bool.false_ne_true)]
  | cons w words ih =>
    obtain ⟨hw, hwords⟩ := List.forall_mem_cons.mp hwords
    obtain ⟨hword, hofWord, hregister, -⟩ := AccessFlags.isWord_of_isModifier hw
    have hrest' : l.rest = ' ' :: (w ++ ((words.map (' ' :: ·)).flatten ++ ' ' :: s)) := by
      rw [hrest, List.map_cons, List.flatten_cons]
      simp
    obtain ⟨l1, h1, hsig, hl1⟩ := Lexer.skips_blank catalog hl hrest' (by
      obtain ⟨c, u, rfl, hc, -⟩ := hword.exists_cons
      intro d hd
      obtain rfl := Option.some.inj hd
      exact Text.isBlank_of_isWordChar hc)
    have hrest1 : l1.rest = _ := h1.rest_eq hrest'
    have hstops : Stops ((words.map (' ' :: ·)).flatten ++ ' ' :: s) := by
      cases words with
      | nil => exact Text.stops_cons (by decide) _
      | cons v words => exact Text.stops_cons (by decide) _
    obtain ⟨k, l2, hk, h2, hl2⟩ := Lexer.takes_plainWord catalog hl1 hword hofWord hregister hrest1 hstops
    obtain ⟨l', ts, h3, hl', hrest3, htexts, hcut, u, us, hu, hukind⟩ := ih hwords l2 hl2 (h2.rest_eq hrest1)
    obtain ⟨t, ht, hkind, htext⟩ := h2.token
    -- the next token is no delimiter, so the word is no name
    have hflag : isFlag t (l2.significant catalog) = true := by
      have hdelimiter : ∀ p : Text, u.isDelimiter p = false := by
        intro p
        rw [Token.isDelimiter, beq_eq_false_iff_ne.mpr hukind, Bool.false_and]
      rw [isFlag, htext, hw, Token.isWord_of_isWord (htext ▸ hword) (hkind ▸ hk), hu, List.head?_cons, Option.any_some,
        hdelimiter, hdelimiter]
      rfl
    refine ⟨l', t :: ts, ?_, hl', hrest3, by rw [List.map_cons, htext, htexts], ?_, t, _, hsig.trans ht, ?_⟩
    · have hpass := h1.trans (h2.trans h3)
      simpa using hpass
    · rw [hsig, ht, cutFlags, if_pos hflag, hcut]
    · rw [hkind]
      rcases hk with rfl | rfl <;> decide

theorem flagsOf_eq (ts : List Token) : flagsOf ts = AccessFlags.empty.addWords (ts.map Token.text) := by
  rw [flagsOf, AccessFlags.addWords, List.foldl_map]

/-- so the parser of the flags makes one operand of them -/
theorem exists_runs_flags {words : List Text} (hwords : ∀ w ∈ words, AccessFlags.isModifier w = true)
    (hs : ∃ c t, s = c :: t ∧ isBlank c = false)
    (hdeclares : ∀ l : Lexer, l.Plain → l.rest = s → Declares catalog l) (hl : l.Plain)
    (hrest : l.rest = (words.map (' ' :: ·)).flatten ++ ' ' :: s) :
    ∃ l', Passes catalog l ((words.map (' ' :: ·)).flatten ++ [' ']) l' ∧ l'.Plain ∧ l'.rest = s ∧
      Runs catalog l l' flags (flagsOperand words (AccessFlags.empty.addWords words)) := by
  obtain ⟨l', ts, h, hl', hrest', rfl, hcut, -⟩ := exists_cutFlags catalog hwords hs hdeclares l hl hrest
  refine ⟨l', h, hl', hrest', fun d hd => ?_⟩
  have hget : (get : LineParser Draft) d = .ok d d := rfl
  have htokens : cutFlags d.cursor.tokens = (ts, l'.significant catalog) := by
    rw [hd.2, hcut]
  unfold flags
  rw [run_bind_ok hget]
  simp only [htokens]
  cases ts with
  | nil =>
    have hsame : l'.significant catalog = d.cursor.tokens := by
      have happend := cutFlags_append d.cursor.tokens
      rw [htokens] at happend
      exact happend
    refine ⟨[], rfl, ?_⟩
    rw [reach_of_at ⟨hd.1.trans h.text_eq.symm, hsame.symm⟩]
    rfl
  | cons t ts =>
    refine ⟨[_], ?_, rfl⟩
    rw [← flagsOf_eq]
    rfl

/-! ## what is declared -/

/-- the member of a declaration, up to the end of the line -/
theorem declares_member {x : Member} (hx : x.OfWords) (hl : l.Plain) (hrest : l.rest = x.render) :
    Declares catalog l ∧ ∃ l', Passes catalog l x.render l' ∧ l'.rest = [] := by
  cases x with
  | field name type =>
    have hrest' : l.rest = name ++ ':' :: type.render := hrest
    obtain ⟨hdeclares, m, hm, hplain, hrest1⟩ := exists_declares catalog hx.1 hl hrest' (.inr rfl)
    have hrest2 : m.rest = type.render ++ [] := hrest1.trans (List.append_nil _).symm
    obtain ⟨l', h, -⟩ := Lexer.passes_of_stops catalog hx.2.forall_mem_render hplain hrest2 Text.stops_nil
    refine ⟨hdeclares, l', ?_, h.rest_eq hrest2⟩
    have hpass := hm.trans h
    rw [List.append_assoc] at hpass
    exact hpass
  | method sig =>
    have hrest' : l.rest = sig.name ++ '(' :: sig.prototype.render.tail := hrest
    obtain ⟨hdeclares, m, hm, hplain, hrest1⟩ := exists_declares catalog hx.1 hl hrest' (.inl rfl)
    have hrest2 : m.rest = sig.prototype.render.tail ++ [] := hrest1.trans (List.append_nil _).symm
    have htail : ∀ c ∈ sig.prototype.render.tail, Lexer.isDescriptorChar c = true :=
      fun c hc => hx.2.forall_mem_render c (List.mem_of_mem_tail hc)
    obtain ⟨l', h, -⟩ := Lexer.passes_of_stops catalog htail hplain hrest2 Text.stops_nil
    refine ⟨hdeclares, l', ?_, h.rest_eq hrest2⟩
    have hpass := hm.trans h
    rw [List.append_assoc] at hpass
    exact hpass

/-- the name of a member is the first token of its text -/
theorem exists_first_member {x : Member} (hx : x.OfWords) (hrest : l.rest = x.render) :
    ∃ t ts, l.significant catalog = t :: ts ∧ t.start = l.offset := by
  obtain ⟨name, r, hname, hr⟩ : ∃ name r, IsMemberName name ∧ x.render = name ++ r := by
    cases x with
    | field name type => exact ⟨name, ':' :: type.render, hx.1, rfl⟩
    | method sig => exact ⟨sig.name, sig.prototype.render, hx.1, rfl⟩
  obtain ⟨c, u, rfl, hc, hhash⟩ := hname.exists_cons
  exact Lexer.exists_first catalog (hrest.trans hr) hc hhash

theorem Runs.addDescriptor {catalog : Catalog} {l' : Lexer} {α : Type} {what : Text}
    {read? : Text → Option (α × Text)} {f : α → OperandValue} {v : α} (htext : l'.text = l.text)
    (h : Reads catalog l l' (Reader.descriptor what read?) fun p => p.1 = v) :
    Runs catalog l l' (addDescriptor what read? f) [f v] := by
  refine Runs.add (Reads.bind htext h ?_)
  rintro ⟨a, span⟩ rfl
  exact Reads.pure rfl

/-- a class starts with a letter that no modifier starts with -/
theorem declares_class {path : ClassPath} (hpath : path.path.IsWord) (hl : l.Plain)
    (hrest : l.rest = (TypeDescriptor.mk 0 (.object path)).render) :
    Declares catalog l ∧ ∃ l', Passes catalog l (TypeDescriptor.mk 0 (.object path)).render l' ∧ l'.rest = [] ∧
      Runs catalog l l' (add Reader.classType) [.type ⟨0, .object path⟩] := by
  obtain ⟨type, htype⟩ : ∃ type, type = TypeDescriptor.mk 0 (.object path) := ⟨_, rfl⟩
  have hof : type.OfWords := by
    rw [htype]
    exact hpath
  have hword : Text.IsWord ('L' :: path.path) :=
    ⟨List.cons_ne_nil _ _, List.forall_mem_cons.mpr ⟨by decide, hpath.2⟩⟩
  have hrest' : l.rest = 'L' :: path.path ++ [';'] := hrest
  rw [← htype] at hrest ⊢
  have hdeclares : Declares catalog l := by
    obtain ⟨m, hm, -⟩ := Lexer.takes_word catalog hl hword hrest' (Text.stops_cons (by decide) _)
    have hofWord : Lexeme.ofWord ('L' :: path.path) = .word :=
      Lexeme.ofWord_of_head (by decide) (by decide) (by decide) (by decide) _
    rw [hofWord] at hm
    obtain ⟨t, ht, hkind, htext⟩ := hm.token
    refine ⟨t, _, ht, ?_, ?_⟩
    · rw [hkind]
      show l.context.wordKind catalog _ ≠ _
      rcases LexContext.wordKind_cases catalog l.context ('L' :: path.path) with h | h | h <;> rw [h] <;> exact nofun
    · have hmodifier : AccessFlags.isModifier t.text = false := by
        refine eq_false_of_ne_true fun h => ?_
        rw [htext] at h
        exact (AccessFlags.isWord_of_isModifier h).2.2.2 rfl
      rw [isFlag, hmodifier, Bool.false_and, Bool.false_and]
  have hrest2 : l.rest = type.render ++ [] := hrest.trans (List.append_nil _).symm
  obtain ⟨l', h, -⟩ := Lexer.passes_of_stops catalog hof.forall_mem_render hl hrest2 Text.stops_nil
  have hfirst := Lexer.exists_first catalog hrest' (by decide) (by decide)
  refine ⟨hdeclares, l', h, h.rest_eq hrest2, Runs.add (Reads.bind h.text_eq
    (Reader.reads_descriptor TypeDescriptor.exact_read? _ hof.wellFormed h hfirst) ?_)⟩
  rintro ⟨a, span⟩ ha
  obtain rfl : a = type := ha
  refine Reads.ite_neg ?_ (Reads.pure rfl)
  rw [htype]
  exact Bool.false_ne_true

end LineParser

/-! ## lines -/

section
variable (language : Language) (stack : BlockStack) (number : Nat) {words : List Text}
  (hwords : ∀ w ∈ words, AccessFlags.isModifier w = true)
include hwords

/-- a declaration, from what is declared -/
theorem declaration_line {f : Directive} {s : Text} {p : LineParser Unit} {values : List OperandValue}
    (hf : f ∈ Directive.keyworded) (hvalue : f ≠ .enumValue ∧ f ≠ .subannot)
    (hoperands : LineParser.directiveOperands f = (do LineParser.flags; p))
    (hs : ∃ c t, s = c :: t ∧ isBlank c = false)
    (hdeclares : ∀ l : Lexer, l.Plain → l.rest = s → LineParser.Declares language.catalog l ∧
      ∃ l', Passes language.catalog l s l' ∧ l'.rest = [] ∧ Runs language.catalog l l' p values) :
    (parseLine language stack (f.declaration words s) number).IsRead (.directive f)
      (flagsOperand words (AccessFlags.empty.addWords words) ++ values) f.opens? := by
  have hblank : ∃ r, (words.map (' ' :: ·)).flatten ++ ' ' :: s = ' ' :: r := by
    cases words with
    | nil => exact ⟨s, rfl⟩
    | cons w words => exact ⟨_, rfl⟩
  obtain ⟨r, hr⟩ := hblank
  have hrest : (Lexer.start (f.declaration words s) number).rest = f.keyword ++ ' ' :: r := by
    rw [← hr]
    rfl
  obtain ⟨l1, h1, hl1⟩ := Lexer.takes_keyword language.catalog f (Lexer.plain_start _ number) hrest
  have hrest1 := h1.rest_eq hrest
  rw [← hr] at hrest1
  obtain ⟨l2, h2, hl2, hrest2, hflags⟩ := LineParser.exists_runs_flags language.catalog hwords hs
    (fun l hl hrest => (hdeclares l hl hrest).1) hl1 hrest1
  obtain ⟨-, l', h3, hend, hrun⟩ := hdeclares l2 hl2 hrest2
  have hpass : Passes language.catalog l1 l1.rest l' := by
    have hall := h2.trans h3
    rw [List.append_assoc] at hall
    rw [hrest1]
    exact hall
  refine isRead_of_directive hf hvalue h1 hpass ?_
  rw [hoperands]
  exact Runs.bind hflags h2.text_eq hrun

theorem field_line {name : Text} {type : TypeDescriptor} (hname : IsMemberName name) (htype : type.OfWords) :
    (parseLine language stack (Directive.field.declaration words (name ++ ':' :: type.render)) number).IsRead
      (.directive .field) (flagsOperand words (AccessFlags.empty.addWords words) ++ [.member (.field name type)])
      none := by
  have hx : (Member.field name type).OfWords := ⟨hname, htype⟩
  have hwf : (Member.field name type).WellFormedField :=
    ⟨⟨MemberName.wellFormed_of_isMemberName hname, htype.wellFormed⟩, rfl⟩
  refine declaration_line language stack number hwords (by decide) (by decide) rfl ?_ fun l hl hrest => ?_
  · obtain ⟨c, t, rfl, hc, -⟩ := hname.exists_cons
    exact ⟨c, _, rfl, hc⟩
  · obtain ⟨hdeclares, l', h, hend⟩ := LineParser.declares_member language.catalog hx hl hrest
    have hmember := Reader.reads_descriptor Member.exact_readField? "field name and type".toList hwf h
      (LineParser.exists_first_member language.catalog hx hrest)
    have hequals : Reads language.catalog l' l' (Reader.eat "=".toList) (· = false) :=
      Reader.reads_eat_of_nil (Lexer.significant_of_rest_eq_nil _ hend)
    refine ⟨hdeclares, l', h, hend, ?_⟩
    have hvalue : Runs language.catalog l' l' (do
        if ← LineParser.eat "=".toList then
          LineParser.add Reader.inlineValue) [] := by
      refine Runs.read_bind hequals rfl ?_
      rintro b rfl
      exact Runs.pure _ _
    exact Runs.bind (LineParser.Runs.addDescriptor h.text_eq hmember) h.text_eq hvalue

theorem method_line {m : MethodSignature} (hname : IsMemberName m.name) (hproto : m.prototype.OfWords) :
    (parseLine language stack (Directive.method.declaration words m.render) number).IsRead (.directive .method)
      (flagsOperand words (AccessFlags.empty.addWords words) ++ [.member (.method m)]) (some .method) := by
  have hx : (Member.method m).OfWords := ⟨hname, hproto⟩
  refine declaration_line language stack number hwords (by decide) (by decide) rfl ?_ fun l hl hrest => ?_
  · obtain ⟨c, t, ht, hc, -⟩ := hname.exists_cons
    refine ⟨c, t ++ m.prototype.render, ?_, hc⟩
    rw [MethodSignature.render, ht]
    rfl
  · obtain ⟨hdeclares, l', h, hend⟩ := LineParser.declares_member language.catalog hx hl hrest
    have hmember := Reader.reads_descriptor MethodSignature.exact_read? "method signature".toList
      ⟨MemberName.wellFormed_of_isMemberName hname, hproto.wellFormed⟩ h
      (LineParser.exists_first_member language.catalog hx hrest)
    exact ⟨hdeclares, l', h, hend, LineParser.Runs.addDescriptor h.text_eq hmember⟩

theorem class_line {path : ClassPath} (hpath : path.path.IsWord) :
    (parseLine language stack (Directive.classDecl.declaration words path.render) number).IsRead (.directive .classDecl)
      (flagsOperand words (AccessFlags.empty.addWords words) ++ [.type ⟨0, .object path⟩]) none := by
  refine declaration_line language stack number hwords (by decide) (by decide) rfl ⟨'L', _, rfl, by decide⟩
    fun l hl hrest => ?_
  exact LineParser.declares_class language.catalog hpath hl hrest

end

/-- **Modifiers and names are told apart.**  After any modifier words, a field and a method have the name that stands
before the colon or the parenthesis, whatever it looks like, and a class has its path; the words are one operand with
the flags of all of them, and none when there are no words. -/
theorem parseLine_declaration (language : Language) (stack : BlockStack) (number : Nat) {words : List Text}
    (hwords : ∀ w ∈ words, AccessFlags.isModifier w = true) :
    ∃ f : AccessFlags, f.IsUnion words ∧
      (∀ name type, IsMemberName name → TypeDescriptor.OfWords type →
        (parseLine language stack (Directive.field.declaration words (name ++ ':' :: type.render)) number).IsRead
          (.directive .field) (flagsOperand words f ++ [.member (.field name type)]) none) ∧
      (∀ name proto, IsMemberName name → Prototype.OfWords proto →
        (parseLine language stack (Directive.method.declaration words (name ++ proto.render)) number).IsRead
          (.directive .method) (flagsOperand words f ++ [.member (.method ⟨name, proto⟩)]) (some .method)) ∧
      ∀ path : ClassPath, path.path.IsWord →
        (parseLine language stack (Directive.classDecl.declaration words path.render) number).IsRead
          (.directive .classDecl) (flagsOperand words f ++ [.type ⟨0, .object path⟩]) none := by
  refine ⟨_, AccessFlags.isUnion_addWords words, fun name type hname htype => ?_, fun name proto hname hproto => ?_,
    fun path hpath => ?_⟩
  · exact field_line language stack number hwords hname htype
  · exact method_line language stack number hwords (m := ⟨name, proto⟩) hname hproto
  · exact class_line language stack number hwords hpath

/-- a field that is named like its modifier, a constructor, and a class without modifiers -/
theorem parseLine_declaration_modifierName :
    let read := fun (line : String) => parseLine (Language.builtin .standard) [] line.toList 1
    (read ".field static public static public:[I").IsRead (.directive .field)
      [.flags ⟨0x9⟩, .member (.field "public".toList ⟨1, .primitive .int⟩)] none ∧
    (read ".method static public static <init>(J)V").IsRead (.directive .method)
      [.flags ⟨0x9⟩, .member (.method ⟨"<init>".toList, ⟨[.ofPrimitive .long], .ofPrimitive .void⟩⟩)]
      (some .method) ∧
    (read ".class Lv0;").IsRead (.directive .classDecl) [.type ⟨0, .object ⟨"v0".toList⟩⟩] none := by
  have hwords : ∀ w ∈ ["static", "public", "static"].map String.toList, AccessFlags.isModifier w = true := by decide
  obtain ⟨f, hf, hfield, hmethod, -⟩ := parseLine_declaration (Language.builtin .standard) [] 1 hwords
  have hflags : f = ⟨0x9⟩ := hf.eq_addWords.trans (by decide)
  subst hflags
  have hnone : ∀ w ∈ ([] : List Text), AccessFlags.isModifier w = true := nofun
  obtain ⟨g, -, -, -, hclass⟩ := parseLine_declaration (Language.builtin .standard) [] 1 hnone
  refine ⟨hfield "public".toList ⟨1, .primitive .int⟩ (by decide) (by decide), ?_, hclass ⟨"v0".toList⟩ (by decide)⟩
  exact hmethod "<init>".toList ⟨[.ofPrimitive .long], .ofPrimitive .void⟩ (by decide) (by decide)

end Smali
