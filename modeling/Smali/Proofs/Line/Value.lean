import Smali.Line.Value
import Smali.Proofs.Line.Operands

/-!
# Encoded values and their text

Each encoded value is read back from its text, up to where the text ends, at any place of a line and however
deep its arrays are nested.

* `EncodedValue`               values without their places, which are trees;
* `EncodedValue.render`        their texts;
* `EncodedValue.WellFormed`    the trees whose texts are values again;
* `OperandValue.encoded?`      the tree of an operand;
* `Reader.Within f k l s l' P`  between two places of the lexer the reader takes the text `s`, when its bound is
                               at least `k` more than twice the number of tokens between them;
* `EncodedValue.Readable`      the text of the value is taken as a value, whatever it stands before;
* `EncodedValue.readable_array`, ...  one case for each kind of value;
* `EncodedValue.WellFormed.readable`  all of them.
-/

namespace Smali

open Text (Stops)

/-- a value of an annotation element or of a field -/
inductive EncodedValue where
  | literal (l : Literal)
  /-- the text between the quotes -/
  | string (t : Text)
  /-- the text between the single quotes -/
  | char (t : Text)
  | null
  | boolean (b : Bool)
  | type (t : TypeDescriptor)
  | reference (r : Reference)
  | enumValue (r : Reference)
  | array (elements : List EncodedValue)

namespace EncodedValue

mutual

/-- the text of a value on one line -/
def render : EncodedValue → Text
  | .literal l => l.render
  | .string t => '"' :: (t ++ ['"'])
  | .char t => '\'' :: (t ++ ['\''])
  | .null => "null".toList
  | .boolean b => if b then "true".toList else "false".toList
  | .type t => t.render
  | .reference r => r.render
  | .enumValue r => ".enum".toList ++ ' ' :: r.render
  | .array elements => '\x7b' :: (", ".toList.intercalate (renderAll elements) ++ ['\x7d'])

def renderAll : List EncodedValue → List Text
  | [] => []
  | v :: vs => v.render :: renderAll vs

end

/-- Integers, strings and characters that are one lexeme each, and descriptors of words, in arrays or not. -/
inductive WellFormed : EncodedValue → Prop
  | literal {l : Literal} (h : l.IsInteger) : WellFormed (.literal l)
  | string {t : Text} (h : Lexeme.scan ('"' :: (t ++ ['"'])) = some (.string, [])) : WellFormed (.string t)
  | char {t : Text} (h : Lexeme.scan ('\'' :: (t ++ ['\''])) = some (.string, [])) : WellFormed (.char t)
  | null : WellFormed .null
  | boolean (b : Bool) : WellFormed (.boolean b)
  | type {t : TypeDescriptor} (h : t.OfWords) : WellFormed (.type t)
  | reference {r : Reference} (h : r.OfWords) : WellFormed (.reference r)
  | enumValue {r : Reference} (h : r.OfWords) : WellFormed (.enumValue r)
  | array {vs : List EncodedValue} (h : ∀ v ∈ vs, WellFormed v) : WellFormed (.array vs)

/-- no value starts with a blank -/
theorem WellFormed.exists_render_eq_cons {v : EncodedValue} (hv : v.WellFormed) :
    ∃ c t, v.render = c :: t ∧ isBlank c = false := by
  cases hv with
  | literal h =>
    obtain ⟨c, t, ht, hc, -⟩ := (Literal.isWord_render h).exists_cons
    exact ⟨c, t, ht, Text.isBlank_of_isWordChar hc⟩
  | string _ => exact ⟨'"', _, rfl, by decide⟩
  | char _ => exact ⟨'\'', _, rfl, by decide⟩
  | null => exact ⟨'n', _, rfl, by decide⟩
  | boolean b =>
    cases b with
    | true => exact ⟨'t', _, rfl, by decide⟩
    | false => exact ⟨'f', _, rfl, by decide⟩
  | @type t _ =>
    obtain ⟨c, u, hu, hc, -⟩ := t.exists_render_eq_cons
    exact ⟨c, u, hu, hc⟩
  | @reference r _ =>
    obtain ⟨c, u, hu, hc, -⟩ := r.exists_render_eq_cons
    exact ⟨c, u, hu, hc⟩
  | enumValue _ => exact ⟨'.', _, rfl, by decide⟩
  | array _ => exact ⟨'\x7b', _, rfl, by decide⟩

theorem WellFormed.isBlank_of_head? {v : EncodedValue} (hv : v.WellFormed) (r : Text) :
    ∀ c, (v.render ++ r).head? = some c → isBlank c = false := by
  obtain ⟨c, t, ht, hc⟩ := hv.exists_render_eq_cons
  intro d hd
  rw [ht] at hd
  obtain rfl := Option.some.inj hd
  exact hc

end EncodedValue

mutual

/-- the tree of an operand that is an encoded value -/
def OperandValue.encoded? : OperandValue → Option EncodedValue
  | .literal l => some (.literal l)
  | .string t => some (.string t)
  | .char t => some (.char t)
  | .null => some .null
  | .boolean b => some (.boolean b)
  | .type t => some (.type t)
  | .reference r => some (.reference r)
  | .enumValue r => some (.enumValue r)
  | .array elements => (OperandValue.allEncoded? elements).map .array
  | _ => none

def OperandValue.allEncoded? : List (Located OperandValue) → Option (List EncodedValue)
  | [] => some []
  | ⟨v, _⟩ :: os => v.encoded?.bind fun e => (OperandValue.allEncoded? os).map (e :: ·)

end

/-- the operand is the value, wherever it stands -/
def EncodedValue.Denotes (v : EncodedValue) (o : Operand) : Prop :=
  o.value.encoded? = some v

namespace Reader

open Lexer (Passes Takes)

variable {α : Type} {catalog : Catalog} {l m l' : Lexer} {k : TokenKind} {s w : Text}

/-! ## the bounds of the readers -/

/-- A value may start here: the next token is no closing brace, of the keywords only that of the enumerations, and
an opening brace is not the last token of the line. -/
def AtValue (catalog : Catalog) (l : Lexer) : Prop :=
  ∃ k w m, Takes catalog l k w m ∧ w ≠ "\x7d".toList ∧ (w.head? = some '.' → w = ".enum".toList) ∧
    (w = "\x7b".toList → m.significant catalog ≠ [])

/-- From one place to the other the lexer goes over `s`, and the reader `f n` takes the tokens between them when
`n` is at least `k` more than twice their number. -/
structure Within (catalog : Catalog) (f : Nat → Reader α) (k : Nat) (l : Lexer) (s : Text) (l' : Lexer)
    (P : α → Prop) : Prop extends Passes catalog l s l' where
  plain : l'.Plain
  first : AtValue catalog l
  fewer : (l'.significant catalog).length < (l.significant catalog).length
  reads : ∀ n, 2 * (l.significant catalog).length + k ≤ n + 2 * (l'.significant catalog).length →
    Reads catalog l l' (f n) P

/-! ## values of one token or one descriptor -/

theorem reads_valueWithin_of_scalar {P : Operand → Prop} (hm : Takes catalog l k w m) (hw : w ≠ "\x7b".toList)
    (hreads : ∀ t : Token, t.kind = k → t.text = w → Reads catalog l l' (scalar t) P) (n : Nat) :
    Reads catalog l l' (valueWithin (n + 1)) P := by
  obtain ⟨t, hsig, hkind, htext⟩ := hm.token
  have hbrace : ¬t.isDelimiter "\x7b".toList = true := by
    rw [Token.isDelimiter, htext, beq_eq_false_iff_ne.mpr hw, Bool.and_false]
    exact Bool.false_ne_true
  rw [valueWithin]
  refine Reads.get_bind fun c hc => ?_
  rw [hc.trans hsig]
  exact Reads.ite_neg hbrace (hreads t hkind htext)

/-- a value whose first token starts with none of the characters that have a meaning of their own -/
theorem within_of_scalar {P : Operand → Prop} {c : Char} {u : Text} (h : Passes catalog l s l') (hl' : l'.Plain)
    (hfewer : (l'.significant catalog).length < (l.significant catalog).length)
    (hm : Takes catalog l k (c :: u) m) (hc : c ≠ '\x7b' ∧ c ≠ '\x7d' ∧ c ≠ '.')
    (hreads : ∀ t : Token, t.kind = k → t.text = c :: u → Reads catalog l l' (scalar t) P) :
    Within catalog valueWithin 0 l s l' P := by
  have hbrace : c :: u ≠ "\x7b".toList := fun h => hc.1 (List.cons.inj h).1
  refine ⟨h, hl', ⟨k, c :: u, m, hm, ?_, ?_, fun h => absurd h hbrace⟩, hfewer, ?_⟩
  · exact fun h => hc.2.1 (List.cons.inj h).1
  · exact fun h => absurd (Option.some.inj h) hc.2.2
  · intro n hn
    obtain ⟨n, rfl⟩ : ∃ i, n = i + 1 := ⟨n - 1, by omega⟩
    exact reads_valueWithin_of_scalar hm hbrace hreads n

/-- a value of one token -/
theorem within_of_takes {P : Operand → Prop} {c : Char} {u : Text} (h : Takes catalog l k (c :: u) l')
    (hl' : l'.Plain) (hc : c ≠ '\x7b' ∧ c ≠ '\x7d' ∧ c ≠ '.')
    (hreads : ∀ t : Token, t.kind = k → t.text = c :: u → Reads catalog l l' (scalar t) P) :
    Within catalog valueWithin 0 l (c :: u) l' P := by
  refine within_of_scalar h.toPasses hl' ?_ h hc hreads
  obtain ⟨t, hsig, -⟩ := h.token
  rw [hsig, List.length_cons]
  exact Nat.lt_succ_self _

/-- a word starts with none of them -/
theorem ne_of_isWordChar {c : Char} (hc : isWordChar c = true) : c ≠ '\x7b' ∧ c ≠ '\x7d' ∧ c ≠ '.' := by
  refine ⟨?_, ?_, ?_⟩ <;> (rintro rfl; exact absurd hc (by decide))

theorem reads_single (v : OperandValue) (h : Takes catalog l k s l') :
    Reads catalog l l' (single v) fun o => o.value = v :=
  Reads.get_bind fun _ _ => Reads.bind h.text_eq (reads_advance h) fun _ _ => Reads.pure rfl

end Reader

namespace EncodedValue

open Lexer (Passes Takes)
open Reader

variable {catalog : Catalog}

/-- At any place of a line, the reader of values takes the text of the value and nothing more, if no word goes on
after it. -/
def Readable (catalog : Catalog) (v : EncodedValue) : Prop :=
  ∀ (l : Lexer) (r : Text), l.Plain → l.rest = v.render ++ r → Stops r →
    ∃ l', Within catalog valueWithin 0 l v.render l' v.Denotes

theorem denotes_of_value {v : EncodedValue} {x : OperandValue} (hx : x.encoded? = some v) (o : Operand)
    (ho : o.value = x) : v.Denotes o := by
  rw [Denotes, ho, hx]

theorem readable_literal {x : Literal} (hx : x.IsInteger) : Readable catalog (.literal x) := by
  intro l r hl hrest hr
  obtain ⟨k, l', hk, h, hl'⟩ := takes_literal catalog hx hl hrest (Scan.atWord_of_stops hr)
    (Scan.head?_ne_dot_of_stops hr)
  obtain ⟨c, u, hu, hc, -⟩ := (Literal.isWord_render hx).exists_cons
  have hreads : Reads catalog l l' Reader.literal (EncodedValue.literal x).Denotes := by
    refine Reads.bind h.text_eq (reads_bareLiteral hx hk h) ?_
    rintro ⟨y, span⟩ rfl
    exact Reads.pure rfl
  show ∃ l', Within catalog valueWithin 0 l x.render l' _
  rw [hu] at h ⊢
  refine ⟨l', within_of_takes h hl' (ne_of_isWordChar hc) fun t hkind _ => ?_⟩
  have hnumber : (t.kind == .number || t.kind == .hexNumber) = true := by
    rw [hkind]
    rcases hk with rfl | rfl <;> rfl
  exact Reads.ite_pos hnumber hreads

theorem readable_string {t : Text} (ht : Lexeme.scan ('"' :: (t ++ ['"'])) = some (.string, [])) :
    Readable catalog (.string t) := by
  intro l r hl hrest _
  obtain ⟨l', h, hl'⟩ := Lexer.takes_string catalog hl ht hrest
  refine ⟨l', within_of_takes h hl' (by decide) fun u hkind htext => ?_⟩
  have hscalar : scalar u = Reader.string := by
    rw [scalar, hkind, htext]
    rfl
  rw [hscalar]
  exact (reads_string h).mono (denotes_of_value rfl)

theorem readable_char {t : Text} (ht : Lexeme.scan ('\'' :: (t ++ ['\''])) = some (.string, [])) :
    Readable catalog (.char t) := by
  intro l r hl hrest _
  obtain ⟨l', h, hl'⟩ := Lexer.takes_char catalog hl ht hrest
  refine ⟨l', within_of_takes h hl' (by decide) fun u hkind htext => ?_⟩
  have hscalar : scalar u = single (.char t) := by
    have hinner : Text.inner ('\'' :: (t ++ ['\''])) = t := List.dropLast_concat
    rw [scalar, hkind, htext, hinner]
    rfl
  rw [hscalar]
  exact (reads_single _ h).mono (denotes_of_value rfl)

/-- the values that are words -/
theorem readable_word {v : EncodedValue} {x : OperandValue} {c : Char} {u : Text} (hx : x.encoded? = some v)
    (hv : v.render = c :: u) (hword : Text.IsWord (c :: u)) (hlexeme : Lexeme.ofWord (c :: u) = .word)
    (hreg : LexContext.isRegister (c :: u) = false)
    (hscalar : ∀ t : Token, t.kind = .keyword ∨ t.kind = .identifier → t.text = c :: u → scalar t = single x) :
    Readable catalog v := by
  intro l r hl hrest hr
  rw [hv] at hrest ⊢
  obtain ⟨k, l', hk, h, hl'⟩ := Lexer.takes_plainWord catalog hl hword hlexeme hreg hrest hr
  have hc := hword.2 c List.mem_cons_self
  refine ⟨l', within_of_takes h hl' (ne_of_isWordChar hc) fun t hkind htext => ?_⟩
  rw [hscalar t (by rw [hkind]; exact hk) htext]
  exact (reads_single _ h).mono (denotes_of_value hx)

theorem readable_null : Readable catalog .null := by
  refine readable_word (x := .null) rfl rfl (by decide) rfl rfl fun t hkind htext => ?_
  rw [scalar, htext]
  rcases hkind with h | h <;> (rw [h]; rfl)

theorem readable_boolean (b : Bool) : Readable catalog (.boolean b) := by
  cases b with
  | true =>
    refine readable_word (x := .boolean true) rfl rfl (by decide) rfl rfl fun t hkind htext => ?_
    rw [scalar, htext]
    rcases hkind with h | h <;> (rw [h]; rfl)
  | false =>
    refine readable_word (x := .boolean false) rfl rfl (by decide) rfl rfl fun t hkind htext => ?_
    rw [scalar, htext]
    rcases hkind with h | h <;> (rw [h]; rfl)

/-! ## descriptors -/

/-- the first token of a descriptor, which is a bracket or a word that starts with a capital letter -/
def OpensDescriptor (k : TokenKind) (c : Char) : Prop :=
  (k = .delimiter ∨ k = .keyword ∨ k = .identifier) ∧ (c = '[' ∨ c.isUpper = true)

theorem takes_type {l : Lexer} {r : Text} {t : TypeDescriptor} (ht : t.OfWords) (hl : l.Plain)
    (hrest : l.rest = t.render ++ r) (hr : t.isPrimitive = true → Stops r) :
    ∃ k c w m, Takes catalog l k (c :: w) m ∧ OpensDescriptor k c := by
  obtain ⟨depth, base⟩ := t
  cases depth with
  | succ n =>
    obtain ⟨m, hm, -⟩ := Lexer.takes_delimiter catalog hl (c := '[') (by decide) hrest
    exact ⟨_, '[', [], m, hm, .inl rfl, .inl rfl⟩
  | zero =>
    cases base with
    | primitive p =>
      have hword : Text.IsWord [p.letter] := ⟨List.cons_ne_nil _ _, by simpa using p.isWordChar_letter⟩
      obtain ⟨k, m, hk, hm, -⟩ := Lexer.takes_plainWord catalog hl hword (by cases p <;> rfl) rfl hrest (hr rfl)
      exact ⟨k, p.letter, [], m, hm, .inr hk, .inr (by cases p <;> rfl)⟩
    | object path =>
      have hword : Text.IsWord ('L' :: path.path) :=
        ⟨List.cons_ne_nil _ _, List.forall_mem_cons.mpr ⟨rfl, ht.2⟩⟩
      have hrest' : l.rest = 'L' :: path.path ++ ';' :: r := by
        rw [hrest]
        show 'L' :: path.path ++ [';'] ++ r = _
        rw [List.append_assoc, List.singleton_append]
      obtain ⟨k, m, hk, hm, -⟩ := Lexer.takes_plainWord catalog hl hword
        (Lexeme.ofWord_of_head (by decide) rfl (by decide) (by decide) _) (by cases path.path <;> rfl) hrest'
        (Text.stops_cons (by decide) _)
      exact ⟨k, 'L', path.path, m, hm, .inr hk, .inr rfl⟩

theorem scalar_of_opensDescriptor {t : Token} {c : Char} {w : Text} (h : OpensDescriptor t.kind c)
    (htext : t.text = c :: w) :
    scalar t = do
      let (v, span) ← descriptor "value".toList readReferenceOrType
      return ⟨v, span⟩ := by
  have hhead : ∀ (d : Char) (u : Text), d ≠ '[' → d.isUpper = false → ¬(t.text == d :: u) = true := by
    intro d u hbracket hupper heq
    rw [htext, beq_iff_eq] at heq
    obtain ⟨rfl, -⟩ := List.cons.inj heq
    rcases h.2 with hc | hc
    · exact hbracket hc
    · rw [hupper] at hc
      cases hc
  have hnumber : ¬(t.kind == .number || t.kind == .hexNumber) = true := by
    rcases h.1 with h | h | h <;> rw [h] <;> decide
  have hstring : ¬(t.kind == .string) = true := by
    rcases h.1 with h | h | h <;> rw [h] <;> decide
  have hnull : ¬(t.text == "null".toList) = true := hhead 'n' _ (by decide) rfl
  have htrue : ¬(t.text == "true".toList) = true := hhead 't' _ (by decide) rfl
  have hfalse : ¬(t.text == "false".toList) = true := hhead 'f' _ (by decide) rfl
  have henum : ¬(t.text == ".enum".toList) = true := hhead '.' _ (by decide) rfl
  unfold scalar
  rw [if_neg hnumber, if_neg hstring, if_neg hnull, if_neg htrue, if_neg hfalse, if_neg henum]

theorem within_of_descriptor {l m l' : Lexer} {k : TokenKind} {c : Char} {w s : Text} {v : EncodedValue}
    {x : OperandValue} (hm : Takes catalog l k (c :: w) m) (hopens : OpensDescriptor k c)
    (hhead : ∃ c t, s = c :: t ∧ isBlank c = false ∧ c ≠ '#') (h : Passes catalog l s l') (hl' : l'.Plain)
    (hread : readReferenceOrType l.rest = some (x, l'.rest)) (hx : x.encoded? = some v) :
    Within catalog valueWithin 0 l s l' v.Denotes := by
  obtain ⟨d, u, rfl, hblank, hd⟩ := hhead
  have hne : c ≠ '\x7b' ∧ c ≠ '\x7d' ∧ c ≠ '.' := by
    rcases hopens.2 with rfl | hc
    · decide
    · refine ⟨?_, ?_, ?_⟩ <;> (rintro rfl; cases hc)
  refine within_of_scalar h hl' (h.length_lt hblank hd) hm hne fun t hkind htext => ?_
  rw [scalar_of_opensDescriptor (hkind ▸ hopens) htext]
  refine Reads.bind h.text_eq
    (reads_descriptor_of_read _ h hread (Lexer.exists_first catalog h.rest hblank hd)) ?_
  rintro ⟨y, span⟩ rfl
  exact Reads.pure hx

theorem readable_type {t : TypeDescriptor} (ht : t.OfWords) : Readable catalog (.type t) := by
  intro l r hl hrest hr
  obtain ⟨k, c, w, m, hm, hopens⟩ := takes_type ht hl hrest fun _ => hr
  obtain ⟨l', h, hl'⟩ := Lexer.passes_of_stops catalog ht.forall_mem_render hl hrest hr
  refine ⟨l', within_of_descriptor (x := .type t) hm hopens t.exists_render_eq_cons h hl' ?_ rfl⟩
  have hread : TypeDescriptor.read? (t.render ++ r) = some (t, r) :=
    TypeDescriptor.exact_read?.complete ht.wellFormed r
  -- no arrow follows, so the type is not the owner in a reference
  have hnone : Reference.read? (t.render ++ r) = none := by
    unfold Reference.read?
    rw [hread]
    split
    · rename_i owner u heq
      obtain ⟨-, rfl⟩ := Prod.mk.inj (Option.some.inj heq)
      exact absurd (hr '-' rfl).1 (by decide)
    · rfl
  rw [h.rest_eq hrest, hrest]
  show readReferenceOrType (t.render ++ r) = _
  rw [readReferenceOrType, hnone, hread]
  rfl

theorem readable_reference {x : Reference} (hx : x.OfWords) : Readable catalog (.reference x) := by
  intro l r hl hrest hr
  have hrest' : l.rest = x.owner.render ++ ("->".toList ++ x.member.render ++ r) := by
    rw [hrest]
    show x.render ++ r = _
    rw [Reference.render]
    simp only [List.append_assoc]
  obtain ⟨k, c, w, m, hm, hopens⟩ := takes_type hx.1 hl hrest' fun h => absurd h (by rw [hx.2.1]; decide)
  obtain ⟨l', h, hl'⟩ := Lexer.passes_reference catalog hx hl hrest hr
  refine ⟨l', within_of_descriptor (x := .reference x) hm hopens x.exists_render_eq_cons h hl' ?_ rfl⟩
  have hread : Reference.read? (x.render ++ r) = some (x, r) := Reference.exact_read?.complete hx.wellFormed r
  rw [h.rest_eq hrest, hrest]
  show readReferenceOrType (x.render ++ r) = _
  rw [readReferenceOrType, hread]

theorem readable_enumValue {x : Reference} (hx : x.OfWords) : Readable catalog (.enumValue x) := by
  intro l r hl hrest hr
  obtain ⟨c, u, hu, hblank, hc⟩ := x.exists_render_eq_cons
  have hrest' : l.rest = Directive.enumValue.keyword ++ ' ' :: (x.render ++ r) := by
    rw [hrest]
    exact List.append_assoc _ _ _
  obtain ⟨l1, h1, hl1⟩ := Lexer.takes_keyword catalog .enumValue hl hrest'
  have hrest1 := h1.rest_eq hrest'
  obtain ⟨l2, h2, hsig2, hl2⟩ := Lexer.skips_blank catalog hl1 hrest1 (by
    intro d hd
    rw [hu] at hd
    obtain rfl := Option.some.inj hd
    exact hblank)
  have hrest2 : l2.rest = x.render ++ r := h2.rest_eq hrest1
  obtain ⟨l', h3, hl'⟩ := Lexer.passes_reference catalog hx hl2 hrest2 hr
  have hfirst := Lexer.exists_first catalog (l := l2) (r := u ++ r) (hrest2.trans (by rw [hu]; rfl)) hblank hc
  have hpass : Passes catalog l (EncodedValue.enumValue x).render l' := h1.trans (h2.trans h3)
  have hfewer := Passes.length_lt (s := "enum".toList ++ ' ' :: x.render) hpass (by decide) (by decide)
  refine ⟨l', hpass, hl', ⟨_, _, l1, h1, by decide, fun _ => rfl, fun h => absurd h (by decide)⟩, hfewer, ?_⟩
  intro n hn
  obtain ⟨n, rfl⟩ : ∃ i, n = i + 1 := ⟨n - 1, by omega⟩
  refine reads_valueWithin_of_scalar h1 (by decide) (fun t hkind htext => ?_) n
  have hscalar : scalar t = Reader.enumValue := by
    rw [scalar, hkind, htext]
    rfl
  rw [hscalar]
  refine Reads.get_bind fun c _ => Reads.bind h1.text_eq (reads_advance h1) fun _ _ => ?_
  refine Reads.of_significant_eq h2.text_eq hsig2
    (Reads.bind h3.text_eq (reads_descriptor Reference.exact_read? _ hx.wellFormed h3 hfirst) ?_)
  rintro ⟨y, span⟩ rfl
  exact Reads.pure rfl

/-! ## arrays -/

theorem allEncoded?_cons {v : EncodedValue} {vs : List EncodedValue} {o : Operand} {os : List Operand}
    (ho : v.Denotes o) (hos : OperandValue.allEncoded? os = some vs) :
    OperandValue.allEncoded? (o :: os) = some (v :: vs) := by
  obtain ⟨x, span⟩ := o
  have hx : x.encoded? = some v := ho
  rw [OperandValue.allEncoded?, hx, hos]
  rfl

/-- Values with commas between them and a brace after them.  Each has a token of its own, and so has each comma, so
the bound for all of them is enough for each of them and for those that come after it. -/
theorem exists_within_elements {r : Text} (v : EncodedValue) (vs : List EncodedValue) (hv : Readable catalog v)
    (hvs : ∀ w ∈ vs, w.WellFormed ∧ Readable catalog w) (l : Lexer) (hl : l.Plain)
    (hrest : l.rest = ", ".toList.intercalate (renderAll (v :: vs)) ++ '\x7d' :: r) :
    ∃ l', Within catalog elementsWithin 1 l (", ".toList.intercalate (renderAll (v :: vs))) l'
      fun os => OperandValue.allEncoded? os = some (v :: vs) := by
  induction vs generalizing v l with
  | nil =>
    rw [renderAll, renderAll, List.intercalate_singleton] at hrest ⊢
    obtain ⟨l', h⟩ := hv l _ hl hrest (Text.stops_cons (by decide) _)
    obtain ⟨u, hu, -⟩ := Lexer.takes_delimiter catalog h.plain (c := '\x7d') (by decide) (h.rest_eq hrest)
    refine ⟨l', h.toPasses, h.plain, h.first, h.fewer, fun n hn => ?_⟩
    have hfewer := h.fewer
    obtain ⟨n, rfl⟩ : ∃ i, n = i + 1 := ⟨n - 1, by omega⟩
    rw [elementsWithin]
    refine Reads.bind h.text_eq (h.reads n (by omega)) fun o ho => ?_
    refine Reads.bind rfl (reads_eat_of_ne hu (by decide)) ?_
    rintro b rfl
    exact Reads.ite_neg Bool.false_ne_true (Reads.pure (allEncoded?_cons ho rfl))
  | cons v' vs ih =>
    obtain ⟨t, ht⟩ : ∃ t, t = ", ".toList.intercalate (renderAll (v' :: vs)) := ⟨_, rfl⟩
    have htext : ", ".toList.intercalate (renderAll (v :: v' :: vs)) = v.render ++ ([','] ++ ([' '] ++ t)) := by
      rw [ht, renderAll, renderAll, List.intercalate_cons_cons, List.append_assoc]
      rfl
    have hrest' : l.rest = v.render ++ ',' :: ' ' :: (t ++ '\x7d' :: r) := by
      rw [hrest, htext, List.append_assoc]
      rfl
    obtain ⟨hwf, hv'⟩ := hvs v' List.mem_cons_self
    have hblank : ∀ c, (t ++ '\x7d' :: r).head? = some c → isBlank c = false := by
      rw [ht, renderAll, Text.intercalate_cons, List.append_assoc]
      exact hwf.isBlank_of_head? _
    obtain ⟨l1, h1⟩ := hv l _ hl hrest' (Text.stops_cons (by decide) _)
    obtain ⟨l2, h2, hl2⟩ := Lexer.takes_delimiter catalog h1.plain (c := ',') (by decide) (h1.rest_eq hrest')
    have hrest2 : l2.rest = _ := h2.rest_eq (h1.rest_eq hrest')
    obtain ⟨l3, h3, hsig3, hl3⟩ := Lexer.skips_blank catalog hl2 hrest2 hblank
    have hrest3 : l3.rest = t ++ '\x7d' :: r := h3.rest_eq hrest2
    rw [ht] at hrest3
    obtain ⟨l', h4⟩ := ih v' hv' (fun w hw => hvs w (List.mem_cons_of_mem _ hw)) l3 hl3 hrest3
    rw [← ht] at h4
    obtain ⟨u, hsig2, -⟩ := h2.token
    have hcomma : (l1.significant catalog).length = (l3.significant catalog).length + 1 := by
      rw [hsig2, hsig3, List.length_cons]
    have hfewer := h1.fewer
    have hfewer' := h4.fewer
    refine ⟨l', ?_, h4.plain, h1.first, by omega, fun n hn => ?_⟩
    · rw [htext]
      exact h1.trans (h2.trans (h3.trans h4.toPasses))
    obtain ⟨n, rfl⟩ : ∃ i, n = i + 1 := ⟨n - 1, by omega⟩
    rw [elementsWithin]
    refine Reads.bind h1.text_eq (h1.reads n (by omega)) fun o ho => ?_
    refine Reads.bind h2.text_eq (reads_eat h2) ?_
    rintro b rfl
    refine Reads.ite_pos rfl (Reads.bind (h3.trans h4.toPasses).text_eq
      (Reads.of_significant_eq h3.text_eq hsig3 (h4.reads n (by omega))) fun os hos => ?_)
    exact Reads.pure (allEncoded?_cons ho hos)

/-- the braces of an array around nothing, or around values -/
theorem reads_valueWithin_of_braces {l l1 l2 l' : Lexer} {n : Nat} {P : List Operand → Prop}
    (h1 : Takes catalog l .delimiter "\x7b".toList l1) (htext : l2.text = l1.text)
    (h2 : (l2 = l1 ∧ P []) ∨ (AtValue catalog l1 ∧ Reads catalog l1 l2 (elementsWithin n) P))
    (h3 : Takes catalog l2 .delimiter "\x7d".toList l') :
    Reads catalog l l' (valueWithin (n + 1)) fun o => ∃ es, o.value = .array es ∧ P es := by
  obtain ⟨t, hsig1, hkind, ht⟩ := h1.token
  have hbrace : t.isDelimiter "\x7b".toList = true := by
    rw [Token.isDelimiter, hkind, ht]
    rfl
  rw [valueWithin]
  refine Reads.get_bind fun c hc => ?_
  rw [hc.trans hsig1]
  refine Reads.ite_pos hbrace (Reads.bind h1.text_eq (reads_delimiter h1) fun opening _ => ?_)
  refine Reads.get_bind fun c hc => Reads.get_bind fun c' hc' => ?_
  rcases h2 with ⟨rfl, hP⟩ | ⟨⟨k, w, m, hm, hw, -⟩, hreads⟩
  · refine Reads.ite_pos ?_ (Reads.bind rfl (Reads.pure (P := (· = [])) rfl) fun es hes =>
      Reads.bind h3.text_eq (reads_delimiter h3) fun closing _ => Reads.pure ⟨es, rfl, hes ▸ hP⟩)
    rw [atDelimiter_of_takes h3 hc]
    rfl
  · obtain ⟨u, hsig, -⟩ := hm.token
    refine Reads.ite_neg ?_ (Reads.ite_neg ?_ (Reads.bind htext hreads fun es hes =>
      Reads.bind h3.text_eq (reads_delimiter h3) fun closing _ => Reads.pure ⟨es, rfl, hes⟩))
    · rw [atDelimiter_of_takes hm hc, beq_eq_false_iff_ne.mpr hw, Bool.and_false]
      exact Bool.false_ne_true
    · rw [hc', hsig]
      exact Bool.false_ne_true

theorem readable_array {vs : List EncodedValue} (hvs : ∀ v ∈ vs, v.WellFormed ∧ Readable catalog v) :
    Readable catalog (.array vs) := by
  intro l r hl hrest _
  obtain ⟨l1, h1, hl1⟩ := Lexer.takes_delimiter catalog hl (c := '\x7b') (by decide) hrest
  obtain ⟨t, hsig1, -⟩ := h1.token
  have hrest1 : l1.rest = ", ".toList.intercalate (renderAll vs) ++ '\x7d' :: r := by
    rw [h1.rest_eq hrest]
    exact List.append_assoc _ _ _
  have hdenotes : ∀ o : Operand, (∃ es, o.value = .array es ∧ OperandValue.allEncoded? es = some vs) →
      (EncodedValue.array vs).Denotes o := by
    rintro o ⟨es, ho, hes⟩
    rw [Denotes, ho, OperandValue.encoded?, hes]
    rfl
  -- the elements, of which there may be none, and where they end
  obtain ⟨l2, hl2, hpass, hlen, hreads⟩ : ∃ l2 : Lexer, l2.Plain ∧
      Passes catalog l1 (", ".toList.intercalate (renderAll vs)) l2 ∧
      (l2.significant catalog).length ≤ (l1.significant catalog).length ∧
      ∀ n, 2 * (l1.significant catalog).length + 1 ≤ n + 2 * (l2.significant catalog).length →
        (l2 = l1 ∧ OperandValue.allEncoded? [] = some vs) ∨ (AtValue catalog l1 ∧
          Reads catalog l1 l2 (elementsWithin n) fun os => OperandValue.allEncoded? os = some vs) := by
    cases vs with
    | nil => exact ⟨l1, hl1, .refl l1, Nat.le_refl _, fun _ _ => .inl ⟨rfl, rfl⟩⟩
    | cons v vs =>
      obtain ⟨hv, hvs⟩ := List.forall_mem_cons.mp hvs
      obtain ⟨l2, h2⟩ := exists_within_elements v vs hv.2 hvs l1 hl1 hrest1
      exact ⟨l2, h2.plain, h2.toPasses, Nat.le_of_lt h2.fewer, fun n hn => .inr ⟨h2.first, h2.reads n hn⟩⟩
  obtain ⟨l', h3, hl'⟩ := Lexer.takes_delimiter catalog hl2 (c := '\x7d') (by decide) (hpass.rest_eq hrest1)
  obtain ⟨u, hsig3, -⟩ := h3.token
  have hopen : (l.significant catalog).length = (l1.significant catalog).length + 1 := by
    rw [hsig1, List.length_cons]
  have hclose : (l2.significant catalog).length = (l'.significant catalog).length + 1 := by
    rw [hsig3, List.length_cons]
  refine ⟨l', h1.trans (hpass.trans h3.toPasses), hl', ⟨_, _, l1, h1, by decide, by decide, fun _ hnil => ?_⟩,
    by omega, fun n hn => ?_⟩
  · rw [hnil, List.length_nil] at hlen
    omega
  · obtain ⟨n, rfl⟩ : ∃ i, n = i + 1 := ⟨n - 1, by omega⟩
    exact (reads_valueWithin_of_braces h1 hpass.text_eq (hreads n (by omega)) h3).mono hdenotes

/-- **Encoded values are read back,** whatever follows them but a word. -/
theorem WellFormed.readable {v : EncodedValue} (hv : v.WellFormed) (catalog : Catalog) : Readable catalog v := by
  induction hv with
  | literal h => exact readable_literal h
  | string h => exact readable_string h
  | char h => exact readable_char h
  | null => exact readable_null
  | boolean b => exact readable_boolean b
  | type h => exact readable_type h
  | reference h => exact readable_reference h
  | enumValue h => exact readable_enumValue h
  | array h ih => exact readable_array fun v hv => ⟨h v hv, ih v hv⟩

end EncodedValue
end Smali
