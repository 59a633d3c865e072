import Smali.Line.Reader
import Smali.Proofs.Descriptor
import Smali.Proofs.Literal.Integer
import Smali.Proofs.Token.Steps

/-!
# Readers along a line

A reader works on the tokens of a line, and the lexer made them.  Both are at the same place: a reader goes
from the tokens that are left at one place of the lexer to those that are left at a later one.

* `Reader.Reads l l' f P`     between these places `f` succeeds, and what it gives has `P`;
* `Reader.Reads.bind`         one reader after another;
* `Reader.reads_delimiter`, `Reader.reads_bareRegister`, ...  the readers of one token;
* `Reader.passTo_of_steps`    the tokens before a place of the lexer are those that end before it;
* `Reader.reads_descriptor`   a reader of descriptors takes the tokens that the lexer makes of its text.
-/

namespace Smali
namespace Reader

open Lexer (Passes Takes)

variable {α β : Type} {catalog : Catalog} {l m l' : Lexer} {s : Text}

/-- Between the tokens at two places of the lexer, the reader succeeds with something that has `P`. -/
def Reads (catalog : Catalog) (l l' : Lexer) (f : Reader α) (P : α → Prop) : Prop :=
  ∀ c : Cursor, c.line = l.text → c.tokens = l.significant catalog →
    ∃ a, P a ∧ f c = .ok (a, { c with tokens := l'.significant catalog })

namespace Reads

variable {P : α → Prop} {Q : β → Prop}

theorem pure {a : α} (h : P a) : Reads catalog l l (Pure.pure a) P := by
  intro c _ htokens
  refine ⟨a, h, ?_⟩
  rw [← htokens]
  rfl

theorem bind {f : Reader α} {g : α → Reader β} (htext : m.text = l.text) (hf : Reads catalog l m f P)
    (hg : ∀ a, P a → Reads catalog m l' (g a) Q) : Reads catalog l l' (f >>= g) Q := by
  intro c hline htokens
  obtain ⟨a, ha, hfc⟩ := hf c hline htokens
  obtain ⟨b, hb, hgc⟩ := hg a ha { c with tokens := m.significant catalog } (hline.trans htext.symm) rfl
  refine ⟨b, hb, ?_⟩
  show Except.bind (f c) (fun p => g p.1 p.2) = _
  rw [hfc]
  exact hgc

theorem mono {Q : α → Prop} {f : Reader α} (hf : Reads catalog l l' f P) (h : ∀ a, P a → Q a) :
    Reads catalog l l' f Q := by
  intro c hline htokens
  obtain ⟨a, ha, hfc⟩ := hf c hline htokens
  exact ⟨a, h a ha, hfc⟩

/-- a reader may look at the tokens before it reads them -/
theorem get_bind {g : Cursor → Reader β}
    (hg : ∀ c : Cursor, c.tokens = l.significant catalog → Reads catalog l l' (g c) Q) :
    Reads catalog l l' (MonadState.get >>= g) Q := by
  intro c hline htokens
  exact hg c htokens c hline htokens

theorem ite_pos {p : Prop} [Decidable p] {f g : Reader α} (hp : p) (hf : Reads catalog l l' f P) :
    Reads catalog l l' (if p then f else g) P := by
  rw [if_pos hp]
  exact hf

theorem ite_neg {p : Prop} [Decidable p] {f g : Reader α} (hp : ¬p) (hg : Reads catalog l l' g P) :
    Reads catalog l l' (if p then f else g) P := by
  rw [if_neg hp]
  exact hg

theorem of_significant_eq {f : Reader α} (htext : m.text = l.text)
    (hsig : l.significant catalog = m.significant catalog) (hf : Reads catalog m l' f P) :
    Reads catalog l l' f P := by
  intro c hline htokens
  exact hf c (hline.trans htext.symm) (htokens.trans hsig)

theorem to_significant_eq {f : Reader α} (hf : Reads catalog l m f P)
    (hsig : m.significant catalog = l'.significant catalog) : Reads catalog l l' f P := by
  intro c hline htokens
  rw [← hsig]
  exact hf c hline htokens

end Reads

/-! ## one token -/

theorem atDelimiter_of_takes {k : TokenKind} (h : Takes catalog l k s l') {c : Cursor}
    (hc : c.tokens = l.significant catalog) (text : Text) :
    c.atDelimiter text = (k == .delimiter && s == text) := by
  obtain ⟨t, hsig, hkind, htext⟩ := h.token
  rw [Cursor.atDelimiter, hc, hsig, ← hkind, ← htext]
  rfl

theorem reads_advance {k : TokenKind} (h : Takes catalog l k s l') :
    Reads catalog l l' advance fun _ => True := by
  intro c _ htokens
  obtain ⟨t, hsig, -, -⟩ := h.token
  refine ⟨(), trivial, ?_⟩
  show Except.ok ((), { c with tokens := c.tokens.tail }) = _
  rw [htokens, hsig]
  rfl

theorem reads_delimiter (h : Takes catalog l .delimiter s l') :
    Reads catalog l l' (delimiter s) fun _ => True := by
  obtain ⟨t, hsig, hkind, htext⟩ := h.token
  have hdelimiter : t.isDelimiter s = true := by
    rw [Token.isDelimiter, hkind, htext, beq_self_eq_true s]
    rfl
  refine Reads.get_bind fun c hc => ?_
  rw [hc.trans hsig]
  exact Reads.ite_pos hdelimiter (Reads.bind h.text_eq (reads_advance h) fun _ _ => Reads.pure trivial)

theorem reads_eat (h : Takes catalog l .delimiter s l') : Reads catalog l l' (eat s) (· = true) := by
  refine Reads.get_bind fun c hc => Reads.ite_pos ?_ ?_
  · rw [atDelimiter_of_takes h hc, beq_self_eq_true s]
    rfl
  · exact Reads.bind h.text_eq (reads_advance h) fun _ _ => Reads.pure rfl

theorem reads_eat_of_ne {k : TokenKind} {text : Text} (h : Takes catalog l k s l') (hs : s ≠ text) :
    Reads catalog l l (eat text) (· = false) := by
  refine Reads.get_bind fun c hc => Reads.ite_neg ?_ (Reads.pure rfl)
  rw [atDelimiter_of_takes h hc, beq_eq_false_iff_ne.mpr hs, Bool.and_false]
  exact Bool.false_ne_true

theorem reads_eat_of_nil {text : Text} (h : l.significant catalog = []) :
    Reads catalog l l (eat text) (· = false) := by
  refine Reads.get_bind fun c hc => Reads.ite_neg ?_ (Reads.pure rfl)
  rw [Cursor.atDelimiter, hc, h]
  exact Bool.false_ne_true

theorem reads_bareRegister {r : Register} (h : Takes catalog l .register r.render l') :
    Reads catalog l l' bareRegister fun p => p.1 = r := by
  obtain ⟨t, hsig, hkind, htext⟩ := h.token
  refine Reads.get_bind fun c hc => ?_
  rw [hc.trans hsig]
  refine Reads.ite_pos (beq_iff_eq.mpr hkind) ?_
  rw [htext, Register.parse_render]
  exact Reads.bind h.text_eq (reads_advance h) fun _ _ => Reads.pure rfl

theorem reads_bareLiteral {k : TokenKind} {x : Literal} (hx : x.IsInteger) (hk : k = .number ∨ k = .hexNumber)
    (h : Takes catalog l k x.render l') : Reads catalog l l' bareLiteral fun p => p.1 = x := by
  obtain ⟨t, hsig, hkind, htext⟩ := h.token
  have hnumber : (t.kind == .number || t.kind == .hexNumber) = true := by
    rw [hkind]
    rcases hk with rfl | rfl <;> rfl
  refine Reads.get_bind fun c hc => ?_
  rw [hc.trans hsig]
  refine Reads.ite_pos hnumber ?_
  rw [htext, Literal.parse_render hx]
  exact Reads.bind h.text_eq (reads_advance h) fun _ _ => Reads.pure rfl

theorem reads_string (h : Takes catalog l .string ('"' :: (s ++ ['"'])) l') :
    Reads catalog l l' string fun o => o.value = .string s := by
  obtain ⟨t, hsig, hkind, htext⟩ := h.token
  have hinner : Text.inner t.text = s := by
    rw [htext]
    exact List.dropLast_concat
  have hcond : (t.kind == .string && t.text.head? == some '"') = true := by
    rw [hkind, htext]
    rfl
  refine Reads.get_bind fun c hc => ?_
  rw [hc.trans hsig]
  exact Reads.ite_pos hcond (Reads.bind h.text_eq (reads_advance h) fun _ _ => Reads.pure (hinner ▸ rfl))

theorem reads_bareLabel (hcolon : Takes catalog l .delimiter [':'] m) (hname : Takes catalog m .label s l') :
    Reads catalog l l' bareLabel fun p => p.1 = s := by
  obtain ⟨colon, hsig, hkind, htext⟩ := hcolon.token
  obtain ⟨name, hsig', hlabel, htext'⟩ := hname.token
  have hcond : (colon.isDelimiter ":".toList && name.kind == .label) = true := by
    rw [Token.isDelimiter, hkind, htext, hlabel]
    rfl
  refine Reads.get_bind fun c hc => ?_
  rw [hc.trans hsig, hsig']
  exact Reads.ite_pos hcond (Reads.bind hcolon.text_eq (reads_advance hcolon) fun _ _ =>
    Reads.bind hname.text_eq (reads_advance hname) fun _ _ => Reads.pure htext')

/-! ## descriptors -/

/-- The tokens up to a later place of the lexer end before it, and those after it start there or later. -/
theorem passTo_of_steps (h : Relation.ReflTransGen (Lexer.Step catalog) l l') :
    passTo l'.offset (l.significant catalog) = .ok (l'.significant catalog) := by
  induction h using Relation.ReflTransGen.head_induction_on with
  | refl =>
    cases hsig : l'.significant catalog with
    | nil => rfl
    | cons t ts =>
      have hmem : t ∈ l'.tokens catalog := by
        have h : t ∈ l'.significant catalog := by
          rw [hsig]
          exact List.mem_cons_self
        exact (List.mem_filter.mp h).1
      rw [passTo, if_pos (Lexer.offset_le_start l' t hmem)]
  | @head l m hstep hsteps ih =>
    obtain ⟨t, hlex, -⟩ := hstep
    obtain ⟨hstart, hstop, hlt, -⟩ := Lexer.offset_of_lex hlex
    have hle := Lexer.offset_le_of_steps hsteps
    rw [Lexer.significant_of_lex hlex]
    split
    · rw [passTo, if_neg (by omega), if_neg (by omega), ih]
    · exact ih

/-- the text from the next token on is what the lexer has before it -/
theorem dropBytes_offset (l : Lexer) : Text.dropBytes l.offset l.text = l.rest := by
  have h := Text.dropBytes_append l.behind.reverse l.rest 0
  rw [Nat.zero_add, Text.size_reverse, Text.dropBytes] at h
  exact h

/-- a reader of descriptors takes what it reads from the text at this place -/
theorem reads_descriptor_of_read {read? : Text → Option (α × Text)} (what : Text) {v : α}
    (h : Passes catalog l s l') (hread : read? l.rest = some (v, l'.rest))
    (hfirst : ∃ t ts, l.significant catalog = t :: ts ∧ t.start = l.offset) :
    Reads catalog l l' (descriptor what read?) fun p => p.1 = v := by
  intro c hline htokens
  obtain ⟨t, ts, hsig, hstart⟩ := hfirst
  have htext : read? (Text.dropBytes t.start c.line) = some (v, l'.rest) := by
    rw [hstart, hline, dropBytes_offset, hread]
  have hstop : Text.size c.line - Text.size l'.rest = l'.offset := by
    rw [hline, ← h.text_eq, Lexer.text, Text.size_append, Text.size_reverse, Nat.add_sub_cancel]
    rfl
  have hpass := passTo_of_steps h.steps
  refine ⟨(v, Span.onLine c.number t.start l'.offset), rfl, ?_⟩
  obtain ⟨line, number, tokens, stop⟩ := c
  obtain rfl : tokens = t :: ts := htokens.trans hsig
  rw [hsig] at hpass
  simp only [descriptor, htext, hstop, hpass]

theorem reads_descriptor {read? : Text → Option (α × Text)} {render : α → Text} {W : α → Prop}
    (hread : Exact read? render W) (what : Text) {v : α} (hv : W v) (h : Passes catalog l (render v) l')
    (hfirst : ∃ t ts, l.significant catalog = t :: ts ∧ t.start = l.offset) :
    Reads catalog l l' (descriptor what read?) fun p => p.1 = v := by
  have htext : read? l.rest = some (v, l'.rest) := by
    rw [h.rest]
    exact hread.complete hv _
  exact reads_descriptor_of_read what h htext hfirst

end Reader
end Smali
