import Smali.Proofs.Token.Steps
import Smali.Query

/-!
# The tokens of a line cover it

A lexer goes over a line in steps that each take some characters, and leaves none out.

* `Piece.Cut`          what the next piece of a text can be;
* `Tiles`              tokens that follow each other without gaps up to the end of a text;
* `Token.CutFrom`      a token is the slice of its line at its place;
* `tokenizeWith_tiles` with whitespace, the tokens of a line are such tokens; blanks are whitespace and
                       nothing else is, and an error or a comment is the last token.  Without
                       whitespace, they are the other ones of the same tokens.
-/

namespace Smali

namespace Lexeme

theorem exists_of_scan {t rest : Text} {k : Lexeme} (h : scan t = some (k, rest)) :
    ∃ f, (k, f) ∈ scans ∧ f t = some rest := by
  obtain ⟨⟨k', f⟩, hf, h⟩ := List.exists_of_findSome?_eq_some h
  simp only [Option.map_eq_some_iff, Prod.mk.injEq] at h
  obtain ⟨r, hr, rfl, rfl⟩ := h
  exact ⟨f, hf, hr⟩

/-- all blanks together are one lexeme -/
theorem scan_of_isBlank {c : Char} (hc : isBlank c = true) (r : Text) :
    scan (c :: r) = some (.whitespace, r.dropWhile isBlank) := by
  simp only [scan, scans, List.findSome?_cons, Scan.many1, hc, if_true, Option.map_some]

/-- whitespace starts with a blank -/
theorem exists_of_scan_whitespace {t rest : Text} (h : scan t = some (.whitespace, rest)) :
    ∃ c r, t = c :: r ∧ isBlank c = true := by
  obtain ⟨f, hf, h⟩ := exists_of_scan h
  simp only [scans, List.mem_cons, Prod.mk.injEq, reduceCtorEq, false_and, or_false, true_and,
    List.not_mem_nil] at hf
  subst hf
  cases t with
  | nil => cases h
  | cons c r =>
    rw [Scan.many1, Option.ite_none_right_eq_some] at h
    exact ⟨c, r, rfl, h.1⟩

/-- a comment leaves nothing -/
theorem eq_nil_of_scan_comment {t rest : Text} (h : scan t = some (.comment, rest)) : rest = [] := by
  obtain ⟨f, hf, h⟩ := exists_of_scan h
  simp only [scans, List.mem_cons, Prod.mk.injEq, reduceCtorEq, false_and, false_or, or_false, true_and,
    List.not_mem_nil] at hf
  subst hf
  unfold Scan.comment at h
  split at h
  · exact (Option.some.inj h).symm
  · cases h

end Lexeme

/-! ## what comes next -/

namespace Piece

section
variable {catalog : Catalog} {ctx : LexContext} {behind t : Text}

/-- What the piece at the start of `t` can be. -/
inductive Cut (catalog : Catalog) (ctx : LexContext) (behind t : Text) : Piece → Prop
  /-- the name of a label -/
  | label (rest : Text) (hnext : ctx.labelNext = true) (hword : Scan.word t = some rest) :
      Cut catalog ctx behind t ⟨.label, none, false, false, rest⟩
  /-- the colon of a label -/
  | colon (hlabel : atLabel behind t = true) :
      Cut catalog ctx behind t ⟨.delimiter, none, true, true, t.tail⟩
  | lexeme (k : Lexeme) (rest : Text) (hlabel : atLabel behind t = false)
      (hscan : (memberName behind t).or (Lexeme.scan t) = some (k, rest)) :
      Cut catalog ctx behind t (ofLexeme catalog ctx k (taken t rest) rest)
  /-- all that is left is no lexeme -/
  | error (hlabel : atLabel behind t = false) : Cut catalog ctx behind t ⟨.error, none, false, false, []⟩

theorem cut_cut (catalog : Catalog) (ctx : LexContext) (behind t : Text) :
    Cut catalog ctx behind t (cut catalog ctx behind t) := by
  unfold cut
  split
  · rename_i rest h
    rw [Option.ite_none_right_eq_some] at h
    exact .label rest h.1 h.2
  · split
    · rename_i h
      exact .colon h
    · rename_i h
      split
      · rename_i k rest hscan
        exact .lexeme k rest (eq_false_of_ne_true h) hscan
      · exact .error (eq_false_of_ne_true h)

/-- a lexeme that is no word is not the name of a member -/
theorem scan_of_ne_word {k : Lexeme} {rest : Text} (hk : k ≠ .word)
    (h : (memberName behind t).or (Lexeme.scan t) = some (k, rest)) : Lexeme.scan t = some (k, rest) := by
  rcases Option.or_eq_some_iff.mp h with h | ⟨-, h⟩
  · rw [memberName, Option.ite_none_right_eq_some, Option.map_eq_some_iff] at h
    obtain ⟨-, _, -, he⟩ := h
    exact absurd (Prod.mk.inj he).1.symm hk
  · exact h

theorem ofLexeme_kind_eq_whitespace {k : Lexeme} {s r : Text}
    (h : (ofLexeme catalog ctx k s r).kind = .whitespace) : k = .whitespace := by
  obtain ⟨-, htrivia, -⟩ := ofLexeme_kind catalog ctx k s r
  rcases htrivia.mp (by rw [h]; rfl) with rfl | rfl
  · rfl
  · cases h

theorem ofLexeme_kind_eq_comment {k : Lexeme} {s r : Text}
    (h : (ofLexeme catalog ctx k s r).kind = .comment) : k = .comment := by
  obtain ⟨-, htrivia, -⟩ := ofLexeme_kind catalog ctx k s r
  rcases htrivia.mp (by rw [h]; rfl) with rfl | rfl
  · cases h
  · rfl

theorem ofLexeme_kind_ne_label (catalog : Catalog) (ctx : LexContext) (k : Lexeme) (s r : Text) :
    (ofLexeme catalog ctx k s r).kind ≠ .label := by
  cases k with
  | word =>
    show ctx.wordKind catalog s ≠ .label
    cases hs : LexContext.isRegister s with
    | true =>
      rw [LexContext.wordKind_of_isRegister catalog ctx hs]
      decide
    | false =>
      rcases LexContext.wordKind_of_not_isRegister catalog ctx hs with h | h <;> rw [h] <;> decide
  | directive =>
    simp only [ofLexeme]
    split <;> decide
  | _ =>
    intro h
    cases h

theorem cut_of_blank {c : Char} (hc : isBlank c = true) (r : Text) :
    cut catalog ctx behind (c :: r) = ⟨.whitespace, none, false, false, r.dropWhile isBlank⟩ := by
  have hword : Scan.word (c :: r) = none := by
    have hchar : isWordChar c = false := by
      rw [isWordChar, hc]
      rfl
    rw [Scan.word, Scan.atWord, hchar]
    rfl
  have hmember : memberName behind (c :: r) = none := by
    rw [memberName, hword, Option.map_none, ite_self]
  have hcolon : c ≠ ':' := by
    rintro rfl
    exact absurd hc (by decide)
  unfold cut
  rw [hword, ite_self, atLabel_of_ne hcolon]
  simp only [Bool.false_eq_true, if_false, hmember, Option.none_or, Lexeme.scan_of_isBlank hc]
  rfl

theorem exists_of_whitespace (h : (cut catalog ctx behind t).kind = .whitespace) :
    ∃ c r, t = c :: r ∧ isBlank c = true := by
  have hcut := cut_cut catalog ctx behind t
  generalize cut catalog ctx behind t = p at h hcut
  cases hcut with
  | label | colon | error => cases h
  | lexeme k rest hlabel hscan =>
    obtain rfl := ofLexeme_kind_eq_whitespace h
    exact Lexeme.exists_of_scan_whitespace (scan_of_ne_word (by decide) hscan)

/-- nothing follows an error or a comment -/
theorem rest_eq_nil (h : (cut catalog ctx behind t).kind = .error ∨ (cut catalog ctx behind t).kind = .comment) :
    (cut catalog ctx behind t).rest = [] := by
  have hcut := cut_cut catalog ctx behind t
  generalize cut catalog ctx behind t = p at h hcut
  cases hcut with
  | label | colon => rcases h with h | h <;> cases h
  | error => rfl
  | lexeme k rest hlabel hscan =>
    rw [rest_ofLexeme]
    rcases h with h | h
    · exact absurd h (ofLexeme_kind _ _ _ _ _).1
    · obtain rfl := ofLexeme_kind_eq_comment h
      exact Lexeme.eq_nil_of_scan_comment (scan_of_ne_word (by decide) hscan)

end
end Piece

/-! ## the run of a lexer -/

namespace Lexer

section
variable {catalog : Catalog} {l m : Lexer} {t : Token}

/-- a token is what the lexer goes over -/
theorem rest_of_lex (h : l.lex catalog = some (t, m)) :
    l.rest = t.text ++ m.rest ∧ m.behind = t.text.reverse ++ l.behind ∧ t.text ≠ [] := by
  obtain ⟨p, hp, hne, rfl, rfl⟩ := lex_eq_some h
  obtain ⟨⟨s, hs⟩, hlt⟩ := Piece.advances_cut catalog l.context l.behind l.rest hne
  rw [← hp] at hs hlt
  have htext : (l.token p).text = s := by
    show taken l.rest p.rest = s
    rw [← hs, taken_append]
  refine ⟨?_, rfl, ?_⟩
  · rw [htext]
    exact hs.symm
  · rw [htext]
    rintro rfl
    rw [← hs] at hlt
    exact absurd hlt (Nat.lt_irrefl _)

theorem line_of_lex (h : l.lex catalog = some (t, m)) : t.line = l.line ∧ m.line = l.line := by
  obtain ⟨p, -, -, rfl, rfl⟩ := lex_eq_some h
  exact ⟨rfl, rfl⟩

end
end Lexer

/-! ## tiles -/

/-- The tokens cover a text of `size` bytes from byte `start` on: none is empty, each starts where the one
before it stops, and the last one stops where the text does. -/
def Tiles (size : Nat) : Nat → List Token → Prop
  | start, [] => start = size
  | start, t :: ts => t.start = start ∧ 0 < t.size ∧ Tiles size t.stop ts

/-- the token is the slice of the line at its place, and no character is cut there -/
structure Token.CutFrom (line : Text) (t : Token) : Prop where
  start : Text.isBoundary t.start line = true
  stop : Text.isBoundary t.stop line = true
  slice : Text.slice t.start t.stop line = t.text

namespace Lexer

section
variable {catalog : Catalog} {l m : Lexer} {t : Token}

theorem size_text (l : Lexer) : Text.size l.text = l.offset + Text.size l.rest := by
  rw [text, Text.size_append, Text.size_reverse]
  rfl

theorem cutFrom_of_lex (h : l.lex catalog = some (t, m)) : t.CutFrom l.text := by
  obtain ⟨hrest, -, -⟩ := rest_of_lex h
  obtain ⟨hstart, -, -, -⟩ := offset_of_lex h
  have hline : l.text = l.behind.reverse ++ (t.text ++ m.rest) := by
    rw [text, hrest]
  have hsize : t.start = Text.size l.behind.reverse := by
    rw [hstart, Text.size_reverse]
    rfl
  have hstop : t.stop = Text.size (l.behind.reverse ++ t.text) := by
    rw [Token.stop, hsize, Text.size_append]
    rfl
  refine ⟨?_, ?_, ?_⟩
  · rw [hline, hsize]
    exact Text.isBoundary_size _ _
  · rw [hline, hstop, ← List.append_assoc]
    exact Text.isBoundary_size _ _
  · rw [hline, hstop, hsize, Text.size_append]
    exact Text.slice_append _ _ _

/-- a token of blanks is whitespace, and only such a token starts with a blank -/
theorem isBlank_of_lex (h : l.lex catalog = some (t, m)) :
    (t.kind = .whitespace → ∀ c ∈ t.text, isBlank c = true) ∧
      (t.kind ≠ .whitespace → ∀ c, t.text.head? = some c → isBlank c = false) := by
  obtain ⟨hrest, -, -⟩ := rest_of_lex h
  obtain ⟨p, hp, -, rfl, rfl⟩ := lex_eq_some h
  constructor
  · intro hk
    have hk' : (Piece.cut catalog l.context l.behind l.rest).kind = .whitespace := by
      rw [← hp]
      exact hk
    obtain ⟨c, r, hcr, hc⟩ := Piece.exists_of_whitespace hk'
    rw [hcr, Piece.cut_of_blank hc] at hp
    have hsplit : (l.token p).text ++ p.rest = (c :: r).takeWhile isBlank ++ p.rest := by
      rw [show (l.token p).text ++ p.rest = l.rest from hrest.symm, hcr, hp,
        List.takeWhile_cons_of_pos hc, List.cons_append, List.takeWhile_append_dropWhile]
    rw [List.append_cancel_right hsplit]
    intro d hd
    exact List.mem_takeWhile_imp hd
  · intro hk c hc
    by_contra hblank
    obtain ⟨r, hr⟩ := List.head?_eq_some_iff.mp hc
    rw [hr, List.cons_append] at hrest
    rw [hrest, Piece.cut_of_blank (eq_true_of_ne_false hblank)] at hp
    apply hk
    show p.kind = .whitespace
    rw [hp]

theorem rest_of_last (h : l.lex catalog = some (t, m)) (hk : t.kind = .error ∨ t.kind = .comment) :
    m.rest = [] := by
  obtain ⟨p, rfl, -, rfl, rfl⟩ := lex_eq_some h
  exact Piece.rest_eq_nil hk

/-! ## along the line -/

theorem tiles_tokens (l : Lexer) : Tiles (Text.size l.text) l.offset (l.tokens catalog) := by
  induction l using run_induct catalog with
  | done l h =>
    rw [tokens_of_lex_eq_none h]
    show l.offset = Text.size l.text
    rw [size_text, rest_eq_nil_of_lex h]
    rfl
  | step l t m h ih =>
    obtain ⟨hstart, hstop, hlt, htext⟩ := offset_of_lex h
    rw [tokens_of_lex h]
    refine ⟨hstart, Text.size_pos (rest_of_lex h).2.2, ?_⟩
    rw [hstop, ← htext]
    exact ih

theorem forall_mem_tokens (catalog : Catalog) {P : Text → Nat → Token → Prop}
    (hP : ∀ l t m, Lexer.lex catalog l = some (t, m) → P l.text l.line t) (l : Lexer) :
    ∀ t ∈ l.tokens catalog, P l.text l.line t := by
  induction l using run_induct catalog with
  | done l h =>
    rw [tokens_of_lex_eq_none h]
    exact List.forall_mem_nil _
  | step l t m h ih =>
    rw [(line_of_lex h).2, (offset_of_lex h).2.2.2] at ih
    rw [tokens_of_lex h]
    exact List.forall_mem_cons.mpr ⟨hP l t m h, ih⟩

theorem forall_mem_dropLast_tokens (catalog : Catalog) (l : Lexer) :
    ∀ t ∈ (l.tokens catalog).dropLast, t.kind ≠ .error ∧ t.kind ≠ .comment := by
  induction l using run_induct catalog with
  | done l h =>
    rw [tokens_of_lex_eq_none h]
    exact List.forall_mem_nil _
  | step l t m h ih =>
    rw [tokens_of_lex h]
    cases hts : m.tokens catalog with
    | nil => exact List.forall_mem_nil _
    | cons u us =>
      rw [hts] at ih
      rw [List.dropLast_cons_cons]
      refine List.forall_mem_cons.mpr ⟨?_, ih⟩
      -- an error or a comment would leave no text for the next token
      have hlast : ¬(t.kind = .error ∨ t.kind = .comment) := by
        intro hk
        rw [tokens_of_lex_eq_none (lex_of_rest_eq_nil catalog (rest_of_last h hk))] at hts
        cases hts
      exact not_or.mp hlast

end
end Lexer

/-- **The tokens of a line cover it.**  With whitespace, they follow each other without gaps from the first byte
to the last, each is the slice of the line at its place, whitespace is blanks and no other token starts with
one, and nothing follows an error or a comment.  Without whitespace, whether all of them are taken or the first
`n` one by one, they are the same tokens without the ones that are whitespace. -/
theorem tokenizeWith_tiles (catalog : Catalog) (line : Text) (number : Nat) :
    Tiles (Text.size line) 0 (tokenizeWith catalog true line number) ∧
    (∀ t ∈ tokenizeWith catalog true line number, t.CutFrom line ∧ t.line = number ∧
      (t.kind = .whitespace → ∀ c ∈ t.text, isBlank c = true) ∧
      (t.kind ≠ .whitespace → ∀ c, t.text.head? = some c → isBlank c = false)) ∧
    (∀ t ∈ (tokenizeWith catalog true line number).dropLast, t.kind ≠ .error ∧ t.kind ≠ .comment) ∧
    tokenizeWith catalog false line number =
      (tokenizeWith catalog true line number).filter (fun t => t.kind != .whitespace) ∧
    ∀ keepBlanks n, ((Lexer.start line number).take catalog keepBlanks n).1 =
      (tokenizeWith catalog keepBlanks line number).take n := by
  have hall : tokenizeWith catalog true line number = (Lexer.start line number).tokens catalog := by
    rw [tokenizeWith_eq, Lexer.wanted_true]
  rw [hall]
  refine ⟨Lexer.tiles_tokens (Lexer.start line number), ?_,
    Lexer.forall_mem_dropLast_tokens catalog _, tokenizeWith_eq, ?_⟩
  · refine Lexer.forall_mem_tokens catalog (P := fun line number t => t.CutFrom line ∧ t.line = number ∧
      (t.kind = .whitespace → ∀ c ∈ t.text, isBlank c = true) ∧
      (t.kind ≠ .whitespace → ∀ c, t.text.head? = some c → isBlank c = false)) ?_ (Lexer.start line number)
    intro l t m h
    exact ⟨Lexer.cutFrom_of_lex h, (Lexer.line_of_lex h).1, Lexer.isBlank_of_lex h⟩
  · intro keepBlanks n
    rw [tokenizeWith_eq]
    exact (Lexer.take_eq catalog keepBlanks n _).1

end Smali
