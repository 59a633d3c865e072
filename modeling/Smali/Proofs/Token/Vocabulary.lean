import Smali.Proofs.Token.Tiling

/-!
# What the catalog has a say in

A catalog tells the lexer which words are mnemonics.  A line is cut in the same way for all catalogs, and only the kind
of its first word depends on them.

* `LexContext.wordKind_cases_of_catalogs`  the kind of a word for two catalogs;
* `Piece.cut_eq_or_word`   the next piece is the same for all catalogs, but for the kind of a word;
* `Lexer.lex_eq_or_word`   so is the next token, and the lexer after it does not depend on that kind;
* `Lexer.tokens_eq_of_significant`  after the first token of the statement, catalogs have no say at all;
* `Recast`                 a word that is a mnemonic for one catalog and not for the other;
* `tokenizeWith_catalogs`  the tokens of a line for two catalogs.
-/

namespace Smali

/-! ## the kind of a word -/

namespace LexContext

variable {c c' : Catalog} {ctx : LexContext} {w : Text}

theorem wordKind_of_significant (h : ctx.significant ≠ 0) : ctx.wordKind c w = ctx.wordKind c' w := by
  have hfirst : (ctx.significant == 0) = false := beq_eq_false_iff_ne.mpr h
  rw [wordKind, wordKind, hfirst, Bool.false_and, Bool.false_and]

theorem wordKind_congr (h : (c.instruction? w).isSome = (c'.instruction? w).isSome) :
    ctx.wordKind c w = ctx.wordKind c' w := by
  rw [wordKind, wordKind, h]

/-- a word that is an instruction for one of two catalogs is a keyword for that one, and a plain word for the other
unless something else makes it a keyword or a register for both -/
theorem wordKind_of_instruction (ctx : LexContext) (h : (c.instruction? w).isSome = true)
    (h' : (c'.instruction? w).isSome = false) :
    ctx.wordKind c w = ctx.wordKind c' w ∨ ctx.wordKind c w = .keyword ∧ ctx.wordKind c' w = .identifier := by
  unfold wordKind
  rw [h, h', Bool.and_true, Bool.and_false]
  split
  · exact .inl rfl
  · split
    · exact .inl rfl
    · rw [if_neg Bool.false_ne_true]
      split
      · split
        · exact .inl rfl
        · exact .inr ⟨rfl, rfl⟩
      · exact .inl rfl

variable (c c' ctx w) in
theorem wordKind_cases_of_catalogs : ctx.wordKind c w = ctx.wordKind c' w ∨
    (ctx.wordKind c w = .keyword ∧ ctx.wordKind c' w = .identifier ∧
      (c.instruction? w).isSome = true ∧ (c'.instruction? w).isSome = false) ∨
    (ctx.wordKind c' w = .keyword ∧ ctx.wordKind c w = .identifier ∧
      (c'.instruction? w).isSome = true ∧ (c.instruction? w).isSome = false) := by
  cases h : (c.instruction? w).isSome with
  | true =>
    cases h' : (c'.instruction? w).isSome with
    | true => exact .inl (wordKind_congr (h.trans h'.symm))
    | false =>
      rcases wordKind_of_instruction ctx h h' with heq | ⟨hk, hk'⟩
      · exact .inl heq
      · exact .inr (.inl ⟨hk, hk', rfl, rfl⟩)
  | false =>
    cases h' : (c'.instruction? w).isSome with
    | true =>
      rcases wordKind_of_instruction ctx h' h with heq | ⟨hk', hk⟩
      · exact .inl heq.symm
      · exact .inr (.inr ⟨hk', hk, rfl, rfl⟩)
    | false => exact .inl (wordKind_congr (h.trans h'.symm))

theorem significant_record (ctx : LexContext) (t : Token) (labelNext : Bool) :
    (ctx.record t labelNext).significant = if t.isSignificant then ctx.significant + 1 else ctx.significant := by
  unfold record Token.isSignificant
  cases t.kind.isTrivia <;> rfl

/-- the context after a word does not depend on its kind, as only words with a dot are directives -/
theorem record_word {t : Token} (hdot : t.isDotted = false) (c : Catalog) (labelNext : Bool) :
    ctx.record { t with kind := ctx.wordKind c w } labelNext =
      ⟨ctx.significant + 1, ctx.directive, false, labelNext⟩ := by
  have htrivia : (ctx.wordKind c w).isTrivia = false := by
    rcases wordKind_cases c ctx w with h | h | h <;> rw [h] <;> rfl
  have hdirective : ({ t with kind := ctx.wordKind c w } : Token).isDirective = false := by
    show (_ && t.isDotted) = false
    rw [hdot, Bool.and_false]
  have hend : (t.text == ".end".toList || t.text == ".restart".toList) = false := by
    rw [Bool.or_eq_false_iff, beq_eq_false_iff_ne, beq_eq_false_iff_ne]
    constructor
    · intro h
      rw [Token.isDotted, h] at hdot
      cases hdot
    · intro h
      rw [Token.isDotted, h] at hdot
      cases hdot
  rw [record, htrivia, if_neg Bool.false_ne_true, hdirective, Bool.and_false, if_neg Bool.false_ne_true, hend,
    Bool.and_false]

end LexContext

/-! ## one step -/

theorem Lexeme.head?_of_word {t rest : Text} (h : scan t = some (.word, rest)) : t.head? ≠ some '.' := by
  intro hdot
  obtain ⟨r, rfl⟩ := List.head?_eq_some_iff.mp hdot
  obtain ⟨f, hf, h⟩ := exists_of_scan h
  simp only [scans, List.mem_cons, Prod.mk.injEq, reduceCtorEq, false_and, false_or, or_false, true_and,
    List.not_mem_nil] at hf
  rcases hf with rfl | rfl <;> cases h

namespace Piece

/-- **The next piece** is the same for all catalogs, or a word, and then only its kind may differ. -/
theorem cut_eq_or_word (ctx : LexContext) (behind t : Text) :
    (∃ p, ∀ c, cut c ctx behind t = p) ∨ t.head? ≠ some '.' ∧ ∃ rest, ∀ c,
      cut c ctx behind t = ⟨ctx.wordKind c (taken t rest), none, false, false, rest⟩ := by
  unfold cut
  split
  · exact .inl ⟨_, fun _ => rfl⟩
  · split
    · exact .inl ⟨_, fun _ => rfl⟩
    · cases hscan : (memberName behind t).or (Lexeme.scan t) with
      | none => exact .inl ⟨_, fun _ => rfl⟩
      | some q =>
        obtain ⟨k, rest⟩ := q
        cases k with
        | word =>
          refine .inr ⟨?_, rest, fun _ => rfl⟩
          rcases Option.or_eq_some_iff.mp hscan with h | ⟨-, h⟩
          · rw [memberName, Option.ite_none_right_eq_some, Option.map_eq_some_iff] at h
            obtain ⟨-, r, hr, -⟩ := h
            intro hdot
            obtain ⟨s, rfl⟩ := List.head?_eq_some_iff.mp hdot
            cases hr
          · exact Lexeme.head?_of_word h
        | _ => exact .inl ⟨_, fun _ => rfl⟩

end Piece

namespace Lexer

/-- **The next token** is the same for all catalogs, or a word, and then only its kind may differ.  The lexer after it
is the same in any case. -/
theorem lex_eq_or_word (l : Lexer) : (∃ r, ∀ c, l.lex c = r) ∨ ∃ (t : Token) (m : Lexer),
    t.isDotted = false ∧ m.context.significant = l.context.significant + 1 ∧
    ∀ c, l.lex c = some ({ t with kind := l.context.wordKind c t.text }, m) := by
  by_cases hne : l.rest = []
  · exact .inl ⟨none, fun c => lex_of_rest_eq_nil c hne⟩
  rcases Piece.cut_eq_or_word l.context l.behind l.rest with ⟨p, hp⟩ | ⟨hdot, rest, hcut⟩
  · exact .inl ⟨some (l.token p, l.after p), fun c => lex_of_cut hne (hp c)⟩
  · let t : Token := ⟨.identifier, taken l.rest rest, l.offset, l.line, none, false⟩
    have hdotted : t.isDotted = false := by
      rw [Token.isDotted, beq_eq_false_iff_ne]
      show (l.rest.take _).head? ≠ some '.'
      rw [List.head?_take]
      split
      · exact (Option.some_ne_none '.').symm
      · exact hdot
    refine .inr ⟨t, ⟨t.text.reverse ++ l.behind, rest, l.line,
      ⟨l.context.significant + 1, l.context.directive, false, false⟩⟩, hdotted, rfl, fun c => ?_⟩
    rw [lex_of_cut hne (hcut c), after, ← LexContext.record_word (w := t.text) hdotted c false]
    rfl

theorem significant_of_lex_step {c : Catalog} {l m : Lexer} {t : Token} (h : l.lex c = some (t, m)) :
    m.context.significant = if t.isSignificant then l.context.significant + 1 else l.context.significant := by
  obtain ⟨p, -, -, rfl, rfl⟩ := lex_eq_some h
  exact LexContext.significant_record _ _ _

/-! ## along the line -/

variable (c c' : Catalog)

/-- after the first token of the statement, catalogs have no say -/
theorem tokens_eq_of_significant (l : Lexer) (hl : l.context.significant ≠ 0) : l.tokens c = l.tokens c' := by
  have hlex : ∀ l : Lexer, l.context.significant ≠ 0 → l.lex c = l.lex c' := by
    intro l hl
    rcases l.lex_eq_or_word with ⟨r, hr⟩ | ⟨t, m, -, -, ht⟩
    · rw [hr, hr]
    · rw [ht, ht, LexContext.wordKind_of_significant hl]
  induction l using run_induct c with
  | done l h => rw [tokens_of_lex_eq_none h, tokens_of_lex_eq_none ((hlex l hl).symm.trans h)]
  | step l t m h ih =>
    have hm : m.context.significant ≠ 0 := by
      rw [significant_of_lex_step h]
      split
      · exact Nat.succ_ne_zero _
      · exact hl
    rw [tokens_of_lex h, tokens_of_lex ((hlex l hl).symm.trans h), ih hm]

end Lexer

/-- `t` and `t'` are the same word, which is an instruction for `c` and not for `c'`: a keyword and a plain word -/
structure Recast (c c' : Catalog) (t t' : Token) : Prop where
  isWord : t.isWord = true
  keyword : t.kind = .keyword
  same : t' = { t with kind := .identifier }
  instruction : (c.instruction? t.text).isSome = true
  none : (c'.instruction? t.text).isSome = false

/-- the tokens are the same, or the same but for the first one of the statement, which is a word and a keyword for one
of the catalogs only -/
inductive RecastFirst (c c' : Catalog) : List Token → List Token → Prop
  | same (ts : List Token) : RecastFirst c c' ts ts
  | recast (lead : List Token) {t t' : Token} (rest : List Token) (hlead : ∀ b ∈ lead, b.isSignificant = false)
      (ht : Recast c c' t t' ∨ Recast c' c t' t) : RecastFirst c c' (lead ++ t :: rest) (lead ++ t' :: rest)

namespace RecastFirst

variable {c c' : Catalog} {ts ts' : List Token}

theorem cons {b : Token} (hb : b.isSignificant = false) (h : RecastFirst c c' ts ts') :
    RecastFirst c c' (b :: ts) (b :: ts') := by
  cases h with
  | same => exact .same _
  | recast lead rest hlead ht => exact .recast (b :: lead) rest (List.forall_mem_cons.mpr ⟨hb, hlead⟩) ht

/-- no word is whitespace, so dropping whitespace drops the same tokens on both sides -/
theorem wanted (keepBlanks : Bool) (h : RecastFirst c c' ts ts') :
    RecastFirst c c' (ts.filter (Lexer.wants keepBlanks)) (ts'.filter (Lexer.wants keepBlanks)) := by
  cases h with
  | same => exact .same _
  | @recast lead t t' rest hlead ht =>
    have hkinds : t.kind ≠ .whitespace ∧ t'.kind ≠ .whitespace := by
      rcases ht with ht | ht
      · rw [ht.same, ht.keyword]
        exact ⟨nofun, nofun⟩
      · rw [ht.same, ht.keyword]
        exact ⟨nofun, nofun⟩
    have hwants : ∀ u : Token, u.kind ≠ .whitespace → Lexer.wants keepBlanks u = true := by
      intro u hu
      rw [Lexer.wants, bne_iff_ne.mpr hu, Bool.or_true]
    rw [List.filter_append, List.filter_append, List.filter_cons_of_pos (hwants t hkinds.1),
      List.filter_cons_of_pos (hwants t' hkinds.2)]
    exact .recast _ _ (fun b hb => hlead b (List.mem_filter.mp hb).1) ht

end RecastFirst

/-- a word and the same word again, with their kinds for two catalogs -/
theorem recast_of_word (c c' : Catalog) {ctx : LexContext} {t : Token} (hdot : t.isDotted = false) (ts : List Token) :
    RecastFirst c c' ({ t with kind := ctx.wordKind c t.text } :: ts)
      ({ t with kind := ctx.wordKind c' t.text } :: ts) := by
  have hword : ({ t with kind := .keyword } : Token).isWord = true := by
    show (!t.isDotted) = true
    rw [hdot]
    rfl
  rcases LexContext.wordKind_cases_of_catalogs c c' ctx t.text with heq | ⟨hk, hk', h, h'⟩ | ⟨hk', hk, h', h⟩
  · rw [heq]
    exact .same _
  · rw [hk, hk']
    exact .recast [] ts (List.forall_mem_nil _) (.inl ⟨hword, rfl, rfl, h, h'⟩)
  · rw [hk, hk']
    exact .recast [] ts (List.forall_mem_nil _) (.inr ⟨hword, rfl, rfl, h', h⟩)

/-- the run of a lexer for two catalogs -/
theorem Lexer.recast_tokens (c c' : Catalog) (l : Lexer) : RecastFirst c c' (l.tokens c) (l.tokens c') := by
  induction l using run_induct c with
  | done l h =>
    have hrest := rest_eq_nil_of_lex h
    rw [tokens_of_lex_eq_none h, tokens_of_lex_eq_none (lex_of_rest_eq_nil c' hrest)]
    exact .same []
  | step l t m h ih =>
    rcases l.lex_eq_or_word with ⟨r, hr⟩ | ⟨u, n, hdot, hcount, hlex⟩
    · -- the same token for both: if it belongs to the statement, nothing differs after it
      have h' : l.lex c' = some (t, m) := by
        rw [hr, ← hr c, h]
      rw [tokens_of_lex h, tokens_of_lex h']
      cases hsig : t.isSignificant with
      | false => exact ih.cons hsig
      | true =>
        have hcount := significant_of_lex_step h
        rw [if_pos hsig] at hcount
        rw [tokens_eq_of_significant c c' m (by omega)]
        exact .same _
    · rw [tokens_of_lex (hlex c), tokens_of_lex (hlex c'), tokens_eq_of_significant c c' n (by omega)]
      exact recast_of_word c c' hdot _

/-- **What the catalog has a say in.**  For any two catalogs, a line has the same tokens, except that the first one of
the statement, if it is a word, may be a keyword for one of them and a plain word for the other.  That is so only where
one of the catalogs has the word as an instruction and the other has not. -/
theorem tokenizeWith_catalogs (c c' : Catalog) (keepBlanks : Bool) (line : Text) (number : Nat) :
    RecastFirst c c' (tokenizeWith c keepBlanks line number) (tokenizeWith c' keepBlanks line number) := by
  rw [tokenizeWith_eq, tokenizeWith_eq]
  exact (Lexer.recast_tokens c c' (Lexer.start line number)).wanted keepBlanks

-- the first `nop` is a mnemonic for one of two catalogs, and the second one is a plain word for both
example :
    (tokenize (.ofEntries [Entry.op "00" "nop" .none "" ""]) " nop nop".toList 0).map Token.kind = [.keyword, .identifier] ∧
      (tokenize .empty " nop nop".toList 0).map Token.kind = [.identifier, .identifier] := by
  decide +kernel

end Smali
