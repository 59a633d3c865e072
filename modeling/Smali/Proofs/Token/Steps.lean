import Mathlib.Data.List.TakeWhile
import Mathlib.Logic.Relation
import Smali.Proofs.Token.Pass
import Smali.Proofs.Token.Word

/-!
# From one token to the next

What a lexer does along a line, one token after the other.

* `Lexer.Step`        one token that is a lexeme;
* `Lexer.Passes l s l'`  the lexer goes over the text `s` in such steps;
* `Lexer.Takes l k s l'`  over the text `s` in one step, and the token is of kind `k`;
* `Lexer.Plain`       the text before has no say in what comes next;
* `Lexer.takes_word`, `Lexer.takes_delimiter`, `Lexer.skips_blank`, ...  what comes next on plain ground;
* `Lexer.passes_descriptor`  any text of words, parentheses, brackets and semicolons is passed.
-/

namespace Smali

open Text (Stops)

theorem taken_append (s r : Text) : taken (s ++ r) r = s := by
  rw [taken, List.length_append, Nat.add_sub_cancel, List.take_left]

theorem Text.size_pos {t : Text} (h : t ≠ []) : 0 < Text.size t := by
  cases t with
  | nil => exact absurd rfl h
  | cons c t =>
    have hc := c.utf8Size_pos
    rw [Text.size_cons]
    omega

/-- no word starts with a dot -/
theorem Token.isDotted_of_isWord {t : Token} (h : Text.IsWord t.text) : t.isDotted = false := by
  obtain ⟨c, w, hw, hc, -⟩ := h.exists_cons
  rw [isDotted, hw, beq_eq_false_iff_ne]
  intro h
  obtain rfl := Option.some.inj h
  exact absurd hc (by decide)

theorem Token.isWord_of_isWord {t : Token} (h : Text.IsWord t.text) (hk : t.kind = .keyword ∨ t.kind = .identifier) :
    t.isWord = true := by
  rw [isWord, isDotted_of_isWord h]
  rcases hk with hk | hk <;> (rw [hk]; rfl)

namespace LexContext

variable (catalog : Catalog) (ctx : LexContext) {w : Text}

theorem ofEndWord?_of_isRegister (h : isRegister w = true) :
    ((BlockKind.ofEndWord? w).isSome || w == "local".toList) = false := by
  have hwords : ∀ k ∈ BlockKind.closedByWord, ∀ v, k.endWord? = some v → isRegister v = false := by
    decide
  have hnone : BlockKind.ofEndWord? w = none := by
    rw [BlockKind.ofEndWord?, List.find?_eq_none]
    intro k hk hw
    rw [hwords k hk w (beq_iff_eq.mp hw)] at h
    cases h
  have hlocal : (w == "local".toList) = false := by
    rw [beq_eq_false_iff_ne]
    rintro rfl
    exact absurd h (by decide)
  rw [hnone, hlocal]
  rfl

theorem wordKind_of_isRegister (h : isRegister w = true) : ctx.wordKind catalog w = .register := by
  rw [wordKind, ofEndWord?_of_isRegister h, Bool.and_false, if_neg Bool.false_ne_true, if_pos h]

theorem wordKind_of_not_isRegister (h : isRegister w = false) :
    ctx.wordKind catalog w = .keyword ∨ ctx.wordKind catalog w = .identifier := by
  unfold wordKind
  rw [h]
  split
  · exact .inl rfl
  · split
    · contradiction
    · split
      · exact .inl rfl
      · split
        · exact .inl rfl
        · exact .inr rfl

variable (w) in
theorem wordKind_cases : ctx.wordKind catalog w = .register ∨ ctx.wordKind catalog w = .keyword ∨
    ctx.wordKind catalog w = .identifier := by
  cases h : isRegister w with
  | true => exact .inl (wordKind_of_isRegister catalog ctx h)
  | false => exact .inr (wordKind_of_not_isRegister catalog ctx h)

end LexContext

namespace Piece

theorem afterArrow_cons {c : Char} (hc : c ≠ '>') (b : Text) : afterArrow (c :: b) = false := by
  unfold afterArrow
  split
  · rename_i h
    exact absurd (List.cons.inj h).1 hc
  · rfl

theorem atLabel_of_ne {c : Char} (hc : c ≠ ':') (behind r : Text) : atLabel behind (c :: r) = false := by
  unfold atLabel
  split
  · rename_i h
    exact absurd (List.cons.inj h).1 hc
  · rfl

/-- what comes next when no label and no name of a member is due -/
theorem cut_of_scan (catalog : Catalog) {ctx : LexContext} {behind s r : Text} {k : Lexeme}
    (hlabel : ctx.labelNext = false) (hcolon : atLabel behind (s ++ r) = false)
    (hscan : (memberName behind (s ++ r)).or (Lexeme.scan (s ++ r)) = some (k, r)) :
    cut catalog ctx behind (s ++ r) = ofLexeme catalog ctx k s r := by
  unfold cut
  rw [hlabel, if_neg Bool.false_ne_true]
  dsimp only
  rw [hcolon, if_neg Bool.false_ne_true, hscan]
  dsimp only
  rw [taken_append]

/-- the piece of a lexeme is a lexeme; only blanks and comments stand outside the statement -/
theorem ofLexeme_kind (catalog : Catalog) (ctx : LexContext) (k : Lexeme) (s r : Text) :
    (ofLexeme catalog ctx k s r).kind ≠ .error ∧
      ((ofLexeme catalog ctx k s r).kind.isTrivia = true ↔ k = .whitespace ∨ k = .comment) ∧
      (ofLexeme catalog ctx k s r).labelNext = false := by
  have hword : ∀ w, ctx.wordKind catalog w ≠ .error ∧ (ctx.wordKind catalog w).isTrivia = false := by
    intro w
    rcases LexContext.wordKind_cases catalog ctx w with h | h | h <;> rw [h] <;> exact ⟨nofun, rfl⟩
  cases k with
  | word => simp [ofLexeme, hword]
  | directive =>
    simp only [ofLexeme]
    split <;> simp [TokenKind.isTrivia]
  | _ => simp [ofLexeme, TokenKind.isTrivia]

end Piece

namespace Lexer

def text (l : Lexer) : Text :=
  l.behind.reverse ++ l.rest

/-- the tokens that are left and belong to the statement -/
def significant (catalog : Catalog) (l : Lexer) : List Token :=
  (l.tokens catalog).filter Token.isSignificant

/-- the text before has no say in what comes next: it ends neither in the colon of a label nor in an arrow -/
def Plain (l : Lexer) : Prop :=
  l.context.labelNext = false ∧ Piece.afterArrow l.behind = false

theorem plain_start (line : Text) (number : Nat) : (start line number).Plain :=
  ⟨rfl, rfl⟩

/-- one token that is a lexeme -/
def Step (catalog : Catalog) (l l' : Lexer) : Prop :=
  ∃ t, l.lex catalog = some (t, l') ∧ t.kind ≠ .error

/-- the lexer goes over `s` in tokens that are lexemes -/
structure Passes (catalog : Catalog) (l : Lexer) (s : Text) (l' : Lexer) : Prop where
  steps : Relation.ReflTransGen (Step catalog) l l'
  behind : l'.behind = s.reverse ++ l.behind
  rest : l.rest = s ++ l'.rest

/-- the next token is `s` of kind `k`, and it belongs to the statement -/
structure Takes (catalog : Catalog) (l : Lexer) (k : TokenKind) (s : Text) (l' : Lexer) : Prop
    extends Passes catalog l s l' where
  token : ∃ t, l.significant catalog = t :: l'.significant catalog ∧ t.kind = k ∧ t.text = s

variable {catalog : Catalog} {l m l' : Lexer} {t : Token} {s r : Text}

/-! ## one step -/

theorem lex_eq_some (h : l.lex catalog = some (t, m)) : ∃ p, p = Piece.cut catalog l.context l.behind l.rest ∧
    l.rest ≠ [] ∧ t = l.token p ∧ m = l.after p := by
  rw [lex, Option.ite_none_left_eq_some, Option.some.injEq, Prod.mk.injEq] at h
  obtain ⟨hne, ht, hm⟩ := h
  exact ⟨_, rfl, by simpa using hne, ht.symm, hm.symm⟩

theorem lex_of_cut {p : Piece} (hne : l.rest ≠ []) (hcut : Piece.cut catalog l.context l.behind l.rest = p) :
    l.lex catalog = some (l.token p, l.after p) := by
  rw [lex, if_neg (by rwa [List.isEmpty_iff]), hcut]

theorem lex_of_rest_eq_nil (catalog : Catalog) (h : l.rest = []) : l.lex catalog = none := by
  rw [lex, h]
  rfl

/-- a token starts where the lexer stands and ends where it stands after it -/
theorem offset_of_lex (h : l.lex catalog = some (t, m)) :
    t.start = l.offset ∧ t.stop = m.offset ∧ l.offset < m.offset ∧ m.text = l.text := by
  obtain ⟨p, hp, hne, rfl, rfl⟩ := lex_eq_some h
  obtain ⟨⟨s, hs⟩, hlt⟩ := Piece.advances_cut catalog l.context l.behind l.rest hne
  rw [← hp] at hs hlt
  have hs' : s ≠ [] := by
    rintro rfl
    rw [← hs, List.nil_append] at hlt
    exact absurd hlt (Nat.lt_irrefl _)
  have htaken : taken l.rest p.rest = s := by
    rw [← hs, taken_append]
  have hpos := Text.size_pos hs'
  have hoffset : (l.after p).offset = l.offset + Text.size s := by
    show Text.size ((taken l.rest p.rest).reverse ++ l.behind) = _
    rw [htaken, Text.size_append, Text.size_reverse, Nat.add_comm]
    rfl
  have hstop : (l.token p).stop = l.offset + Text.size s := by
    show l.offset + Text.size (taken l.rest p.rest) = _
    rw [htaken]
  refine ⟨rfl, by rw [hstop, hoffset], by omega, ?_⟩
  show ((taken l.rest p.rest).reverse ++ l.behind).reverse ++ p.rest = l.behind.reverse ++ l.rest
  rw [htaken, List.reverse_append, List.reverse_reverse, List.append_assoc, hs]

theorem significant_of_lex (h : l.lex catalog = some (t, m)) : l.significant catalog =
    if t.isSignificant then t :: m.significant catalog else m.significant catalog := by
  rw [significant, tokens_of_lex h, List.filter_cons]
  rfl

theorem significant_of_rest_eq_nil (catalog : Catalog) (h : l.rest = []) : l.significant catalog = [] := by
  rw [significant, tokens_of_lex_eq_none (lex_of_rest_eq_nil catalog h), List.filter_nil]

theorem offset_le_start (l : Lexer) : ∀ t ∈ l.tokens catalog, l.offset ≤ t.start := by
  intro t ht
  cases h : l.lex catalog with
  | none =>
    rw [tokens_of_lex_eq_none h] at ht
    cases ht
  | some p =>
    obtain ⟨u, m⟩ := p
    obtain ⟨hstart, -, hlt, -⟩ := offset_of_lex h
    have := length_lt_of_lex h
    rw [tokens_of_lex h, List.mem_cons] at ht
    rcases ht with rfl | ht
    · exact Nat.le_of_eq hstart.symm
    · exact Nat.le_trans (Nat.le_of_lt hlt) (offset_le_start m t ht)
termination_by l.rest.length

/-! ## several steps -/

theorem Passes.refl (l : Lexer) : Passes catalog l [] l :=
  ⟨.refl, rfl, rfl⟩

theorem Passes.trans {s' : Text} (h : Passes catalog l s m) (h' : Passes catalog m s' l') :
    Passes catalog l (s ++ s') l' := by
  refine ⟨h.steps.trans h'.steps, ?_, ?_⟩
  · rw [h'.behind, h.behind, List.reverse_append, List.append_assoc]
  · rw [h.rest, h'.rest, List.append_assoc]

theorem Passes.text_eq (h : Passes catalog l s l') : l'.text = l.text := by
  rw [text, text, h.behind, h.rest, List.reverse_append, List.reverse_reverse, List.append_assoc]

theorem Passes.rest_eq (h : Passes catalog l s l') (hl : l.rest = s ++ r) : l'.rest = r := by
  rw [h.rest] at hl
  exact List.append_cancel_left hl

theorem offset_le_of_steps (h : Relation.ReflTransGen (Step catalog) l l') : l.offset ≤ l'.offset := by
  induction h with
  | refl => exact Nat.le_refl _
  | tail _ hstep ih =>
    obtain ⟨t, hlex, -⟩ := hstep
    obtain ⟨-, -, hlt, -⟩ := offset_of_lex hlex
    omega

/-- when what follows the steps has lexemes only, so has all of it -/
theorem error_free_of_steps (h : Relation.ReflTransGen (Step catalog) l l')
    (hl' : ∀ t ∈ l'.significant catalog, t.kind ≠ .error) :
    ∀ t ∈ l.significant catalog, t.kind ≠ .error := by
  induction h using Relation.ReflTransGen.head_induction_on with
  | refl => exact hl'
  | head hstep _ ih =>
    obtain ⟨u, hlex, hu⟩ := hstep
    rw [significant_of_lex hlex]
    split
    · exact List.forall_mem_cons.mpr ⟨hu, ih⟩
    · exact ih

theorem significant_suffix_of_steps (h : Relation.ReflTransGen (Step catalog) l l') :
    l'.significant catalog <:+ l.significant catalog := by
  induction h using Relation.ReflTransGen.head_induction_on with
  | refl => exact List.suffix_refl _
  | head hstep _ ih =>
    obtain ⟨u, hlex, -⟩ := hstep
    rw [significant_of_lex hlex]
    split
    · exact ih.trans (List.suffix_cons _ _)
    · exact ih

/-! ## what comes next -/

theorem exists_lex {p : Piece} (hs : s ≠ []) (hl : l.rest = s ++ r)
    (hcut : Piece.cut catalog l.context l.behind (s ++ r) = p) (hp : p.rest = r) (hk : p.kind ≠ .error) :
    ∃ t l', l.lex catalog = some (t, l') ∧ t.kind = p.kind ∧ t.text = s ∧ Passes catalog l s l' ∧
      l'.context.labelNext = p.labelNext := by
  have hne : l.rest ≠ [] := by
    rw [hl]
    exact List.append_ne_nil_of_left_ne_nil hs r
  have htaken : taken l.rest p.rest = s := by
    rw [hl, hp, taken_append]
  have hlex : l.lex catalog = some (l.token p, l.after p) := lex_of_cut hne (by rw [hl, hcut])
  refine ⟨l.token p, l.after p, hlex, rfl, htaken, ⟨.single ⟨_, hlex, hk⟩, ?_, ?_⟩, ?_⟩
  · show (taken l.rest p.rest).reverse ++ l.behind = _
    rw [htaken]
  · show l.rest = s ++ p.rest
    rw [hl, hp]
  · show (l.context.record (l.token p) p.labelNext).labelNext = p.labelNext
    unfold LexContext.record
    split <;> rfl

theorem exists_takes {p : Piece} (hs : s ≠ []) (hl : l.rest = s ++ r)
    (hcut : Piece.cut catalog l.context l.behind (s ++ r) = p) (hp : p.rest = r) (hk : p.kind ≠ .error)
    (htrivia : p.kind.isTrivia = false) :
    ∃ l', Takes catalog l p.kind s l' ∧ l'.context.labelNext = p.labelNext := by
  obtain ⟨t, l', hlex, hkind, htext, hpass, hnext⟩ := exists_lex hs hl hcut hp hk
  have hsig : t.isSignificant = true := by
    rw [Token.isSignificant, hkind, htrivia]
    rfl
  refine ⟨l', ⟨hpass, t, ?_, hkind, htext⟩, hnext⟩
  rw [significant_of_lex hlex, if_pos hsig]

theorem not_trivia_of_scan {c : Char} {k : Lexeme} {rest : Text} (hblank : isBlank c = false) (hc : c ≠ '#')
    (h : Lexeme.scan (c :: r) = some (k, rest)) : ¬(k = .whitespace ∨ k = .comment) := by
  obtain ⟨⟨k', f⟩, hf, h⟩ := List.exists_of_findSome?_eq_some h
  simp only [Option.map_eq_some_iff, Prod.mk.injEq] at h
  obtain ⟨t, ht, rfl, -⟩ := h
  rintro (rfl | rfl)
  · simp only [Lexeme.scans, List.mem_cons, Prod.mk.injEq, reduceCtorEq, false_and, or_false, true_and,
      List.not_mem_nil] at hf
    subst hf
    rw [Scan.many1, hblank, if_neg Bool.false_ne_true] at ht
    cases ht
  · simp only [Lexeme.scans, List.mem_cons, Prod.mk.injEq, reduceCtorEq, false_and, false_or, or_false,
      true_and, List.not_mem_nil] at hf
    subst hf
    unfold Scan.comment at ht
    split at ht
    · rename_i h
      exact hc (List.cons.inj h).1
    · cases ht

/-- the next token belongs to the statement when neither a blank nor a comment comes next -/
theorem exists_first (catalog : Catalog) {c : Char} (hrest : l.rest = c :: r) (hblank : isBlank c = false)
    (hc : c ≠ '#') :
    ∃ t ts, l.significant catalog = t :: ts ∧ t.start = l.offset := by
  have hkind : (Piece.cut catalog l.context l.behind l.rest).kind.isTrivia = false := by
    unfold Piece.cut
    rw [hrest]
    split
    · rfl
    · split
      · rfl
      · split
        · rename_i k rest h
          have hk : ¬(k = .whitespace ∨ k = .comment) := by
            rcases Option.or_eq_some_iff.mp h with h | ⟨-, h⟩
            · rw [Piece.memberName, Option.ite_none_right_eq_some, Option.map_eq_some_iff] at h
              obtain ⟨-, _, -, he⟩ := h
              rw [← (Prod.mk.inj he).1]
              decide
            · exact not_trivia_of_scan hblank hc h
          obtain ⟨-, htrivia, -⟩ := Piece.ofLexeme_kind catalog l.context k (taken (c :: r) rest) rest
          exact eq_false_of_ne_true fun h => hk (htrivia.mp h)
        · rfl
  have hlex : l.lex catalog = some (l.token (Piece.cut catalog l.context l.behind l.rest),
      l.after (Piece.cut catalog l.context l.behind l.rest)) :=
    lex_of_cut (by rw [hrest]; exact List.cons_ne_nil _ _) rfl
  have hsig : (l.token (Piece.cut catalog l.context l.behind l.rest)).isSignificant = true := by
    show (!(Piece.cut catalog l.context l.behind l.rest).kind.isTrivia) = true
    rw [hkind]
    rfl
  have htokens := significant_of_lex hlex
  rw [if_pos hsig] at htokens
  exact ⟨_, _, htokens, (offset_of_lex hlex).1⟩

/-- a text that starts with neither a blank nor a comment has at least one token of the statement -/
theorem Passes.length_lt {c : Char} (h : Passes catalog l (c :: s) l') (hblank : isBlank c = false) (hc : c ≠ '#') :
    (l'.significant catalog).length < (l.significant catalog).length := by
  obtain ⟨u, us, hsig, hstart⟩ := exists_first catalog h.rest hblank hc
  rcases h.steps.cases_head with rfl | ⟨m, ⟨t, hlex, -⟩, hsteps⟩
  · have hlen := congrArg List.length h.rest
    rw [List.length_append, List.length_cons] at hlen
    omega
  · have hle := (significant_suffix_of_steps hsteps).length_le
    obtain ⟨-, -, hlt, -⟩ := offset_of_lex hlex
    have htokens := significant_of_lex hlex
    split at htokens
    · rw [htokens, List.length_cons]
      omega
    · -- the next token would come later than where the lexer stands
      have hmem : u ∈ m.tokens catalog := by
        have hu : u ∈ m.significant catalog := by
          rw [← htokens, hsig]
          exact List.mem_cons_self
        exact (List.mem_filter.mp hu).1
      have := offset_le_start m u hmem
      omega

/-! ## on plain ground -/

variable (catalog)

theorem takes_of_scan {k : Lexeme} (hl : l.Plain) (hs : s ≠ []) (hrest : l.rest = s ++ r)
    (hcolon : Piece.atLabel l.behind (s ++ r) = false) (hscan : Lexeme.scan (s ++ r) = some (k, r))
    (hk : ¬(k = .whitespace ∨ k = .comment)) :
    ∃ l', Takes catalog l (Piece.ofLexeme catalog l.context k s r).kind s l' ∧
      l'.context.labelNext = false := by
  obtain ⟨hkind, htrivia, hnext⟩ := Piece.ofLexeme_kind catalog l.context k s r
  have hmember : Piece.memberName l.behind (s ++ r) = none := by
    rw [Piece.memberName, hl.2, if_neg Bool.false_ne_true]
  have hcut := Piece.cut_of_scan catalog hl.1 hcolon (by rw [hmember, Option.none_or, hscan])
  have hsig : (Piece.ofLexeme catalog l.context k s r).kind.isTrivia = false :=
    eq_false_of_ne_true fun h => hk (htrivia.mp h)
  rw [← hnext]
  exact exists_takes hs hrest hcut (Piece.rest_ofLexeme _ _ _ _ _) hkind hsig

theorem afterArrow_of_isWord {w : Text} (hw : w.IsWord) (b : Text) :
    Piece.afterArrow (w.reverse ++ b) = false := by
  obtain ⟨c, v, hcv⟩ := List.exists_cons_of_ne_nil (List.reverse_ne_nil_iff.mpr hw.1)
  have hc : c ∈ w := List.mem_reverse.mp (by rw [hcv]; exact List.mem_cons_self)
  rw [hcv]
  apply Piece.afterArrow_cons
  rintro rfl
  exact absurd (hw.2 _ hc) (by decide)

theorem atLabel_of_isWord {w : Text} (hw : w.IsWord) (b r : Text) : Piece.atLabel b (w ++ r) = false := by
  obtain ⟨c, v, rfl, hc, -⟩ := hw.exists_cons
  apply Piece.atLabel_of_ne
  rintro rfl
  exact absurd hc (by decide)

/-- a word with something after it that no word and no number goes on with -/
theorem takes_word (hl : l.Plain) (hs : s.IsWord) (hrest : l.rest = s ++ r) (hr : Stops r) :
    ∃ l', Takes catalog l (Piece.ofLexeme catalog l.context (Lexeme.ofWord s) s r).kind s l' ∧ l'.Plain := by
  have hk : ¬(Lexeme.ofWord s = .whitespace ∨ Lexeme.ofWord s = .comment) := by
    unfold Lexeme.ofWord
    split
    · exact nofun
    · split <;> exact nofun
  obtain ⟨l', h, hnext⟩ := takes_of_scan catalog hl hs.1 hrest (atLabel_of_isWord hs _ _)
    (Lexeme.scan_append hs hr) hk
  refine ⟨l', h, hnext, ?_⟩
  rw [h.behind]
  exact afterArrow_of_isWord hs _

/-- a word that is neither a number nor a register -/
theorem takes_plainWord (hl : l.Plain) (hs : s.IsWord) (hword : Lexeme.ofWord s = .word)
    (hreg : LexContext.isRegister s = false) (hrest : l.rest = s ++ r) (hr : Stops r) :
    ∃ k l', (k = .keyword ∨ k = .identifier) ∧ Takes catalog l k s l' ∧ l'.Plain := by
  obtain ⟨l', h, hl'⟩ := takes_word catalog hl hs hrest hr
  rw [hword] at h
  exact ⟨_, l', LexContext.wordKind_of_not_isRegister catalog l.context hreg, h, hl'⟩

/-- the punctuation of one character, but for the colon -/
def delimiters : Text :=
  [',', '\x7b', '\x7d', '[', ']', '(', ')', ';', '=', '@']

theorem scan_delimiter {c : Char} (hc : c ∈ delimiters) (r : Text) :
    Lexeme.scan (c :: r) = some (.punctuation, r) := by
  simp only [delimiters, List.mem_cons, List.not_mem_nil, or_false] at hc
  rcases hc with rfl | rfl | rfl | rfl | rfl | rfl | rfl | rfl | rfl | rfl <;> rfl

theorem takes_delimiter {c : Char} (hl : l.Plain) (hc : c ∈ delimiters) (hrest : l.rest = c :: r) :
    ∃ l', Takes catalog l .delimiter [c] l' ∧ l'.Plain := by
  have hne : c ≠ ':' ∧ c ≠ '>' := by
    have hall : delimiters.all (fun d => d != ':' && d != '>') = true := rfl
    simpa using List.all_eq_true.mp hall c hc
  obtain ⟨l', h, hnext⟩ := takes_of_scan catalog hl (s := [c]) (List.cons_ne_nil _ _) hrest
    (Piece.atLabel_of_ne hne.1 _ _) (scan_delimiter hc r) (by decide)
  refine ⟨l', h, hnext, ?_⟩
  rw [h.behind]
  exact Piece.afterArrow_cons hne.2 _

theorem takes_dots (hl : l.Plain) (hrest : l.rest = '.' :: '.' :: r) :
    ∃ l', Takes catalog l .delimiter "..".toList l' ∧ l'.Plain := by
  obtain ⟨l', h, hnext⟩ := takes_of_scan catalog hl (s := "..".toList) (List.cons_ne_nil _ _) hrest
    (Piece.atLabel_of_ne (by decide) _ _) (k := .punctuation) rfl (by decide)
  refine ⟨l', h, hnext, ?_⟩
  rw [h.behind]
  exact Piece.afterArrow_cons (by decide) _

theorem takes_arrow (hl : l.Plain) (hrest : l.rest = '-' :: '>' :: r) :
    ∃ l', Takes catalog l .delimiter "->".toList l' ∧ l'.context.labelNext = false :=
  takes_of_scan catalog hl (s := "->".toList) (List.cons_ne_nil _ _) hrest
    (Piece.atLabel_of_ne (by decide) _ _) (k := .punctuation) rfl (by decide)

theorem takes_colon (hl : l.Plain) (hrest : l.rest = ':' :: r)
    (hcolon : Piece.atLabel l.behind (':' :: r) = false) :
    ∃ l', Takes catalog l .delimiter [':'] l' ∧ l'.Plain := by
  obtain ⟨l', h, hnext⟩ := takes_of_scan catalog hl (s := [':']) (List.cons_ne_nil _ _) hrest
    hcolon (k := .punctuation) rfl (by decide)
  refine ⟨l', h, hnext, ?_⟩
  rw [h.behind]
  exact Piece.afterArrow_cons (by decide) _

theorem stringRest_append {t u : Text} (h : Scan.stringRest t = some u) (r : Text) :
    Scan.stringRest (t ++ r) = some (u ++ r) := by
  fun_induction Scan.stringRest t with
  | case1 => cases h
  | case2 t =>
    obtain rfl := Option.some.inj h
    rfl
  | case3 c t ih => exact ih h
  | case4 => cases h
  | case5 c t hquote hescape hlast ih =>
    have hc : c ≠ '\\' := by
      rintro rfl
      cases t with
      | nil => exact hlast rfl rfl
      | cons d t => exact hescape d t rfl rfl
    rw [List.cons_append, Scan.stringRest]
    · exact ih h
    · exact hquote
    · exact fun _ _ hc' _ => hc hc'
    · exact fun hc' _ => hc hc'

theorem scan_quote (t : Text) :
    Lexeme.scan ('"' :: t) = (Scan.stringRest t).map (Prod.mk Lexeme.string) := by
  have hstring : Scan.string ('"' :: t) = Scan.stringRest t := rfl
  simp only [Lexeme.scan, Lexeme.scans, List.findSome?_cons, hstring]
  cases Scan.stringRest t <;> rfl

theorem stringRest_of_scan {t s : Text} {k : Lexeme} (h : Lexeme.scan ('"' :: t) = some (k, s)) :
    k = .string ∧ Scan.stringRest t = some s := by
  rw [scan_quote, Option.map_eq_some_iff] at h
  obtain ⟨u, hu, he⟩ := h
  obtain ⟨rfl, rfl⟩ := Prod.mk.inj he
  exact ⟨rfl, hu⟩

/-- a quote, a text and the same quote -/
theorem takes_quoted {q : Char} (hq : q ≠ ':' ∧ q ≠ '>') (hl : l.Plain)
    (hscan : Lexeme.scan (q :: (s ++ [q]) ++ r) = some (.string, r)) (hrest : l.rest = q :: (s ++ [q]) ++ r) :
    ∃ l', Takes catalog l .string (q :: (s ++ [q])) l' ∧ l'.Plain := by
  obtain ⟨l', h, hnext⟩ := takes_of_scan catalog hl (List.cons_ne_nil _ _) hrest
    (Piece.atLabel_of_ne hq.1 _ _) hscan (by decide)
  refine ⟨l', h, hnext, ?_⟩
  rw [h.behind, List.reverse_cons, List.reverse_append]
  exact Piece.afterArrow_cons hq.2 _

/-- a string lexeme stays one, whatever follows -/
theorem takes_string (hl : l.Plain) (hs : Lexeme.scan ('"' :: (s ++ ['"'])) = some (.string, []))
    (hrest : l.rest = '"' :: (s ++ ['"']) ++ r) :
    ∃ l', Takes catalog l .string ('"' :: (s ++ ['"'])) l' ∧ l'.Plain := by
  have hscan : Lexeme.scan ('"' :: (s ++ ['"']) ++ r) = some (.string, r) := by
    rw [List.cons_append, scan_quote, stringRest_append (stringRest_of_scan hs).2]
    rfl
  exact takes_quoted catalog (by decide) hl hscan hrest

theorem hex4_append {t u : Text} (h : Scan.hex4 t = some u) (r : Text) : Scan.hex4 (t ++ r) = some (u ++ r) := by
  unfold Scan.hex4 at h
  split at h
  · rename_i a b c d t
    rw [Option.ite_none_right_eq_some, Option.some.injEq] at h
    obtain ⟨hdigits, rfl⟩ := h
    exact if_pos hdigits
  · cases h

/-- four digits do not reach over a quote -/
theorem hex4_quote (r : Text) : Scan.hex4 ('\'' :: r) = none := by
  unfold Scan.hex4
  split
  · rename_i a b c d t ht
    obtain ⟨rfl, -⟩ := List.cons.inj ht
    rfl
  · rfl

theorem charBody_append {t v : Text} (h : Scan.charBody t = some ('\'' :: v)) (r : Text) :
    Scan.charBody (t ++ r) = some ('\'' :: v ++ r) := by
  unfold Scan.charBody at h
  split at h
  · rename_i u
    show Option.or ((Scan.one (· == 'u') (u ++ r)).bind Scan.hex4) (Scan.one (fun _ => true) (u ++ r)) = _
    cases u with
    | nil => cases h
    | cons c u =>
      rw [List.cons_append, Scan.one, Scan.one, if_pos rfl]
      rcases Option.or_eq_some_iff.mp h with h | ⟨-, h⟩
      · obtain ⟨v, hv, hhex⟩ := Option.bind_eq_some_iff.mp h
        rw [Scan.one, Option.ite_none_right_eq_some, Option.some.injEq] at hv
        obtain ⟨hc, rfl⟩ := hv
        rw [if_pos hc, Option.bind_some, hex4_append hhex]
        rfl
      · rw [Scan.one, if_pos rfl, Option.some.injEq] at h
        rw [h, List.cons_append]
        split
        · rw [Option.bind_some, hex4_quote]
          rfl
        · rfl
  · rename_i hescape
    cases t with
    | nil => cases h
    | cons c u =>
      rw [Scan.one, Option.ite_none_right_eq_some, Option.some.injEq] at h
      obtain ⟨hc, rfl⟩ := h
      rw [List.cons_append, Scan.charBody]
      · exact if_pos hc
      · exact fun v hv => hescape _ (congrArg (· :: _) (List.cons.inj hv).1)

theorem scan_apostrophe (t : Text) :
    Lexeme.scan ('\'' :: t) =
      ((Scan.charBody t).bind (Scan.one (· == '\''))).map (Prod.mk Lexeme.string) := by
  have hchar : Scan.char ('\'' :: t) = (Scan.charBody t).bind (Scan.one (· == '\'')) := rfl
  simp only [Lexeme.scan, Lexeme.scans, List.findSome?_cons, hchar]
  cases (Scan.charBody t).bind (Scan.one (· == '\'')) <;> rfl

theorem charBody_of_scan {t s : Text} {k : Lexeme} (h : Lexeme.scan ('\'' :: t) = some (k, s)) :
    k = .string ∧ Scan.charBody t = some ('\'' :: s) := by
  rw [scan_apostrophe, Option.map_eq_some_iff] at h
  obtain ⟨u, hu, he⟩ := h
  obtain ⟨rfl, rfl⟩ := Prod.mk.inj he
  obtain ⟨v, hv, hquote⟩ := Option.bind_eq_some_iff.mp hu
  cases v with
  | nil => cases hquote
  | cons c v =>
    rw [Scan.one, Option.ite_none_right_eq_some, Option.some.injEq] at hquote
    obtain ⟨hc, rfl⟩ := hquote
    rw [beq_iff_eq] at hc
    rw [← hc]
    exact ⟨rfl, hv⟩

/-- so does a character -/
theorem takes_char (hl : l.Plain) (hs : Lexeme.scan ('\'' :: (s ++ ['\''])) = some (.string, []))
    (hrest : l.rest = '\'' :: (s ++ ['\'']) ++ r) :
    ∃ l', Takes catalog l .string ('\'' :: (s ++ ['\''])) l' ∧ l'.Plain := by
  have hscan : Lexeme.scan ('\'' :: (s ++ ['\'']) ++ r) = some (.string, r) := by
    rw [List.cons_append, scan_apostrophe, charBody_append (charBody_of_scan hs).2]
    rfl
  exact takes_quoted catalog (by decide) hl hscan hrest

/-- the keyword of a directive before a blank -/
theorem takes_keyword (d : Directive) (hl : l.Plain) (hrest : l.rest = d.keyword ++ ' ' :: r) :
    ∃ l', Takes catalog l .keyword d.keyword l' ∧ l'.Plain := by
  have hne : d.keyword ≠ [] := by
    cases d <;> exact List.cons_ne_nil _ _
  have hcolon : Piece.atLabel l.behind (d.keyword ++ ' ' :: r) = false := by
    cases d <;> rfl
  have hscan : Lexeme.scan (d.keyword ++ ' ' :: r) = some (.directive, ' ' :: r) := by
    cases d <;> rfl
  have hkind : (Piece.ofLexeme catalog l.context .directive d.keyword (' ' :: r)).kind = .keyword := by
    cases d <;> rfl
  obtain ⟨l', h, hnext⟩ := takes_of_scan catalog hl hne hrest hcolon hscan (by decide)
  rw [hkind] at h
  refine ⟨l', h, hnext, ?_⟩
  rw [h.behind]
  cases d <;> rfl

/-- a blank is passed over, also after an arrow, where no name comes next -/
theorem skips_blank_of_labelNext (hl : l.context.labelNext = false) (hrest : l.rest = ' ' :: r)
    (hr : ∀ c, r.head? = some c → isBlank c = false) :
    ∃ l', Passes catalog l [' '] l' ∧ l.significant catalog = l'.significant catalog ∧ l'.Plain := by
  have hdrop : r.dropWhile isBlank = r := Text.dropWhile_of_head hr
  have hscan : Lexeme.scan (' ' :: r) = some (.whitespace, r.dropWhile isBlank) := rfl
  have hmember : Piece.memberName l.behind (' ' :: r) = none := by
    rw [Piece.memberName]
    split <;> rfl
  have hcut := Piece.cut_of_scan catalog hl (s := [' ']) (r := r)
    (Piece.atLabel_of_ne (by decide) l.behind _) (k := .whitespace)
    (by rw [List.singleton_append, hmember, Option.none_or, hscan, hdrop])
  obtain ⟨t, l', hlex, hkind, -, hpass, hnext⟩ := exists_lex (List.cons_ne_nil _ _) hrest hcut rfl
    (show TokenKind.whitespace ≠ .error by decide)
  have hsig : ¬t.isSignificant = true := by
    rw [Token.isSignificant, hkind]
    exact Bool.false_ne_true
  refine ⟨l', hpass, ?_, hnext, ?_⟩
  · rw [significant_of_lex hlex, if_neg hsig]
  · rw [hpass.behind]
    exact Piece.afterArrow_cons (by decide) _

theorem skips_blank (hl : l.Plain) (hrest : l.rest = ' ' :: r) (hr : ∀ c, r.head? = some c → isBlank c = false) :
    ∃ l', Passes catalog l [' '] l' ∧ l.significant catalog = l'.significant catalog ∧ l'.Plain :=
  skips_blank_of_labelNext catalog hl.1 hrest hr

/-- after this text, which is given backwards, a colon and a word are a label -/
def OpensLabel (b : Text) : Prop :=
  ∀ w : Text, w.IsWord → ∀ r, Piece.atLabel b (':' :: (w ++ r)) = true

/-- the places of labels: the start of a line, and after a blank, an opening brace, two dots or an arrow -/
theorem opensLabel (b : Text) :
    OpensLabel [] ∧ OpensLabel (' ' :: b) ∧ OpensLabel ('\x7b' :: b) ∧ OpensLabel ('.' :: '.' :: b) ∧
      OpensLabel ('>' :: '-' :: b) := by
  refine ⟨?_, ?_, ?_, ?_, ?_⟩ <;>
  · intro w hw r
    obtain ⟨c, v, rfl, hc, -⟩ := hw.exists_cons
    rw [List.cons_append, Piece.atLabel, hc]
    rfl

/-- a colon that opens a label, and the name after it; dots may follow the name -/
theorem takes_label_of_opensLabel (hnext : l.context.labelNext = false) (hb : OpensLabel l.behind) (hs : s.IsWord)
    (hrest : l.rest = ':' :: (s ++ r)) (hr : Scan.word (s ++ r) = some r) :
    ∃ m l', Takes catalog l .delimiter [':'] m ∧ Takes catalog m .label s l' ∧ l'.Plain := by
  have hcut : Piece.cut catalog l.context l.behind ([':'] ++ (s ++ r)) =
      ⟨.delimiter, none, true, true, s ++ r⟩ := by
    unfold Piece.cut
    rw [hnext, if_neg Bool.false_ne_true, List.singleton_append]
    dsimp only
    rw [hb s hs r, if_pos rfl]
    rfl
  -- the name is read as one even when it looks like a number, because the colon is that of a label
  obtain ⟨m, hm, hnext⟩ := exists_takes (s := [':']) (List.cons_ne_nil _ _) hrest hcut rfl nofun rfl
  have hname : Piece.cut catalog m.context m.behind (s ++ r) = ⟨.label, none, false, false, r⟩ := by
    unfold Piece.cut
    rw [hnext, if_pos rfl, hr]
  obtain ⟨l', h, hnext'⟩ := exists_takes hs.1 (hm.rest_eq hrest) hname rfl nofun rfl
  refine ⟨m, l', hm, h, hnext', ?_⟩
  rw [h.behind]
  exact afterArrow_of_isWord hs _

/-- after a blank, a colon and a name are a label -/
theorem takes_label {b : Text} (hl : l.Plain) (hb : l.behind = ' ' :: b) (hs : s.IsWord)
    (hrest : l.rest = ':' :: (s ++ r)) (hr : Stops r) :
    ∃ m l', Takes catalog l .delimiter [':'] m ∧ Takes catalog m .label s l' ∧ l'.Plain :=
  takes_label_of_opensLabel catalog hl.1 (hb ▸ (opensLabel b).2.1) hs hrest (Scan.word_append hs hr)

/-! ## names of members -/

/-- a colon directly after a word opens no label -/
theorem atLabel_after_word {w : Text} (hw : w.IsWord) (b r : Text) :
    Piece.atLabel (w.reverse ++ b) (':' :: r) = false := by
  have harrow := afterArrow_of_isWord hw b
  obtain ⟨c, v, hcv⟩ := List.exists_cons_of_ne_nil (List.reverse_ne_nil_iff.mpr hw.1)
  have hc : isWordChar c = true := hw.2 c (List.mem_reverse.mp (by rw [hcv]; exact List.mem_cons_self))
  have hne : ∀ d, isWordChar d = false → (c == d) = false := by
    intro d hd
    rw [beq_eq_false_iff_ne]
    rintro rfl
    rw [hc] at hd
    cases hd
  have hblank : isBlank c = false := Text.isBlank_of_isWordChar hc
  rw [hcv, List.cons_append] at harrow ⊢
  cases r with
  | nil => rfl
  | cons d r =>
    rw [Piece.atLabel, harrow, hblank, hne '\x7b' (by decide), hne ',' (by decide), hne '.' (by decide)]
    simp

/-- a word, or one of the two names in angle brackets -/
def IsMemberName (s : Text) : Prop :=
  s = "<init>".toList ∨ s = "<clinit>".toList ∨ s.IsWord

instance (s : Text) : Decidable (IsMemberName s) :=
  inferInstanceAs (Decidable (s = "<init>".toList ∨ s = "<clinit>".toList ∨ s.IsWord))

namespace IsMemberName

variable (hs : IsMemberName s)
include hs

/-- the three forms of a name, for what is decided by its characters -/
theorem elim {P : Text → Prop} (hinit : P "<init>".toList) (hclinit : P "<clinit>".toList)
    (hword : s.IsWord → P s) : P s := by
  rcases hs with rfl | rfl | hs
  · exact hinit
  · exact hclinit
  · exact hword hs

theorem exists_cons : ∃ c t, s = c :: t ∧ isBlank c = false ∧ c ≠ '#' := by
  refine hs.elim (P := fun s => ∃ c t, s = c :: t ∧ isBlank c = false ∧ c ≠ '#')
    ⟨'<', _, rfl, by decide, by decide⟩ ⟨'<', _, rfl, by decide, by decide⟩ fun hs => ?_
  obtain ⟨c, t, rfl, hc, -⟩ := hs.exists_cons
  refine ⟨c, t, rfl, Text.isBlank_of_isWordChar hc, ?_⟩
  rintro rfl
  exact absurd hc (by decide)

theorem ne_nil : s ≠ [] := by
  obtain ⟨c, t, rfl, -⟩ := hs.exists_cons
  exact List.cons_ne_nil _ _

theorem atLabel (b r : Text) : Piece.atLabel b (s ++ r) = false :=
  hs.elim (P := fun s => Piece.atLabel b (s ++ r) = false) rfl rfl fun hs => atLabel_of_isWord hs _ _

theorem afterArrow (b : Text) : Piece.afterArrow (s.reverse ++ b) = false :=
  hs.elim (P := fun s => Piece.afterArrow (s.reverse ++ b) = false) rfl rfl fun hs =>
    afterArrow_of_isWord hs _

/-- a colon after a name opens no label -/
theorem atLabel_colon (b t : Text) : Piece.atLabel (s.reverse ++ b) (':' :: t) = false := by
  have hbracket : ∀ u : Text, Piece.atLabel ('>' :: 't' :: u) (':' :: t) = false := by
    intro u
    cases t with
    | nil => rfl
    | cons d t => exact Bool.and_false _
  exact hs.elim (P := fun s => Piece.atLabel (s.reverse ++ b) (':' :: t) = false) (hbracket _) (hbracket _)
    fun hs => atLabel_after_word hs _ _

end IsMemberName

/-- a name goes on with neither a parenthesis nor a colon -/
theorem stops_afterName {c : Char} (hc : c = '(' ∨ c = ':') (r : Text) : Stops (c :: r) := by
  apply Text.stops_cons
  rcases hc with rfl | rfl <;> decide

/-- after an arrow comes the name of a member, and a colon after it opens no label -/
theorem takes_name {b : Text} {c : Char} (hnext : l.context.labelNext = false)
    (hb : l.behind = '>' :: '-' :: b) (hs : IsMemberName s) (hrest : l.rest = s ++ c :: r)
    (hc : c = '(' ∨ c = ':') :
    ∃ k l', Takes catalog l k s l' ∧ l'.Plain ∧ ∀ t, Piece.atLabel l'.behind (':' :: t) = false := by
  have hcut : Piece.cut catalog l.context l.behind (s ++ c :: r) =
      Piece.ofLexeme catalog l.context .word s (c :: r) := by
    apply Piece.cut_of_scan catalog hnext (hs.atLabel _ _)
    -- no word starts with an angle bracket, so the two names are found by the lexemes
    rw [hb]
    refine hs.elim (P := fun s => (Piece.memberName ('>' :: '-' :: b) (s ++ c :: r)).or
      (Lexeme.scan (s ++ c :: r)) = some (.word, c :: r)) rfl rfl fun hs => ?_
    rw [Piece.memberName, Scan.word_append hs (stops_afterName hc r)]
    rfl
  obtain ⟨hkind, htrivia, hlabel⟩ := Piece.ofLexeme_kind catalog l.context .word s (c :: r)
  have hsig := eq_false_of_ne_true fun h => absurd (htrivia.mp h) (by decide)
  obtain ⟨l', h, hnext'⟩ := exists_takes hs.ne_nil hrest hcut rfl hkind hsig
  refine ⟨_, l', h, ⟨hnext'.trans hlabel, ?_⟩, ?_⟩
  · rw [h.behind]
    exact hs.afterArrow _
  · intro t
    rw [h.behind]
    exact hs.atLabel_colon _ _

/-- On plain ground a name is one token, whatever number, register or keyword it looks like; it is no delimiter. -/
theorem takes_plainName {c : Char} (hl : l.Plain) (hs : IsMemberName s) (hrest : l.rest = s ++ c :: r)
    (hc : c = '(' ∨ c = ':') : ∃ k l', k ≠ .delimiter ∧ Takes catalog l k s l' ∧ l'.Plain := by
  have hscan : ∃ k, (k = .hexNumber ∨ k = .number ∨ k = .word) ∧ Lexeme.scan (s ++ c :: r) = some (k, c :: r) := by
    refine hs.elim (P := fun s => ∃ k, (k = .hexNumber ∨ k = .number ∨ k = .word) ∧
      Lexeme.scan (s ++ c :: r) = some (k, c :: r)) ⟨.word, by decide, rfl⟩ ⟨.word, by decide, rfl⟩ fun hs => ?_
    refine ⟨_, ?_, Lexeme.scan_append hs (stops_afterName hc r)⟩
    unfold Lexeme.ofWord
    split
    · exact .inl rfl
    · split
      · exact .inr (.inl rfl)
      · exact .inr (.inr rfl)
  obtain ⟨k, hk, hscan⟩ := hscan
  have hdelimiter : (Piece.ofLexeme catalog l.context k s (c :: r)).kind ≠ .delimiter := by
    rcases hk with rfl | rfl | rfl
    · exact nofun
    · exact nofun
    · show l.context.wordKind catalog s ≠ _
      rcases LexContext.wordKind_cases catalog l.context s with h | h | h <;> rw [h] <;> exact nofun
  obtain ⟨l', h, hnext⟩ := takes_of_scan catalog hl hs.ne_nil hrest (hs.atLabel _ _) hscan (by
    rcases hk with rfl | rfl | rfl <;> decide)
  refine ⟨_, l', hdelimiter, h, hnext, ?_⟩
  rw [h.behind]
  exact hs.afterArrow _

/-! ## descriptors -/

/-- the characters of types and prototypes, when the paths of classes are words -/
def isDescriptorChar (c : Char) : Bool :=
  isWordChar c || ['(', ')', '[', ';'].contains c

/-- **Texts of words and brackets.**  They are passed over whatever numbers, registers or keywords their
words look like, when nothing goes on with a word at their end. -/
theorem passes_descriptor {s r : Text} (l : Lexer) (hl : l.Plain) (hs : ∀ c ∈ s, isDescriptorChar c = true)
    (hend : ∀ w, Text.IsWord w → w <:+ s → Stops r) (hrest : l.rest = s ++ r) :
    ∃ l', Passes catalog l s l' ∧ l'.Plain := by
  cases s with
  | nil => exact ⟨l, .refl l, hl⟩
  | cons c s =>
    by_cases hc : isWordChar c = true
    · -- the run of word characters is one token
      obtain ⟨w, hw⟩ : ∃ w : Text, (c :: s).takeWhile isWordChar = w := ⟨_, rfl⟩
      obtain ⟨u, hu⟩ : ∃ u : Text, (c :: s).dropWhile isWordChar = u := ⟨_, rfl⟩
      have hwu : c :: s = w ++ u := by
        rw [← hw, ← hu, List.takeWhile_append_dropWhile]
      have hword : w.IsWord := by
        refine ⟨?_, fun d hd => List.mem_takeWhile_imp (hw ▸ hd)⟩
        rw [← hw, List.takeWhile_cons_of_pos hc]
        exact List.cons_ne_nil _ _
      have hsuffix : u <:+ c :: s := ⟨w, hwu.symm⟩
      have hstops : Stops (u ++ r) := by
        cases u with
        | nil =>
          rw [List.append_nil] at hwu
          exact hend w hword (hwu ▸ List.suffix_refl _)
        | cons d u =>
          have hd : isWordChar d = false := by
            have h := List.head?_dropWhile_not isWordChar (c :: s)
            rw [hu] at h
            simpa using h
          have hmem := hs d (hsuffix.subset List.mem_cons_self)
          rw [isDescriptorChar, hd, Bool.false_or, List.contains_iff_mem] at hmem
          apply Text.stops_cons
          simp only [List.mem_cons, List.not_mem_nil, or_false] at hmem
          rcases hmem with rfl | rfl | rfl | rfl <;> decide
      have hlen : u.length < (c :: s).length := by
        have hpos := List.length_pos_iff.mpr hword.1
        rw [hwu, List.length_append]
        omega
      rw [hwu, List.append_assoc] at hrest
      obtain ⟨m, hm, hplain⟩ := takes_word catalog hl hword hrest hstops
      obtain ⟨l', h, hl'⟩ := passes_descriptor m hplain (fun d hd => hs d (hsuffix.subset hd))
        (fun v hv hvu => hend v hv (hvu.trans hsuffix)) (hm.rest_eq hrest)
      exact ⟨l', hwu ▸ hm.trans h, hl'⟩
    · have hmem := hs c List.mem_cons_self
      rw [isDescriptorChar, eq_false_of_ne_true hc, Bool.false_or, List.contains_iff_mem] at hmem
      have hdelimiter : c ∈ delimiters := by
        simp only [List.mem_cons, List.not_mem_nil, or_false] at hmem
        rcases hmem with rfl | rfl | rfl | rfl <;> decide
      obtain ⟨m, hm, hplain⟩ := takes_delimiter catalog hl hdelimiter hrest
      obtain ⟨l', h, hl'⟩ := passes_descriptor m hplain (fun d hd => hs d (List.mem_cons_of_mem _ hd))
        (fun v hv hvu => hend v hv (hvu.trans (List.suffix_cons _ _))) (hm.rest_eq hrest)
      exact ⟨l', hm.trans h, hl'⟩
termination_by s.length

/-- what follows a descriptor that ends in a bracket or a semicolon does not matter -/
theorem not_isWord_suffix {c : Char} (hc : isWordChar c = false) (s : Text) {w : Text} (hw : w.IsWord) :
    ¬w <:+ s ++ [c] := by
  intro h
  have hlast : w.getLast hw.1 = c := by
    rw [h.getLast hw.1, List.getLast_concat]
  have hmem := hw.2 _ (List.getLast_mem hw.1)
  rw [hlast, hc] at hmem
  cases hmem

end Lexer

/-- whitespace is no part of a statement -/
theorem tokenize_significant (catalog : Catalog) (line : Text) (number : Nat) :
    (tokenize catalog line number).filter Token.isSignificant =
      (Lexer.start line number).significant catalog := by
  rw [tokenize_eq, Lexer.wanted, List.filter_filter, Lexer.significant]
  apply List.filter_congr
  intro t _
  have hwants : Lexer.wants false t = (t.kind != .whitespace) := Bool.false_or _
  rw [Token.isSignificant, hwants]
  cases t.kind <;> rfl

end Smali
