import Smali.Catalog.Builtin
import Smali.Proofs.Token.Resume

/-!
# A line that is taken up again after an edit

The state after some tokens is decided by these tokens, up to one thing: a colon is that of a label only when
a word follows it, and what follows it may be edited.

* `Piece.allowsLabel`   what may stand before the colon of a label;
* `Lexer.Past past l`   what the tokens that were passed, the last one first, say about the lexer, with
                        `Past.next` for one token and `Past.take` for any number of them;
* `Lexer.wanted_relabel_iff`  the tokens that are left depend on whether a label is due only when a word
                        comes next;
* `resume_edited_iff`   two lines that start with the same tokens: a state of the one, taken up on the other,
                        gives its tokens, unless the next one names a label and no word followed on the first
                        line.
-/

namespace Smali

/-- whether a character of a word comes next -/
def Text.startsWord (t : Text) : Bool :=
  t.head?.any isWordChar

theorem Text.startsWord_of_word {t rest : Text} (h : Scan.word t = some rest) : t.startsWord = true := by
  cases t with
  | nil => cases h
  | cons c r =>
    rw [Scan.word, Option.ite_none_right_eq_some, Scan.atWord, Bool.and_eq_true] at h
    exact h.1.1

namespace LexContext

/-- the context without the label that may be due -/
def unlabelled (ctx : LexContext) : LexContext :=
  { ctx with labelNext := false }

variable {ctx ctx' : LexContext}

theorem eq_of_unlabelled (h : ctx.unlabelled = ctx'.unlabelled) (hnext : ctx.labelNext = ctx'.labelNext) :
    ctx = ctx' := by
  cases ctx
  cases ctx'
  cases hnext
  cases h
  rfl

theorem labelNext_record (ctx : LexContext) (t : Token) (b : Bool) : (ctx.record t b).labelNext = b := by
  unfold record
  split <;> rfl

theorem unlabelled_record (ctx : LexContext) (t : Token) (b : Bool) :
    (ctx.record t b).unlabelled = ctx.unlabelled.record t false := by
  unfold record
  split <;> rfl

theorem record_congr (h : ctx.unlabelled = ctx'.unlabelled) (t : Token) (b : Bool) :
    ctx.record t b = ctx'.record t b := by
  apply eq_of_unlabelled
  · rw [unlabelled_record, unlabelled_record, h]
  · rw [labelNext_record, labelNext_record]

end LexContext

/-! ## the colon of a label -/

namespace Piece

/-- whether a colon after the text, which is given backwards, can open a label -/
def allowsLabel : Text → Bool
  | [] => true
  | b :: r => b == '\x7b' || b == ',' || isBlank b || (b == '.' && r.head? == some '.') || afterArrow (b :: r)

theorem atLabel_colon (behind r : Text) : atLabel behind (':' :: r) = (allowsLabel behind && r.startsWord) := by
  cases r with
  | nil => exact (Bool.and_false _).symm
  | cons c r =>
    show (isWordChar c && _) = (allowsLabel behind && isWordChar c)
    rw [Bool.and_comm]
    cases behind <;> rfl

theorem exists_of_atLabel {behind t : Text} (h : atLabel behind t = true) : ∃ r, t = ':' :: r := by
  cases t with
  | nil => cases h
  | cons c r =>
    refine ⟨r, ?_⟩
    by_contra hc
    rw [atLabel_of_ne fun h => hc (by rw [h])] at h
    cases h

theorem allowsLabel_of_isBlank {c : Char} (hc : isBlank c = true) (b : Text) : allowsLabel (c :: b) = true := by
  rw [allowsLabel, hc, Bool.or_true, Bool.true_or, Bool.true_or]

theorem afterArrow_two_append (c d : Char) (s b : Text) : afterArrow (c :: d :: s ++ b) = afterArrow (c :: d :: s) := by
  by_cases h : c = '>' ∧ d = '-'
  · obtain ⟨rfl, rfl⟩ := h
    rfl
  · have hnone : ∀ t : Text, afterArrow (c :: d :: t) = false := by
      intro t
      unfold afterArrow
      split
      · rename_i heq
        obtain ⟨hc, ht⟩ := List.cons.inj heq
        exact absurd ⟨hc, (List.cons.inj ht).1⟩ h
      · rfl
    exact (hnone _).trans (hnone _).symm

/-- two characters decide, and one when it is neither a dot nor the end of an arrow -/
theorem allowsLabel_append {s : Text} (hs : s ≠ []) (hlone : s ≠ ['.'] ∧ s ≠ ['>']) (b : Text) :
    allowsLabel (s ++ b) = allowsLabel s := by
  cases s with
  | nil => exact absurd rfl hs
  | cons c s =>
    cases s with
    | cons d s =>
      show (_ || afterArrow (c :: d :: s ++ b)) = _
      rw [afterArrow_two_append]
      rfl
    | nil =>
      have hdot : (c == '.') = false := beq_eq_false_iff_ne.mpr fun h => hlone.1 (by rw [h])
      have harrow : c ≠ '>' := fun h => hlone.2 (by rw [h])
      rw [List.singleton_append, allowsLabel, allowsLabel, hdot, afterArrow_cons harrow, afterArrow_cons harrow]
      rfl

end Piece

/-- no lexeme is a single dot -/
theorem Lexeme.length_lt_of_scan_dot {r rest : Text} {k : Lexeme} (h : scan ('.' :: r) = some (k, rest)) :
    rest.length < r.length := by
  obtain ⟨f, hf, h⟩ := exists_of_scan h
  simp only [scans, List.mem_cons, Prod.mk.injEq, List.not_mem_nil, or_false] at hf
  rcases hf with ⟨-, rfl⟩ | ⟨-, rfl⟩ | ⟨-, rfl⟩ | ⟨-, rfl⟩ | ⟨-, rfl⟩ | ⟨-, rfl⟩ | ⟨-, rfl⟩ | ⟨-, rfl⟩ | ⟨-, rfl⟩ |
    ⟨-, rfl⟩ | ⟨-, rfl⟩
  case inr.inr.inr.inr.inr.inr.inl => exact (Scan.advances_exactly '.' [] r rest h).2
  case inr.inr.inr.inr.inr.inr.inr.inl => exact (Scan.advances_many1 _ r rest h).2
  all_goals cases h

namespace Lexer

section
variable {catalog : Catalog} {l m : Lexer} {t : Token}

/-- a label is due after a colon that may open one, when a word follows it -/
theorem labelNext_of_lex (h : l.lex catalog = some (t, m)) : m.context.labelNext =
    (t.isDelimiter ":".toList && Piece.allowsLabel l.behind && m.rest.startsWord) := by
  obtain ⟨hrest, -, -⟩ := rest_of_lex h
  obtain ⟨p, hp, -, rfl, rfl⟩ := lex_eq_some h
  have hcut := Piece.cut_cut catalog l.context l.behind l.rest
  rw [← hp] at hcut
  show (l.context.record (l.token p) p.labelNext).labelNext = _
  rw [LexContext.labelNext_record]
  cases hcolon : (l.token p).isDelimiter ":".toList with
  | true =>
    obtain ⟨hkind, htext⟩ := Bool.and_eq_true_iff.mp hcolon
    rw [eq_of_beq htext] at hrest
    have hat : Piece.atLabel l.behind l.rest = (Piece.allowsLabel l.behind && p.rest.startsWord) := by
      rw [hrest]
      exact Piece.atLabel_colon l.behind p.rest
    rw [Bool.true_and]
    show p.labelNext = (Piece.allowsLabel l.behind && p.rest.startsWord)
    rw [← hat]
    cases hcut with
    | label | error => cases hkind
    | colon hlabel => exact hlabel.symm
    | lexeme k rest hlabel hscan =>
      rw [(Piece.ofLexeme_kind _ _ _ _ _).2.2]
      exact hlabel.symm
  | false =>
    rw [Bool.false_and, Bool.false_and]
    cases hcut with
    | label | error => rfl
    | lexeme => exact (Piece.ofLexeme_kind _ _ _ _ _).2.2
    | colon hlabel =>
      obtain ⟨r, hr⟩ := Piece.exists_of_atLabel hlabel
      have htext : (l.token ⟨.delimiter, none, true, true, l.rest.tail⟩).text = [':'] := by
        show taken l.rest l.rest.tail = [':']
        rw [hr]
        exact taken_append [':'] r
      rw [Token.isDelimiter, htext] at hcolon
      cases hcolon

/-- a dot or an angle bracket is a token of its own only at the end of a line -/
theorem ne_lone_of_lex (h : l.lex catalog = some (t, m)) (hm : m.rest ≠ []) : t.text ≠ ['.'] ∧ t.text ≠ ['>'] := by
  obtain ⟨hrest, -, -⟩ := rest_of_lex h
  obtain ⟨p, hp, -, rfl, rfl⟩ := lex_eq_some h
  suffices hlone : ∀ c, c = '.' ∨ c = '>' → (l.token p).text ≠ [c] from ⟨hlone _ (.inl rfl), hlone _ (.inr rfl)⟩
  intro c hc htext
  rw [htext] at hrest
  have hrest : l.rest = c :: p.rest := hrest
  have hword : ∀ r, Scan.word (c :: p.rest) ≠ some r := by
    intro r hr
    have hchar : isWordChar c = true := Text.startsWord_of_word hr
    rcases hc with rfl | rfl <;> exact absurd hchar (by decide)
  have hcut := Piece.cut_cut catalog l.context l.behind l.rest
  rw [← hp, hrest] at hcut
  generalize hs : p.rest = s at hcut hword
  cases hcut with
  | label rest hnext hw => exact hword _ hw
  | error => exact hm rfl
  | colon hlabel =>
    rw [Piece.atLabel_of_ne (by rcases hc with rfl | rfl <;> decide)] at hlabel
    cases hlabel
  | lexeme k rest hlabel hscan =>
    rw [Piece.rest_ofLexeme] at hs
    subst hs
    rcases Option.or_eq_some_iff.mp hscan with hmember | ⟨-, hscan⟩
    · rw [Piece.memberName, Option.ite_none_right_eq_some, Option.map_eq_some_iff] at hmember
      obtain ⟨-, r, hr, -⟩ := hmember
      exact hword r hr
    · rcases hc with rfl | rfl
      · exact absurd (Lexeme.length_lt_of_scan_dot hscan) (Nat.lt_irrefl _)
      · cases hscan

/-- what may stand before a colon is seen from the last token -/
theorem allowsLabel_of_lex (h : l.lex catalog = some (t, m)) (hm : m.rest ≠ []) :
    Piece.allowsLabel m.behind = Piece.allowsLabel t.text.reverse := by
  obtain ⟨-, hbehind, htext⟩ := rest_of_lex h
  obtain ⟨hdot, harrow⟩ := ne_lone_of_lex h hm
  have hreverse : ∀ c, t.text ≠ [c] → t.text.reverse ≠ [c] := by
    intro c hc h
    exact hc (by rw [← List.reverse_reverse t.text, h]; rfl)
  rw [hbehind]
  exact Piece.allowsLabel_append (List.reverse_ne_nil_iff.mpr htext) ⟨hreverse _ hdot, hreverse _ harrow⟩ _

/-- the next wanted token is cut where the lexer stands, or after blanks -/
theorem exists_of_next {keepBlanks : Bool} (h : l.next catalog keepBlanks = some (t, m)) :
    ∃ k : Lexer, k.lex catalog = some (t, m) ∧ k.context.unlabelled = l.context.unlabelled ∧
      (k = l ∨ l.offset < k.offset ∧ ∃ c b, k.behind = c :: b ∧ isBlank c = true) := by
  induction l using run_induct catalog with
  | done l hlex =>
    rw [next_of_lex_eq_none hlex] at h
    cases h
  | step l u k hlex ih =>
    rw [next_of_lex hlex] at h
    split at h
    · obtain ⟨rfl, rfl⟩ := Prod.mk.inj (Option.some.inj h)
      exact ⟨l, hlex, rfl, .inl rfl⟩
    · rename_i hwants
      have hkind : u.kind = .whitespace := by
        rw [wants, Bool.or_eq_true, bne_iff_ne, not_or, not_not] at hwants
        exact hwants.2
      obtain ⟨-, -, hlt, -⟩ := offset_of_lex hlex
      obtain ⟨-, hbehind, htext⟩ := rest_of_lex hlex
      have hcontext : k.context.unlabelled = l.context.unlabelled := by
        obtain ⟨p, -, -, rfl, rfl⟩ := lex_eq_some hlex
        show (l.context.record (l.token p) p.labelNext).unlabelled = _
        rw [LexContext.unlabelled_record, LexContext.record, hkind]
        rfl
      obtain ⟨c, b, hcb⟩ := List.exists_cons_of_ne_nil (List.reverse_ne_nil_iff.mpr htext)
      have hblank : isBlank c = true := by
        apply (isBlank_of_lex hlex).1 hkind
        rw [← List.mem_reverse, hcb]
        exact List.mem_cons_self
      obtain ⟨k', hk', hcontext', hplace⟩ := ih h
      refine ⟨k', hk', hcontext'.trans hcontext, .inr ?_⟩
      rcases hplace with rfl | ⟨hlt', hbehind'⟩
      · refine ⟨hlt, c, b ++ l.behind, ?_, hblank⟩
        rw [hbehind, hcb, List.cons_append]
      · exact ⟨Nat.lt_trans hlt hlt', hbehind'⟩

end

/-! ## what the tokens that were passed decide -/

/-- where the last of the tokens stops -/
def pastStop : List Token → Nat
  | [] => 0
  | t :: _ => t.stop

/-- the text of the last of the tokens, backwards -/
def pastText : List Token → Text
  | [] => []
  | t :: _ => t.text.reverse

def pastContext : List Token → LexContext
  | [] => .start
  | t :: past => (pastContext past).record t false

/-- whether the last of the tokens is a colon that can open a label -/
def pastColon : List Token → Bool
  | [] => false
  | t :: past => t.isDelimiter ":".toList && (decide (pastStop past < t.start) || Piece.allowsLabel (pastText past))

/-- The lexer has just passed the tokens, of which the last one comes first.  They decide its state, but for
the word that may follow a colon. -/
structure Past (past : List Token) (l : Lexer) : Prop where
  offset : l.offset = pastStop past
  context : l.context.unlabelled = pastContext past
  labelNext : l.context.labelNext = (pastColon past && l.rest.startsWord)
  allowsLabel : l.rest ≠ [] → Piece.allowsLabel l.behind = Piece.allowsLabel (pastText past)

theorem past_start (line : Text) (number : Nat) : Past [] (start line number) :=
  ⟨rfl, rfl, rfl, fun _ => rfl⟩

section
variable {catalog : Catalog} {keepBlanks : Bool} {past : List Token} {l m : Lexer}

/-- one token -/
theorem Past.next {t : Token} (hl : Past past l) (h : l.next catalog keepBlanks = some (t, m)) :
    Past (t :: past) m := by
  obtain ⟨k, hlex, hcontext, hplace⟩ := exists_of_next h
  obtain ⟨hstart, hstop, -, -⟩ := offset_of_lex hlex
  refine ⟨hstop.symm, ?_, ?_, allowsLabel_of_lex hlex⟩
  · obtain ⟨p, -, -, rfl, rfl⟩ := lex_eq_some hlex
    show (k.context.record (k.token p) p.labelNext).unlabelled = _
    rw [LexContext.unlabelled_record, hcontext, hl.context]
    rfl
  · have hallows : Piece.allowsLabel k.behind =
        (decide (pastStop past < t.start) || Piece.allowsLabel (pastText past)) := by
      rw [hstart, ← hl.offset]
      rcases hplace with rfl | ⟨hlt, c, b, hcb, hc⟩
      · obtain ⟨p, -, hne, -, -⟩ := lex_eq_some hlex
        rw [decide_eq_false (Nat.lt_irrefl _), Bool.false_or]
        exact hl.allowsLabel hne
      · rw [decide_eq_true hlt, Bool.true_or, hcb]
        exact Piece.allowsLabel_of_isBlank hc b
    rw [labelNext_of_lex hlex, hallows]
    rfl

/-- any number of tokens -/
theorem Past.take (catalog : Catalog) (keepBlanks : Bool) (n : Nat) (hl : Past past l)
    (hn : n ≤ (l.wanted catalog keepBlanks).length) :
    Past (((l.wanted catalog keepBlanks).take n).reverse ++ past) (l.take catalog keepBlanks n).2 := by
  induction n generalizing past l with
  | zero => exact hl
  | succ n ih =>
    have hw := wanted_eq catalog keepBlanks l
    rw [Lexer.take]
    cases h : l.next catalog keepBlanks with
    | none =>
      rw [h] at hw
      rw [hw] at hn
      exact absurd hn (Nat.not_succ_le_zero n)
    | some p =>
      rw [h] at hw
      rw [hw] at hn ⊢
      rw [List.take_succ_cons, List.reverse_cons, List.append_assoc]
      exact ih (hl.next h) (Nat.le_of_succ_le_succ hn)

/-- past the last token a lexer is at the end of its line -/
theorem offset_take (n : Nat) (hn : (l.wanted catalog keepBlanks).length < n) :
    (l.take catalog keepBlanks n).2.offset = Text.size l.text := by
  have hrest : (l.take catalog keepBlanks n).2.rest = [] := by
    induction n generalizing l with
    | zero => exact absurd hn (Nat.not_lt_zero _)
    | succ n ih =>
      have hw := wanted_eq catalog keepBlanks l
      rw [Lexer.take]
      cases h : l.next catalog keepBlanks with
      | none => exact rest_finish l
      | some p =>
        rw [h] at hw
        rw [hw] at hn
        exact ih (Nat.lt_of_succ_lt_succ hn)
  have hsize := size_text (l.take catalog keepBlanks n).2
  rw [text_take, hrest] at hsize
  exact hsize.symm

/-! ## what is left -/

/-- no wanted token is left when only blanks are left that are not wanted -/
theorem wanted_eq_nil_iff (l : Lexer) :
    l.wanted catalog keepBlanks = [] ↔ ∀ c ∈ l.rest, isBlank c = true ∧ keepBlanks = false := by
  induction l using run_induct catalog with
  | done l h =>
    rw [wanted_of_lex_eq_none h, rest_eq_nil_of_lex h]
    exact iff_of_true rfl (List.forall_mem_nil _)
  | step l t m h ih =>
    obtain ⟨hrest, -, htext⟩ := rest_of_lex h
    obtain ⟨hblanks, hother⟩ := isBlank_of_lex h
    obtain ⟨c, s, hcs⟩ := List.exists_cons_of_ne_nil htext
    rw [wanted_of_lex h, hrest, List.forall_mem_append]
    cases hwants : wants keepBlanks t with
    | true =>
      refine iff_of_false (List.cons_ne_nil _ _) ?_
      rintro ⟨hall, -⟩
      obtain ⟨hc, rfl⟩ := hall c (by rw [hcs]; exact List.mem_cons_self)
      have hkind : t.kind ≠ .whitespace := by
        rw [wants, Bool.false_or] at hwants
        exact bne_iff_ne.mp hwants
      rw [hother hkind c (by rw [hcs]; rfl)] at hc
      cases hc
    | false =>
      rw [wants, Bool.or_eq_false_iff, bne_eq_false_iff_eq] at hwants
      rw [if_neg Bool.false_ne_true, ih, and_iff_right]
      exact fun d hd => ⟨hblanks hwants.2 d hd, hwants.1⟩

theorem wanted_congr (h : l.lex catalog = m.lex catalog) :
    l.wanted catalog keepBlanks = m.wanted catalog keepBlanks := by
  cases hm : m.lex catalog with
  | none => rw [wanted_of_lex_eq_none (h.trans hm), wanted_of_lex_eq_none hm]
  | some p => rw [wanted_of_lex (h.trans hm), wanted_of_lex hm]

/-- whether a label is due does not matter when no word comes next -/
theorem lex_relabel {ctx : LexContext} (hctx : ctx.unlabelled = l.context.unlabelled)
    (hword : Scan.word l.rest = none) : ({ l with context := ctx } : Lexer).lex catalog = l.lex catalog := by
  have hlexeme : ∀ k s r, Piece.ofLexeme catalog ctx k s r = Piece.ofLexeme catalog l.context k s r := by
    intro k s r
    have h : Piece.ofLexeme catalog ctx.unlabelled k s r = Piece.ofLexeme catalog l.context.unlabelled k s r := by
      rw [hctx]
    cases k <;> exact h
  have hcut : Piece.cut catalog ctx l.behind l.rest = Piece.cut catalog l.context l.behind l.rest := by
    unfold Piece.cut
    rw [hword, ite_self, ite_self]
    simp only [hlexeme]
  have hafter : ∀ p, ({ l with context := ctx } : Lexer).after p = l.after p := fun p =>
    congrArg (Lexer.mk _ _ _) (LexContext.record_congr hctx (l.token p) p.labelNext)
  rw [lex, lex, show Piece.cut catalog _ _ _ = _ from hcut]
  simp only [hafter]
  rfl

theorem kind_cut_eq_label_iff (ctx : LexContext) (behind t : Text) :
    (Piece.cut catalog ctx behind t).kind = .label ↔ ctx.labelNext = true ∧ (Scan.word t).isSome = true := by
  unfold Piece.cut
  split
  · rename_i rest h
    rw [Option.ite_none_right_eq_some] at h
    exact iff_of_true rfl ⟨h.1, by rw [h.2]; rfl⟩
  · rename_i h
    refine iff_of_false ?_ ?_
    · split
      · exact nofun
      · split
        · exact Piece.ofLexeme_kind_ne_label _ _ _ _ _
        · exact nofun
    · rintro ⟨hnext, hword⟩
      rw [if_pos hnext] at h
      rw [h] at hword
      cases hword

/-- the next token names a label exactly when a label is due and a word comes next -/
theorem label_iff (catalog : Catalog) (keepBlanks : Bool) (l : Lexer) :
    (l.wanted catalog keepBlanks).head?.any (·.kind == .label) = true ↔
      l.context.labelNext = true ∧ (Scan.word l.rest).isSome = true := by
  induction l using run_induct catalog with
  | done l h =>
    rw [wanted_of_lex_eq_none h, rest_eq_nil_of_lex h]
    exact iff_of_false Bool.false_ne_true fun h => Bool.false_ne_true h.2
  | step l t m h ih =>
    have hkind : t.kind = .label ↔ l.context.labelNext = true ∧ (Scan.word l.rest).isSome = true := by
      obtain ⟨p, rfl, -, rfl, rfl⟩ := lex_eq_some h
      exact kind_cut_eq_label_iff l.context l.behind l.rest
    rw [wanted_of_lex h, ← hkind]
    cases hwants : wants keepBlanks t with
    | true => exact beq_iff_eq
    | false =>
      rw [wants, Bool.or_eq_false_iff, bne_eq_false_iff_eq] at hwants
      rw [if_neg Bool.false_ne_true, ih, labelNext_of_lex h, Token.isDelimiter, hwants.2]
      exact iff_of_false (fun h => Bool.false_ne_true h.1) nofun

/-- whether a label is due matters exactly when a word comes next -/
theorem wanted_relabel_iff {ctx : LexContext} (hctx : ctx.unlabelled = l.context.unlabelled) :
    ({ l with context := ctx } : Lexer).wanted catalog keepBlanks = l.wanted catalog keepBlanks ↔
      ((Scan.word l.rest).isSome = true → ctx.labelNext = l.context.labelNext) := by
  constructor
  · intro h hword
    have hlabel := label_iff catalog keepBlanks { l with context := ctx }
    rw [h, label_iff, and_iff_left hword, and_iff_left hword] at hlabel
    exact (Bool.eq_iff_iff.mpr hlabel).symm
  · intro h
    cases hword : Scan.word l.rest with
    | none => exact wanted_congr (lex_relabel hctx hword)
    | some rest =>
      have hctx' : ctx = l.context := LexContext.eq_of_unlabelled hctx (h (by rw [hword]; rfl))
      rw [hctx']

/-- beyond the last token of a line no tokens are left, whatever the state -/
theorem wanted_resume_of_le (hl : l.wanted catalog keepBlanks = []) {s : LexState} (hs : l.offset ≤ s.offset) :
    (resume l.text s).wanted catalog keepBlanks = [] := by
  rw [wanted_eq_nil_iff] at hl ⊢
  have hdrop : (resume l.text s).rest = Text.dropBytes (s.offset - l.offset) l.rest := by
    have h := Text.dropBytes_append l.behind.reverse l.rest (s.offset - l.offset)
    rw [Text.size_reverse, show Text.size l.behind = l.offset from rfl, Nat.sub_add_cancel hs] at h
    exact h
  intro c hc
  apply hl c
  rw [← Text.takeBytes_append_dropBytes (s.offset - l.offset) l.rest, ← hdrop]
  exact List.mem_append_right _ hc

/-- two lexers have just passed the same tokens, and the state of the one is taken up on the line of the other -/
theorem wanted_resume_iff (catalog : Catalog) (keepBlanks : Bool) {l' : Lexer} (hl : Past past l)
    (hl' : Past past l') (hline : l.line = l'.line) :
    (resume l'.text l.state).wanted catalog keepBlanks = l'.wanted catalog keepBlanks ↔
      ((l'.wanted catalog keepBlanks).head?.any (·.kind == .label) = true → l.rest.startsWord = true) := by
  have hresume : resume l'.text l.state = { l' with context := l.context } := by
    have h := resume_at l' l.line l.context
    rw [hl'.offset, ← hl.offset] at h
    rw [← hline]
    exact h
  rw [hresume, wanted_relabel_iff (hl.context.trans hl'.context.symm), label_iff, hl.labelNext, hl'.labelNext]
  cases hword : Scan.word l'.rest with
  | none => exact iff_of_true (fun h => absurd h Bool.false_ne_true) fun h => absurd h.2 Bool.false_ne_true
  | some rest =>
    rw [Text.startsWord_of_word hword]
    cases pastColon past with
    | false => exact iff_of_true (fun _ => rfl) fun h => absurd h.1 Bool.false_ne_true
    | true => exact ⟨fun h _ => h rfl, fun h _ => h ⟨rfl, rfl⟩⟩

theorem line_take (n : Nat) (l : Lexer) : (l.take catalog keepBlanks n).2.line = l.line := by
  have hkept : Kept catalog fun m => m.line = l.line := by
    intro k t m h hk
    rw [(line_of_lex h).2, hk]
  exact hkept.take n rfl

/-- the same, some tokens later -/
theorem wanted_resume_take_iff {l' : Lexer} (hl : Past past l) (hl' : Past past l') (hline : l.line = l'.line)
    (n : Nat) (h : (l.wanted catalog keepBlanks).take n = (l'.wanted catalog keepBlanks).take n) :
    (resume l'.text (l.take catalog keepBlanks n).2.state).wanted catalog keepBlanks =
        (l'.wanted catalog keepBlanks).drop n ↔
      ((l'.wanted catalog keepBlanks)[n]?.any (·.kind == .label) = true →
        (l.take catalog keepBlanks n).2.rest.startsWord = true) := by
  have hlength := congrArg List.length h
  rw [List.length_take, List.length_take] at hlength
  by_cases hn : n ≤ (l.wanted catalog keepBlanks).length
  · have hm := hl.take catalog keepBlanks n hn
    have hm' := hl'.take catalog keepBlanks n (by omega)
    rw [h] at hm
    have hiff := wanted_resume_iff catalog keepBlanks hm hm' (by rw [line_take, line_take, hline])
    rw [text_take, (take_eq catalog keepBlanks n l').2, List.head?_drop] at hiff
    exact hiff
  · -- all tokens were passed, and the two lines have the same ones
    obtain ⟨j, hj⟩ : ∃ j, (l'.wanted catalog keepBlanks).length = j := ⟨_, rfl⟩
    have hall : l.wanted catalog keepBlanks = l'.wanted catalog keepBlanks := by
      rw [List.take_of_length_le (by omega), List.take_of_length_le (by omega)] at h
      exact h
    have hoffset : (l'.take catalog keepBlanks j).2.offset ≤ (l.take catalog keepBlanks n).2.offset := by
      have hm := hl.take catalog keepBlanks j (by rw [hall, hj])
      have hm' := hl'.take catalog keepBlanks j (Nat.le_of_eq hj.symm)
      have hle := offset_le_size (l.take catalog keepBlanks j).2
      rw [hm'.offset, offset_take n (Nat.lt_of_not_le hn), ← hall, ← hm.offset]
      rw [text_take] at hle
      exact hle
    have hleft : (l'.take catalog keepBlanks j).2.wanted catalog keepBlanks = [] := by
      rw [(take_eq catalog keepBlanks j l').2, ← hj, List.drop_length]
    have hresume := wanted_resume_of_le hleft (s := (l.take catalog keepBlanks n).2.state) hoffset
    rw [text_take] at hresume
    rw [hresume, List.drop_eq_nil_of_le (by omega), List.getElem?_eq_none (by omega)]
    exact iff_of_true rfl fun h => absurd h Bool.false_ne_true

end
end Lexer

/-- **Edits.**  Two lines start with the same `k` tokens.  The state after these tokens on the one line, taken
up on the other, leads to the tokens of the other line after the first `k`, exactly when this holds: if the next
of them names a label, then a word follows the `k` tokens on the first line too. -/
theorem resume_edited_iff (catalog : Catalog) (keepBlanks : Bool) (line line' : Text) (number k : Nat)
    (h : (tokenizeWith catalog keepBlanks line number).take k =
      (tokenizeWith catalog keepBlanks line' number).take k) :
    ((Lexer.resume line' ((Lexer.start line number).take catalog keepBlanks k).2.state).drain catalog keepBlanks).1 =
        (tokenizeWith catalog keepBlanks line' number).drop k ↔
      ((tokenizeWith catalog keepBlanks line' number)[k]?.any (·.kind == .label) = true →
        ((Lexer.start line number).take catalog keepBlanks k).2.rest.startsWord = true) := by
  rw [tokenizeWith_eq, tokenizeWith_eq] at h
  rw [tokenizeWith_eq, Lexer.drain_eq]
  exact Lexer.wanted_resume_take_iff (Lexer.past_start line number) (Lexer.past_start line' number) rfl k h

/-- a label whose name is edited is taken up as a label -/
theorem resume_edited_name :
    (tokenizeWith .builtin false ":a".toList 0).take 1 = (tokenizeWith .builtin false ":bc".toList 0).take 1 ∧
      ((Lexer.resume ":bc".toList ((Lexer.start ":a".toList 0).take .builtin false 1).2.state).drain .builtin false).1 =
        (tokenizeWith .builtin false ":bc".toList 0).drop 1 := by
  have h : (tokenizeWith .builtin false ":a".toList 0).take 1 = (tokenizeWith .builtin false ":bc".toList 0).take 1 := by
    decide +kernel
  exact ⟨h, (resume_edited_iff .builtin false ":a".toList ":bc".toList 0 1 h).mpr fun _ => by decide +kernel⟩

/-- the name that is typed after a colon is taken up as a plain word -/
theorem resume_edited_colon :
    (tokenizeWith .builtin false ":".toList 0).take 1 = (tokenizeWith .builtin false ":a".toList 0).take 1 ∧
      ((Lexer.resume ":a".toList ((Lexer.start ":".toList 0).take .builtin false 1).2.state).drain .builtin false).1 ≠
        (tokenizeWith .builtin false ":a".toList 0).drop 1 := by
  decide +kernel

end Smali
