import Smali.Proofs.Line.Move
import Smali.Proofs.Token.Comment

/-!
# The tokens of a line with something around it

Blanks before a line move its tokens.  A comment after a line, with blanks before it, is one more token, as long as
nothing is left open that would go on into it.

* `Scan.LocalFrom f`     once a character is there, what follows has no say in what `f` recognises;
* `Lexeme.scan_of_stops`, `Piece.cut_of_stops`, `Lexer.lex_of_stops`  what comes before a text that no word goes on
                         with;
* `Lexer.wanted_of_blanks`  blanks are passed over;
* `tokenize_indent`      the tokens of a line with blanks before it;
* `tokenize_remark`      the tokens of a line with a comment after it.
-/

namespace Smali

open Text (Stops)

theorem Text.stops_of_isBlank {c : Char} (hc : isBlank c = true) (r : Text) : Stops (c :: r) := by
  refine stops_cons ⟨?_, ?_, ?_⟩ r
  · rw [isWordChar, hc]
    rfl
  · rintro rfl
    cases hc
  · rintro rfl
    cases hc

/-! ## lexemes before a text that stops them -/

namespace Scan

/-- once a character is there, what follows has no say in what is recognised -/
def LocalFrom (f : Scan) : Prop :=
  ∀ c w r, Stops r → f (c :: w ++ r) = (f (c :: w)).map (· ++ r)

theorem Local.localFrom {f : Scan} (hf : Local f) : LocalFrom f :=
  fun c w r hr => hf (c :: w) r hr

theorem localFrom_one (p : Char → Bool) : LocalFrom (one p) := by
  intro c w r hr
  rw [List.cons_append, one, one]
  split <;> rfl

/-- the first character may be one that ends a word -/
theorem localFrom_exactly (d : Char) {s : Text} (hs : s.all (fun c => isWordChar c || c == '.' || c == '>') = true) :
    LocalFrom (exactly (d :: s)) := by
  intro c w r hr
  rw [List.cons_append, exactly_cons, exactly_cons]
  split
  · exact local_exactly hs w r hr
  · rfl

theorem LocalFrom.either {f g : Scan} (hf : LocalFrom f) (hg : LocalFrom g) : LocalFrom (either f g) := by
  intro c w r hr
  rw [Scan.either, Scan.either, hf c w r hr, hg c w r hr]
  cases f (c :: w) <;> rfl

theorem local_directiveWord : Local directiveWord := by
  refine Local.bind (local_one fun c hc => .inr (beq_iff_eq.mp hc)) (local_many1 fun c hc => .inl ?_)
  simp only [Bool.or_eq_true, beq_iff_eq] at hc
  rcases hc with (hc | rfl) | rfl
  · exact isWordChar_of_isAlphanumeric hc
  · decide
  · decide

/-- all lexemes but blanks, comments, strings and characters -/
theorem localFrom_of_mem_scans {p : Lexeme × Scan} (hp : p ∈ Lexeme.scans.drop 4) : LocalFrom p.2 := by
  simp only [Lexeme.scans, List.drop_succ_cons, List.drop_zero, List.mem_cons, List.not_mem_nil, or_false] at hp
  rcases hp with rfl | rfl | rfl | rfl | rfl | rfl | rfl
  · exact local_hexNumber.localFrom
  · exact local_decimalNumber.localFrom
  · exact ((local_exactly (by decide)).either (local_exactly (by decide))).localFrom
  · exact local_directiveWord.localFrom
  · exact (localFrom_exactly _ (by decide)).either (localFrom_exactly _ (by decide))
  · exact local_word.localFrom
  · exact localFrom_one _

end Scan

namespace Lexeme

theorem findSome?_append {t r : Text} {l : List (Lexeme × Scan)} (hl : ∀ p ∈ l, p.2 (t ++ r) = (p.2 t).map (· ++ r)) :
    (l.findSome? fun p => (p.2 (t ++ r)).map (Prod.mk p.1)) =
      (l.findSome? fun p => (p.2 t).map (Prod.mk p.1)).map fun q => (q.1, q.2 ++ r) := by
  induction l with
  | nil => rfl
  | cons p l ih =>
    obtain ⟨hp, hl⟩ := List.forall_mem_cons.mp hl
    rw [List.findSome?_cons, List.findSome?_cons, hp]
    cases p.2 t with
    | some s => rfl
    | none => exact ih hl

/-- **A lexeme before a text that stops it.**  Blanks go on with blanks and comments with anything, and the other
lexemes are the same whatever follows. -/
theorem scan_of_stops {w r s : Text} {k : Lexeme} (hr : Stops r) (h : scan w = some (k, s)) (hblank : k ≠ .whitespace)
    (hcomment : k ≠ .comment) : scan (w ++ r) = some (k, s ++ r) := by
  cases w with
  | nil => cases h
  | cons c w =>
    cases hc : isBlank c with
    | true =>
      rw [scan_of_isBlank hc] at h
      exact absurd (Prod.mk.inj (Option.some.inj h)).1.symm hblank
    | false =>
      by_cases hhash : c = '#'
      · subst hhash
        exact absurd (Prod.mk.inj (Option.some.inj h)).1.symm hcomment
      by_cases hquote : c = '"'
      · subst hquote
        obtain ⟨rfl, hrest⟩ := Lexer.stringRest_of_scan h
        rw [List.cons_append, Lexer.scan_quote, Lexer.stringRest_append hrest]
        rfl
      by_cases hapostrophe : c = '\''
      · subst hapostrophe
        obtain ⟨rfl, hbody⟩ := Lexer.charBody_of_scan h
        rw [List.cons_append, Lexer.scan_apostrophe, Lexer.charBody_append hbody]
        rfl
      rw [scan_of_head hc hhash hquote hapostrophe] at h
      rw [List.cons_append, scan_of_head hc hhash hquote hapostrophe, ← List.cons_append,
        findSome?_append fun p hp => Scan.localFrom_of_mem_scans hp c w r hr, h]
      rfl

end Lexeme

/-! ## pieces -/

namespace Piece

variable {catalog : Catalog} {ctx : LexContext} {behind : Text}

theorem lexeme_of_stops {w r s : Text} {k : Lexeme} (hr : Stops r)
    (h : (memberName behind w).or (Lexeme.scan w) = some (k, s)) (hblank : k ≠ .whitespace) (hcomment : k ≠ .comment) :
    (memberName behind (w ++ r)).or (Lexeme.scan (w ++ r)) = some (k, s ++ r) := by
  rw [memberName_of_stops hr]
  cases hmember : memberName behind w with
  | none =>
    rw [hmember, Option.none_or] at h
    rw [Option.map_none, Option.none_or, Lexeme.scan_of_stops hr h hblank hcomment]
  | some p =>
    rw [hmember, Option.some_or, Option.some.injEq] at h
    rw [h]
    rfl

/-- **A piece before a text that stops it.** -/
theorem cut_of_stops {w r : Text} (hw : w ≠ []) (hr : Stops r) (hblank : (cut catalog ctx behind w).kind ≠ .whitespace)
    (hcomment : (cut catalog ctx behind w).kind ≠ .comment) (herror : (cut catalog ctx behind w).kind ≠ .error) :
    cut catalog ctx behind (w ++ r) =
      { cut catalog ctx behind w with rest := (cut catalog ctx behind w).rest ++ r } := by
  obtain ⟨c, w, rfl⟩ := List.exists_cons_of_ne_nil hw
  have hword : (if ctx.labelNext then Scan.word (c :: w ++ r) else none) =
      (if ctx.labelNext then Scan.word (c :: w) else none).map (· ++ r) := by
    rw [Scan.local_word _ r hr]
    split <;> rfl
  unfold cut at hblank hcomment herror ⊢
  rw [hword, atLabel_of_stops hr]
  cases hlabel : (if ctx.labelNext then Scan.word (c :: w) else none) with
  | some u => rfl
  | none =>
    rw [hlabel] at hblank hcomment herror
    rw [Option.map_none]
    dsimp only at hblank hcomment herror ⊢
    split
    · rfl
    · rename_i hcolon
      rw [if_neg hcolon] at hblank hcomment herror
      cases hfound : (memberName behind (c :: w)).or (Lexeme.scan (c :: w)) with
      | none =>
        rw [hfound] at herror
        exact absurd rfl herror
      | some p =>
        obtain ⟨k, s⟩ := p
        rw [hfound] at hblank hcomment
        rw [lexeme_of_stops hr hfound (fun hk => hblank (by rw [hk]; rfl)) (fun hk => hcomment (by rw [hk]; rfl))]
        dsimp only
        rw [taken_append_right]
        cases k <;> rfl

end Piece

/-! ## the run of a lexer -/

namespace Lexer

variable {catalog : Catalog} {l m : Lexer} {t : Token}

/-- **A step of the lexer before a text that stops it.**  The blanks at the end of a line may go on. -/
theorem lex_of_stops {r : Text} (hr : Stops r) (h : l.lex catalog = some (t, m)) (hcomment : t.kind ≠ .comment)
    (herror : t.kind ≠ .error) (hblank : t.kind = .whitespace → m.rest ≠ []) :
    lex catalog { l with rest := l.rest ++ r } = some (t, { m with rest := m.rest ++ r }) := by
  obtain ⟨p, hp, hne, rfl, rfl⟩ := lex_eq_some h
  have hcut : Piece.cut catalog l.context l.behind (l.rest ++ r) = { p with rest := p.rest ++ r } := by
    by_cases hk : p.kind = .whitespace
    · obtain ⟨c, w, hw, hc⟩ := Piece.exists_of_whitespace (hp ▸ hk)
      have hrest : p.rest ≠ [] := hblank hk
      rw [hw, Piece.cut_of_blank hc] at hp
      rw [hw, List.cons_append, Piece.cut_of_blank hc, hp]
      rw [hp] at hrest
      dsimp only at hrest ⊢
      rw [List.dropWhile_append, if_neg (by rwa [List.isEmpty_iff])]
    · subst hp
      exact Piece.cut_of_stops hne hr hk hcomment herror
  rw [lex_of_cut (l := { l with rest := l.rest ++ r }) (List.append_ne_nil_of_left_ne_nil hne r) hcut, token_append,
    after_append]
  rfl

/-- blanks are passed over, and after them no label is due -/
theorem wanted_of_blanks {w r : Text} (hw : ∀ c ∈ w, isBlank c = true) (hne : w ≠ [])
    (hr : ∀ c, r.head? = some c → isBlank c = false) (hl : l.rest = w ++ r) :
    l.wanted catalog false =
      wanted catalog false ⟨w.reverse ++ l.behind, r, l.line, { l.context with labelNext := false }⟩ := by
  obtain ⟨c, w, rfl⟩ := List.exists_cons_of_ne_nil hne
  obtain ⟨hc, hw⟩ := List.forall_mem_cons.mp hw
  have hdrop : (w ++ r).dropWhile isBlank = r := by
    rw [List.dropWhile_append_of_pos hw, Text.dropWhile_of_head hr]
  have hcut : Piece.cut catalog l.context l.behind (c :: (w ++ r)) = _ := Piece.cut_of_blank hc (w ++ r)
  rw [hdrop, ← List.cons_append, ← hl] at hcut
  have htaken : taken l.rest r = c :: w := by
    rw [hl, taken_append]
  have hlex : l.lex catalog = some (l.token ⟨.whitespace, none, false, false, r⟩,
      ⟨(c :: w).reverse ++ l.behind, r, l.line, { l.context with labelNext := false }⟩) := by
    rw [lex_of_cut (by rw [hl]; exact List.cons_ne_nil _ _) hcut, after]
    dsimp only
    rw [htaken]
    rfl
  rw [wanted_of_lex hlex]
  rfl

/-- **Blanks before what is left** are passed over, also where more blanks follow them. -/
theorem wanted_indent {w : Text} (hw : ∀ c ∈ w, isBlank c = true) (hl : l.context.labelNext = false) :
    wanted catalog false { l with rest := w ++ l.rest } =
      wanted catalog false { l with behind := w.reverse ++ l.behind } := by
  by_cases hne : w = []
  · subst hne
    rfl
  · have hcontext : { l.context with labelNext := false } = l.context := by
      rw [← hl]
    have hblanks : ∀ c ∈ l.rest.takeWhile isBlank, isBlank c = true := fun c hc => List.mem_takeWhile_imp hc
    have hsplit : l.rest = l.rest.takeWhile isBlank ++ l.rest.dropWhile isBlank :=
      List.takeWhile_append_dropWhile.symm
    have hhead : ∀ c, (l.rest.dropWhile isBlank).head? = some c → isBlank c = false := by
      intro c hc
      have hnot := List.head?_dropWhile_not isBlank l.rest
      rw [hc] at hnot
      exact hnot
    rw [wanted_of_blanks (l := { l with rest := w ++ l.rest }) (w := w ++ l.rest.takeWhile isBlank)
      (r := l.rest.dropWhile isBlank) (List.forall_mem_append.mpr ⟨hw, hblanks⟩)
      (List.append_ne_nil_of_left_ne_nil hne _) hhead (by dsimp only; rw [List.append_assoc, ← hsplit])]
    dsimp only
    rw [hcontext, List.reverse_append, List.append_assoc]
    by_cases hmore : l.rest.takeWhile isBlank = []
    · rw [hmore, List.nil_append] at hsplit
      rw [hmore, ← hsplit]
      rfl
    · rw [wanted_of_blanks (l := { l with behind := w.reverse ++ l.behind }) hblanks hmore hhead hsplit]
      dsimp only
      rw [hcontext]

/-- the token of the comment with the given text after its `#`, `n` bytes further on -/
def remark (l : Lexer) (n : Nat) (body : Text) : Token :=
  ⟨.comment, '#' :: body, l.offset + n, l.line, none, false⟩

theorem wanted_hash {body : Text} (hl : l.rest = '#' :: body) : l.wanted catalog false = [l.remark 0 body] := by
  have hcut : Piece.cut catalog l.context l.behind l.rest = ⟨.comment, none, false, false, []⟩ := by
    rw [hl]
    exact Piece.cut_hash body
  have htoken : l.token ⟨.comment, none, false, false, []⟩ = l.remark 0 body := by
    have htaken := taken_append l.rest []
    rw [List.append_nil, hl] at htaken
    rw [token, hl, htaken]
    rfl
  have hlex : l.lex catalog = some (l.remark 0 body, l.after ⟨.comment, none, false, false, []⟩) := by
    rw [lex_of_cut (by rw [hl]; exact List.cons_ne_nil _ _) hcut, htoken]
  rw [wanted_of_lex hlex, wanted_of_lex_eq_none (l := l.after _) rfl]
  rfl

theorem wanted_of_blanks_hash {w body : Text} (hw : ∀ c ∈ w, isBlank c = true) (hl : l.rest = w ++ '#' :: body) :
    l.wanted catalog false = [l.remark (Text.size w) body] := by
  by_cases hne : w = []
  · subst hne
    exact wanted_hash hl
  · have hhead : ∀ c, ('#' :: body).head? = some c → isBlank c = false := by
      intro c hc
      obtain rfl := Option.some.inj hc
      rfl
    have hoffset : Text.size (w.reverse ++ l.behind) = l.offset + Text.size w := by
      rw [Text.size_append, Text.size_reverse, Nat.add_comm]
      rfl
    rw [wanted_of_blanks hw hne hhead hl, wanted_hash rfl]
    show [(⟨.comment, _, Text.size (w.reverse ++ l.behind), _, none, false⟩ : Token)] = _
    rw [hoffset]
    rfl

/-- **A comment after what is left.**  Where no token runs to the end of the line, the comment is one more token. -/
theorem wanted_remark (catalog : Catalog) (l : Lexer) {u : Text} (hu : ∀ c ∈ u, isBlank c = true) (hne : u ≠ [])
    (body : Text) (hno : ∀ t ∈ l.tokens catalog, t.kind ≠ .comment ∧ t.kind ≠ .error) :
    wanted catalog false { l with rest := l.rest ++ (u ++ '#' :: body) } =
      l.wanted catalog false ++ [l.remark (Text.size (l.rest ++ u)) body] := by
  induction l using run_induct catalog with
  | done l h =>
    rw [wanted_of_lex_eq_none h, List.nil_append, rest_eq_nil_of_lex h]
    exact wanted_of_blanks_hash hu rfl
  | step l t m h ih =>
    obtain ⟨hrest, -, -⟩ := rest_of_lex h
    obtain ⟨hstart, hstop, -, -⟩ := offset_of_lex h
    obtain ⟨-, hline⟩ := line_of_lex h
    rw [tokens_of_lex h] at hno
    obtain ⟨⟨hcomment, herror⟩, hno⟩ := List.forall_mem_cons.mp hno
    by_cases hend : t.kind = .whitespace ∧ m.rest = []
    · -- the blanks at the end of the line and those before the comment are one token
      have hlast := lex_of_rest_eq_nil catalog hend.2
      have hblanks := (isBlank_of_lex h).1 hend.1
      rw [hend.2, List.append_nil] at hrest
      have hall : ∀ c ∈ l.rest ++ u, isBlank c = true := by
        rw [hrest]
        exact List.forall_mem_append.mpr ⟨hblanks, hu⟩
      rw [wanted_of_lex h, wants, hend.1, wanted_of_lex_eq_none hlast]
      exact wanted_of_blanks_hash hall (List.append_assoc _ _ _).symm
    · have hstops : Stops (u ++ '#' :: body) := by
        obtain ⟨b, u, rfl⟩ := List.exists_cons_of_ne_nil hne
        exact Text.stops_of_isBlank (hu b List.mem_cons_self) _
      have hlex := lex_of_stops hstops h hcomment herror fun hk hm => hend ⟨hk, hm⟩
      have hremark : m.remark (Text.size (m.rest ++ u)) body = l.remark (Text.size (l.rest ++ u)) body := by
        have hoffset : m.offset + Text.size (m.rest ++ u) = l.offset + Text.size (l.rest ++ u) := by
          rw [← hstop, Token.stop, hstart, hrest, List.append_assoc, Text.size_append t.text, Nat.add_assoc]
          rfl
        rw [remark, remark, hoffset, hline]
      rw [wanted_of_lex hlex, wanted_of_lex h, ih hno, hremark]
      split
      · rfl
      · rfl

end Lexer

/-! ## lines -/

/-- **Blanks before a line** move its tokens. -/
theorem tokenize_indent (catalog : Catalog) {w : Text} (hw : ∀ c ∈ w, isBlank c = true) (line : Text) (number : Nat) :
    tokenize catalog (w ++ line) number = (tokenize catalog line number).map (Token.move ⟨0, w⟩) := by
  have htokens := Lexer.tokens_move (m := ⟨0, w⟩) hw catalog (Lexer.start line number)
  have hstart : (Lexer.start line number).move ⟨0, w⟩ = ⟨w.reverse ++ [], line, number, .start⟩ := by
    rw [List.append_nil]
    rfl
  have hindent : tokenize catalog (w ++ line) number =
      Lexer.wanted catalog false ((Lexer.start line number).move ⟨0, w⟩) := by
    rw [hstart, tokenize_eq]
    exact Lexer.wanted_indent (l := Lexer.start line number) hw rfl
  rw [hindent, tokenize_eq, Lexer.wanted, htokens, List.filter_map]
  rfl

/-- **A comment after a line** with no comment and no error is one more token, if blanks stand before it. -/
theorem tokenize_remark {catalog : Catalog} {line : Text} {number : Nat}
    (hno : ∀ t ∈ tokenize catalog line number, t.kind ≠ .comment ∧ t.kind ≠ .error) {u : Text}
    (hu : ∀ c ∈ u, isBlank c = true) (hne : u ≠ []) (body : Text) :
    tokenize catalog (line ++ (u ++ '#' :: body)) number =
      tokenize catalog line number ++ [⟨.comment, '#' :: body, Text.size (line ++ u), number, none, false⟩] := by
  have hall : ∀ t ∈ (Lexer.start line number).tokens catalog, t.kind ≠ .comment ∧ t.kind ≠ .error := by
    intro t ht
    by_cases hk : t.kind = .whitespace
    · rw [hk]
      decide
    · exact hno t (mem_tokenizeWith.mpr ⟨ht, bne_iff_ne.mpr hk⟩)
  have h := Lexer.wanted_remark catalog (Lexer.start line number) hu hne body hall
  rw [Lexer.remark] at h
  have hoffset : (Lexer.start line number).offset + Text.size (line ++ u) = Text.size (line ++ u) := Nat.zero_add _
  rw [← hoffset, tokenize_eq, tokenize_eq]
  exact h

end Smali
