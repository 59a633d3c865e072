import Mathlib.Data.List.Chain
import Smali.Proofs.Token.Edited

/-!
# How the tokens of a line lie

What the readers of a line rely on about the tokens that they are given.

* `Token.Sits`      a token is a piece of its line, it is not empty, and a string has its quotes;
* `Layout`          such tokens one after the other, as all tokens of a line are (`layout_tokenize`);
* `names_significant`  the name of a label directly follows the token before it;
* `exists_stop_of_not_blank`  no character but blanks is outside the tokens.
-/

namespace Smali

/-! ## strings -/

namespace Scan

/-- a string goes up to its closing quote -/
theorem exists_of_stringRest {t rest : Text} (h : stringRest t = some rest) : ∃ s, t = s ++ '"' :: rest := by
  fun_induction stringRest t with
  | case1 => cases h
  | case2 r =>
    obtain rfl := Option.some.inj h
    exact ⟨[], rfl⟩
  | case3 c r ih =>
    obtain ⟨s, rfl⟩ := ih h
    exact ⟨'\\' :: c :: s, rfl⟩
  | case4 => cases h
  | case5 c r _ _ _ ih =>
    obtain ⟨s, rfl⟩ := ih h
    exact ⟨c :: s, rfl⟩

theorem exists_of_string {t rest : Text} (h : string t = some rest) : ∃ s, t = '"' :: (s ++ '"' :: rest) := by
  unfold string at h
  split at h
  · obtain ⟨s, rfl⟩ := exists_of_stringRest h
    exact ⟨s, rfl⟩
  · cases h

theorem exists_of_one {p : Char → Bool} {t rest : Text} (h : one p t = some rest) :
    ∃ c, t = c :: rest ∧ p c = true := by
  cases t with
  | nil => cases h
  | cons c r =>
    rw [one, Option.ite_none_right_eq_some] at h
    obtain ⟨hc, hr⟩ := h
    obtain rfl := Option.some.inj hr
    exact ⟨c, rfl, hc⟩

/-- a character literal goes up to its closing quote -/
theorem exists_of_char {t rest : Text} (h : char t = some rest) : ∃ s, t = '\'' :: (s ++ '\'' :: rest) := by
  obtain ⟨body, hopen, h⟩ := Option.bind_eq_some_iff.mp h
  obtain ⟨closing, hbody, hclose⟩ := Option.bind_eq_some_iff.mp h
  obtain ⟨c, rfl, hc⟩ := exists_of_one hopen
  obtain ⟨d, rfl, hd⟩ := exists_of_one hclose
  obtain ⟨s, rfl⟩ := keeps_charBody _ _ hbody
  rw [beq_iff_eq.mp hc, beq_iff_eq.mp hd]
  exact ⟨s, rfl⟩

end Scan

theorem Lexeme.exists_of_scan_string {t rest : Text} (h : scan t = some (.string, rest)) :
    ∃ q s, t = q :: (s ++ q :: rest) := by
  obtain ⟨f, hf, h⟩ := exists_of_scan h
  simp only [scans, List.mem_cons, Prod.mk.injEq, reduceCtorEq, false_and, false_or, or_false, true_and,
    List.not_mem_nil] at hf
  rcases hf with rfl | rfl
  · exact ⟨'"', Scan.exists_of_string h⟩
  · exact ⟨'\'', Scan.exists_of_char h⟩

namespace Piece

variable {catalog : Catalog} {ctx : LexContext} {behind t : Text}

theorem ofLexeme_kind_eq_string {k : Lexeme} {s r : Text} (h : (ofLexeme catalog ctx k s r).kind = .string) :
    k = .string := by
  cases k with
  | string => rfl
  | word =>
    have hword : ctx.wordKind catalog s = .string := h
    cases hs : LexContext.isRegister s with
    | true =>
      rw [LexContext.wordKind_of_isRegister catalog ctx hs] at hword
      cases hword
    | false =>
      rcases LexContext.wordKind_of_not_isRegister catalog ctx hs with h' | h' <;> rw [h'] at hword <;> cases hword
  | directive =>
    simp only [ofLexeme] at h
    split at h <;> cases h
  | whitespace | comment | number | hexNumber | punctuation => cases h

theorem exists_of_string (h : (cut catalog ctx behind t).kind = .string) :
    ∃ q s, t = q :: (s ++ q :: (cut catalog ctx behind t).rest) := by
  have hcut := cut_cut catalog ctx behind t
  generalize cut catalog ctx behind t = p at h hcut
  cases hcut with
  | label | colon | error => cases h
  | lexeme k rest hlabel hscan =>
    obtain rfl := ofLexeme_kind_eq_string h
    rw [rest_ofLexeme]
    exact Lexeme.exists_of_scan_string (scan_of_ne_word (by decide) hscan)

end Piece

/-! ## one token after the other -/

/-- the token is a piece of line `number`, whose text is `line` -/
structure Token.Sits (line : Text) (number : Nat) (t : Token) : Prop where
  cut : t.CutFrom line
  line : t.line = number
  start_lt_stop : t.start < t.stop
  /-- a string has a quote at either end -/
  quoted : t.kind = .string → ∃ q s, t.text = q :: (s ++ [q])

/-- tokens of line `number` one after the other -/
structure Layout (line : Text) (number : Nat) (ts : List Token) : Prop where
  sits : ∀ t ∈ ts, t.Sits line number
  order : ts.Pairwise fun a b => a.stop ≤ b.start

namespace Layout

variable {line : Text} {number : Nat} {ts rest : List Token}

theorem sublist (h : Layout line number ts) (hs : rest.Sublist ts) : Layout line number rest :=
  ⟨fun t ht => h.sits t (hs.subset ht), h.order.sublist hs⟩

theorem start_le (h : Layout line number ts) {a b : Token} {us : List Token} (hts : ts = a :: us) (hb : b ∈ ts) :
    a.start ≤ b.start := by
  subst hts
  rcases List.mem_cons.mp hb with rfl | hb
  · exact Nat.le_refl _
  · have hstop := (List.pairwise_cons.mp h.order).1 b hb
    have := (h.sits a List.mem_cons_self).start_lt_stop
    omega

theorem stop_le (h : Layout line number ts) {a b : Token} (hts : ts.getLast? = some b) (ha : a ∈ ts) :
    a.stop ≤ b.stop := by
  obtain ⟨us, rfl⟩ := List.getLast?_eq_some_iff.mp hts
  rcases List.mem_append.mp ha with ha | ha
  · have horder := (List.pairwise_append.mp h.order).2.2 a ha b (List.mem_singleton_self b)
    have := (h.sits b (List.mem_append_right us (List.mem_singleton_self b))).start_lt_stop
    omega
  · obtain rfl := List.mem_singleton.mp ha
    exact Nat.le_refl _

end Layout

namespace Lexer

section
variable {catalog : Catalog} {l m : Lexer} {t : Token}

theorem sits_of_lex (h : l.lex catalog = some (t, m)) : t.Sits l.text l.line where
  cut := cutFrom_of_lex h
  line := (line_of_lex h).1
  start_lt_stop := by
    obtain ⟨hstart, hstop, hlt, -⟩ := offset_of_lex h
    omega
  quoted := by
    intro hk
    have hrest := (rest_of_lex h).1
    obtain ⟨p, hp, -, rfl, rfl⟩ := lex_eq_some h
    obtain ⟨q, s, hqs⟩ := Piece.exists_of_string (hp ▸ hk)
    refine ⟨q, s, List.append_cancel_right (hrest.symm.trans ?_)⟩
    rw [hqs, ← hp]
    show _ = q :: (s ++ [q] ++ p.rest)
    rw [List.append_assoc]
    rfl

/-- only a label that is due has its name here -/
theorem labelNext_of_label (h : l.lex catalog = some (t, m)) (hk : t.kind = .label) :
    l.context.labelNext = true := by
  obtain ⟨p, rfl, -, rfl, rfl⟩ := lex_eq_some h
  exact ((kind_cut_eq_label_iff l.context l.behind l.rest).mp hk).1

/-- the name of a label comes first only where a label is due, and then nothing is before it -/
theorem start_of_label (l : Lexer) (hk : (l.significant catalog).head? = some t) (ht : t.kind = .label) :
    l.context.labelNext = true ∧ t.start = l.offset := by
  cases h : l.lex catalog with
  | none =>
    rw [significant, tokens_of_lex_eq_none h] at hk
    cases hk
  | some p =>
    obtain ⟨u, m⟩ := p
    have := length_lt_of_lex h
    rw [significant_of_lex h] at hk
    split at hk
    · obtain rfl := Option.some.inj hk
      exact ⟨labelNext_of_label h ht, (offset_of_lex h).1⟩
    · -- after a blank or a comment no label is due
      rename_i hu
      have hnext := (start_of_label m hk ht).1
      rw [labelNext_of_lex h, Bool.and_eq_true_iff, Bool.and_eq_true_iff] at hnext
      have hkind := beq_iff_eq.mp (Bool.and_eq_true_iff.mp hnext.1.1).1
      rw [Token.isSignificant, hkind] at hu
      exact absurd rfl hu
termination_by l.rest.length

theorem layout_tokens (catalog : Catalog) (l : Lexer) : Layout l.text l.line (l.tokens catalog) := by
  refine ⟨forall_mem_tokens catalog (fun _ _ _ h => sits_of_lex h) l, ?_⟩
  induction l using run_induct catalog with
  | done l h =>
    rw [tokens_of_lex_eq_none h]
    exact .nil
  | step l t m h ih =>
    rw [tokens_of_lex h]
    refine List.pairwise_cons.mpr ⟨fun u hu => ?_, ih⟩
    rw [(offset_of_lex h).2.1]
    exact offset_le_start m u hu

theorem names_significant_tokens (catalog : Catalog) (l : Lexer) :
    (l.significant catalog).IsChain fun a b => b.kind = .label → a.stop = b.start := by
  induction l using run_induct catalog with
  | done l h =>
    rw [significant, tokens_of_lex_eq_none h]
    exact .nil
  | step l t m h ih =>
    rw [significant_of_lex h]
    split
    · refine List.isChain_cons.mpr ⟨fun u hu hk => ?_, ih⟩
      rw [(offset_of_lex h).2.1, (start_of_label m hu hk).2]
    · exact ih

/-- every character that is left and is no blank belongs to a token that is no whitespace -/
theorem exists_stop_le (catalog : Catalog) (l : Lexer) {a b : Text} {c : Char} (hrest : l.rest = a ++ c :: b)
    (hc : isBlank c = false) :
    ∃ t ∈ l.tokens catalog, t.kind ≠ .whitespace ∧ l.offset + Text.size (a ++ [c]) ≤ t.stop := by
  induction l using run_induct catalog generalizing a with
  | done l h =>
    rw [rest_eq_nil_of_lex h] at hrest
    exact absurd hrest.symm (List.append_ne_nil_of_right_ne_nil a (List.cons_ne_nil c b))
  | step l t m h ih =>
    obtain ⟨hstart, hstop, -, -⟩ := offset_of_lex h
    have hsize : t.stop = l.offset + Text.size t.text := by
      rw [Token.stop, hstart]
      rfl
    rw [tokens_of_lex h]
    have later : ∀ s, a = t.text ++ s → m.rest = s ++ c :: b → ∃ u ∈ t :: m.tokens catalog,
        u.kind ≠ .whitespace ∧ l.offset + Text.size (a ++ [c]) ≤ u.stop := by
      intro s ha hm
      obtain ⟨u, hu, hk, hle⟩ := ih hm
      refine ⟨u, List.mem_cons_of_mem t hu, hk, ?_⟩
      rw [ha, List.append_assoc, Text.size_append]
      omega
    rw [(rest_of_lex h).1] at hrest
    rcases List.append_eq_append_iff.mp hrest with ⟨s, ha, hm⟩ | ⟨s, ht, hm⟩
    · exact later s ha hm
    · cases s with
      | nil => exact later [] (by rw [ht, List.append_nil, List.append_nil]) hm.symm
      | cons d s =>
        obtain rfl := (List.cons.inj hm).1
        refine ⟨t, List.mem_cons_self, ?_, ?_⟩
        · intro hk
          have hmem : c ∈ t.text := by
            rw [ht]
            exact List.mem_append_right a List.mem_cons_self
          rw [(isBlank_of_lex h).1 hk c hmem] at hc
          cases hc
        · rw [hsize, ht, Text.size_append, Text.size_append, Text.size_cons, Text.size_cons, Text.size_nil]
          omega

end
end Lexer

section
variable (catalog : Catalog) (line : Text) (number : Nat)

/-- the tokens of a line lie one after the other -/
theorem layout_tokenizeWith (keepBlanks : Bool) : Layout line number (tokenizeWith catalog keepBlanks line number) := by
  rw [tokenizeWith_eq]
  exact (Lexer.layout_tokens catalog (Lexer.start line number)).sublist List.filter_sublist

theorem layout_tokenize : Layout line number (tokenize catalog line number) :=
  layout_tokenizeWith catalog line number false

/-- nothing stands before the name of a label but the token before it -/
theorem names_significant : ((tokenize catalog line number).filter Token.isSignificant).IsChain fun a b =>
    b.kind = .label → a.stop = b.start := by
  rw [tokenize_significant]
  exact Lexer.names_significant_tokens catalog (Lexer.start line number)

/-- a character that is no blank is not after the last token -/
theorem exists_stop_of_not_blank {a b : Text} {c : Char} (hline : line = a ++ c :: b) (hc : isBlank c = false) :
    ∃ t ∈ tokenize catalog line number, Text.size (a ++ [c]) ≤ t.stop := by
  obtain ⟨t, ht, hk, hle⟩ := Lexer.exists_stop_le catalog (Lexer.start line number) hline hc
  refine ⟨t, mem_tokenizeWith.mpr ⟨ht, bne_iff_ne.mpr hk⟩, ?_⟩
  exact Nat.le_trans (Nat.le_add_left _ _) hle

end
end Smali
