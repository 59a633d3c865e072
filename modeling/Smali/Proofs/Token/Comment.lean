import Smali.Proofs.Token.Tiling

/-!
# The tokens before a comment

A comment goes to the end of its line, and the tokens before it are those of the line without the comment.
Only a string or a character may run over a `#`, and then the `#` starts no comment.

* `Scan.Ends f`          a comment has no say in what `f` recognises, and `f` never goes into it;
* `Scan.Blind f`         a comment has no say in what `f` recognises before it;
* `Lexeme.scan_before`, `Piece.cut_before`, `Lexer.lex_before`  what comes before a comment, without it;
* `Lexer.tokens_of_comment`  the run of a lexer up to a comment;
* `tokenize_of_comment`  the tokens of a line with a comment.
-/

namespace Smali

theorem Text.stops_hash (r : Text) : Stops ('#' :: r) :=
  stops_cons (by decide) r

namespace Scan

/-! ## scans before a comment -/

/-- a comment has no say in what is recognised, and nothing of it is -/
def Ends (f : Scan) : Prop :=
  ∀ w r, f (w ++ '#' :: r) = (f w).map (· ++ '#' :: r)

/-- what is recognised before a comment is recognised without it, and the other way round -/
def Blind (f : Scan) : Prop :=
  ∀ w r s, f (w ++ '#' :: r) = some (s ++ '#' :: r) ↔ f w = some s

theorem Ends.blind {f : Scan} (hf : Ends f) : Blind f := by
  intro w r s
  rw [hf w r, Option.map_eq_some_iff]
  constructor
  · rintro ⟨u, hu, he⟩
    rwa [← List.append_cancel_right he]
  · exact fun h => ⟨s, h, rfl⟩

theorem Local.ends {f : Scan} (hf : Local f) : Ends f :=
  fun w r => hf w _ (Text.stops_hash r)

theorem ends_one {p : Char → Bool} (hp : p '#' = false) : Ends (one p) := by
  intro w r
  cases w with
  | nil =>
    rw [List.nil_append, one, hp]
    rfl
  | cons c w =>
    rw [List.cons_append, one, one]
    split <;> rfl

theorem dropWhile_append_hash {p : Char → Bool} (hp : p '#' = false) (w r : Text) :
    (w ++ '#' :: r).dropWhile p = w.dropWhile p ++ '#' :: r := by
  induction w with
  | nil =>
    rw [List.nil_append, List.dropWhile_cons, hp]
    rfl
  | cons c w ih =>
    rw [List.cons_append, List.dropWhile_cons, List.dropWhile_cons, ih]
    split <;> rfl

theorem ends_many1 {p : Char → Bool} (hp : p '#' = false) : Ends (many1 p) := by
  intro w r
  cases w with
  | nil =>
    rw [List.nil_append, many1, hp]
    rfl
  | cons c w =>
    rw [List.cons_append, many1, many1, dropWhile_append_hash hp]
    split <;> rfl

theorem ends_exactly {s : Text} (hs : '#' ∉ s) : Ends (exactly s) := by
  intro w r
  induction s generalizing w with
  | nil => rfl
  | cons p s ih =>
    rw [List.mem_cons, not_or] at hs
    obtain ⟨hp, hs⟩ := hs
    cases w with
    | nil =>
      rw [List.nil_append, exactly_cons_of_ne (Ne.symm hp)]
      rfl
    | cons c w =>
      rw [List.cons_append, exactly_cons, exactly_cons]
      split
      · exact ih hs w
      · rfl

theorem Ends.either {f g : Scan} (hf : Ends f) (hg : Ends g) : Ends (either f g) := by
  intro w r
  rw [Scan.either, Scan.either, hf w r, hg w r]
  cases f w <;> rfl

theorem Ends.andThen {f g : Scan} (hf : Ends f) (hg : Ends g) : Ends (andThen f g) := by
  intro w r
  rw [Scan.andThen, Scan.andThen, hf w r]
  cases f w with
  | none => rfl
  | some t => exact hg t r

theorem ends_word : Ends word :=
  local_word.ends

/-! ## strings and characters, which may run into a comment -/

theorem blind_one (p : Char → Bool) : Blind (one p) := by
  intro w r s
  cases w with
  | nil =>
    refine iff_of_false ?_ (Option.some_ne_none _).symm
    intro h
    have hlt := ((advances_one p) _ _ h).2
    rw [List.nil_append, List.length_append] at hlt
    omega
  | cons c w =>
    rw [List.cons_append, one, one]
    split
    · rw [Option.some.injEq, Option.some.injEq, List.append_cancel_right_eq]
    · exact iff_of_false (Option.some_ne_none _).symm (Option.some_ne_none _).symm

/-- the second scan leaves the comment, so the first one left it, too -/
theorem Blind.andThen {f g : Scan} (hf : Blind f) (hg : Blind g) (hkeeps : Keeps g) :
    Blind (andThen f g) := by
  intro w r s
  rw [Scan.andThen, Scan.andThen, Option.bind_eq_some_iff, Option.bind_eq_some_iff]
  constructor
  · rintro ⟨q, hq, h⟩
    obtain ⟨u, rfl⟩ : '#' :: r <:+ q :=
      List.IsSuffix.trans (List.suffix_append s ('#' :: r)) (hkeeps _ _ h)
    exact ⟨u, (hf w r u).mp hq, (hg u r s).mp h⟩
  · rintro ⟨u, hu, h⟩
    exact ⟨u ++ '#' :: r, (hf w r u).mpr hu, (hg u r s).mpr h⟩

theorem Ends.either_blind {f g : Scan} (hf : Ends f) (hg : Blind g) : Blind (Scan.either f g) := by
  intro w r s
  rw [Scan.either, Scan.either, hf w r]
  cases f w with
  | none => exact hg w r s
  | some u =>
    show some (u ++ '#' :: r) = some (s ++ '#' :: r) ↔ some u = some s
    rw [Option.some.injEq, Option.some.injEq, List.append_cancel_right_eq]

theorem hex4_eq (t : Text) : hex4 t = Scan.andThen (one isHexDigit) (Scan.andThen (one isHexDigit)
    (Scan.andThen (one isHexDigit) (one isHexDigit))) t := by
  match t with
  | [] => rfl
  | [a] => cases ha : isHexDigit a <;> simp [hex4, Scan.andThen, one, ha]
  | [a, b] => cases ha : isHexDigit a <;> cases hb : isHexDigit b <;> simp [hex4, Scan.andThen, one, ha, hb]
  | [a, b, c] =>
    cases ha : isHexDigit a <;> cases hb : isHexDigit b <;> cases hc : isHexDigit c <;>
      simp [hex4, Scan.andThen, one, ha, hb, hc]
  | a :: b :: c :: d :: r =>
    cases ha : isHexDigit a <;> cases hb : isHexDigit b <;> cases hc : isHexDigit c <;>
      cases hd : isHexDigit d <;> simp [hex4, Scan.andThen, one, ha, hb, hc, hd]

theorem ends_hex4 : Ends hex4 := by
  have hone : Ends (one isHexDigit) := ends_one (by decide)
  rw [funext hex4_eq]
  exact hone.andThen (hone.andThen (hone.andThen hone))

theorem blind_charBody : Blind charBody := by
  intro w r s
  have hescape : Blind (Scan.either (Scan.andThen (one (· == 'u')) hex4) (one fun _ => true)) :=
    ((ends_one (by decide)).andThen ends_hex4).either_blind (blind_one _)
  match w with
  | [] => exact blind_one (fun c => c != '\'') [] r s
  | c :: w =>
    by_cases hc : c = '\\'
    · subst hc
      exact hescape w r s
    · have hplain : ∀ t, charBody (c :: t) = one (fun c => c != '\'') (c :: t) := by
        intro t
        unfold charBody
        split
        · rename_i h
          exact absurd (List.cons.inj h).1 hc
        · rfl
      rw [List.cons_append, hplain, hplain]
      exact blind_one _ (c :: w) r s

theorem blind_char : Blind char := by
  have hquote : Blind (one (· == '\'')) := blind_one _
  have hbody : Blind (Scan.andThen charBody (one (· == '\''))) :=
    blind_charBody.andThen hquote (advances_one _).keeps
  refine hquote.andThen hbody fun t r h => ?_
  obtain ⟨u, hu, hr⟩ := Option.bind_eq_some_iff.mp h
  exact ((advances_one _).keeps _ _ hr).trans (keeps_charBody _ _ hu)

theorem stringRest_cons {c : Char} (hquote : c ≠ '"') (hslash : c ≠ '\\') (t : Text) :
    stringRest (c :: t) = stringRest t := by
  rw [stringRest]
  · exact fun h => hquote h
  · exact fun _ _ h => absurd h hslash
  · exact fun h => absurd h hslash

/-- a string that runs into the comment does not leave it -/
theorem stringRest_ne (r s : Text) : stringRest r ≠ some (s ++ '#' :: r) := by
  intro h
  have hle := (keeps_stringRest _ _ h).length_le
  rw [List.length_append, List.length_cons] at hle
  omega

theorem blind_stringRest : Blind stringRest := by
  intro w r s
  fun_induction stringRest w with
  | case1 =>
    rw [List.nil_append, stringRest_cons (by decide) (by decide)]
    exact iff_of_false (stringRest_ne r s) (Option.some_ne_none _).symm
  | case2 w =>
    show some (w ++ '#' :: r) = some (s ++ '#' :: r) ↔ some w = some s
    rw [Option.some.injEq, Option.some.injEq, List.append_cancel_right_eq]
  | case3 c w ih => exact ih
  | case4 => exact iff_of_false (stringRest_ne r s) (Option.some_ne_none _).symm
  | case5 c w hquote hslash hlone ih =>
    have hc : c ≠ '\\' := by
      intro hc
      cases w with
      | nil => exact hlone hc rfl
      | cons d w => exact hslash d w hc rfl
    rw [List.cons_append, stringRest_cons hquote hc]
    exact ih

theorem blind_string : Blind string := by
  intro w r s
  match w with
  | [] => exact iff_of_false (Option.some_ne_none _).symm (Option.some_ne_none _).symm
  | c :: w =>
    by_cases hc : c = '"'
    · subst hc
      exact blind_stringRest w r s
    · have hnone : ∀ t, string (c :: t) = none := by
        intro t
        unfold string
        split
        · rename_i h
          exact absurd (List.cons.inj h).1 hc
        · rfl
      rw [List.cons_append, hnone, hnone]
      exact iff_of_false (Option.some_ne_none _).symm (Option.some_ne_none _).symm

/-- only the scan of comments itself takes a `#` for the start of one -/
theorem blind_of_mem_scans {k : Lexeme} {f : Scan} (h : (k, f) ∈ Lexeme.scans) (hk : k ≠ .comment) : Blind f := by
  simp only [Lexeme.scans, List.mem_cons, Prod.mk.injEq, List.not_mem_nil, or_false] at h
  rcases h with ⟨-, rfl⟩ | ⟨rfl, -⟩ | ⟨-, rfl⟩ | ⟨-, rfl⟩ | ⟨-, rfl⟩ | ⟨-, rfl⟩ | ⟨-, rfl⟩ | ⟨-, rfl⟩ |
    ⟨-, rfl⟩ | ⟨-, rfl⟩ | ⟨-, rfl⟩
  · exact (ends_many1 (by decide)).blind
  · exact absurd rfl hk
  · exact blind_string
  · exact blind_char
  · exact local_hexNumber.ends.blind
  · exact local_decimalNumber.ends.blind
  · exact ((ends_exactly (by decide)).either (ends_exactly (by decide))).blind
  · exact ((ends_one (by decide)).andThen (ends_many1 (by decide))).blind
  · exact ((ends_exactly (by decide)).either (ends_exactly (by decide))).blind
  · exact ends_word.blind
  · exact blind_one _

end Scan

/-! ## pieces before a comment -/

namespace Lexeme

/-- the first scan that matches before the comment is the first one that matches without it -/
theorem findSome?_before {w r s : Text} {k : Lexeme} {l : List (Lexeme × Scan)}
    (hl : ∀ p ∈ l, ∀ u, p.2 (w ++ '#' :: r) = some (u ++ '#' :: r) ↔ p.2 w = some u)
    (h : (l.findSome? fun (k, f) => (f (w ++ '#' :: r)).map fun rest => (k, rest)) = some (k, s ++ '#' :: r)) :
    (l.findSome? fun (k, f) => (f w).map fun rest => (k, rest)) = some (k, s) := by
  induction l with
  | nil => cases h
  | cons p l ih =>
    obtain ⟨j, f⟩ := p
    obtain ⟨hp, hl⟩ := List.forall_mem_cons.mp hl
    rw [List.findSome?_cons] at h ⊢
    dsimp only at h hp ⊢
    cases hw : f w with
    | some u =>
      rw [(hp u).mpr hw] at h
      obtain ⟨rfl, he⟩ := Prod.mk.inj (Option.some.inj h)
      rw [List.append_cancel_right he]
      rfl
    | none =>
      cases hx : f (w ++ '#' :: r) with
      | none =>
        rw [hx] at h
        exact ih hl h
      | some q =>
        rw [hx] at h
        obtain ⟨rfl, rfl⟩ := Prod.mk.inj (Option.some.inj h)
        rw [(hp s).mp hx] at hw
        cases hw

theorem scan_before {c : Char} (hc : c ≠ '#') {w r s : Text} {k : Lexeme}
    (h : scan (c :: w ++ '#' :: r) = some (k, s ++ '#' :: r)) : scan (c :: w) = some (k, s) := by
  refine findSome?_before ?_ h
  rintro ⟨k, f⟩ hp u
  by_cases hk : k = .comment
  · subst hk
    obtain rfl : f = Scan.comment := by
      simpa [scans] using hp
    have hnone : ∀ t, Scan.comment (c :: t) = none := by
      intro t
      unfold Scan.comment
      split
      · rename_i h
        exact absurd (List.cons.inj h).1 hc
      · rfl
    show Scan.comment (c :: (w ++ '#' :: r)) = _ ↔ Scan.comment (c :: w) = _
    rw [hnone, hnone]
    exact iff_of_false (Option.some_ne_none _).symm (Option.some_ne_none _).symm
  · exact Scan.blind_of_mem_scans hp hk (c :: w) r u

end Lexeme

namespace Piece

variable {catalog : Catalog} {ctx : LexContext} {behind : Text}

theorem cut_hash (r : Text) : cut catalog ctx behind ('#' :: r) = ⟨.comment, none, false, false, []⟩ := by
  have hword : Scan.word ('#' :: r) = none := Scan.ends_word [] r
  have hmember : memberName behind ('#' :: r) = none := by
    rw [memberName, hword, Option.map_none, ite_self]
  have hscan : Lexeme.scan ('#' :: r) = some (.comment, []) := rfl
  unfold cut
  rw [hword, ite_self, atLabel_of_ne (by decide)]
  simp only [Bool.false_eq_true, if_false, hmember, Option.none_or, hscan]
  rfl

theorem exists_of_comment {t : Text} (h : (cut catalog ctx behind t).kind = .comment) : ∃ r, t = '#' :: r := by
  have hcut := cut_cut catalog ctx behind t
  generalize cut catalog ctx behind t = p at h hcut
  cases hcut with
  | label | colon | error => cases h
  | lexeme k rest hlabel hscan =>
    obtain rfl := ofLexeme_kind_eq_comment h
    obtain ⟨f, hf, hscan⟩ := Lexeme.exists_of_scan (scan_of_ne_word (by decide) hscan)
    obtain rfl : f = Scan.comment := by
      simpa [Lexeme.scans] using hf
    unfold Scan.comment at hscan
    split at hscan
    · exact ⟨_, rfl⟩
    · cases hscan

section
variable {r : Text} (hr : Text.Stops r)
include hr

theorem atLabel_of_stops (c : Char) (w : Text) : atLabel behind (c :: w ++ r) = atLabel behind (c :: w) := by
  by_cases hc : c = ':'
  · subst hc
    cases w with
    | cons d w => rfl
    | nil =>
      cases r with
      | nil => rfl
      | cons d r =>
        show (isWordChar d && _) = false
        rw [(hr d rfl).1, Bool.false_and]
  · rw [List.cons_append, atLabel_of_ne hc, atLabel_of_ne hc]

theorem memberName_of_stops (w : Text) :
    memberName behind (w ++ r) = (memberName behind w).map fun p => (p.1, p.2 ++ r) := by
  unfold memberName
  split
  · rw [Scan.local_word w r hr, Option.map_map, Option.map_map]
    rfl
  · rfl

end

theorem taken_append_right (w s r : Text) : taken (w ++ r) (s ++ r) = taken w s := by
  rw [taken, taken, List.length_append, List.length_append, Nat.add_sub_add_right,
    List.take_append_of_le_length (Nat.sub_le _ _)]

theorem lexeme_before {c : Char} (hc : c ≠ '#') {w r s : Text} {k : Lexeme}
    (h : (memberName behind (c :: w ++ '#' :: r)).or (Lexeme.scan (c :: w ++ '#' :: r)) = some (k, s ++ '#' :: r)) :
    (memberName behind (c :: w)).or (Lexeme.scan (c :: w)) = some (k, s) := by
  rw [memberName_of_stops (Text.stops_hash r)] at h
  cases hmember : memberName behind (c :: w) with
  | none =>
    rw [hmember] at h
    exact Lexeme.scan_before hc h
  | some p =>
    rw [hmember] at h
    obtain ⟨rfl, he⟩ := Prod.mk.inj (Option.some.inj h)
    rw [← List.append_cancel_right he]
    rfl

/-- **A piece that leaves the comment is cut without the comment, too.** -/
theorem cut_before {w r s : Text} (h : (cut catalog ctx behind (w ++ '#' :: r)).rest = s ++ '#' :: r) :
    cut catalog ctx behind w = { cut catalog ctx behind (w ++ '#' :: r) with rest := s } := by
  have hne : ∀ t : Text, ([] : Text) ≠ s ++ '#' :: t := fun t h => by
    cases (List.append_eq_nil_iff.mp h.symm).2
  match w with
  | [] =>
    rw [List.nil_append, cut_hash] at h
    exact absurd h (hne r)
  | c :: w =>
    by_cases hc : c = '#'
    · rw [hc, List.cons_append, cut_hash] at h
      exact absurd h (hne r)
    have hword : (if ctx.labelNext then Scan.word (c :: w ++ '#' :: r) else none) =
        (if ctx.labelNext then Scan.word (c :: w) else none).map (· ++ '#' :: r) := by
      rw [Scan.ends_word]
      split <;> rfl
    unfold cut at h ⊢
    rw [hword, atLabel_of_stops (Text.stops_hash r)] at h ⊢
    cases hlabel : (if ctx.labelNext then Scan.word (c :: w) else none) with
    | some u =>
      rw [hlabel] at h
      obtain rfl : u = s := List.append_cancel_right h
      rfl
    | none =>
      rw [hlabel, Option.map_none] at h
      rw [Option.map_none]
      dsimp only at h ⊢
      split
      · rename_i hcolon
        rw [if_pos hcolon] at h
        obtain rfl : w = s := List.append_cancel_right h
        rfl
      · rename_i hcolon
        rw [if_neg hcolon] at h
        cases hscan : (memberName behind (c :: w ++ '#' :: r)).or (Lexeme.scan (c :: w ++ '#' :: r)) with
        | none =>
          rw [hscan] at h
          exact absurd h (hne r)
        | some p =>
          obtain ⟨k, rest⟩ := p
          rw [hscan] at h
          obtain rfl : rest = s ++ '#' :: r := (rest_ofLexeme _ _ _ _ _).symm.trans h
          rw [lexeme_before hc hscan]
          dsimp only
          rw [taken_append_right]
          cases k <;> rfl

end Piece

/-! ## the run of a lexer up to a comment -/

namespace Lexer

variable {catalog : Catalog} {l m : Lexer} {t : Token}

theorem token_append (l : Lexer) (p : Piece) (r : Text) :
    token { l with rest := l.rest ++ r } { p with rest := p.rest ++ r } = l.token p := by
  unfold token
  dsimp only
  rw [Piece.taken_append_right]
  rfl

theorem after_append (l : Lexer) (p : Piece) (r : Text) :
    after { l with rest := l.rest ++ r } { p with rest := p.rest ++ r } =
      { l.after p with rest := p.rest ++ r } := by
  unfold after
  rw [token_append]
  dsimp only
  rw [Piece.taken_append_right]

theorem lex_before {w s r : Text} (h : l.lex catalog = some (t, m)) (hl : l.rest = w ++ '#' :: r)
    (hm : m.rest = s ++ '#' :: r) :
    lex catalog { l with rest := w } = some (t, { m with rest := s }) := by
  obtain ⟨p, hp, -, rfl, rfl⟩ := lex_eq_some h
  have hrest : p.rest = s ++ '#' :: r := hm
  rw [hl] at hp
  rw [hp] at hrest
  have hcut := Piece.cut_before hrest
  rw [← hp] at hcut hrest
  have hne : w ≠ [] := by
    rintro rfl
    rw [List.nil_append, Piece.cut_hash] at hp
    rw [hp] at hrest
    cases (List.append_eq_nil_iff.mp hrest.symm).2
  have htoken := token_append { l with rest := w } { p with rest := s } ('#' :: r)
  have hafter := after_append { l with rest := w } { p with rest := s } ('#' :: r)
  dsimp only at htoken hafter
  rw [← hl, ← hrest] at htoken hafter
  rw [lex_of_cut hne hcut, ← htoken, hafter]
  rfl

/-- a comment starts with its `#` -/
theorem text_of_comment (h : l.lex catalog = some (t, m)) (hk : t.kind = .comment) :
    ∃ r, t.text = '#' :: r := by
  obtain ⟨hrest, -, hne⟩ := rest_of_lex h
  obtain ⟨p, hp, -, rfl, -⟩ := lex_eq_some h
  obtain ⟨r, hr⟩ : ∃ r, l.rest = '#' :: r := Piece.exists_of_comment (hp ▸ hk)
  cases ht : (l.token p).text with
  | nil => exact absurd ht hne
  | cons c u =>
    rw [ht, hr] at hrest
    obtain rfl : '#' = c := (List.cons.inj hrest).1
    exact ⟨u, rfl⟩

/-- **A comment is the last token, and the tokens before it are those of the text before it.** -/
theorem tokens_of_comment (catalog : Catalog) (l : Lexer) {c : Token} (hc : c ∈ l.tokens catalog)
    (hk : c.kind = .comment) : ∃ w r, c.text = '#' :: r ∧ l.rest = w ++ c.text ∧
      c.start = l.offset + Text.size w ∧ l.tokens catalog = tokens catalog { l with rest := w } ++ [c] := by
  induction l using run_induct catalog with
  | done l h =>
    rw [tokens_of_lex_eq_none h] at hc
    cases hc
  | step l t m h ih =>
    obtain ⟨hrest, -, -⟩ := rest_of_lex h
    obtain ⟨hstart, hstop, -, -⟩ := offset_of_lex h
    rw [tokens_of_lex h] at hc ⊢
    rcases List.mem_cons.mp hc with rfl | hc
    · obtain ⟨r, hr⟩ := text_of_comment h hk
      have hm := rest_of_last h (.inr hk)
      rw [hm, List.append_nil] at hrest
      refine ⟨[], r, hr, hrest, hstart, ?_⟩
      rw [tokens_of_lex_eq_none (lex_of_rest_eq_nil catalog hm), tokens_of_lex_eq_none rfl]
      rfl
    · obtain ⟨w, r, hr, hw, hcstart, htokens⟩ := ih hc
      rw [hr] at hw
      have hbefore := lex_before h (by rw [hrest, hw, ← List.append_assoc]) hw
      refine ⟨t.text ++ w, r, hr, by rw [hrest, hw, hr, List.append_assoc], ?_, ?_⟩
      · rw [hcstart, ← hstop, Token.stop, hstart, Text.size_append, Nat.add_assoc]
        rfl
      · rw [tokens_of_lex hbefore, htokens]
        rfl

end Lexer

/-- **The tokens of a line with a comment** are those of the line without it, where there is none, and the
comment. -/
theorem tokenize_of_comment {catalog : Catalog} {line : Text} {number : Nat} {c : Token}
    (hc : c ∈ tokenize catalog line number) (hk : c.kind = .comment) :
    ∃ r, c.text = '#' :: r ∧ line = Text.takeBytes c.start line ++ c.text ∧
      c.start = Text.size (Text.takeBytes c.start line) ∧
      tokenize catalog line number = tokenize catalog (Text.takeBytes c.start line) number ++ [c] ∧
      ∀ t ∈ (Lexer.start (Text.takeBytes c.start line) number).tokens catalog, t.kind ≠ .comment := by
  obtain ⟨w, r, hr, hline, hstart, htokens⟩ :=
    Lexer.tokens_of_comment catalog (Lexer.start line number) (mem_tokenizeWith.mp hc).1 hk
  have hline' : line = w ++ c.text := hline
  have hstart' : c.start = Text.size w := hstart.trans (Nat.zero_add _)
  have htake : Text.takeBytes c.start line = w := by
    rw [hline', hstart', Text.takeBytes_size]
  have hlast := Lexer.forall_mem_dropLast_tokens catalog (Lexer.start line number)
  rw [htokens, List.dropLast_concat] at hlast
  rw [htake]
  refine ⟨r, hr, hline', hstart', ?_, fun t ht => (hlast t ht).2⟩
  rw [tokenize_eq, tokenize_eq, Lexer.wanted, htokens, List.filter_append,
    List.filter_cons_of_pos (by rw [Lexer.wants, hk]; rfl), List.filter_nil]
  rfl

end Smali
