import Smali.Proofs.Catalog.Rows
import Smali.Proofs.Token.Around
import Smali.Proofs.Token.At

/-!
# Queries at the head of a line

The head of a line is its first word, as far as it is typed.  A query at a cursor inside of it works on the part before
the cursor, and one at a byte of it on all of it.

* `IsHead`               a directive, down to a lone dot, or a word that is neither a register nor a number;
* `IsHead.exists_token`  the first token of a line with such a head;
* `wordAt?_head`         it is the word at each of the bytes of the head, whatever blanks stand before it;
* `typedWord_head`       so the word typed up to the cursor is the part of the head before it;
* `Text.IsSlice`, `isSlice_of_typedRange?`  on any line, that part is cut out between two characters of the line;
* `completions_head`     what is offered at the head of a line, and what is shown for it.
-/

namespace Smali

open Text (Stops)

/-! ## heads -/

/-- The text can be the head of a line: a dot with characters of directives after it, if any, or a word that the lexer
takes for neither a register nor a number. -/
inductive IsHead (catalog : Catalog) : Text → Prop
  | directive {body : Text} (hbody : ∀ c ∈ body, isAlphanumeric c = true ∨ c = '-' ∨ c = '_') :
      IsHead catalog ('.' :: body)
  | word {t : Text} (hword : t.IsWord)
      (hkind : ∀ u ∈ tokenize catalog t 0, u.kind ≠ .register ∧ u.kind ≠ .number ∧ u.kind ≠ .hexNumber) :
      IsHead catalog t

/-- nothing comes next, or a blank -/
def Text.AtBlank (r : Text) : Prop :=
  ∀ c, r.head? = some c → isBlank c = true

theorem Text.AtBlank.stops {r : Text} (hr : r.AtBlank) : Stops r := by
  cases r with
  | nil => exact Text.stops_nil
  | cons c r => exact Text.stops_of_isBlank (hr c rfl) r

namespace Lexeme

/-- what starts with a dot is two dots or a directive -/
theorem scan_dot (t : Text) : scan ('.' :: t) =
    ((Scan.exactly ['.'] t).map (Prod.mk punctuation)).or
      ((Scan.many1 (fun c => isAlphanumeric c || c == '-' || c == '_') t).map (Prod.mk directive)) := by
  rw [scan_of_head (by decide) (by decide) (by decide) (by decide)]
  have hdots : Scan.punctuation2 ('.' :: t) = Scan.exactly ['.'] t := rfl
  have hdirective : Scan.directiveWord ('.' :: t) =
    Scan.many1 (fun c => isAlphanumeric c || c == '-' || c == '_') t := rfl
  simp only [scans, List.drop_succ_cons, List.drop_zero, List.findSome?_cons, hdots, hdirective]
  cases Scan.exactly ['.'] t with
  | some u => rfl
  | none =>
    cases Scan.many1 (fun c => isAlphanumeric c || c == '-' || c == '_') t with
    | some u => rfl
    | none => rfl

theorem scan_directive {body r : Text} (hne : body ≠ [])
    (hbody : ∀ c ∈ body, isAlphanumeric c = true ∨ c = '-' ∨ c = '_') (hr : r.AtBlank) :
    scan ('.' :: body ++ r) = some (directive, r) := by
  have hchar : ∀ c ∈ body, (isAlphanumeric c || c == '-' || c == '_') = true := by
    intro c hc
    simpa only [Bool.or_eq_true, beq_iff_eq, or_assoc] using hbody c hc
  obtain ⟨c, s, rfl⟩ := List.exists_cons_of_ne_nil hne
  have hdot : '.' ≠ c := by
    rintro rfl
    exact absurd (hchar '.' List.mem_cons_self) (by decide)
  have hmany : Scan.many1 (fun c => isAlphanumeric c || c == '-' || c == '_') (c :: s) = some [] := by
    obtain ⟨hc, hs⟩ := List.forall_mem_cons.mp hchar
    rw [Scan.many1, hc, if_pos rfl, List.dropWhile_eq_nil_iff.mpr hs]
  have hscan : scan ('.' :: c :: s) = some (directive, []) := by
    rw [scan_dot, Scan.exactly_cons_of_ne hdot, hmany]
    rfl
  exact scan_of_stops hr.stops hscan (by decide) (by decide)

/-- a dot before a blank is no lexeme -/
theorem scan_lone_dot {r : Text} (hr : r.AtBlank) : scan ('.' :: r) = none := by
  rw [scan_dot]
  cases r with
  | nil => rfl
  | cons c r =>
    have hstops := Text.stops_of_isBlank (hr c rfl) r c rfl
    have hmany : Scan.many1 (fun c => isAlphanumeric c || c == '-' || c == '_') (c :: r) = none := by
      rw [Scan.many1, if_neg]
      intro hc
      simp only [Bool.or_eq_true, beq_iff_eq] at hc
      rw [← Bool.not_eq_true] at hstops
      rcases hc with (hc | rfl) | rfl
      · exact hstops.1 (Scan.isWordChar_of_isAlphanumeric hc)
      · exact hstops.1 (by decide)
      · exact hstops.1 (by decide)
    rw [Scan.exactly_cons_of_ne hstops.2.1.symm, hmany]
    rfl

end Lexeme

/-! ## the first token -/

theorem Token.isWordLike_of_kind {t : Token} (h : t.kind = .keyword ∨ t.kind = .identifier) : t.isWordLike = true := by
  unfold isWordLike
  rcases h with h | h <;> rw [h]

theorem exists_token_of_cut {catalog : Catalog} {line : Text} {p : Piece} (hne : line ≠ [])
    (hcut : Piece.cut catalog .start [] line = p) (hk : p.kind ≠ .whitespace) :
    ∃ u ∈ tokenize catalog line 0, u.start = 0 ∧ u.kind = p.kind ∧ line = u.text ++ p.rest := by
  have hlex : (Lexer.start line 0).lex catalog = some ((Lexer.start line 0).token p, (Lexer.start line 0).after p) :=
    Lexer.lex_of_cut hne hcut
  refine ⟨(Lexer.start line 0).token p, mem_tokenizeWith.mpr ⟨?_, bne_iff_ne.mpr hk⟩, rfl, rfl,
    (Lexer.rest_of_lex hlex).1⟩
  rw [Lexer.tokens_of_lex hlex]
  exact List.mem_cons_self

theorem exists_token_of_scan (catalog : Catalog) {s r : Text} {k : Lexeme} (hne : s ≠ [])
    (hcolon : Piece.atLabel [] (s ++ r) = false) (hscan : Lexeme.scan (s ++ r) = some (k, r)) (hk : k ≠ .whitespace) :
    ∃ u ∈ tokenize catalog (s ++ r) 0, u.start = 0 ∧
      u.kind = (Piece.ofLexeme catalog .start k s r).kind ∧ u.text = s := by
  have hcut : Piece.cut catalog .start [] (s ++ r) = _ := Piece.cut_of_scan catalog rfl hcolon hscan
  obtain ⟨u, hu, hstart, hkind, htext⟩ := exists_token_of_cut (List.append_ne_nil_of_left_ne_nil hne r) hcut
    fun h => hk (Piece.ofLexeme_kind_eq_whitespace h)
  rw [Piece.rest_ofLexeme] at htext
  exact ⟨u, hu, hstart, hkind, (List.append_cancel_right htext).symm⟩

/-- a word at the start of a line is a token of one kind, whatever follows -/
theorem exists_token_of_isWord (catalog : Catalog) {t r : Text} (ht : t.IsWord) (hr : Stops r) :
    ∃ u ∈ tokenize catalog (t ++ r) 0, u.start = 0 ∧
      u.kind = (Piece.ofLexeme catalog .start (Lexeme.ofWord t) t []).kind ∧ u.text = t := by
  have hk : Lexeme.ofWord t ≠ .whitespace := by
    unfold Lexeme.ofWord
    split
    · exact nofun
    · split <;> exact nofun
  obtain ⟨u, hu, hstart, hkind, htext⟩ := exists_token_of_scan catalog ht.1
    (Lexer.atLabel_of_isWord ht [] r) (Lexeme.scan_append ht hr) hk
  refine ⟨u, hu, hstart, ?_, htext⟩
  rw [hkind]
  cases Lexeme.ofWord t <;> rfl

namespace IsHead

variable {catalog : Catalog} {t : Text}

/-- **The first token of a line** with a head is the head; only a lone dot runs on to the end of the line. -/
theorem exists_token (ht : IsHead catalog t) {r : Text} (hr : r.AtBlank) :
    ∃ u ∈ tokenize catalog (t ++ r) 0, u.start = 0 ∧ u.isWordLike = true ∧ t <+: u.text ∧ (t ≠ ['.'] → u.text = t) := by
  cases ht with
  | @directive body hbody =>
    by_cases hne : body = []
    · subst hne
      have hcut : Piece.cut catalog .start [] ('.' :: r) = ⟨.error, none, false, false, []⟩ := by
        unfold Piece.cut
        rw [Piece.atLabel_of_ne (by decide), Lexeme.scan_lone_dot hr]
        rfl
      obtain ⟨u, hu, hstart, hkind, htext⟩ := exists_token_of_cut (List.cons_ne_nil '.' r) hcut (by decide)
      rw [List.append_nil] at htext
      refine ⟨u, hu, hstart, ?_, ⟨r, htext⟩, fun h => absurd rfl h⟩
      rw [Token.isWordLike, hkind, Token.isDotted, ← htext]
      rfl
    · obtain ⟨u, hu, hstart, hkind, htext⟩ := exists_token_of_scan catalog (List.cons_ne_nil '.' body)
        (Piece.atLabel_of_ne (by decide) _ _) (Lexeme.scan_directive hne hbody hr) (by decide)
      refine ⟨u, hu, hstart, Token.isWordLike_of_kind ?_, htext ▸ List.prefix_rfl, fun _ => htext⟩
      rw [hkind, Piece.ofLexeme]
      split
      · exact .inl rfl
      · exact .inr rfl
  | word hword hkind =>
    -- what the word is by itself, it is on this line, too
    obtain ⟨v, hv, -, hkindv, -⟩ := exists_token_of_isWord catalog hword Text.stops_nil
    obtain ⟨u, hu, hstart, hkindu, htext⟩ := exists_token_of_isWord catalog hword hr.stops
    rw [List.append_nil] at hv
    have hnot := hkind v hv
    rw [hkindv, ← hkindu] at hnot
    refine ⟨u, hu, hstart, Token.isWordLike_of_kind ?_, htext ▸ List.prefix_rfl, fun _ => htext⟩
    rw [hkindu] at hnot ⊢
    unfold Lexeme.ofWord at hnot ⊢
    split
    · rename_i hhex
      rw [if_pos hhex] at hnot
      exact absurd rfl hnot.2.2
    · rename_i hhex
      rw [if_neg hhex] at hnot
      split
      · rename_i hdecimal
        rw [if_pos hdecimal] at hnot
        exact absurd rfl hnot.2.1
      · rename_i hdecimal
        rw [if_neg hdecimal] at hnot
        exact (LexContext.wordKind_cases catalog .start t).resolve_left hnot.1

/-- only the dot of a directive is no character of words -/
theorem all_wordBody (ht : IsHead catalog t) {p : Text} (hp : p <+: t) : (wordBody p).all isWordChar = true := by
  rw [List.all_eq_true]
  cases ht with
  | @directive body hbody =>
    have hbody : ∀ c ∈ body, isWordChar c = true := by
      intro c hc
      rcases hbody c hc with hc | rfl | rfl
      · exact Scan.isWordChar_of_isAlphanumeric hc
      · decide
      · decide
    cases p with
    | nil => exact List.forall_mem_nil _
    | cons d p =>
      obtain ⟨rfl, hbefore⟩ := List.cons_prefix_cons.mp hp
      exact fun c hc => hbody c (hbefore.subset hc)
  | word hword =>
    have hchars : ∀ c ∈ p, isWordChar c = true := fun c hc => hword.2 c (hp.subset hc)
    unfold wordBody
    split
    · exact fun c hc => hchars c (List.mem_cons_of_mem _ hc)
    · exact hchars

end IsHead

/-! ## the word at a place -/

section
variable {catalog : Catalog} {w t r : Text} (hw : ∀ c ∈ w, isBlank c = true) (ht : IsHead catalog t) (hr : r.AtBlank)
include hw ht hr

/-- **The head of a line** is the word at each of its bytes. -/
theorem wordAt?_head : ∃ u : Token, u.start = Text.size w ∧ (t ≠ ['.'] → u.text = t) ∧
    ∀ offset, Text.size w ≤ offset → offset < Text.size w + Text.size t →
      wordAt? catalog (w ++ (t ++ r)) offset = some u := by
  obtain ⟨u, hu, hstart, hlike, ⟨s, hs⟩, htext⟩ := ht.exists_token hr
  refine ⟨u.move ⟨0, w⟩, ?_, htext, ?_⟩
  · rw [Token.start_move, hstart, Nat.zero_add]
    rfl
  · intro offset hle hlt
    have hmem : u.move ⟨0, w⟩ ∈ tokenize catalog (w ++ (t ++ r)) 0 := by
      rw [tokenize_indent catalog hw]
      exact List.mem_map_of_mem hu
    have hstop : (u.move ⟨0, w⟩).stop = Text.size t + Text.size s + Text.size w := by
      rw [Token.stop_move, Token.stop, hstart, Nat.zero_add, Token.size, ← hs, Text.size_append]
      rfl
    have hcovers : (u.move ⟨0, w⟩).covers offset = true := by
      rw [Token.covers, Bool.and_eq_true, decide_eq_true_iff, decide_eq_true_iff, hstop, Token.start_move, hstart,
        Nat.zero_add]
      refine ⟨hle, ?_⟩
      omega
    have hfound := (layout_tokenize catalog (w ++ (t ++ r)) 0).tokenAt?_of_covers hmem hcovers
    rw [wordAt?, hfound, Option.filter_some, if_pos]
    rw [hcovers]
    exact hlike

/-- **The word typed** up to a cursor in the head of a line is the part of the head before the cursor. -/
theorem typedWord_head {p : Text} (hne : p ≠ []) (hp : p <+: t) :
    typedWord catalog (w ++ (t ++ r)) (Text.size w + Text.size p) = p := by
  obtain ⟨u, hstart, -, hword⟩ := wordAt?_head hw ht hr
  have hall := ht.all_wordBody hp
  obtain ⟨s, rfl⟩ := hp
  have hpos := Text.size_pos hne
  have hline : w ++ (p ++ s ++ r) = w ++ p ++ (s ++ r) := by
    rw [List.append_assoc, List.append_assoc]
  have hmin : min (Text.size w + Text.size p) (Text.size (w ++ (p ++ s ++ r))) = Text.size w + Text.size p := by
    rw [hline, Text.size_append, Text.size_append]
    omega
  have hboundary : Text.isBoundary (Text.size w + Text.size p) (w ++ (p ++ s ++ r)) = true := by
    rw [hline, ← Text.size_append]
    exact Text.isBoundary_size _ _
  have hslice : Text.slice (Text.size w) (Text.size w + Text.size p) (w ++ (p ++ s ++ r)) = p := by
    rw [List.append_assoc]
    exact Text.slice_append w p (s ++ r)
  have hat := hword (Text.size w + Text.size p - 1) (by omega) (by rw [Text.size_append]; omega)
  have hrange : typedRange? catalog (w ++ (p ++ s ++ r)) (Text.size w + Text.size p) =
      some (Text.size w, Text.size w + Text.size p) := by
    unfold typedRange?
    rw [hmin]
    dsimp only
    rw [hboundary, if_neg, hat, Option.map_some, hstart]
    rintro (h | h)
    · omega
    · cases h
  rw [typedWord, hrange]
  dsimp only
  rw [hslice, if_pos hall]

end

/-! ## slices -/

/-- the slice lies inside of the text, and no character is cut at its ends -/
structure Text.IsSlice (start stop : Nat) (t : Text) : Prop where
  le : start ≤ stop
  inside : stop ≤ Text.size t
  start : Text.isBoundary start t = true
  stop : Text.isBoundary stop t = true

/-- **The word before a cursor** is cut out of its line between two characters, on any line and at any column. -/
theorem isSlice_of_typedRange? {catalog : Catalog} {line : Text} {column start stop : Nat}
    (h : typedRange? catalog line column = some (start, stop)) : Text.IsSlice start stop line := by
  have hlayout := layout_tokenize catalog line 0
  rw [typedRange?, Option.ite_none_left_eq_some, Option.map_eq_some_iff, not_or] at h
  obtain ⟨⟨-, hboundary⟩, u, hword, heq⟩ := h
  obtain ⟨rfl, rfl⟩ := Prod.mk.inj heq
  obtain ⟨hat, hu⟩ := Option.filter_eq_some_iff.mp hword
  obtain ⟨hcovers, -⟩ := Bool.and_eq_true_iff.mp hu
  rw [Token.covers, Bool.and_eq_true, decide_eq_true_iff] at hcovers
  refine ⟨?_, Nat.min_le_right _ _, (hlayout.sits u (hlayout.mem_of_tokenAt? hat)).cut.start, ?_⟩
  · have := hcovers.1
    omega
  · simpa using hboundary

/-- **Queries at the head of a line.**  The head `t` stands after blanks and before a blank or the end.  With the cursor
after a part `p` of it, the entries whose mnemonic starts with `p` are offered, in the order of the catalog; and at each
byte of the head, unless it is a lone dot, the entry of the head is shown.  On any line and at any column, what is cut
out as the word before the cursor lies inside of the line and cuts no character. -/
theorem completions_head (catalog : Catalog) :
    (∀ w t r, (∀ c ∈ w, isBlank c = true) → IsHead catalog t → r.AtBlank →
      (∀ p, p ≠ [] → p <+: t → completions catalog (w ++ (t ++ r)) (Text.size w + Text.size p) =
        catalog.entries.filter fun e => p <+: e.mnemonic) ∧
      (t ≠ ['.'] → ∀ offset, Text.size w ≤ offset → offset < Text.size w + Text.size t →
        quickInfo? catalog (w ++ (t ++ r)) offset = catalog.lookup t)) ∧
    ∀ line column start stop, typedRange? catalog line column = some (start, stop) → Text.IsSlice start stop line := by
  constructor
  · intro w t r hw ht hr
    constructor
    · intro p hne hp
      rw [completions, typedWord_head hw ht hr hne hp]
      exact catalog.completions_eq p
    · intro hdot offset hle hlt
      obtain ⟨u, -, htext, hword⟩ := wordAt?_head hw ht hr
      rw [quickInfo?, hword offset hle hlt, ← htext hdot]
      rfl
  · exact fun line column start stop => isSlice_of_typedRange?

/-- a dot of which nothing more is typed, with text after it that is no part of it; and a mnemonic with a character of
two bytes, with the cursor right after that character and the pointer on its second byte -/
theorem completions_head_typing :
    let op := Entry.op "00" "é-a vx" .reg "" ""
    let dir := Entry.dir ".end x" .endBlock "" ""
    completions (.ofEntries [op, dir]) "\t. x".toList 2 = [dir] ∧ completions (.ofEntries [op, dir]) " é-a".toList 3 = [op] ∧
      quickInfo? (.ofEntries [op, dir]) " é-a".toList 2 = some op := by
  intro op dir
  have hdot : IsHead (.ofEntries [op, dir]) ['.'] := .directive (List.forall_mem_nil _)
  have hword : IsHead (.ofEntries [op, dir]) ['é', '-', 'a'] := .word (by decide) (by decide +kernel)
  have hblank : Text.AtBlank [' ', 'x'] := by
    intro c hc
    obtain rfl := Option.some.inj hc
    rfl
  obtain ⟨hheads, -⟩ := completions_head (.ofEntries [op, dir])
  have hlone := (hheads ['\t'] ['.'] [' ', 'x'] (List.forall_mem_singleton.mpr rfl) hdot hblank).1 ['.']
    (List.cons_ne_nil _ _) List.prefix_rfl
  obtain ⟨htyped, hshown⟩ := hheads [' '] ['é', '-', 'a'] [] (List.forall_mem_singleton.mpr rfl) hword nofun
  have hpart := htyped ['é'] (List.cons_ne_nil _ _) ⟨['-', 'a'], rfl⟩
  refine ⟨hlone.trans (by decide +kernel), hpart.trans (by decide +kernel), ?_⟩
  exact (hshown (by decide) 2 (by decide) (by decide)).trans (by decide +kernel)

end Smali
