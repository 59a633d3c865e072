import Smali.Proofs.Line.Comment
import Smali.Proofs.Token.Around

/-!
# Lines with something around them

What stands around a statement has no say in it: blanks before it move its positions, and a comment after it, with
blanks between them, is one more token.

* `ClassPath.not_across_of_isBlank`  no class path goes on over a blank, so none runs into such a comment;
* `reading_parseLine_remark`  what a line says with a comment after it;
* `parseLine_around`  the statement of a line with blanks before it, and with a comment after it.
-/

namespace Smali

theorem ClassPath.not_across_of_isBlank {c : Char} (hc : isBlank c = true) (u x : Text) : ¬Across u (c :: x) := by
  rintro ⟨p, q, l, m, -, hx, -, hl⟩
  cases l with
  | nil =>
    obtain ⟨rfl, -⟩ := List.cons.inj hx
    cases hc
  | cons d l =>
    obtain ⟨rfl, -⟩ := List.cons.inj hx
    have hpath := hl c List.mem_cons_self
    rw [isPathChar, hc] at hpath
    cases hpath

section
variable (language : Language) (stack : BlockStack) {line : Text} {number : Nat}
  (hsig : (tokenize language.catalog line number).filter Token.isSignificant ≠ [])
include hsig

/-- all positions of a line move with it -/
theorem parseLine_indent {w : Text} (hw : ∀ c ∈ w, isBlank c = true) :
    parseLine language stack (w ++ line) number = (parseLine language stack line number).move ⟨0, w⟩ := by
  refine parseLine_move (m := ⟨0, w⟩) language stack (tokenize_indent language.catalog hw line number) (.inl ?_)
  intro hnil
  rw [hnil] at hsig
  exact hsig rfl

section
variable (hno : ∀ t ∈ tokenize language.catalog line number, t.kind ≠ .comment ∧ t.kind ≠ .error) {u : Text}
  (hne : u ≠ []) (hu : ∀ c ∈ u, isBlank c = true) (body : Text)
include hno hne hu

theorem reading_parseLine_remark :
    (parseLine language stack (line ++ (u ++ '#' :: body)) number).reading =
      (parseLine language stack line number).reading := by
  obtain ⟨b, u, rfl⟩ := List.exists_cons_of_ne_nil hne
  have hb := hu b List.mem_cons_self
  have hmark : isMark b = true := by
    rw [isMark, hb, Bool.or_true]
  let k : Commented := ⟨line, ⟨b, hmark, u ++ '#' :: body⟩, number⟩
  have hsame : (tokenize language.catalog (line ++ (b :: u ++ '#' :: body)) number).filter Token.isSignificant =
      (tokenize language.catalog line number).filter Token.isSignificant := by
    rw [tokenize_remark hno hu hne body, filter_isSignificant_append rfl]
  have hcomment : ∀ t ∈ (Lexer.start line number).tokens language.catalog, t.kind ≠ .comment := by
    intro t ht hk
    exact (hno t (mem_tokenizeWith.mpr ⟨ht, by rw [Lexer.wants, hk]; rfl⟩)).1 hk
  rcases k.compares_of_significant language stack hcomment hsame hsig with ⟨hreading, -⟩ | ⟨hover, -⟩
  · exact hreading
  · exact absurd hover (ClassPath.not_across_of_isBlank hb line _)

end
end

/-- **What stands around a statement.**  Blanks before a line move all its positions and change nothing else.  A
comment after a line without comment and error, with blanks between them, changes nothing of what the line says and
is one more token. -/
theorem parseLine_around (language : Language) (stack : BlockStack) {line : Text} {number : Nat}
    (hsig : (tokenize language.catalog line number).filter Token.isSignificant ≠ []) :
    (∀ w : Text, (∀ c ∈ w, isBlank c = true) →
      parseLine language stack (w ++ line) number = (parseLine language stack line number).move ⟨0, w⟩) ∧
    ((∀ t ∈ tokenize language.catalog line number, t.kind ≠ .comment ∧ t.kind ≠ .error) →
      ∀ u : Text, u ≠ [] → (∀ c ∈ u, isBlank c = true) → ∀ body : Text,
        let whole := parseLine language stack (line ++ u ++ '#' :: body) number
        let bare := parseLine language stack line number
        whole.reading = bare.reading ∧ whole.comment = some ('#' :: body) ∧
          whole.tokens = bare.tokens ++ [⟨.comment, '#' :: body, Text.size (line ++ u), number, none, false⟩]) := by
  refine ⟨fun w hw => parseLine_indent language stack hsig hw, fun hno u hne hu body => ?_⟩
  have htokens := tokenize_remark hno hu hne body
  obtain ⟨hbare, -⟩ := tokens_parseLine language stack line number
  obtain ⟨hwhole, hcomment, -⟩ := tokens_parseLine language stack (line ++ (u ++ '#' :: body)) number
  rw [htokens] at hwhole hcomment
  rw [List.append_assoc]
  refine ⟨reading_parseLine_remark language stack hsig hno hne hu body, ?_, ?_⟩
  · have hnone : (tokenize language.catalog line number).find? (fun t => t.kind == .comment) = none :=
      List.find?_eq_none.mpr fun t ht hk => (hno t ht).1 (beq_iff_eq.mp hk)
    rw [hcomment, List.find?_append, hnone]
    rfl
  · rw [hwhole, hbare]

/-- a class path that is not closed -/
def openPath : Text :=
  ".super Lfoo".toList

/-- the rest of the path is not looked for in a comment that a blank separates from it -/
theorem parseLine_around_openPath :
    (tokenize .empty openPath 3).filter Token.isSignificant ≠ [] ∧
      (∀ t ∈ tokenize .empty openPath 3, t.kind ≠ .comment ∧ t.kind ≠ .error) ∧
      parseLine ⟨.empty, .standard⟩ [] ("\t ".toList ++ openPath) 3 =
        (parseLine ⟨.empty, .standard⟩ [] openPath 3).move ⟨0, "\t ".toList⟩ ∧
      (parseLine ⟨.empty, .standard⟩ [] (openPath ++ [' '] ++ "#bar;".toList) 3).reading =
        (parseLine ⟨.empty, .standard⟩ [] openPath 3).reading ∧
      (parseLine ⟨.empty, .standard⟩ [] openPath 3).error.isSome = true := by
  have hsig : (tokenize .empty openPath 3).filter Token.isSignificant ≠ [] := by decide +kernel
  have hno : ∀ t ∈ tokenize .empty openPath 3, t.kind ≠ .comment ∧ t.kind ≠ .error := by decide +kernel
  have hw : ∀ c ∈ "\t ".toList, isBlank c = true := List.all_eq_true.mp (by decide)
  have hu : ∀ c ∈ [' '], isBlank c = true := List.all_eq_true.mp (by decide)
  obtain ⟨hindent, hremark⟩ := parseLine_around ⟨.empty, .standard⟩ [] hsig
  exact ⟨hsig, hno, hindent _ hw, (hremark hno [' '] (List.cons_ne_nil _ _) hu "bar;".toList).1, by decide +kernel⟩

end Smali
