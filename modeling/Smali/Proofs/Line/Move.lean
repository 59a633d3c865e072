import Smali.Line
import Smali.Proofs.Descriptor
import Smali.Proofs.Token.Pass

/-!
# Lines at another place

A line that stands further down, or further to the right behind blanks, is read alike: all positions
move with it and nothing else changes.

* `Move`              down by some lines, and to the right by the blanks before the line;
* `Statement.move`    the statement with all its positions moved, and so for tokens, operands and so on;
* `Reader.Moves m f r r'`  on the moved tokens, `r'` gives what `r` gives, moved: the value by `f`, the tokens
                      that are left and the diagnostic by `m`;
* `Reader.Moves.bind` the rule for readers that run one after the other, from which the lemma of each
                      reader follows its definition;
* `parseLine_move`    the statement of a line whose tokens move;
* `parseLine_down`    so it is for a line that stands further down.
-/

namespace Smali

/-- how a line gets to another place: down by some lines, and to the right by the blanks before it -/
structure Move where
  lines : Nat
  indent : Text

namespace Move

/-- down by `n` lines -/
def down (n : Nat) : Move := ⟨n, []⟩

def columns (m : Move) : Nat :=
  Text.size m.indent

end Move

section
variable (m : Move)

def Position.move (p : Position) : Position :=
  ⟨p.line + m.lines, p.column + m.columns⟩

def Span.move (s : Span) : Span :=
  ⟨s.start.move m, s.stop.move m⟩

def Token.move (t : Token) : Token :=
  { t with start := t.start + m.columns, line := t.line + m.lines }

mutual

/-- only the elements of an array have places -/
def OperandValue.move : OperandValue → OperandValue
  | .array elements => .array (moveElements elements)
  | v => v

def OperandValue.moveElement : Located OperandValue → Located OperandValue
  | ⟨v, span⟩ => ⟨v.move, span.move m⟩

def OperandValue.moveElements : List (Located OperandValue) → List (Located OperandValue)
  | [] => []
  | o :: os => moveElement o :: moveElements os

end

def Operand.move (o : Operand) : Operand :=
  ⟨o.value.move m, o.span.move m⟩

def Diagnostic.move (e : Diagnostic) : Diagnostic :=
  { e with span := e.span.move m }

def Statement.move (s : Statement) : Statement :=
  { s with
    operands := s.operands.map (Operand.move m)
    tokens := s.tokens.map (Token.move m)
    span := s.span.move m
    error := s.error.map (Diagnostic.move m) }

def Cursor.move (c : Cursor) : Cursor :=
  ⟨m.indent ++ c.line, c.number + m.lines, c.tokens.map (Token.move m), c.stop + m.columns⟩

def Draft.move (d : Draft) : Draft :=
  { d with operands := d.operands.map (Operand.move m), cursor := d.cursor.move m }

/-! ## positions -/

variable {m}

theorem Position.move_le_iff {p q : Position} : p.move m ≤ q.move m ↔ p ≤ q := by
  show (_ < _ ∨ _ = _ ∧ _ ≤ _) ↔ (_ < _ ∨ _ = _ ∧ _ ≤ _)
  simp only [move, Nat.add_lt_add_iff_right, Nat.add_right_cancel_iff, Nat.add_le_add_iff_right]

theorem Position.earlier_move (p q : Position) :
    (p.move m).earlier (q.move m) = (p.earlier q).move m := by
  simp only [earlier, move_le_iff, apply_ite (move m)]

theorem Position.later_move (p q : Position) : (p.move m).later (q.move m) = (p.later q).move m := by
  simp only [later, move_le_iff, apply_ite (move m)]

theorem Span.cover_move (a b : Span) : (a.move m).cover (b.move m) = (a.cover b).move m := by
  simp only [cover, move, Position.earlier_move, Position.later_move]

theorem Token.kind_move (t : Token) : (t.move m).kind = t.kind := rfl

theorem Token.text_move (t : Token) : (t.move m).text = t.text := rfl

theorem Token.isWord_move (t : Token) : (t.move m).isWord = t.isWord := rfl

theorem Token.start_move (t : Token) : (t.move m).start = t.start + m.columns := rfl

theorem Token.stop_move (t : Token) : (t.move m).stop = t.stop + m.columns :=
  Nat.add_right_comm _ _ _

theorem Token.span_move (t : Token) : (t.move m).span = t.span.move m := by
  rw [span, stop_move]
  rfl

theorem OperandValue.moveElements_eq (os : List Operand) :
    moveElements m os = os.map (Operand.move m) := by
  induction os with
  | nil => rfl
  | cons o os ih =>
    obtain ⟨v, span⟩ := o
    rw [moveElements, moveElement, ih]
    rfl

theorem Cursor.here_move (c : Cursor) : (c.move m).here = c.here.move m := by
  obtain ⟨line, number, tokens, stop⟩ := c
  cases tokens with
  | nil => rfl
  | cons t ts => exact t.span_move

theorem Cursor.expected_move (c : Cursor) (what : Text) :
    (c.move m).expected what = (c.expected what).move m := by
  have hfound : (c.move m).tokens.head?.map Token.text = c.tokens.head?.map Token.text := by
    obtain ⟨line, number, tokens, stop⟩ := c
    cases tokens <;> rfl
  rw [expected, error, hfound, here_move]
  rfl

end

/-! ## readers -/

namespace Reader

variable {α β : Type}

/-- On the moved tokens, `r'` gives what `r` gives, moved. -/
def Moves (m : Move) (f : α → α) (r r' : Reader α) : Prop :=
  ∀ c, r' (c.move m) =
    match r c with
    | .ok (a, rest) => .ok (f a, rest.move m)
    | .error e => .error (e.move m)

namespace Moves

variable {m : Move}

theorem pure {f : α → α} {a a' : α} (h : a' = f a) :
    Moves m f (Pure.pure a : Reader α) (Pure.pure a') := by
  subst h
  exact fun _ => rfl

theorem get : Moves m (Cursor.move m) (MonadState.get : Reader Cursor) MonadState.get :=
  fun _ => rfl

theorem bind {f : α → α} {g : β → β} {x x' : Reader α} {k k' : α → Reader β} (hx : Moves m f x x')
    (hk : ∀ a, Moves m g (k a) (k' (f a))) : Moves m g (x >>= k) (x' >>= k') := by
  intro c
  change Except.bind (x' (c.move m)) (fun p => k' p.1 p.2) =
    match Except.bind (x c) (fun p => k p.1 p.2) with
    | .ok (a, rest) => .ok (g a, rest.move m)
    | .error e => .error (e.move m)
  rw [hx c]
  cases x c with
  | error e => rfl
  | ok p => exact hk p.1 p.2

theorem ite {p : Prop} [Decidable p] {f : α → α} {x x' y y' : Reader α} (hx : Moves m f x x')
    (hy : Moves m f y y') : Moves m f (if p then x else y) (if p then x' else y') := by
  split
  · exact hx
  · exact hy

end Moves

section
variable {m : Move} {f : α → α}

/-! ## where readers fail -/

theorem moves_fail (p : Problem) : Moves m f (fail p) (fail p) := by
  intro c
  show Except.error (Cursor.error (c.move m) p) = Except.error ((c.error p).move m)
  rw [Cursor.error, Cursor.here_move]
  rfl

theorem moves_expected (what : Text) : Moves m f (expected what) (expected what) := by
  intro c
  show Except.error ((c.move m).expected what) = Except.error ((c.expected what).move m)
  rw [Cursor.expected_move]

theorem moves_failAt {span span' : Span} (h : span' = span.move m) (p : Problem) :
    Moves m f (failAt span p) (failAt span' p) := by
  subst h
  exact fun _ => rfl

/-! ## punctuation and words -/

theorem moves_advance : Moves m id advance advance := by
  intro c
  obtain ⟨line, number, tokens, stop⟩ := c
  cases tokens <;> rfl

theorem moves_atEnd : Moves m id atEnd atEnd := by
  refine Moves.get.bind fun c => Moves.pure ?_
  obtain ⟨line, number, tokens, stop⟩ := c
  cases tokens <;> rfl

theorem atDelimiter_move (c : Cursor) (text : Text) :
    (c.move m).atDelimiter text = c.atDelimiter text := by
  obtain ⟨line, number, tokens, stop⟩ := c
  cases tokens <;> rfl

theorem moves_eat (text : Text) : Moves m id (eat text) (eat text) := by
  refine Moves.get.bind fun c => ?_
  rw [atDelimiter_move]
  exact Moves.ite (moves_advance.bind fun _ => Moves.pure rfl) (Moves.pure rfl)

theorem moves_eatWord (word : Text) : Moves m id (eatWord word) (eatWord word) := by
  refine Moves.get.bind fun c => ?_
  have h : ((c.move m).tokens.head?.any fun t => t.isWord && t.text == word) =
      c.tokens.head?.any fun t => t.isWord && t.text == word := by
    obtain ⟨line, number, tokens, stop⟩ := c
    cases tokens <;> rfl
  rw [h]
  exact Moves.ite (moves_advance.bind fun _ => Moves.pure rfl) (Moves.pure rfl)

theorem moves_delimiter (text : Text) : Moves m (Span.move m) (delimiter text) (delimiter text) := by
  refine Moves.get.bind fun ⟨line, number, tokens, stop⟩ => ?_
  cases tokens with
  | nil => exact moves_expected _
  | cons t ts =>
    refine Moves.ite (p := t.isDelimiter text = true) ?_ (moves_expected _)
    exact moves_advance.bind fun _ => Moves.pure t.span_move

theorem moves_finish : Moves m id finish finish := by
  refine Moves.get.bind fun ⟨line, number, tokens, stop⟩ => ?_
  cases tokens with
  | nil => exact Moves.pure rfl
  | cons t ts => exact moves_fail _

/-! ## plain operands -/

/-- a value without places, with the place where it stands -/
abbrev withPlace (m : Move) {γ : Type} : γ × Span → γ × Span :=
  Prod.map id (Span.move m)

theorem moves_bareRegister : Moves m (withPlace m) bareRegister bareRegister := by
  refine Moves.get.bind fun ⟨line, number, tokens, stop⟩ => ?_
  cases tokens with
  | nil => exact moves_expected _
  | cons t ts =>
    refine Moves.ite (p := (t.kind == .register) = true) ?_ (moves_expected _)
    rw [Token.text_move]
    cases Register.parse t.text with
    | ok r => exact moves_advance.bind fun _ => Moves.pure (by rw [Token.span_move]; rfl)
    | error e => exact moves_fail _

theorem moves_register : Moves m (Operand.move m) register register :=
  moves_bareRegister.bind fun _ => Moves.pure rfl

theorem moves_registers (n : Nat) : Moves m id (registers n) (registers n) := by
  induction n with
  | zero => exact Moves.pure rfl
  | succ n ih =>
    refine moves_bareRegister.bind fun p => (moves_eat _).bind fun b => ?_
    exact Moves.ite (ih.bind fun _ => Moves.pure rfl) (Moves.pure rfl)

theorem moves_registerList : Moves m (Operand.move m) registerList registerList := by
  refine (moves_delimiter _).bind fun opening => Moves.get.bind fun c => ?_
  have close : ∀ rs : List Register, Moves m (Operand.move m)
      (do
        let closing ← delimiter "\x7d".toList
        return (⟨.registerList rs, opening.cover closing⟩ : Operand))
      (do
        let closing ← delimiter "\x7d".toList
        return (⟨.registerList rs, (opening.move m).cover closing⟩ : Operand)) := by
    intro rs
    exact (moves_delimiter _).bind fun closing => Moves.pure (by rw [Span.cover_move]; rfl)
  have hlength : (c.move m).tokens.length = c.tokens.length := List.length_map _
  rw [atDelimiter_move, hlength]
  exact Moves.ite ((Moves.pure (f := id) rfl).bind close) ((moves_registers _).bind close)

theorem moves_registerRange : Moves m (Operand.move m) registerRange registerRange := by
  refine (moves_delimiter _).bind fun opening => Moves.get.bind fun c => ?_
  rw [atDelimiter_move]
  refine Moves.ite ?_ ?_
  · exact (moves_delimiter _).bind fun closing => Moves.pure (by rw [Span.cover_move]; rfl)
  · refine moves_bareRegister.bind fun ⟨first, span⟩ => (moves_eat _).bind fun b => ?_
    have close : ∀ last : Register, Moves m (Operand.move m)
        (do
          let closing ← delimiter "\x7d".toList
          return (⟨.registerRange ⟨first, last⟩, opening.cover closing⟩ : Operand))
        (do
          let closing ← delimiter "\x7d".toList
          return (⟨.registerRange ⟨first, last⟩, (opening.move m).cover closing⟩ : Operand)) := by
      intro last
      exact (moves_delimiter _).bind fun closing => Moves.pure (by rw [Span.cover_move]; rfl)
    have second : Moves m id (do return (← bareRegister).1) (do return (← bareRegister).1) :=
      moves_bareRegister.bind fun _ => Moves.pure rfl
    exact Moves.ite (second.bind close) ((Moves.pure (f := id) rfl).bind close)

theorem moves_bareLiteral : Moves m (withPlace m) bareLiteral bareLiteral := by
  refine Moves.get.bind fun ⟨line, number, tokens, stop⟩ => ?_
  cases tokens with
  | nil => exact moves_expected _
  | cons t ts =>
    refine Moves.ite (p := (t.kind == .number || t.kind == .hexNumber) = true) ?_ (moves_expected _)
    rw [Token.text_move]
    cases Literal.parse t.text with
    | ok l => exact moves_advance.bind fun _ => Moves.pure (by rw [Token.span_move]; rfl)
    | error e => exact moves_fail _

theorem moves_literal : Moves m (Operand.move m) literal literal :=
  moves_bareLiteral.bind fun _ => Moves.pure rfl

theorem moves_string : Moves m (Operand.move m) string string := by
  refine Moves.get.bind fun ⟨line, number, tokens, stop⟩ => ?_
  cases tokens with
  | nil => exact moves_expected _
  | cons t ts =>
    refine Moves.ite (p := (t.kind == .string && t.text.head? == some '"') = true) ?_
      (moves_expected _)
    exact moves_advance.bind fun _ => Moves.pure (by rw [Token.span_move]; rfl)

theorem moves_bareLabel : Moves m (withPlace m) bareLabel bareLabel := by
  refine Moves.get.bind fun ⟨line, number, tokens, stop⟩ => ?_
  match tokens with
  | [] => exact moves_expected _
  | [t] => exact moves_expected _
  | colon :: name :: ts =>
    refine Moves.ite (p := (colon.isDelimiter ":".toList && name.kind == .label) = true) ?_
      (moves_expected _)
    refine moves_advance.bind fun _ => moves_advance.bind fun _ => Moves.pure ?_
    rw [Token.span_move, Token.span_move, Span.cover_move]
    rfl

theorem moves_label : Moves m (Operand.move m) label label :=
  moves_bareLabel.bind fun _ => Moves.pure rfl

theorem moves_labelRange : Moves m (Operand.move m) labelRange labelRange := by
  refine (moves_delimiter _).bind fun opening => moves_bareLabel.bind fun first =>
    (moves_delimiter _).bind fun _ => moves_bareLabel.bind fun last =>
    (moves_delimiter _).bind fun closing => Moves.pure ?_
  rw [Span.cover_move]
  rfl

theorem moves_index : Moves m (Operand.move m) index index := by
  refine Moves.get.bind fun ⟨line, number, tokens, stop⟩ => ?_
  match tokens with
  | [] => exact moves_expected _
  | [t] => exact moves_expected _
  | kind :: sign :: ts =>
    refine Moves.ite (p := (kind.isWord && sign.isDelimiter "@".toList) = true) ?_ (moves_expected _)
    refine moves_advance.bind fun _ => moves_advance.bind fun _ =>
      moves_bareLiteral.bind fun ⟨l, span⟩ => ?_
    dsimp only [withPlace, Prod.map_apply, id_eq]
    cases l.toIntIn? 0 0x7fffffffffffffff with
    | some i => exact Moves.pure (by rw [Token.span_move, Span.cover_move]; rfl)
    | none => exact moves_failAt rfl _

/-! ## descriptors -/

theorem passTo_move (stop : Nat) (ts : List Token) :
    passTo (stop + m.columns) (ts.map (Token.move m)) =
      match passTo stop ts with
      | .ok rest => .ok (rest.map (Token.move m))
      | .error t => .error (t.move m) := by
  induction ts with
  | nil => rfl
  | cons t ts ih =>
    rw [List.map_cons, passTo, passTo, Token.stop_move, ih]
    simp only [Token.move, Nat.add_le_add_iff_right, Nat.add_lt_add_iff_right]
    split
    · rfl
    · split <;> rfl

/-- A reader of descriptors leaves no more than it got, and `g` changes nothing of what it gives. -/
def Settled (g : α → α) (read? : Text → Option (α × Text)) : Prop :=
  ∀ {t : Text} {v : α} {r : Text}, read? t = some (v, r) → Text.size r ≤ Text.size t ∧ g v = v

theorem settled_of_exact {read? : Text → Option (α × Text)} {render : α → Text} {W : α → Prop}
    (h : Exact read? render W) : Settled id read? := by
  intro t v r ht
  rw [(h.sound ht).2, Text.size_append]
  exact ⟨by omega, rfl⟩

theorem moves_descriptor (what : Text) {g : α → α} {read? : Text → Option (α × Text)}
    (hread : Settled g read?) :
    Moves m (Prod.map g (Span.move m)) (descriptor what read?) (descriptor what read?) := by
  intro c
  unfold descriptor
  rw [Cursor.expected_move]
  obtain ⟨line, number, tokens, stop⟩ := c
  cases tokens with
  | nil => rfl
  | cons t ts =>
    have hdrop : Text.dropBytes (t.start + m.columns) (m.indent ++ line) = Text.dropBytes t.start line :=
      Text.dropBytes_append _ _ _
    simp only [Cursor.move, List.map_cons, Token.start_move, hdrop]
    cases hr : read? (Text.dropBytes t.start line) with
    | none => rfl
    | some p =>
      obtain ⟨v, rest⟩ := p
      obtain ⟨hsize, hv⟩ := hread hr
      have hle : Text.size rest ≤ Text.size line := Nat.le_trans hsize (Text.size_dropBytes_le _ _)
      have hstop : Text.size (m.indent ++ line) - Text.size rest =
          (Text.size line - Text.size rest) + m.columns := by
        rw [Text.size_append, Move.columns]
        omega
      have hpass := passTo_move (m := m) (Text.size line - Text.size rest) (t :: ts)
      rw [List.map_cons] at hpass
      simp only [hstop, hpass]
      cases passTo (Text.size line - Text.size rest) (t :: ts) with
      | ok rest =>
        simp only [Prod.map, hv]
        rfl
      | error bad =>
        simp only [Token.stop_move]
        rfl

/-- what a descriptor denotes has no places of its own -/
theorem settled_readReferenceOrType : Settled (OperandValue.move m) readReferenceOrType := by
  intro t v r h
  unfold readReferenceOrType at h
  split at h
  · rename_i hr
    obtain ⟨rfl, rfl⟩ := Prod.mk.inj (Option.some.inj h)
    exact ⟨(settled_of_exact Reference.exact_read? hr).1, rfl⟩
  · obtain ⟨⟨type, rest⟩, ht, he⟩ := Option.map_eq_some_iff.mp h
    obtain ⟨rfl, rfl⟩ := Prod.mk.inj he
    exact ⟨(settled_of_exact TypeDescriptor.exact_read? ht).1, rfl⟩

theorem moves_classType : Moves m (Operand.move m) classType classType := by
  refine (moves_descriptor _ (settled_of_exact TypeDescriptor.exact_read?)).bind fun ⟨type, span⟩ => ?_
  exact Moves.ite (moves_failAt rfl _) (Moves.pure rfl)

/-! ## values -/

theorem moves_single {v : OperandValue} (hv : v.move m = v) :
    Moves m (Operand.move m) (single v) (single v) := by
  refine Moves.get.bind fun c => moves_advance.bind fun _ => Moves.pure ?_
  rw [Cursor.here_move, Operand.move, hv]

theorem moves_enumValue : Moves m (Operand.move m) enumValue enumValue := by
  refine Moves.get.bind fun c => moves_advance.bind fun _ =>
    (moves_descriptor _ (settled_of_exact Reference.exact_read?)).bind fun ⟨r, span⟩ => Moves.pure ?_
  show (⟨.enumValue r, (c.move m).here.cover (span.move m)⟩ : Operand) = _
  rw [Cursor.here_move, Span.cover_move]
  rfl

theorem moves_scalar (t : Token) : Moves m (Operand.move m) (scalar t) (scalar (t.move m)) := by
  unfold scalar
  refine Moves.ite moves_literal (Moves.ite (Moves.ite (moves_single rfl) moves_string) ?_)
  refine Moves.ite (moves_single rfl) (Moves.ite (moves_single rfl) (Moves.ite (moves_single rfl) ?_))
  refine Moves.ite moves_enumValue ?_
  exact (moves_descriptor _ settled_readReferenceOrType).bind fun _ => Moves.pure rfl

/-- the two readers of values call each other with a smaller bound -/
theorem moves_valueWithin_and_elementsWithin (n : Nat) :
    Moves m (Operand.move m) (valueWithin n) (valueWithin n) ∧
      Moves m (List.map (Operand.move m)) (elementsWithin n) (elementsWithin n) := by
  induction n with
  | zero => exact ⟨moves_expected _, moves_expected _⟩
  | succ n ih =>
    constructor
    · refine Moves.get.bind fun ⟨line, number, tokens, stop⟩ => ?_
      cases tokens with
      | nil => exact moves_expected _
      | cons t ts =>
        refine Moves.ite (p := t.isDelimiter "\x7b".toList = true) ?_ (moves_scalar t)
        refine (moves_delimiter _).bind fun opening => Moves.get.bind fun c =>
          moves_atEnd.bind fun b => ?_
        rw [atDelimiter_move]
        have close : ∀ elements : List Operand, Moves m (Operand.move m)
            (do
              let closing ← delimiter "\x7d".toList
              return (⟨.array elements, opening.cover closing⟩ : Operand))
            (do
              let closing ← delimiter "\x7d".toList
              return (⟨.array (elements.map (Operand.move m)), (opening.move m).cover closing⟩ : Operand)) := by
          intro elements
          refine (moves_delimiter _).bind fun closing => Moves.pure ?_
          rw [Span.cover_move, ← OperandValue.moveElements_eq]
          rfl
        refine Moves.ite ((Moves.pure (f := List.map (Operand.move m)) rfl).bind close) ?_
        exact Moves.ite ((moves_expected _).bind close) (ih.2.bind close)
    · refine ih.1.bind fun v => (moves_eat _).bind fun b => ?_
      exact Moves.ite (ih.2.bind fun _ => Moves.pure rfl) (Moves.pure rfl)

theorem moves_inlineValue : Moves m (Operand.move m) inlineValue inlineValue := by
  refine Moves.get.bind fun c => ?_
  have hlength : (c.move m).tokens.length = c.tokens.length := List.length_map _
  rw [hlength]
  exact (moves_valueWithin_and_elementsWithin _).1

def ElementValue.move (m : Move) : ElementValue → ElementValue
  | .complete o => .complete (o.move m)
  | .openArray => .openArray
  | .subannot type => .subannot (type.move m)

theorem moves_elementValue : Moves m (ElementValue.move m) elementValue elementValue := by
  have complete : Moves m (ElementValue.move m) (do return .complete (← inlineValue))
      (do return .complete (← inlineValue)) :=
    moves_inlineValue.bind fun _ => Moves.pure rfl
  have annot : Moves m (ElementValue.move m) (do advance; return .subannot (← classType))
      (do advance; return .subannot (← classType)) :=
    moves_advance.bind fun _ => moves_classType.bind fun _ => Moves.pure rfl
  refine Moves.get.bind fun ⟨line, number, tokens, stop⟩ => ?_
  match tokens with
  | [] => exact moves_expected _
  | [t] => exact Moves.ite (moves_advance.bind fun _ => Moves.pure rfl) (Moves.ite annot complete)
  | t :: t' :: ts => exact Moves.ite annot complete

end
end Reader
/-! ## parsers of lines -/

namespace LineParser
open Reader (moves_advance moves_expected moves_fail moves_failAt moves_eatWord moves_bareLiteral
  moves_register moves_registerList moves_registerRange moves_literal moves_string moves_label
  moves_labelRange moves_index moves_classType moves_single moves_inlineValue settled_of_exact
  moves_descriptor)

variable {α β : Type}

/-- On the moved draft, `p'` comes to what `p` comes to, moved, also when it fails. -/
def Moves (m : Move) (f : α → α) (p p' : LineParser α) : Prop :=
  ∀ d, p' (d.move m) =
    match p d with
    | .ok a d' => .ok (f a) (d'.move m)
    | .error e d' => .error (e.move m) (d'.move m)

namespace Moves

variable {m : Move}

theorem pure {f : α → α} {a a' : α} (h : a' = f a) :
    Moves m f (Pure.pure a : LineParser α) (Pure.pure a') := by
  subst h
  exact fun _ => rfl

theorem get : Moves m (Draft.move m) (MonadState.get : LineParser Draft) MonadState.get :=
  fun _ => rfl

theorem bind {f : α → α} {g : β → β} {x x' : LineParser α} {k k' : α → LineParser β}
    (hx : Moves m f x x') (hk : ∀ a, Moves m g (k a) (k' (f a))) :
    Moves m g (x >>= k) (x' >>= k') := by
  intro d
  change EStateM.bind x' k' (d.move m) =
    match EStateM.bind x k d with
    | .ok a d' => .ok (g a) (d'.move m)
    | .error e d' => .error (e.move m) (d'.move m)
  unfold EStateM.bind
  rw [hx d]
  cases x d with
  | error e d' => rfl
  | ok a d' => exact hk a d'

theorem ite {p : Prop} [Decidable p] {f : α → α} {x x' y y' : LineParser α} (hx : Moves m f x x')
    (hy : Moves m f y y') : Moves m f (if p then x else y) (if p then x' else y') := by
  split
  · exact hx
  · exact hy

end Moves

section
variable {m : Move} {f : α → α}

theorem moves_modify {g g' : Draft → Draft} (h : ∀ d, g' (d.move m) = (g d).move m) :
    Moves m id (modify g : LineParser Unit) (modify g') := by
  intro d
  show EStateM.Result.ok () (g' (d.move m)) = .ok () ((g d).move m)
  rw [h]

theorem moves_read {r r' : Reader α} (h : Reader.Moves m f r r') : Moves m f (read r) (read r') := by
  intro d
  have hd : r' (d.move m).cursor = _ := h d.cursor
  unfold read
  rw [hd]
  cases r d.cursor with
  | ok p => rfl
  | error e => rfl

theorem moves_push (o : Operand) : Moves m id (push o) (push (o.move m)) := by
  refine moves_modify fun d => ?_
  simp only [Draft.move, List.map_append, List.map_cons, List.map_nil]

theorem moves_add {r r' : Reader Operand} (h : Reader.Moves m (Operand.move m) r r') :
    Moves m id (add r) (add r') :=
  (moves_read h).bind fun o => moves_push o

theorem moves_addDescriptor (what : Text) {read? : Text → Option (α × Text)} {render : α → Text}
    {W : α → Prop} {g : α → OperandValue} (h : Exact read? render W) (hg : ∀ a, (g a).move m = g a) :
    Moves m id (addDescriptor what read? g) (addDescriptor what read? g) := by
  refine moves_add ((moves_descriptor _ (settled_of_exact h)).bind fun ⟨a, span⟩ => ?_)
  refine Reader.Moves.pure ?_
  rw [Operand.move, hg]
  rfl

theorem moves_setKind (kind : StatementKind) : Moves m id (setKind kind) (setKind kind) :=
  moves_modify fun _ => rfl

theorem moves_setOpens (k : BlockKind) : Moves m id (setOpens k) (setOpens k) :=
  moves_modify fun _ => rfl

theorem moves_setCloses (k : BlockKind) : Moves m id (setCloses k) (setCloses k) :=
  moves_modify fun _ => rfl

theorem moves_peek? : Moves m (Option.map (Token.move m)) peek? peek? := by
  refine Moves.get.bind fun d => Moves.pure ?_
  exact List.head?_map

theorem moves_eat (text : Text) : Moves m id (eat text) (eat text) :=
  moves_read (Reader.moves_eat text)

theorem moves_finish : Moves m id finish finish :=
  moves_read Reader.moves_finish

theorem moves_expecting (entry : Option Entry) {p p' : LineParser α} (h : Moves m f p p') :
    Moves m f (expecting entry p) (expecting entry p') := by
  intro d
  unfold expecting
  rw [h d]
  cases p d with
  | ok a d' => rfl
  | error e d' => cases entry <;> rfl

/-! ## instructions -/

theorem moves_reference (kind : OperandKind) :
    Reader.Moves m (Operand.move m) (reference kind) (reference kind) := by
  refine (moves_descriptor _ (settled_of_exact Reference.exact_read?)).bind fun ⟨r, span⟩ => ?_
  exact Reader.Moves.ite (Reader.Moves.pure rfl) (moves_failAt rfl _)

theorem moves_operand (kind : OperandKind) :
    Reader.Moves m (Operand.move m) (operand kind) (operand kind) := by
  cases kind with
  | register => exact moves_register
  | registerList => exact moves_registerList
  | registerRange => exact moves_registerRange
  | literal => exact moves_literal
  | string => exact moves_string
  | type =>
    exact (moves_descriptor _ (settled_of_exact TypeDescriptor.exact_read?)).bind fun _ =>
      Reader.Moves.pure rfl
  | field => exact moves_reference _
  | method => exact moves_reference _
  | label => exact moves_label
  | index => exact moves_index
  | proto =>
    exact (moves_descriptor _ (settled_of_exact Prototype.exact_read?)).bind fun _ =>
      Reader.Moves.pure rfl

theorem moves_moreOperands (ks : List OperandKind) :
    Moves m id (moreOperands ks) (moreOperands ks) := by
  induction ks with
  | nil => exact Moves.pure rfl
  | cons k ks ih =>
    exact (moves_read (Reader.moves_delimiter _)).bind fun _ => (moves_add (moves_operand k)).bind fun _ => ih

theorem moves_operands (ks : List OperandKind) : Moves m id (operands ks) (operands ks) := by
  cases ks with
  | nil => exact Moves.pure rfl
  | cons k ks => exact (moves_add (moves_operand k)).bind fun _ => moves_moreOperands ks

theorem moves_instruction (odex : Bool) (entry : Entry) (head : Token) :
    Moves m id (instruction odex entry head) (instruction odex entry (head.move m)) := by
  refine (moves_read moves_advance).bind fun _ => Moves.bind (moves_modify ?_) fun _ => ?_
  · exact fun _ => rfl
  have rest : Moves m id (do operands entry.operandKinds; finish) (do operands entry.operandKinds; finish) :=
    (moves_operands _).bind fun _ => moves_finish
  refine moves_expecting _ (Moves.ite ?_ rest)
  exact (moves_read (f := id) (moves_failAt head.span_move _)).bind fun _ => rest

/-! ## entries -/

theorem moves_moreLiterals (n : Nat) : Moves m id (moreLiterals n) (moreLiterals n) := by
  induction n with
  | zero => exact Moves.pure rfl
  | succ n ih =>
    refine (moves_read Reader.moves_atEnd).bind fun b => Moves.ite (Moves.pure rfl) ?_
    exact (moves_eat _).bind fun _ => (moves_add moves_literal).bind fun _ => ih

theorem moves_arrayEntry : Moves m id arrayEntry arrayEntry := by
  refine (moves_setKind _).bind fun _ => (moves_add moves_literal).bind fun _ => Moves.get.bind fun d => ?_
  have hlength : (d.move m).cursor.tokens.length = d.cursor.tokens.length := List.length_map _
  rw [hlength]
  exact moves_moreLiterals _

theorem moves_packedSwitchEntry : Moves m id packedSwitchEntry packedSwitchEntry :=
  (moves_setKind _).bind fun _ => (moves_add moves_label).bind fun _ => moves_finish

theorem moves_sparseSwitchEntry : Moves m id sparseSwitchEntry sparseSwitchEntry :=
  (moves_setKind _).bind fun _ => (moves_add moves_literal).bind fun _ =>
    (moves_read (Reader.moves_delimiter _)).bind fun _ => (moves_add moves_label).bind fun _ => moves_finish

theorem moves_elementValue : Moves m id elementValue elementValue := by
  refine (moves_read Reader.moves_elementValue).bind fun v => ?_
  cases v with
  | complete o => exact moves_push o
  | openArray => exact moves_setOpens _
  | subannot type => exact (moves_push type).bind fun _ => moves_setOpens _

theorem moves_elementName : Reader.Moves m (Operand.move m) elementName elementName := by
  refine Reader.Moves.get.bind fun ⟨line, number, tokens, stop⟩ => ?_
  cases tokens with
  | nil => exact moves_expected _
  | cons t ts => exact Reader.Moves.ite (moves_single rfl) (moves_expected _)

theorem moves_element : Moves m id element element :=
  (moves_setKind _).bind fun _ => (moves_add moves_elementName).bind fun _ =>
    (moves_read (Reader.moves_delimiter _)).bind fun _ => moves_elementValue.bind fun _ => moves_finish

theorem moves_arrayElement : Moves m id arrayElement arrayElement := by
  refine (moves_setKind _).bind fun _ => (moves_eat _).bind fun b => Moves.ite ?_ ?_
  · exact (moves_setCloses _).bind fun _ => moves_finish
  · exact moves_elementValue.bind fun _ => (moves_eat _).bind fun _ => moves_finish

/-! ## directives -/

theorem isFlag_move (t : Token) (ts : List Token) :
    isFlag (t.move m) (ts.map (Token.move m)) = isFlag t ts := by
  cases ts <;> rfl

theorem cutFlags_move (ts : List Token) :
    cutFlags (ts.map (Token.move m)) =
      ((cutFlags ts).1.map (Token.move m), (cutFlags ts).2.map (Token.move m)) := by
  induction ts with
  | nil => rfl
  | cons t ts ih =>
    rw [List.map_cons, cutFlags, cutFlags, isFlag_move, ih]
    split <;> rfl

theorem flagsOf_move (words : List Token) : flagsOf (words.map (Token.move m)) = flagsOf words := by
  rw [flagsOf, List.foldl_map]
  rfl

theorem foldl_cover_move (words : List Token) (span : Span) :
    (words.map (Token.move m)).foldl (fun s w => s.cover w.span) (span.move m) =
      (words.foldl (fun s w => s.cover w.span) span).move m := by
  induction words generalizing span with
  | nil => rfl
  | cons w words ih =>
    rw [List.map_cons, List.foldl_cons, List.foldl_cons, Token.span_move, Span.cover_move, ih]

theorem moves_flags : Moves m id flags flags := by
  refine Moves.get.bind fun d => ?_
  have hcut : cutFlags (d.move m).cursor.tokens = _ := cutFlags_move d.cursor.tokens
  dsimp only
  rw [hcut]
  cases hwords : cutFlags d.cursor.tokens with
  | mk words rest =>
    cases words with
    | nil => exact Moves.pure rfl
    | cons t words =>
      refine Moves.bind (moves_modify ?_) fun _ => ?_
      · exact fun _ => rfl
      · show Moves m id _ (push ⟨.flags (flagsOf ((t :: words).map (Token.move m))),
          (words.map (Token.move m)).foldl (fun s w => s.cover w.span) (t.move m).span⟩)
        rw [flagsOf_move, Token.span_move, foldl_cover_move]
        exact moves_push _

theorem moves_count (what : Text) : Reader.Moves m (Operand.move m) (count what) (count what) := by
  intro c
  unfold count
  rw [moves_bareLiteral c, Cursor.expected_move]
  cases Reader.bareLiteral c with
  | error e => rfl
  | ok p =>
    obtain ⟨⟨l, span⟩, rest⟩ := p
    dsimp only [Prod.map, id]
    cases l.toIntIn? 0 0xffffffff <;> rfl

theorem moves_visibility : Reader.Moves m (Operand.move m) visibility visibility := by
  refine Reader.Moves.get.bind fun ⟨line, number, tokens, stop⟩ => ?_
  cases tokens with
  | nil => exact moves_expected _
  | cons t ts =>
    dsimp only [Cursor.move]
    rw [List.map_cons]
    dsimp only
    rw [Token.text_move, Token.isWord_move]
    cases if t.isWord then Visibility.ofWord? t.text else none with
    | some v => exact moves_single rfl
    | none => exact moves_expected _

theorem moves_elementWidth : Reader.Moves m (Operand.move m) elementWidth elementWidth := by
  refine moves_bareLiteral.bind fun ⟨l, span⟩ => ?_
  dsimp only [Reader.withPlace, Prod.map_apply, id_eq]
  cases l.toIntIn? 0 255 with
  | some i => exact Reader.Moves.ite (Reader.Moves.pure rfl) (moves_failAt rfl _)
  | none => exact moves_failAt rfl _

theorem moves_localName : Reader.Moves m (Operand.move m) localName localName := by
  refine Reader.Moves.get.bind fun ⟨line, number, tokens, stop⟩ => ?_
  cases tokens with
  | nil => exact moves_string
  | cons t ts => exact Reader.Moves.ite (moves_single rfl) moves_string

theorem moves_localVar : Moves m id localVar localVar := by
  refine (moves_add moves_register).bind fun _ => (moves_eat _).bind fun b => ?_
  refine Moves.ite ?_ (Moves.pure rfl)
  refine (moves_add moves_localName).bind fun _ => (moves_read (Reader.moves_delimiter _)).bind fun _ => ?_
  refine (moves_addDescriptor _ TypeDescriptor.exact_read? fun _ => rfl).bind fun _ => ?_
  exact (moves_eat _).bind fun b => Moves.ite (moves_add moves_string) (Moves.pure rfl)

theorem moves_blockEnd : Moves m id blockEnd blockEnd := by
  refine moves_peek?.bind fun t => ?_
  have hkind : ((t.map (Token.move m)).bind fun t =>
        if t.kind == .keyword then BlockKind.ofEndWord? t.text else none) =
      t.bind fun t => if t.kind == .keyword then BlockKind.ofEndWord? t.text else none := by
    cases t <;> rfl
  rw [hkind]
  cases t.bind fun t => if t.kind == .keyword then BlockKind.ofEndWord? t.text else none with
  | none => exact moves_read (moves_expected _)
  | some k =>
    refine (moves_read moves_advance).bind fun _ => (moves_setCloses k).bind fun _ => ?_
    exact Moves.ite ((moves_eat _).bind fun _ => Moves.pure rfl) (Moves.pure rfl)

theorem moves_directiveOperands (d : Directive) :
    Moves m id (directiveOperands d) (directiveOperands d) := by
  have endOperands : Moves m id (directiveOperands .endBlock) (directiveOperands .endBlock) := by
    refine (moves_read (moves_eatWord _)).bind fun b => Moves.ite ?_ moves_blockEnd
    exact (moves_setKind _).bind fun _ => moves_add moves_register
  cases d with
  | classDecl => exact moves_flags.bind fun _ => moves_add moves_classType
  | superclass => exact moves_add moves_classType
  | implements => exact moves_add moves_classType
  | subannot => exact moves_add moves_classType
  | source => exact moves_add moves_string
  | field =>
    refine moves_flags.bind fun _ => ?_
    refine (moves_addDescriptor _ Member.exact_readField? fun _ => rfl).bind fun _ => ?_
    exact (moves_eat _).bind fun b => Moves.ite (moves_add moves_inlineValue) (Moves.pure rfl)
  | method =>
    exact moves_flags.bind fun _ => moves_addDescriptor _ MethodSignature.exact_read? fun _ => rfl
  | locals => exact moves_add (moves_count _)
  | registers => exact moves_add (moves_count _)
  | line => exact moves_add (moves_count _)
  | param =>
    refine (moves_add moves_register).bind fun _ => (moves_eat _).bind fun b => ?_
    exact Moves.ite (moves_add moves_string) (Moves.pure rfl)
  | annot => exact (moves_add moves_visibility).bind fun _ => moves_add moves_classType
  | enumValue => exact moves_addDescriptor _ Reference.exact_read? fun _ => rfl
  | catchType =>
    exact (moves_add moves_classType).bind fun _ => (moves_add moves_labelRange).bind fun _ =>
      moves_add moves_label
  | catchAll => exact (moves_add moves_labelRange).bind fun _ => moves_add moves_label
  | arrayData => exact moves_add moves_elementWidth
  | packedSwitch => exact moves_add moves_literal
  | sparseSwitch => exact Moves.pure rfl
  | prologue => exact Moves.pure rfl
  | epilogue => exact Moves.pure rfl
  | localVar => exact moves_localVar
  | endBlock => exact endOperands
  | endLocal => exact endOperands
  | restartLocal =>
    refine (moves_read (moves_eatWord _)).bind fun b => ?_
    exact Moves.ite (moves_add moves_register) (moves_read (moves_expected _))

theorem moves_directive (catalog : Catalog) (head : Token) :
    Moves m id (directive catalog head) (directive catalog (head.move m)) := by
  refine (moves_read moves_advance).bind fun _ => ?_
  rw [Token.text_move]
  cases Directive.ofKeyword? head.text with
  | none => exact moves_read (moves_failAt head.span_move _)
  | some d =>
    refine Moves.bind (moves_modify ?_) fun _ => ?_
    · exact fun _ => rfl
    · exact moves_expecting _ ((moves_directiveOperands d).bind fun _ => moves_finish)

/-! ## the line -/

theorem moves_codeLine (language : Language) (head : Token) :
    Moves m id (codeLine language head) (codeLine language (head.move m)) := by
  refine Moves.ite (moves_read (moves_fail _)) (Moves.ite ?_ ?_)
  · exact (moves_setKind _).bind fun _ => (moves_add moves_label).bind fun _ => moves_finish
  · rw [Token.text_move, Token.kind_move, Token.isWord_move]
    cases if head.kind == .keyword then language.catalog.instruction? head.text else none with
    | some entry => exact moves_instruction _ _ _
    | none => exact Moves.ite (moves_read (moves_fail _)) (moves_read (moves_fail _))

theorem moves_statement (language : Language) (stack : BlockStack) (head : Token) :
    Moves m id (statement language stack head) (statement language stack (head.move m)) := by
  refine Moves.ite (moves_directive _ head) ?_
  split
  · exact moves_arrayEntry
  · exact moves_packedSwitchEntry
  · exact moves_sparseSwitchEntry
  · exact moves_element
  · exact moves_element
  · exact moves_arrayElement
  · exact moves_codeLine language head

end
end LineParser

/-! ## tokens -/

namespace Piece

section
variable {behind w : Text} (hw : ∀ c ∈ w, isBlank c = true)
include hw

/-- blanks further back say nothing about what comes next -/
theorem afterArrow_append : afterArrow (behind ++ w) = afterArrow behind := by
  match behind, w with
  | _, [] => rw [List.append_nil]
  | [], b :: w =>
    have hb : b ≠ '>' := by
      rintro rfl
      exact absurd (hw _ List.mem_cons_self) (by decide)
    simp [afterArrow, hb]
  | [a], b :: w =>
    have hb : b ≠ '-' := by
      rintro rfl
      exact absurd (hw _ List.mem_cons_self) (by decide)
    simp [afterArrow, hb]
  | a :: b :: r, c :: w =>
    show afterArrow (a :: b :: (r ++ c :: w)) = afterArrow (a :: b :: r)
    unfold afterArrow
    split <;> simp_all

theorem atLabel_append (t : Text) : atLabel (behind ++ w) t = atLabel behind t := by
  have harrow : afterArrow (behind ++ w) = afterArrow behind := afterArrow_append hw
  unfold atLabel
  split
  · match behind, w with
    | _, [] => rw [List.append_nil]
    | [], b :: w => simp [hw b List.mem_cons_self]
    | [a], b :: w =>
      have hb : b ≠ '.' := by
        rintro rfl
        exact absurd (hw _ List.mem_cons_self) (by decide)
      have hdots : (b == '.') = false := beq_eq_false_iff_ne.mpr hb
      rw [List.singleton_append] at harrow
      simp [harrow, hdots]
    | a :: b :: r, c :: w =>
      simp only [List.cons_append] at harrow
      simp [harrow]
  · rfl

theorem cut_append (catalog : Catalog) (ctx : LexContext) (t : Text) :
    cut catalog ctx (behind ++ w) t = cut catalog ctx behind t := by
  unfold cut memberName
  rw [atLabel_append hw, afterArrow_append hw]

end
end Piece

namespace Lexer

/-- the lexer on the line at its other place -/
def move (m : Move) (l : Lexer) : Lexer :=
  { l with behind := l.behind ++ m.indent.reverse, line := l.line + m.lines }

variable {m : Move} (hm : ∀ c ∈ m.indent, isBlank c = true) (catalog : Catalog)
include hm

theorem lex_move (l : Lexer) :
    (l.move m).lex catalog = (l.lex catalog).map fun (t, l') => (t.move m, l'.move m) := by
  have hcut : Piece.cut catalog l.context (l.behind ++ m.indent.reverse) l.rest =
      Piece.cut catalog l.context l.behind l.rest :=
    Piece.cut_append (fun c hc => hm c (List.mem_reverse.mp hc)) _ _ _
  have hoffset : (l.move m).offset = l.offset + m.columns := by
    show Text.size (l.behind ++ m.indent.reverse) = _
    rw [Text.size_append, Text.size_reverse]
    rfl
  have htoken : ∀ p, (l.move m).token p = (l.token p).move m := by
    intro p
    rw [token, hoffset]
    rfl
  have hafter : ∀ p, (l.move m).after p = (l.after p).move m := by
    intro p
    rw [after, htoken]
    show Lexer.mk (_ ++ (l.behind ++ m.indent.reverse)) _ _ _ = _
    rw [← List.append_assoc]
    rfl
  unfold lex
  show (if l.rest.isEmpty then none else some ((l.move m).token
    (Piece.cut catalog l.context (l.behind ++ m.indent.reverse) l.rest), (l.move m).after
    (Piece.cut catalog l.context (l.behind ++ m.indent.reverse) l.rest))) = _
  rw [hcut, htoken, hafter]
  split <;> rfl

theorem tokens_move (l : Lexer) : (l.move m).tokens catalog = (l.tokens catalog).map (Token.move m) := by
  have hlex := lex_move hm catalog l
  cases h : l.lex catalog with
  | none =>
    rw [h, Option.map_none] at hlex
    rw [tokens_of_lex_eq_none hlex, tokens_of_lex_eq_none h, List.map_nil]
  | some p =>
    obtain ⟨t, l'⟩ := p
    rw [h, Option.map_some] at hlex
    have := length_lt_of_lex h
    rw [tokens_of_lex hlex, tokens_of_lex h, List.map_cons, tokens_move l']
termination_by l.rest.length

end Lexer

theorem tokenize_down (catalog : Catalog) (line : Text) (number n : Nat) :
    tokenize catalog line (number + n) = (tokenize catalog line number).map (Token.move (.down n)) := by
  have htokens : (Lexer.start line (number + n)).tokens catalog =
      ((Lexer.start line number).tokens catalog).map (Token.move (.down n)) :=
    Lexer.tokens_move (m := .down n) (List.forall_mem_nil _) catalog (Lexer.start line number)
  rw [tokenize_eq, tokenize_eq, Lexer.wanted, Lexer.wanted, htokens, List.filter_map]
  rfl

/-! ## statements -/

/-- a line without tokens has its span at the start of the line, which blanks do not move -/
theorem lineSpan_move {m : Move} {tokens : List Token} (h : tokens ≠ [] ∨ m.indent = []) (number : Nat) :
    lineSpan (tokens.map (Token.move m)) (number + m.lines) = (lineSpan tokens number).move m := by
  cases tokens with
  | nil =>
    have hcolumns : m.columns = 0 := by
      rw [Move.columns, h.resolve_left fun h => h rfl]
      rfl
    show Span.onLine (number + m.lines) 0 0 = Span.onLine (number + m.lines) (0 + m.columns) (0 + m.columns)
    rw [hcolumns]
  | cons first more =>
    unfold lineSpan
    rw [List.head?_map, List.getLast?_map, List.head?_cons, List.getLast?_cons]
    show (first.move m).span.cover (Token.move m _).span = _
    rw [Token.span_move, Token.span_move, Span.cover_move]

/-- **A line at another place.**  Where the tokens move, all positions of the statement do, and nothing else
changes. -/
theorem parseLine_move {m : Move} (language : Language) (stack : BlockStack) {line : Text} {number : Nat}
    (htokens : tokenize language.catalog (m.indent ++ line) (number + m.lines) =
      (tokenize language.catalog line number).map (Token.move m))
    (hspan : tokenize language.catalog line number ≠ [] ∨ m.indent = []) :
    parseLine language stack (m.indent ++ line) (number + m.lines) = (parseLine language stack line number).move m := by
  unfold parseLine
  rw [htokens]
  generalize tokenize language.catalog line number = tokens at hspan
  have hcomment : ((tokens.map (Token.move m)).find? fun t => t.kind == .comment).map Token.text =
      (tokens.find? fun t => t.kind == .comment).map Token.text := by
    rw [List.find?_map, Option.map_map]
    rfl
  have hsignificant : (tokens.map (Token.move m)).filter Token.isSignificant =
      (tokens.filter Token.isSignificant).map (Token.move m) := by
    rw [List.filter_map]
    rfl
  dsimp only
  rw [hcomment, hsignificant, lineSpan_move hspan]
  cases tokens.filter Token.isSignificant with
  | nil =>
    cases (tokens.find? fun t => t.kind == .comment).map Token.text <;> rfl
  | cons head more =>
    have hbad : ((head :: more).map (Token.move m)).find? (fun t => t.kind == .error) =
        ((head :: more).find? fun t => t.kind == .error).map (Token.move m) := by
      rw [List.find?_map]
      rfl
    have hlast : (((head :: more).map (Token.move m)).getLast?.map Token.stop).getD 0 =
        ((head :: more).getLast?.map Token.stop).getD 0 + m.columns := by
      rw [List.getLast?_map, Option.map_map, List.getLast?_cons]
      exact Token.stop_move _
    rw [List.map_cons] at hbad hlast
    rw [List.map_cons]
    dsimp only
    rw [hbad, hlast]
    cases (head :: more).find? fun t => t.kind == .error with
    | some bad =>
      dsimp only [Option.map_some]
      rw [Token.span_move]
      rfl
    | none =>
      generalize ((head :: more).getLast?.map Token.stop).getD 0 = stop
      have hmoves := LineParser.moves_statement (m := m) language stack head
        (Draft.start ⟨line, number, head :: more, stop⟩)
      dsimp only [Option.map_none]
      have hstart : Draft.start ⟨m.indent ++ line, number + m.lines,
            head.move m :: more.map (Token.move m), stop + m.columns⟩ =
          (Draft.start ⟨line, number, head :: more, stop⟩).move m := rfl
      rw [hstart, hmoves]
      cases LineParser.statement language stack head (Draft.start ⟨line, number, head :: more, stop⟩) with
      | ok a d => rfl
      | error e d => rfl

/-- **A line further down.**  Its statement is the same, with all positions that much further down. -/
theorem parseLine_down (language : Language) (stack : BlockStack) (line : Text) (number n : Nat) :
    parseLine language stack line (number + n) =
      (parseLine language stack line number).move (.down n) :=
  parseLine_move (m := .down n) language stack (tokenize_down language.catalog line number n) (.inr rfl)

end Smali
