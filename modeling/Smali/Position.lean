import Smali.Text.Numeral

/-!
# Positions and spans

* `Position`        a line and a byte column, both counted from zero, ordered line first;
* `Span`            the half-open stretch between two positions;
* `Span.cover a b`  the smallest span around both;
* `Span.contains`   whether a position lies inside.

They are shown to users counted from one.
-/

namespace Smali

structure Position where
  line : Nat
  column : Nat
deriving DecidableEq, Repr, Inhabited

namespace Position

/-- line first, then column -/
protected def le (p q : Position) : Prop :=
  p.line < q.line ∨ (p.line = q.line ∧ p.column ≤ q.column)

protected def lt (p q : Position) : Prop :=
  p.line < q.line ∨ (p.line = q.line ∧ p.column < q.column)

instance : LE Position := ⟨Position.le⟩

instance : LT Position := ⟨Position.lt⟩

instance (p q : Position) : Decidable (p ≤ q) :=
  inferInstanceAs (Decidable (p.line < q.line ∨ (p.line = q.line ∧ p.column ≤ q.column)))

instance (p q : Position) : Decidable (p < q) :=
  inferInstanceAs (Decidable (p.line < q.line ∨ (p.line = q.line ∧ p.column < q.column)))

/-- the earlier of two positions -/
def earlier (p q : Position) : Position :=
  if p ≤ q then p else q

/-- the later of two positions -/
def later (p q : Position) : Position :=
  if p ≤ q then q else p

/-- line and column counted from one -/
def render (p : Position) : Text :=
  Numeral.decimal (p.line + 1) ++ ':' :: Numeral.decimal (p.column + 1)

end Position

structure Span where
  start : Position
  stop : Position
deriving DecidableEq, Repr, Inhabited

namespace Span

/-- the span from byte `start` up to byte `stop` of one line -/
def onLine (line start stop : Nat) : Span :=
  ⟨⟨line, start⟩, ⟨line, stop⟩⟩

/-- the smallest span around both -/
def cover (a b : Span) : Span :=
  ⟨a.start.earlier b.start, a.stop.later b.stop⟩

/-- whether a position lies in the span; the end does not -/
def contains (s : Span) (p : Position) : Bool :=
  decide (s.start ≤ p) && decide (p < s.stop)

/-- a span is shown by its start -/
def render (s : Span) : Text :=
  s.start.render

end Span
end Smali
