import Mathlib.Order.Basic
import Smali.Position

/-!
# The order of positions

Positions are in a linear order, line first and then column.

* `Span.Ordered`  a span that ends where it starts or after;
* `Span.Covers`   a span around another one.
-/

namespace Smali

namespace Position

theorem le_iff {p q : Position} :
    p ≤ q ↔ p.line < q.line ∨ (p.line = q.line ∧ p.column ≤ q.column) := Iff.rfl

instance : LinearOrder Position where
  le_refl := fun _ => .inr ⟨rfl, Nat.le_refl _⟩
  le_trans := fun _ _ _ hpq hqr => by
    rw [le_iff] at *
    omega
  lt_iff_le_not_ge := fun p q => by
    rw [le_iff, le_iff]
    show p.line < q.line ∨ _ ↔ _
    omega
  le_antisymm := by
    rintro ⟨l, c⟩ ⟨l', c'⟩ hpq hqp
    rw [le_iff] at *
    dsimp only at *
    rw [Position.mk.injEq]
    omega
  le_total := fun p q => by
    rw [le_iff, le_iff]
    omega
  toDecidableLE := fun _ _ => inferInstance

theorem line_le_of_le {p q : Position} (h : p ≤ q) : p.line ≤ q.line := by
  rw [le_iff] at h
  omega

theorem le_of_line_lt {p q : Position} (h : p.line < q.line) : p ≤ q := .inl h

theorem earlier_le_left (p q : Position) : p.earlier q ≤ p := by
  unfold earlier
  split
  · exact le_refl p
  · rename_i h
    exact le_of_not_ge h

theorem left_le_later (p q : Position) : p ≤ p.later q := by
  unfold later
  split
  · assumption
  · exact le_refl p

end Position

namespace Span

/-- the span ends where it starts or after -/
def Ordered (a : Span) : Prop :=
  a.start ≤ a.stop

/-- the other span lies in this one -/
def Covers (a b : Span) : Prop :=
  a.start ≤ b.start ∧ b.stop ≤ a.stop

theorem Covers.refl (a : Span) : a.Covers a :=
  ⟨le_refl _, le_refl _⟩

theorem Covers.trans {a b c : Span} (hab : a.Covers b) (hbc : b.Covers c) : a.Covers c :=
  ⟨le_trans hab.1 hbc.1, le_trans hbc.2 hab.2⟩

theorem Ordered.cover {a : Span} (ha : a.Ordered) (b : Span) : (a.cover b).Ordered :=
  le_trans (le_trans (Position.earlier_le_left a.start b.start) ha) (Position.left_le_later a.stop b.stop)

end Span
end Smali
