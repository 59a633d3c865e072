import Smali.Token

/-!
# The tokens of a line with an index by offset

* `RangeMap`          a map from numbers that is filled range by range;
* `TokenLine.ofTokens`  tokens with the positions of those that cover the bytes of the line;
* `TokenLine.tokenAt?`  the token at a byte, by this index and else by the starts of the tokens;
* `tokenAt?`          the same for tokens without an index.
-/

namespace Smali

/-- a map from numbers, filled by ranges with a value each; the range that comes last stands first -/
structure RangeMap where
  /-- where a range starts, where it stops, and its value -/
  ranges : List (Nat × Nat × Nat)
deriving DecidableEq, Repr

namespace RangeMap

def empty : RangeMap := ⟨[]⟩

/-- gives a value to all numbers from `start` on and below `stop` -/
def insert (start stop value : Nat) (r : RangeMap) : RangeMap :=
  ⟨(start, stop, value) :: r.ranges⟩

/-- the value of a number -/
def get? (r : RangeMap) (n : Nat) : Option Nat :=
  (r.ranges.find? fun (start, stop, _) => decide (start ≤ n) && decide (n < stop)).map fun (_, _, value) => value

@[simp] theorem get?_empty (n : Nat) : empty.get? n = none := rfl

/-- a later range hides what was there before -/
theorem get?_insert (start stop value : Nat) (r : RangeMap) (n : Nat) :
    (r.insert start stop value).get? n = if start ≤ n ∧ n < stop then some value else r.get? n := by
  unfold get? insert
  rw [List.find?_cons]
  by_cases h : start ≤ n ∧ n < stop
  · simp [h]
  · rw [if_neg h]
    split
    · rename_i hin
      exact absurd (by simpa using hin) h
    · rfl

end RangeMap

/-- the tokens of a line, and for each byte the position of the token that covers it -/
structure TokenLine where
  tokens : List Token
  index : RangeMap
deriving DecidableEq, Repr

namespace TokenLine

/-- puts the positions of tokens, counted from `i`, into an index; a token without text covers nothing -/
def fill (r : RangeMap) (i : Nat) : List Token → RangeMap
  | [] => r
  | t :: ts => fill (if 0 < t.size then r.insert t.start t.stop i else r) (i + 1) ts

def ofTokens (tokens : List Token) : TokenLine :=
  ⟨tokens, fill .empty 0 tokens⟩

/-- how many tokens start at or before byte `offset`, when those that do are the first ones -/
def startsBefore (l : TokenLine) (offset : Nat) : Nat :=
  (l.tokens.takeWhile fun t => decide (t.start ≤ offset)).length

/-- the token that covers byte `offset`, or else the last one that starts before it, or else the first
one; none only when there are no tokens -/
def tokenAt? (l : TokenLine) (offset : Nat) : Option Token :=
  match l.index.get? offset with
  | some i => l.tokens[i]?
  | none =>
    match l.startsBefore offset with
    | 0 => l.tokens.head?
    | n + 1 => l.tokens[n]?

end TokenLine

/-- the token at byte `offset` -/
def tokenAt? (tokens : List Token) (offset : Nat) : Option Token :=
  (TokenLine.ofTokens tokens).tokenAt? offset

end Smali
