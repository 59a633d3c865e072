/-!
# Text as a list of characters, measured in bytes

Source text is a list of characters, so that every scanner is a recursion on the list.  Columns and
offsets are counted in bytes of the UTF-8 encoding:

* `Text.size t`         the length of `t` in bytes;
* `Text.dropBytes n t`  what is left of `t` from byte `n` on, from the next character boundary when
                        `n` falls inside a character;
* `Text.takeBytes n t`  the part before that boundary;
* `Text.lines t`        the lines of a text, without their ends;
* `isBlank`, `isControl`, `isDigit`, `isHexDigit`  the classes of characters the scanners use.
-/

namespace Smali

/-- a piece of source text -/
abbrev Text := List Char

/-! ## classes of characters -/

/-- the characters with the property White_Space of Unicode -/
def isBlank (c : Char) : Bool :=
  let n := c.toNat
  (0x09 ≤ n && n ≤ 0x0d) || n == 0x20 || n == 0x85 || n == 0xa0 || n == 0x1680 ||
    (0x2000 ≤ n && n ≤ 0x200a) || n == 0x2028 || n == 0x2029 || n == 0x202f || n == 0x205f ||
    n == 0x3000

/-- the characters of the general category Cc -/
def isControl (c : Char) : Bool :=
  let n := c.toNat
  n ≤ 0x1f || (0x7f ≤ n && n ≤ 0x9f)

/-- `0` to `9` -/
def isDigit (c : Char) : Bool :=
  '0' ≤ c && c ≤ '9'

/-- `0` to `9`, `a` to `f` and `A` to `F` -/
def isHexDigit (c : Char) : Bool :=
  isDigit c || ('a' ≤ c && c ≤ 'f') || ('A' ≤ c && c ≤ 'F')

/-- the ASCII letters and digits -/
def isAlphanumeric (c : Char) : Bool :=
  isDigit c || ('a' ≤ c && c ≤ 'z') || ('A' ≤ c && c ≤ 'Z')

namespace Text

/-! ## bytes -/

/-- the number of bytes of the UTF-8 encoding -/
def size : Text → Nat
  | [] => 0
  | c :: r => c.utf8Size + size r

theorem size_nil : size [] = 0 := rfl

theorem size_cons (c : Char) (r : Text) : size (c :: r) = c.utf8Size + size r := rfl

theorem size_append (s t : Text) : size (s ++ t) = size s + size t := by
  induction s with
  | nil => simp [size]
  | cons c r ih => simp [size, ih, Nat.add_assoc]

theorem size_reverse (t : Text) : size t.reverse = size t := by
  induction t with
  | nil => rfl
  | cons c t ih =>
    rw [List.reverse_cons, size_append, ih, size_cons, size_cons, size_nil]
    omega

/-- the text from byte `n` on; a character that byte `n` cuts belongs to the part before -/
def dropBytes : Nat → Text → Text
  | 0, t => t
  | _ + 1, [] => []
  | n + 1, c :: r => dropBytes (n + 1 - c.utf8Size) r

/-- the text before byte `n`, with the whole of a character that byte `n` cuts -/
def takeBytes : Nat → Text → Text
  | 0, _ => []
  | _ + 1, [] => []
  | n + 1, c :: r => c :: takeBytes (n + 1 - c.utf8Size) r

/-- whether byte `n` starts a character of the text, or is its end -/
def isBoundary (n : Nat) (t : Text) : Bool :=
  size (takeBytes n t) == n

theorem takeBytes_append_dropBytes (n : Nat) (t : Text) : takeBytes n t ++ dropBytes n t = t := by
  induction t generalizing n with
  | nil => cases n <;> rfl
  | cons c r ih => cases n <;> simp [takeBytes, dropBytes, ih]

theorem size_dropBytes_le (n : Nat) (t : Text) : size (dropBytes n t) ≤ size t := by
  have h := congrArg size (takeBytes_append_dropBytes n t)
  rw [size_append] at h
  omega

theorem dropBytes_append (w t : Text) (n : Nat) :
    dropBytes (n + size w) (w ++ t) = dropBytes n t := by
  induction w with
  | nil => rfl
  | cons c w ih =>
    have hc : 0 < c.utf8Size := c.utf8Size_pos
    obtain ⟨k, hk⟩ : ∃ k, n + size (c :: w) = k + 1 := ⟨n + size (c :: w) - 1, by
      rw [size_cons]; omega⟩
    rw [hk, List.cons_append, dropBytes, ← hk, ← ih, size_cons]
    congr 1
    omega

theorem takeBytes_append (w t : Text) (n : Nat) :
    takeBytes (n + size w) (w ++ t) = w ++ takeBytes n t := by
  induction w with
  | nil => rfl
  | cons c w ih =>
    have hc : 0 < c.utf8Size := c.utf8Size_pos
    obtain ⟨k, hk⟩ : ∃ k, n + size (c :: w) = k + 1 := ⟨n + size (c :: w) - 1, by
      rw [size_cons]; omega⟩
    rw [hk, List.cons_append, List.cons_append, takeBytes, ← hk, ← ih, size_cons]
    congr 2
    omega

theorem takeBytes_size (w t : Text) : takeBytes (size w) (w ++ t) = w := by
  have h := takeBytes_append w t 0
  rw [Nat.zero_add, takeBytes, List.append_nil] at h
  exact h

theorem dropBytes_size (w t : Text) : dropBytes (size w) (w ++ t) = t := by
  have h := dropBytes_append w t 0
  rw [Nat.zero_add, dropBytes] at h
  exact h

theorem isBoundary_size (w t : Text) : isBoundary (size w) (w ++ t) = true := by
  rw [isBoundary, takeBytes_size, beq_self_eq_true]

/-! ## parts of texts -/

/-- whether `p` occurs somewhere in the text -/
def hasInfix (p : Text) : Text → Bool
  | [] => p.isEmpty
  | c :: r => p.isPrefixOf (c :: r) || hasInfix p r

/-- the text between two backquotes, as messages cite source text -/
def quoted (t : Text) : Text :=
  "`".toList ++ t ++ "`".toList

/-- each text after the first one has the separator before it -/
theorem intercalate_cons (sep t : Text) (ts : List Text) :
    sep.intercalate (t :: ts) = t ++ (ts.map (sep ++ ·)).flatten := by
  induction ts generalizing t with
  | nil => rw [List.intercalate_singleton, List.map_nil, List.flatten_nil, List.append_nil]
  | cons u ts ih =>
    rw [List.intercalate_cons_cons, ih, List.map_cons, List.flatten_cons, List.append_assoc, List.append_assoc]

/-- the part of a text without its first and its last character -/
def inner (t : Text) : Text :=
  t.tail.dropLast

/-! ## cutting at a character -/

/-- the parts before and after the first `sep` -/
def cutFirst? (sep : Char) : Text → Option (Text × Text)
  | [] => none
  | c :: r => if c = sep then some ([], r) else (cutFirst? sep r).map fun (a, b) => (c :: a, b)

/-- the parts before and after the last `sep` -/
def cutLast? (sep : Char) : Text → Option (Text × Text)
  | [] => none
  | c :: r =>
    match cutLast? sep r with
    | some (a, b) => some (c :: a, b)
    | none => if c = sep then some ([], r) else none

/-! ## lines -/

/-- The lines of a text.  A line ends at a line feed, and a carriage return directly before that
line feed belongs to the end; nothing follows the last line feed unless there is text after it. -/
def lines : Text → List Text
  | [] => []
  | c :: r =>
    if c = '\n' then [] :: lines r
    else if c = '\r' ∧ r.head? = some '\n' then lines r
    else
      match lines r with
      | [] => [[c]]
      | l :: ls => (c :: l) :: ls

end Text

end Smali
