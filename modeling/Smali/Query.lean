import Smali.Token.Lexer
import Smali.Token.Line

/-!
# Editor queries on a line

Columns are offsets in bytes; a cursor at column `n` stands after the `n`-th byte.

* `wordAt?`      the word that covers a byte;
* `typedRange?`  where the word typed up to the cursor is cut out of the line;
* `completions`  the entries of the catalog that go on with the word typed up to the cursor;
* `quickInfo?`   the entry of the word under the cursor.
-/

namespace Smali

/-- the kinds of tokens that are words; a lone dot is one, too, as the start of a directive -/
def Token.isWordLike (t : Token) : Bool :=
  match t.kind with
  | .keyword | .identifier | .label => true
  | .error => t.isDotted
  | _ => false

/-- the word that covers byte `offset` -/
def wordAt? (catalog : Catalog) (line : Text) (offset : Nat) : Option Token :=
  (tokenAt? (tokenize catalog line 0) offset).filter fun t => t.covers offset && t.isWordLike

/-- the text between two offsets -/
def Text.slice (start stop : Nat) (t : Text) : Text :=
  Text.dropBytes start (Text.takeBytes stop t)

theorem Text.slice_append (a b c : Text) :
    Text.slice (Text.size a) (Text.size a + Text.size b) (a ++ (b ++ c)) = b := by
  rw [Text.slice, ← List.append_assoc, ← Text.size_append, Text.takeBytes_size, Text.dropBytes_size]

/-- the part of a word without a leading dot -/
def wordBody : Text → Text
  | '.' :: r => r
  | t => t

/-- where the word before `column` starts and where its typed part stops, that is, at `column` or at the end of the
line; none when the cursor follows no word or stands inside a character -/
def typedRange? (catalog : Catalog) (line : Text) (column : Nat) : Option (Nat × Nat) :=
  let column := min column (Text.size line)
  if column = 0 ∨ !Text.isBoundary column line then none
  else (wordAt? catalog line (column - 1)).map fun t => (t.start, column)

/-- the start of the word that is typed up to `column`; empty when the cursor follows no word -/
def typedWord (catalog : Catalog) (line : Text) (column : Nat) : Text :=
  match typedRange? catalog line column with
  | none => []
  | some (start, stop) =>
    let typed := Text.slice start stop line
    if (wordBody typed).all isWordChar then typed else []

/-- the entries that go on with the word typed up to `column` -/
def completions (catalog : Catalog) (line : Text) (column : Nat) : List Entry :=
  catalog.completions (typedWord catalog line column)

/-- the entry of the word at `column` -/
def quickInfo? (catalog : Catalog) (line : Text) (column : Nat) : Option Entry :=
  (wordAt? catalog line column).bind fun t => catalog.lookup t.text

end Smali
