import Smali.Document.Nesting
import Smali.Line

/-!
# Documents and ranges of lines

* `parseDocument`   all lines of a text, nested into blocks;
* `BlockStack.after`  what a statement does to the stack of open blocks, without the statements;
* `blockStackAt`    the blocks open at the start of a line;
* `parseRange`      the statements of some lines, not nested, each read inside the blocks open there.
-/

namespace Smali

/-- the lines of a text with their numbers -/
def numberedLines (text : Text) : List (Text × Nat) :=
  (Text.lines text).zipIdx

/-- whether a statement goes into the document -/
def Language.keeps (language : Language) (s : Statement) : Bool :=
  language.options.keepBlankLines || s.kind != .blank

/-- takes the next line -/
def Nesting.pushLine (language : Language) (b : Nesting) (line : Text × Nat) : Nesting :=
  let s := parseLine language b.stack line.1 line.2
  if language.keeps s then b.push s else b

/-- the document of a text -/
def parseDocument (language : Language) (text : Text) : Document :=
  ((numberedLines text).foldl (Nesting.pushLine language) .empty).finish

/-- The stack after a statement.  A field only stands outside all blocks and a parameter in a method,
so their ends close what is open inside. -/
def BlockStack.after (s : Statement) (stack : BlockStack) : BlockStack :=
  let stack := if s.isTopLevel then [] else stack
  let stack : BlockStack :=
    match s.closes with
    | some .field => []
    | some .param => (BlockStack.unwindTo? .method stack).getD stack
    | some k => (BlockStack.close? k stack).getD stack
    | none => stack
  match s.opens with
  | some k => k :: stack
  | none => stack

/-- the statements of some lines, each inside the blocks that the ones before leave open, and the stack
after them -/
def parseLines (language : Language) : BlockStack → List (Text × Nat) → List Statement × BlockStack
  | stack, [] => ([], stack)
  | stack, line :: lines =>
    let s := parseLine language stack line.1 line.2
    let (ss, last) := parseLines language (stack.after s) lines
    (s :: ss, last)

/-- the blocks open at the start of line `n` -/
def blockStackAt (language : Language) (text : Text) (n : Nat) : BlockStack :=
  (parseLines language [] ((numberedLines text).take n)).2

/-- the statements of the lines from `first` up to `last`, which is not among them -/
def parseRange (language : Language) (text : Text) (first last : Nat) : List Statement :=
  let lines := ((numberedLines text).drop first).take (last - first)
  (parseLines language (blockStackAt language text first) lines).1

end Smali
