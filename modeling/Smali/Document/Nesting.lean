import Smali.Document

/-!
# Nesting lines into blocks

A `Nesting` is the lines read so far.  It has a frame for each open block, the innermost one first, and
the trees that are outside every open block.

* `Nesting.push`      takes the statement of the next line.  One of the class itself first ends all open
                      blocks.
* `Nesting.close`     an end closes the innermost block of its kind; the blocks open inside it lack
                      their ends and say so.
* `Nesting.closeDeclaration`  the end of a field or parameter makes a block of the last such declaration
                      and all that follows it.
* `Nesting.finish`    the document, when there are no more lines.
-/

namespace Smali

/-- an open block -/
structure Frame where
  /-- the opening line -/
  statement : Statement
  kind : BlockKind
  /-- the statements so far -/
  children : List Node
deriving Repr

namespace Frame

/-- the tree of the block with its closing line -/
def closedBy (f : Frame) (closing : Statement) : Node :=
  ⟨{ f.statement with span := f.statement.span.cover closing.span }, f.children, some closing⟩

/-- the span from the opening line to the last statement in the block -/
def extent (f : Frame) : Span :=
  match f.children.getLast? with
  | some last => f.statement.span.cover last.statement.span
  | none => f.statement.span

/-- The tree of the block when its end is missing.  The opening line has the diagnostic, or, when it
already has one of its own, an end without tokens that stands for the missing one. -/
def unterminated (f : Frame) : Node :=
  let opening := f.statement.span
  let missing : Diagnostic := ⟨.unterminated f.kind, opening, none⟩
  let head := { f.statement with span := f.extent }
  match f.statement.error with
  | none => ⟨{ head with error := some missing }, f.children, none⟩
  | some _ =>
    ⟨head, f.children, some { Statement.bare .error [] opening with error := some missing }⟩

end Frame

/-- the lines read so far -/
structure Nesting where
  /-- the open blocks, the innermost one first -/
  frames : List Frame
  /-- the trees outside every open block -/
  top : List Node
deriving Repr

namespace Nesting

def empty : Nesting := ⟨[], []⟩

/-- the kinds of the open blocks -/
def stack (b : Nesting) : BlockStack :=
  b.frames.map Frame.kind

/-- changes the list of trees that the next statement goes to -/
def mapInnermost (g : List Node → List Node) (b : Nesting) : Nesting :=
  match b.frames with
  | [] => { b with top := g b.top }
  | f :: fs => { b with frames := { f with children := g f.children } :: fs }

/-- appends a tree to the innermost block -/
def add (n : Node) (b : Nesting) : Nesting :=
  b.mapInnermost (· ++ [n])

/-- ends the innermost block without its closing line -/
def unwindOne (b : Nesting) : Nesting :=
  match b.frames with
  | [] => b
  | f :: fs => add f.unterminated { b with frames := fs }

/-- ends the `n` innermost blocks without their closing lines -/
def unwind : Nat → Nesting → Nesting
  | 0, b => b
  | n + 1, b => unwind n b.unwindOne

/-- ends all open blocks without their closing lines -/
def unwindAll (b : Nesting) : Nesting :=
  b.unwind b.frames.length

/-- an end without an open block -/
def addStray (s : Statement) (k : BlockKind) (b : Nesting) : Nesting :=
  b.add <| .leaf { s with kind := .error, error := some ⟨.unmatched k, s.span, none⟩ }

/-- closes the innermost block of kind `k`, after the blocks open inside it are ended -/
def close (s : Statement) (k : BlockKind) (b : Nesting) : Nesting :=
  let inside := (b.frames.takeWhile fun f => f.kind != k).length
  if inside = b.frames.length then b.addStray s k
  else
    let b := b.unwind inside
    match b.frames with
    | [] => b
    | f :: fs => add (f.closedBy s) { b with frames := fs }

/-- the directive that declares what an optional block belongs to -/
def declares : BlockKind → Directive
  | .field => .field
  | _ => .param

/-- whether a tree is a declaration without an end -/
def isOpenDeclaration (d : Directive) (n : Node) : Bool :=
  n.closing.isNone && n.statement.directive? == some d

/-- the trees of each open block from the innermost one on, and then those outside -/
def containers (b : Nesting) : List (List Node) :=
  b.frames.map Frame.children ++ [b.top]

/-- the place of the last element with a property -/
def findLastIdx? {α : Type} (p : α → Bool) : List α → Option Nat
  | [] => none
  | a :: l =>
    match findLastIdx? p l with
    | some i => some (i + 1)
    | none => if p a then some 0 else none

/-- the last declaration without an end in the first list that has one: how many lists are before that
list, and how many trees before the declaration -/
def declaration? (d : Directive) : List (List Node) → Option (Nat × Nat)
  | [] => none
  | nodes :: outer =>
    match findLastIdx? (isOpenDeclaration d) nodes with
    | some i => some (0, i)
    | none => (declaration? d outer).map fun (inside, i) => (inside + 1, i)

/-- a declaration becomes a block with the trees after it -/
def claim (k : BlockKind) (s : Statement) (declaration : Node) (after : List Node) : Node :=
  let head := declaration.statement
  ⟨{ head with opens := some k, span := head.span.cover s.span }, declaration.children ++ after,
    some s⟩

/-- makes a block of the declaration that has `i` trees before it and of the trees after it -/
def claimAt (k : BlockKind) (s : Statement) (i : Nat) (nodes : List Node) : List Node :=
  match nodes.drop i with
  | declaration :: after => nodes.take i ++ [claim k s declaration after]
  | [] => nodes

/-- the end of an optional block, after the blocks opened since its declaration are ended -/
def closeDeclaration (s : Statement) (k : BlockKind) (b : Nesting) : Nesting :=
  match declaration? (declares k) b.containers with
  | none => b.addStray s k
  | some (inside, i) => (b.unwind inside).mapInnermost (claimAt k s i)

/-- takes the statement of the next line -/
def push (s : Statement) (b : Nesting) : Nesting :=
  let b := if s.isTopLevel then b.unwindAll else b
  match s.closes, s.opens with
  | some k, _ => if k.isOptional then b.closeDeclaration s k else b.close s k
  | none, some k => { b with frames := ⟨s, k, []⟩ :: b.frames }
  | none, none => b.add (.leaf s)

/-- the document after the last line -/
def finish (b : Nesting) : Document :=
  ⟨b.unwindAll.top⟩

end Nesting
end Smali
