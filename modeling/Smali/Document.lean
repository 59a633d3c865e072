import Smali.Statement

/-!
# Documents

A document is a forest: the statements between the opening and the closing line of a block are the
children of its opening line.

* `Node`                  a statement with its children and its closing line;
* `Node.walk`             the statements of a tree, in the order of the lines;
* `Node.collect`          puts the diagnostics of a tree behind those that are collected already;
* `Document.diagnostics`  all diagnostics by their place;
* `Document.labels`       the names of the labels in the order of the lines.
-/

namespace Smali

structure Node where
  statement : Statement
  children : List Node
  /-- the line that closes the block -/
  closing : Option Statement
deriving Repr

namespace Node

/-- a statement without children -/
def leaf (s : Statement) : Node := ⟨s, [], none⟩

mutual

/-- the statement, those of the children and the closing line -/
def walk : Node → List Statement
  | ⟨s, children, closing⟩ => s :: (walkAll children ++ closing.toList)

/-- the statements of several trees -/
def walkAll : List Node → List Statement
  | [] => []
  | n :: ns => n.walk ++ walkAll ns

end

mutual

/-- whether the tree has a diagnostic -/
def hasErrors : Node → Bool
  | ⟨s, children, closing⟩ =>
    s.error.isSome || anyHasErrors children || closing.any fun e => e.error.isSome

/-- whether one of the trees has a diagnostic -/
def anyHasErrors : List Node → Bool
  | [] => false
  | n :: ns => n.hasErrors || anyHasErrors ns

end

/-- puts the diagnostic of a statement, if it has one, behind those that are collected already -/
def report (out : List Diagnostic) (s : Statement) : List Diagnostic :=
  match s.error with
  | some e => out ++ [e]
  | none => out

mutual

/-- puts the diagnostics of the tree behind those that are collected already: the one of the statement, those of the
children and the one of the closing line -/
def collect (out : List Diagnostic) : Node → List Diagnostic
  | ⟨s, children, none⟩ => collectAll (report out s) children
  | ⟨s, children, some e⟩ => report (collectAll (report out s) children) e

/-- puts the diagnostics of several trees behind those that are collected already -/
def collectAll (out : List Diagnostic) : List Node → List Diagnostic
  | [] => out
  | n :: ns => collectAll (n.collect out) ns

end

/-- the diagnostics of the tree, in the order of the lines -/
def diagnostics (n : Node) : List Diagnostic :=
  n.collect []

end Node

structure Document where
  nodes : List Node
deriving Repr

namespace Document

/-- all statements, in the order of the lines -/
def walk (d : Document) : List Statement :=
  Node.walkAll d.nodes

/-- all diagnostics by the start of their spans -/
def diagnostics (d : Document) : List Diagnostic :=
  (d.nodes.flatMap Node.diagnostics).mergeSort fun a b => decide (a.span.start ≤ b.span.start)

def hasErrors (d : Document) : Bool :=
  Node.anyHasErrors d.nodes

/-- the names of the labels that are defined -/
def labels (d : Document) : List Text :=
  d.walk.filterMap Statement.label?

end Document
end Smali
