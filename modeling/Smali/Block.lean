import Smali.Text

/-!
# Blocks and the stack of open blocks

Some lines open a block that a later line closes: `.end method` closes a method, a lone brace an
array of values that was left open.  How a line is read depends on the innermost open block.

* `BlockKind`            the kinds of blocks;
* `BlockStack`           the open blocks, the innermost one first;
* `BlockStack.close?`    closes the innermost block of a kind with everything open inside it;
* `BlockStack.unwindTo?` closes everything open inside the innermost block of a kind.
-/

namespace Smali

inductive BlockKind where
  | method
  | annot
  | subannot
  | arrayData
  | packedSwitch
  | sparseSwitch
  /-- a field with annotations; the block is optional -/
  | field
  /-- a parameter with annotations; the block is optional -/
  | param
  /-- an array of values that is open at the end of a line -/
  | valueArray
deriving DecidableEq, Repr

namespace BlockKind

/-- the kinds that are closed by `.end` and a word -/
def closedByWord : List BlockKind :=
  [method, annot, subannot, arrayData, packedSwitch, sparseSwitch, field, param]

/-- the word after `.end` -/
def endWord? : BlockKind → Option Text
  | .method => some "method".toList
  | .annot => some "annotation".toList
  | .subannot => some "subannotation".toList
  | .arrayData => some "array-data".toList
  | .packedSwitch => some "packed-switch".toList
  | .sparseSwitch => some "sparse-switch".toList
  | .field => some "field".toList
  | .param => some "param".toList
  | .valueArray => none

def ofEndWord? (w : Text) : Option BlockKind :=
  closedByWord.find? fun k => k.endWord? == some w

/-- whether the block exists only once its end is met -/
def isOptional : BlockKind → Bool
  | .field | .param => true
  | _ => false

/-- whether the lines of the block are elements `name = value` -/
def holdsElements : BlockKind → Bool
  | .annot | .subannot => true
  | _ => false

def render (k : BlockKind) : Text :=
  k.endWord?.getD "value array".toList

/-- the closing line as messages cite it -/
def closer (k : BlockKind) : Text :=
  Text.quoted <|
    match k.endWord? with
    | some w => ".end ".toList ++ w
    | none => "\x7d".toList

end BlockKind

/-- the open blocks, the innermost one first -/
abbrev BlockStack := List BlockKind

namespace BlockStack

def innermost? (s : BlockStack) : Option BlockKind :=
  s.head?

/-- the stack after the innermost block of kind `k` is closed, if there is one -/
def close? (k : BlockKind) (s : BlockStack) : Option BlockStack :=
  match s.dropWhile (· != k) with
  | [] => none
  | _ :: outer => some outer

/-- the stack after everything inside the innermost block of kind `k` is closed, if there is one -/
def unwindTo? (k : BlockKind) (s : BlockStack) : Option BlockStack :=
  match s.dropWhile (· != k) with
  | [] => none
  | outer => some outer

end BlockStack
end Smali
