import Smali.Line.Draft
import Smali.Line.Value

/-!
# Lines inside tables, annotations and arrays of values

* `arrayEntry`          literals of an array, with or without commas between them;
* `packedSwitchEntry`   a label;
* `sparseSwitchEntry`   a key, an arrow and a label;
* `element`             the name and the value of an annotation element;
* `arrayElement`        an element of an array of values, or the brace that closes the array.
-/

namespace Smali
namespace LineParser

/-- the literals that are left, of which there are at most `n` -/
def moreLiterals : Nat → LineParser Unit
  | 0 => return
  | n + 1 => do
    if ← read Reader.atEnd then return
    let _ ← eat ",".toList
    add Reader.literal
    moreLiterals n

/-- a line of literals -/
def arrayEntry : LineParser Unit := do
  setKind .entry
  add Reader.literal
  moreLiterals (← get).cursor.tokens.length

/-- the target of a packed switch -/
def packedSwitchEntry : LineParser Unit := do
  setKind .entry
  add Reader.label
  finish

/-- a key and the target of a sparse switch -/
def sparseSwitchEntry : LineParser Unit := do
  setKind .entry
  add Reader.literal
  let _ ← read (Reader.delimiter "->".toList)
  add Reader.label
  finish

/-- the value of an annotation element; a value that goes on opens a block -/
def elementValue : LineParser Unit := do
  match ← read Reader.elementValue with
  | .complete o => push o
  | .openArray => setOpens .valueArray
  | .subannot type =>
    push type
    setOpens .subannot

/-- the name of an annotation element -/
def elementName : Reader Operand := do
  match (← get).tokens with
  | t :: _ =>
    if t.isWord then Reader.single (.identifier t.text) else Reader.expected "element name".toList
  | [] => Reader.expected "element name".toList

/-- an annotation element -/
def element : LineParser Unit := do
  setKind .entry
  add elementName
  let _ ← read (Reader.delimiter "=".toList)
  elementValue
  finish

/-- an element of an array that an earlier line opened, or its closing brace -/
def arrayElement : LineParser Unit := do
  setKind .entry
  if ← eat "\x7d".toList then
    setCloses .valueArray
    finish
  else
    elementValue
    let _ ← eat ",".toList
    finish

end LineParser
end Smali
