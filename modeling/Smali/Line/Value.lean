import Smali.Line.Reader

/-!
# Encoded values

The values of annotations and of fields: literals, strings, characters, `null`, the booleans, types,
references, constants of enumerations and arrays of values in braces.

* `Reader.inlineValue`   a value that ends on its line;
* `Reader.elementValue`  the value of an annotation element, which may also open a block: an array whose
                         elements follow on the next lines, or an annotation inside the annotation.
-/

namespace Smali
namespace Reader

/-- a value with the place of the next token, which it takes -/
def single (v : OperandValue) : Reader Operand := do
  let span := (← get).here
  advance
  return ⟨v, span⟩

/-- a reference, or else a type -/
def readReferenceOrType (t : Text) : Option (OperandValue × Text) :=
  match Reference.read? t with
  | some (r, rest) => some (.reference r, rest)
  | none => (TypeDescriptor.read? t).map fun (type, rest) => (.type type, rest)

/-- a reference to a constant of an enumeration after its keyword -/
def enumValue : Reader Operand := do
  let opening := (← get).here
  advance
  let (r, span) ← descriptor "enum field reference".toList Reference.read?
  return ⟨.enumValue r, opening.cover span⟩

/-- a value of one token or of one descriptor -/
def scalar (t : Token) : Reader Operand :=
  if t.kind == .number || t.kind == .hexNumber then literal
  else if t.kind == .string then
    if t.text.head? == some '\'' then single (.char (Text.inner t.text)) else string
  else if t.text == "null".toList then single .null
  else if t.text == "true".toList then single (.boolean true)
  else if t.text == "false".toList then single (.boolean false)
  else if t.text == ".enum".toList then enumValue
  else do
    let (v, span) ← descriptor "value".toList readReferenceOrType
    return ⟨v, span⟩

mutual

/-- a value that ends on its line; `n` bounds the depth and the number of the values in it -/
def valueWithin : Nat → Reader Operand
  | 0 => expected "value".toList
  | n + 1 => do
    match (← get).tokens with
    | [] => expected "value".toList
    | t :: _ =>
      if t.isDelimiter "\x7b".toList then
        let opening ← delimiter "\x7b".toList
        let elements ←
          if (← get).atDelimiter "\x7d".toList then pure []
          else if ← atEnd then expected (Text.quoted "\x7d".toList)
          else elementsWithin n
        let closing ← delimiter "\x7d".toList
        return ⟨.array elements, opening.cover closing⟩
      else scalar t

/-- values with commas between them -/
def elementsWithin : Nat → Reader (List Operand)
  | 0 => expected "value".toList
  | n + 1 => do
    let v ← valueWithin n
    if ← eat ",".toList then
      return v :: (← elementsWithin n)
    else
      return [v]

end

/-- A value that ends on its line.  Each value in it takes at least one token, so twice the number of
tokens bounds the steps of the two readers. -/
def inlineValue : Reader Operand := do
  valueWithin (2 * (← get).tokens.length + 1)

/-- the value of an annotation element -/
inductive ElementValue where
  | complete (o : Operand)
  /-- an opening brace at the end of the line -/
  | openArray
  /-- the class of an annotation whose elements follow -/
  | subannot (type : Operand)

/-- a value, which may continue on the next lines -/
def elementValue : Reader ElementValue := do
  match (← get).tokens with
  | [t] =>
    if t.isDelimiter "\x7b".toList then
      advance
      return .openArray
    else if t.text == ".subannotation".toList then
      advance
      return .subannot (← classType)
    else return .complete (← inlineValue)
  | t :: _ =>
    if t.text == ".subannotation".toList then
      advance
      return .subannot (← classType)
    else return .complete (← inlineValue)
  | [] => expected "value".toList

end Reader
end Smali
