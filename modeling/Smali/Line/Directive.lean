import Smali.Line.Draft
import Smali.Line.Value

/-!
# Directive lines

* `flags`       the modifier words before a declaration; a modifier word that a colon or a parenthesis
                follows is the name of the member instead;
* `count`       a literal that is a number of 32 bits and not negative;
* `directiveOperands`  the operands of each directive;
* `directive`   the whole line; its keyword decides the block it opens before anything can fail.
-/

namespace Smali
namespace LineParser

/-- whether the token before `rest` is a modifier word and not a name -/
def isFlag (t : Token) (rest : List Token) : Bool :=
  AccessFlags.isModifier t.text && t.isWord &&
    !(rest.head?.any fun n => n.isDelimiter ":".toList || n.isDelimiter "(".toList)

/-- the modifier words at the start, and the tokens after them -/
def cutFlags : List Token → List Token × List Token
  | [] => ([], [])
  | t :: ts =>
    if isFlag t ts then
      let (words, rest) := cutFlags ts
      (t :: words, rest)
    else ([], t :: ts)

theorem cutFlags_append (ts : List Token) : (cutFlags ts).1 ++ (cutFlags ts).2 = ts := by
  induction ts with
  | nil => rfl
  | cons t ts ih =>
    rw [cutFlags]
    split
    · exact congrArg (t :: ·) ih
    · rfl

/-- the flags of modifier words -/
def flagsOf (words : List Token) : AccessFlags :=
  words.foldl (fun f t => f.union ((AccessFlags.ofWord? t.text).getD .empty)) .empty

/-- the operand of the modifier words at the start, if there are any -/
def flags : LineParser Unit := do
  let c := (← get).cursor
  match cutFlags c.tokens with
  | ([], _) => return
  | (t :: words, rest) =>
    modify fun d => { d with cursor := { c with tokens := rest } }
    push ⟨.flags (flagsOf (t :: words)), words.foldl (fun s w => s.cover w.span) t.span⟩

/-- a count, which messages call `what` -/
def count (what : Text) : Reader Operand := fun c =>
  match Reader.bareLiteral c with
  | .error _ => .error (c.expected what)
  | .ok ((l, span), rest) =>
    match l.toIntIn? 0 0xffffffff with
    | some _ => .ok (⟨.literal l, span⟩, rest)
    | none => .error ⟨.invalid what, span, none⟩

/-- how long an annotation is kept -/
def visibility : Reader Operand := do
  match (← get).tokens with
  | t :: _ =>
    match if t.isWord then Visibility.ofWord? t.text else none with
    | some v => Reader.single (.visibility v)
    | none => Reader.expected "annotation visibility".toList
  | [] => Reader.expected "annotation visibility".toList

/-- the number of bytes of the elements of an array -/
def elementWidth : Reader Operand := do
  let (l, span) ← Reader.bareLiteral
  match l.toIntIn? 0 255 with
  | some i =>
    if i = 1 ∨ i = 2 ∨ i = 4 ∨ i = 8 then
      return ⟨.literal l, span⟩
    else Reader.failAt span .elementWidth
  | none => Reader.failAt span .elementWidth

/-- the name of a local variable, or `null` -/
def localName : Reader Operand := do
  match (← get).tokens with
  | t :: _ =>
    if t.isWord && t.text == "null".toList then Reader.single .null else Reader.string
  | [] => Reader.string

/-- the name, the type and the signature of a local variable -/
def localVar : LineParser Unit := do
  add Reader.register
  if ← eat ",".toList then
    add localName
    let _ ← read (Reader.delimiter ":".toList)
    addDescriptor "type descriptor".toList TypeDescriptor.read? .type
    if ← eat ",".toList then
      add Reader.string

/-- the block that `.end` closes -/
def blockEnd : LineParser Unit := do
  let kind :=
    (← peek?).bind fun t => if t.kind == .keyword then BlockKind.ofEndWord? t.text else none
  match kind with
  | none => read (Reader.expected "block kind such as `method`".toList)
  | some kind =>
    read Reader.advance
    setCloses kind
    -- an annotation inside an array of values may have a comma after its end
    if kind == .subannot then
      let _ ← eat ",".toList

/-- the operands of a directive -/
def directiveOperands : Directive → LineParser Unit
  | .classDecl => do
    flags
    add Reader.classType
  | .superclass | .implements | .subannot => add Reader.classType
  | .source => add Reader.string
  | .field => do
    flags
    addDescriptor "field name and type".toList Member.readField? .member
    if ← eat "=".toList then
      add Reader.inlineValue
  | .method => do
    flags
    addDescriptor "method signature".toList MethodSignature.read? fun m => .member (.method m)
  | .locals | .registers => add (count "register count".toList)
  | .line => add (count "line number".toList)
  | .param => do
    add Reader.register
    if ← eat ",".toList then
      add Reader.string
  | .annot => do
    add visibility
    add Reader.classType
  | .enumValue => addDescriptor "enum field reference".toList Reference.read? .enumValue
  | .catchType => do
    add Reader.classType
    add Reader.labelRange
    add Reader.label
  | .catchAll => do
    add Reader.labelRange
    add Reader.label
  | .arrayData => add elementWidth
  | .packedSwitch => add Reader.literal
  | .sparseSwitch | .prologue | .epilogue => return
  | .localVar => localVar
  | .endBlock | .endLocal => do
    if ← read (Reader.eatWord "local".toList) then
      setKind (.directive .endLocal)
      add Reader.register
    else blockEnd
  | .restartLocal => do
    if ← read (Reader.eatWord "local".toList) then
      add Reader.register
    else read (Reader.expected (Text.quoted "local".toList))

/-- the line of a directive, whose keyword is the token `head` -/
def directive (catalog : Catalog) (head : Token) : LineParser Unit := do
  read Reader.advance
  match Directive.ofKeyword? head.text with
  | none => read (Reader.failAt head.span (.unreadable (.unknownKeyword head.text)))
  | some d =>
    let entry := catalog.lookup head.text
    modify fun s =>
      { s with
        kind := .directive d
        keyword := some head.text
        opcode := entry
        opens := d.opens? }
    expecting entry do
      directiveOperands d
      finish

end LineParser
end Smali
