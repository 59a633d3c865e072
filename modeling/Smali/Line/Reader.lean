import Smali.Diagnostic
import Smali.Operand
import Smali.Token

/-!
# Reading the tokens of a line

A `Cursor` holds the significant tokens of a line that are not read yet.  A `Reader` reads some of them
or fails with a diagnostic.

* `Cursor.error`, `Cursor.expected`  a diagnostic at the next token, or after the last one;
* `Reader.delimiter`, `Reader.eat`   punctuation that must, or may, come next;
* `Reader.descriptor`  runs a reader of descriptors on the text of the line from the next token on and
                       passes over the tokens that it took; its text must end where a token ends;
* `Reader.register`, `Reader.literal`, `Reader.string`, `Reader.label`, ...  the plain operands.
-/

namespace Smali

structure Cursor where
  /-- the text of the line -/
  line : Text
  /-- the number of the line -/
  number : Nat
  /-- the tokens that are not read yet -/
  tokens : List Token
  /-- the offset after the last token of the line -/
  stop : Nat
deriving Repr

namespace Cursor

/-- the place of the next token, or after the last one -/
def here (c : Cursor) : Span :=
  match c.tokens with
  | t :: _ => t.span
  | [] => Span.onLine c.number c.stop c.stop

/-- a problem at the next token -/
def error (c : Cursor) (p : Problem) : Diagnostic :=
  ⟨p, c.here, none⟩

/-- what stands at the next token should be `what` -/
def expected (c : Cursor) (what : Text) : Diagnostic :=
  c.error (.expected what (c.tokens.head?.map Token.text))

/-- whether a given delimiter comes next -/
def atDelimiter (c : Cursor) (text : Text) : Bool :=
  c.tokens.head?.any fun t => t.isDelimiter text

end Cursor

/-- reads tokens of a line, or fails -/
abbrev Reader := StateT Cursor (Except Diagnostic)

namespace Reader

variable {α : Type}

/-- fails with a problem at the next token -/
def fail (p : Problem) : Reader α := fun c =>
  .error (c.error p)

/-- fails because `what` should come next -/
def expected (what : Text) : Reader α := fun c =>
  .error (c.expected what)

/-- fails with a problem at a place that was read -/
def failAt (span : Span) (p : Problem) : Reader α := fun _ =>
  .error ⟨p, span, none⟩

/-- passes over the next token -/
def advance : Reader Unit :=
  modify fun c => { c with tokens := c.tokens.tail }

/-- whether nothing is left -/
def atEnd : Reader Bool := do
  return (← get).tokens.isEmpty

/-- passes over a delimiter, if it comes next -/
def eat (text : Text) : Reader Bool := do
  if (← get).atDelimiter text then
    advance
    return true
  else
    return false

/-- passes over a word, if it comes next -/
def eatWord (word : Text) : Reader Bool := do
  if (← get).tokens.head?.any fun t => t.isWord && t.text == word then
    advance
    return true
  else
    return false

/-- the place of a delimiter that must come next -/
def delimiter (text : Text) : Reader Span := do
  match (← get).tokens with
  | t :: _ =>
    if t.isDelimiter text then
      advance
      return t.span
    else expected (Text.quoted text)
  | [] => expected (Text.quoted text)

/-- nothing may be left -/
def finish : Reader Unit := do
  match (← get).tokens with
  | t :: _ => fail (.trailing t.text)
  | [] => return

/-! ## registers -/

/-- a register with its place -/
def bareRegister : Reader (Register × Span) := do
  match (← get).tokens with
  | t :: _ =>
    if t.kind == .register then
      match Register.parse t.text with
      | .ok r =>
        advance
        return (r, t.span)
      | .error e => fail (.unreadable e)
    else expected "register".toList
  | [] => expected "register".toList

def register : Reader Operand := do
  let (r, span) ← bareRegister
  return ⟨.register r, span⟩

/-- registers with commas between them; `n` bounds their number -/
def registers : Nat → Reader (List Register)
  | 0 => return []
  | n + 1 => do
    let (r, _) ← bareRegister
    if ← eat ",".toList then
      return r :: (← registers n)
    else
      return [r]

/-- registers one by one in braces -/
def registerList : Reader Operand := do
  let opening ← delimiter "\x7b".toList
  let c ← get
  let rs ← if c.atDelimiter "\x7d".toList then pure [] else registers (c.tokens.length + 1)
  let closing ← delimiter "\x7d".toList
  return ⟨.registerList rs, opening.cover closing⟩

/-- a first and a last register in braces; one register is both, and empty braces are an empty list -/
def registerRange : Reader Operand := do
  let opening ← delimiter "\x7b".toList
  if (← get).atDelimiter "\x7d".toList then
    let closing ← delimiter "\x7d".toList
    return ⟨.registerList [], opening.cover closing⟩
  else
    let (first, _) ← bareRegister
    let last ← if ← eat "..".toList then (do return (← bareRegister).1) else pure first
    let closing ← delimiter "\x7d".toList
    return ⟨.registerRange ⟨first, last⟩, opening.cover closing⟩

/-! ## literals and strings -/

/-- a literal with its place -/
def bareLiteral : Reader (Literal × Span) := do
  match (← get).tokens with
  | t :: _ =>
    if t.kind == .number || t.kind == .hexNumber then
      match Literal.parse t.text with
      | .ok l =>
        advance
        return (l, t.span)
      | .error e => fail (.unreadable e)
    else expected "literal".toList
  | [] => expected "literal".toList

def literal : Reader Operand := do
  let (l, span) ← bareLiteral
  return ⟨.literal l, span⟩

/-- a string in double quotes; the operand is the text between them -/
def string : Reader Operand := do
  match (← get).tokens with
  | t :: _ =>
    if t.kind == .string && t.text.head? == some '"' then
      advance
      return ⟨.string (Text.inner t.text), t.span⟩
    else expected "string".toList
  | [] => expected "string".toList

/-! ## labels -/

/-- a colon and a name, with their place -/
def bareLabel : Reader (Text × Span) := do
  match (← get).tokens with
  | colon :: name :: _ =>
    if colon.isDelimiter ":".toList && name.kind == .label then
      advance
      advance
      return (name.text, colon.span.cover name.span)
    else expected "label".toList
  | _ => expected "label".toList

def label : Reader Operand := do
  let (name, span) ← bareLabel
  return ⟨.label name, span⟩

/-- two labels in braces with two dots between them -/
def labelRange : Reader Operand := do
  let opening ← delimiter "\x7b".toList
  let (first, _) ← bareLabel
  let _ ← delimiter "..".toList
  let (last, _) ← bareLabel
  let closing ← delimiter "\x7d".toList
  return ⟨.labelRange first last, opening.cover closing⟩

/-! ## indices -/

/-- the name of a table, an at sign and an index that is not negative -/
def index : Reader Operand := do
  match (← get).tokens with
  | kind :: at_ :: _ =>
    if kind.isWord && at_.isDelimiter "@".toList then
      advance
      advance
      let (l, span) ← bareLiteral
      match l.toIntIn? 0 0x7fffffffffffffff with
      | some i => return ⟨.index kind.text i.toNat, kind.span.cover span⟩
      | none => failAt span (.invalidIndex l.render)
    else expected "index such as `field@0x10`".toList
  | _ => expected "index such as `field@0x10`".toList

/-! ## descriptors -/

/-- passes over the tokens before byte `stop`; the first one that goes on beyond it is the error -/
def passTo (stop : Nat) : List Token → Except Token (List Token)
  | [] => .ok []
  | t :: ts =>
    if stop ≤ t.start then .ok (t :: ts)
    else if stop < t.stop then .error t
    else passTo stop ts

/-- runs `read?` on the text from the next token on -/
def descriptor (what : Text) (read? : Text → Option (α × Text)) : Reader (α × Span) := fun c =>
  match c.tokens with
  | [] => .error (c.expected what)
  | first :: _ =>
    match read? (Text.dropBytes first.start c.line) with
    | none => .error (c.expected what)
    | some (value, rest) =>
      let stop := Text.size c.line - Text.size rest
      match passTo stop c.tokens with
      | .ok tokens => .ok ((value, Span.onLine c.number first.start stop), { c with tokens })
      | .error t => .error ⟨.malformed what, Span.onLine c.number first.start t.stop, none⟩

/-- the descriptor of a class, not of an array or a primitive -/
def classType : Reader Operand := do
  let (type, span) ← descriptor "class descriptor".toList TypeDescriptor.read?
  if type.isArray || type.classPath?.isNone then
    failAt span (.expected "class descriptor".toList (some type.render))
  else
    return ⟨.type type, span⟩

end Reader
end Smali
