import Smali.Document
import Smali.Dump.Tag
import Smali.Dump.Yaml

/-!
# Documents as YAML

Each type has one form: a record with its fields in order, or a tag with what the value holds.  A value
of an enumeration that holds nothing is its tag as a text.

* `Document.toYaml`  the document with all that is known of each statement;
* `Document.dump?`   its text, unless it has a value that block style cannot write.
-/

namespace Smali

open Yaml (null bool nat option)

namespace Yaml

/-- a value of an enumeration that holds nothing -/
def unit (tag : Text) : Yaml := .text tag

/-- a value of an enumeration with what it holds -/
def variant (tag : String) (v : Yaml) : Yaml := .tagged tag.toList v

end Yaml

def Position.toYaml (p : Position) : Yaml :=
  .record [("line", nat p.line), ("column", nat p.column)]

def Span.toYaml (s : Span) : Yaml :=
  .record [("start", s.start.toYaml), ("end", s.stop.toYaml)]

def Token.toYaml (t : Token) : Yaml :=
  .record
    [("kind", Yaml.unit t.kind.tag), ("text", .text t.text), ("start", nat t.start),
     ("len", nat t.size), ("line", nat t.line), ("width", option (fun w => Yaml.unit w.tag) t.width),
     ("transient", bool t.transient)]

def Diagnostic.toYaml (d : Diagnostic) : Yaml :=
  .record
    [("kind", Yaml.unit d.category.tag), ("span", d.span.toYaml), ("message", .text d.message),
     ("expected", option .text d.expecting)]

/-! ## descriptors -/

def ClassPath.toYaml (p : ClassPath) : Yaml :=
  .record
    [("text", .text p.path), ("segments", .list (p.segments.map .text)),
     ("nested", option .text p.nested)]

def BaseType.toYaml : BaseType → Yaml
  | .primitive p => .variant "Primitive" (Yaml.unit p.name)
  | .object path => .variant "Class" path.toYaml

def TypeDescriptor.toYaml (t : TypeDescriptor) : Yaml :=
  .record [("array_depth", nat t.depth), ("base", t.base.toYaml)]

/-- the fields of a prototype -/
def Prototype.fields (p : Prototype) : List (String × Yaml) :=
  [("parameters", .list (p.parameters.map TypeDescriptor.toYaml)),
   ("return_type", p.returnType.toYaml)]

def Prototype.toYaml (p : Prototype) : Yaml :=
  .record p.fields

def MethodSignature.toYaml (m : MethodSignature) : Yaml :=
  .record (("name", .text m.name) :: m.prototype.fields)

def Member.toYaml : Member → Yaml
  | .field name type => .variant "Field" (.record [("name", .text name), ("ty", type.toYaml)])
  | .method m => .variant "Method" m.toYaml

def Reference.toYaml (r : Reference) : Yaml :=
  .record [("owner", r.owner.toYaml), ("member", r.member.toYaml)]

/-! ## operands -/

def Register.toYaml : Register → Yaml
  | .var n => .variant "Local" (nat n)
  | .param n => .variant "Parameter" (nat n)

def Literal.Value.toYaml : Literal.Value → Yaml
  | .int v => .variant "Int" (.int v.toInt)
  | .float x => .variant "Float" (.float x)

def Literal.toYaml (l : Literal) : Yaml :=
  .record
    [("value", l.value.toYaml), ("width", option (fun w => Yaml.unit w.tag) l.width),
     ("hex", bool l.hex)]

mutual

def OperandValue.toYaml : OperandValue → Yaml
  | .register r => .variant "Register" r.toYaml
  | .registerList rs => .variant "RegisterList" (.list (rs.map Register.toYaml))
  | .registerRange r =>
    .variant "RegisterRange" (.record [("start", r.first.toYaml), ("end", r.last.toYaml)])
  | .literal l => .variant "Literal" l.toYaml
  | .string t => .variant "String" (.text t)
  | .char t => .variant "Char" (.text t)
  | .label t => .variant "Label" (.text t)
  | .labelRange first last =>
    .variant "LabelRange" (.record [("start", .text first), ("end", .text last)])
  | .type t => .variant "Type" t.toYaml
  | .reference r => .variant "Reference" r.toYaml
  | .member m => .variant "Member" m.toYaml
  | .prototype p => .variant "Prototype" p.toYaml
  | .index kind value =>
    .variant "Index" (.record [("kind", .text kind), ("value", nat value)])
  | .flags f => .variant "Flags" (.text f.render)
  | .visibility v => .variant "Visibility" (Yaml.unit v.tag)
  | .identifier t => .variant "Identifier" (.text t)
  | .null => Yaml.unit "Null".toList
  | .boolean b => .variant "Boolean" (bool b)
  | .enumValue r => .variant "Enum" r.toYaml
  | .array elements => .variant "Array" (.list (OperandValue.allToYaml elements))

def OperandValue.allToYaml : List (Located OperandValue) → List Yaml
  | [] => []
  | ⟨v, span⟩ :: os =>
    .record [("value", v.toYaml), ("span", span.toYaml)] :: OperandValue.allToYaml os

end

/-! ## statements -/

def Entry.Role.toYaml : Entry.Role → Yaml
  | .instruction shape => .variant "Instruction" (Yaml.unit shape.tag)
  | .directive d => .variant "Directive" (Yaml.unit d.tag)

def Entry.toYaml (e : Entry) : Yaml :=
  .record
    [("code", .text e.code), ("syntax_name", .text e.pattern), ("mnemonic", .text e.mnemonic),
     ("description", .text e.description.toList), ("example", .text e.sample.toList),
     ("syntax", e.role.toYaml),
     ("flags", .text (" | ".toList.intercalate (e.flags.map Entry.Flag.name)))]

def StatementKind.toYaml : StatementKind → Yaml
  | .instruction => Yaml.unit "Instruction".toList
  | .directive d => .variant "Directive" (Yaml.unit d.tag)
  | .label => Yaml.unit "Label".toList
  | .entry => Yaml.unit "Entry".toList
  | .comment => Yaml.unit "Comment".toList
  | .blank => Yaml.unit "Blank".toList
  | .error => Yaml.unit "Error".toList

/-- a statement with its children and its end -/
def Statement.toYaml (s : Statement) (children : List Yaml) (closing : Yaml) : Yaml :=
  .record
    [("kind", s.kind.toYaml), ("keyword", option .text s.keyword),
     ("opcode", option Entry.toYaml s.opcode),
     ("operands", .list (OperandValue.allToYaml s.operands)), ("children", .list children),
     ("end", closing), ("tokens", .list (s.tokens.map Token.toYaml)),
     ("comment", option .text s.comment), ("span", s.span.toYaml),
     ("error", option Diagnostic.toYaml s.error),
     ("opens", option (fun k => Yaml.unit k.tag) s.opens),
     ("closes", option (fun k => Yaml.unit k.tag) s.closes)]

mutual

def Node.toYaml : Node → Yaml
  | ⟨s, children, closing⟩ =>
    s.toYaml (Node.allToYaml children) (option (fun e => e.toYaml [] null) closing)

def Node.allToYaml : List Node → List Yaml
  | [] => []
  | n :: ns => n.toYaml :: Node.allToYaml ns

end

def Document.toYaml (d : Document) : Yaml :=
  .record [("statements", .list (Node.allToYaml d.nodes))]

/-- the text of a document, unless it has a tag directly inside a tag -/
def Document.dump? (d : Document) : Option Text :=
  if d.toYaml.isWritable then some d.toYaml.render else none

end Smali
