import Smali.Descriptor.Method

/-!
# Members and references to them

* `Member`     a field with its type, or a method signature;
* `Reference`  a member of a class or array type, `Ljava/lang/System;->out:Ljava/io/PrintStream;`.

Each has a printer `render` and a reader `read?` for the start of a text.
-/

namespace Smali

inductive Member where
  | field (name : Text) (type : TypeDescriptor)
  | method (signature : MethodSignature)
deriving DecidableEq, Repr

namespace Member

def name : Member → Text
  | .field name _ => name
  | .method m => m.name

def isField : Member → Bool
  | .field _ _ => true
  | .method _ => false

def render : Member → Text
  | .field name type => name ++ ':' :: type.render
  | .method m => m.render

/-- `name:type` at the start of a text, with what follows -/
def readField? (t : Text) : Option (Member × Text) :=
  match MemberName.read? t with
  | some (name, ':' :: r) =>
    (TypeDescriptor.read? r).map fun (type, rest) => (.field name type, rest)
  | _ => none

/-- a method, or else a field, at the start of a text, with what follows -/
def read? (t : Text) : Option (Member × Text) :=
  match MethodSignature.read? t with
  | some (m, rest) => some (.method m, rest)
  | none => readField? t

end Member

structure Reference where
  owner : TypeDescriptor
  member : Member
deriving DecidableEq, Repr

namespace Reference

def render (r : Reference) : Text :=
  r.owner.render ++ "->".toList ++ r.member.render

/-- a reference at the start of a text, with what follows; its owner is no plain primitive -/
def read? (t : Text) : Option (Reference × Text) :=
  match TypeDescriptor.read? t with
  | some (owner, '-' :: '>' :: r) =>
    if owner.isPrimitive then none
    else (Member.read? r).map fun (member, rest) => (⟨owner, member⟩, rest)
  | _ => none

/-- a reference that is the whole of a text -/
def parse (t : Text) : Except Error Reference :=
  match read? t with
  | some (r, []) => .ok r
  | _ => .error (.invalidDescriptor t)

end Reference
end Smali
