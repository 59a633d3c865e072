import Smali.Descriptor.TypeDescriptor

/-!
# Method prototypes and signatures

* `Prototype`        the types of the parameters and of the result, `(ILjava/lang/String;)V`;
* `MethodSignature`  a name and a prototype, `access$000(Lcom/example/Foo;)I`.

Each has a printer `render` and a reader `read?` for the start of a text.
-/

namespace Smali

/-! ## names -/

namespace MemberName

/-- the characters of the name of a field or method -/
def isNameChar (c : Char) : Bool :=
  !isBlank c && !("():;,\x7b\x7d[]=<>\"#".toList.contains c)

/-- the name of the constructors -/
def constructor : Text := "<init>".toList

/-- the name of the static initializer -/
def classInit : Text := "<clinit>".toList

/-- a name at the start of a text, with what follows: one of the two in angle brackets, or all name
characters there are -/
def read? (t : Text) : Option (Text × Text) :=
  match constructor.isPrefixOf? t, classInit.isPrefixOf? t with
  | some rest, _ => some (constructor, rest)
  | none, some rest => some (classInit, rest)
  | none, none =>
    match t.takeWhile isNameChar with
    | [] => none
    | name => some (name, t.dropWhile isNameChar)

end MemberName

/-! ## prototypes -/

structure Prototype where
  parameters : List TypeDescriptor
  returnType : TypeDescriptor
deriving DecidableEq, Repr

namespace Prototype

def render (p : Prototype) : Text :=
  '(' :: (p.parameters.map TypeDescriptor.render).flatten ++ ')' :: p.returnType.render

/-- a prototype at the start of a text, with what follows -/
def read? : Text → Option (Prototype × Text)
  | '(' :: r =>
    match TypeDescriptor.readMany r with
    | (parameters, ')' :: r) =>
      (TypeDescriptor.read? r).map fun (result, rest) => (⟨parameters, result⟩, rest)
    | _ => none
  | _ => none

end Prototype

/-! ## signatures -/

structure MethodSignature where
  name : Text
  prototype : Prototype
deriving DecidableEq, Repr

namespace MethodSignature

def isConstructor (m : MethodSignature) : Bool :=
  m.name == MemberName.constructor

def isStaticInitializer (m : MethodSignature) : Bool :=
  m.name == MemberName.classInit

/-- whether the method is `access$` with a number, which a compiler adds for nested classes -/
def isAccessor (m : MethodSignature) : Bool :=
  match "access$".toList.isPrefixOf? m.name with
  | some digits => !digits.isEmpty && digits.all isDigit
  | none => false

def render (m : MethodSignature) : Text :=
  m.name ++ m.prototype.render

/-- a signature at the start of a text, with what follows -/
def read? (t : Text) : Option (MethodSignature × Text) :=
  match MemberName.read? t with
  | some (name, r) => (Prototype.read? r).map fun (p, rest) => (⟨name, p⟩, rest)
  | none => none

/-- a signature that is the whole of a text -/
def parse (t : Text) : Except Error MethodSignature :=
  match read? t with
  | some (m, []) => .ok m
  | _ => .error (.invalidDescriptor t)

end MethodSignature
end Smali
