import Smali.Descriptor.ClassPath
import Smali.Error

/-!
# Type descriptors

A type is a primitive or a class, inside any number of array dimensions: `I`, `[[J`,
`[Ljava/lang/String;`.

* `Primitive`              the nine primitive types with their letters;
* `TypeDescriptor.render`  the descriptor of a type;
* `TypeDescriptor.read?`   a descriptor at the start of a text, with what follows;
* `TypeDescriptor.readMany`  as many descriptors as follow one another.
-/

namespace Smali

inductive Primitive where
  | boolean
  | byte
  | short
  | char
  | int
  | long
  | float
  | double
  | void
deriving DecidableEq, Repr

namespace Primitive

def all : List Primitive :=
  [boolean, byte, short, char, int, long, float, double, void]

def letter : Primitive → Char
  | .boolean => 'Z'
  | .byte => 'B'
  | .short => 'S'
  | .char => 'C'
  | .int => 'I'
  | .long => 'J'
  | .float => 'F'
  | .double => 'D'
  | .void => 'V'

def ofLetter? (c : Char) : Option Primitive :=
  all.find? fun p => p.letter == c

/-- the name that is shown to users -/
def name : Primitive → Text
  | .boolean => "Boolean".toList
  | .byte => "Byte".toList
  | .short => "Short".toList
  | .char => "Char".toList
  | .int => "Int".toList
  | .long => "Long".toList
  | .float => "Float".toList
  | .double => "Double".toList
  | .void => "Void".toList

/-- the name in source code -/
def javaName (p : Primitive) : Text :=
  p.name.map Char.toLower

/-- whether a value takes a pair of registers -/
def isWide : Primitive → Bool
  | .long | .double => true
  | _ => false

end Primitive

/-- a type that is no array -/
inductive BaseType where
  | primitive (p : Primitive)
  | object (path : ClassPath)
deriving DecidableEq, Repr

namespace BaseType

def render : BaseType → Text
  | .primitive p => [p.letter]
  | .object path => path.render

def javaName : BaseType → Text
  | .primitive p => p.javaName
  | .object path => path.javaName

/-- a class, or else a primitive, at the start of a text -/
def read? (t : Text) : Option (BaseType × Text) :=
  match ClassPath.read? t with
  | some (path, rest) => some (.object path, rest)
  | none =>
    match t with
    | c :: rest => (Primitive.ofLetter? c).map fun p => (.primitive p, rest)
    | [] => none

/-- a base type takes at least one character -/
theorem length_lt_of_read? {t rest : Text} {b : BaseType} (h : read? t = some (b, rest)) :
    rest.length < t.length := by
  unfold read? at h
  split at h
  · rename_i hp
    simp only [Option.some.injEq, Prod.mk.injEq] at h
    obtain ⟨-, rfl⟩ := h
    exact ClassPath.length_lt_of_read? hp
  · split at h
    · simp only [Option.map_eq_some_iff, Prod.mk.injEq] at h
      obtain ⟨_, _, _, rfl⟩ := h
      simp
    · simp at h

end BaseType

structure TypeDescriptor where
  /-- the number of array dimensions -/
  depth : Nat
  base : BaseType
deriving DecidableEq, Repr

namespace TypeDescriptor

def ofPrimitive (p : Primitive) : TypeDescriptor := ⟨0, .primitive p⟩

def isArray (t : TypeDescriptor) : Bool := decide (0 < t.depth)

/-- a primitive itself, not an array of one -/
def isPrimitive (t : TypeDescriptor) : Bool :=
  match t.depth, t.base with
  | 0, .primitive _ => true
  | _, _ => false

/-- the class of the type or of its elements -/
def classPath? (t : TypeDescriptor) : Option ClassPath :=
  match t.base with
  | .primitive _ => none
  | .object path => some path

def render (t : TypeDescriptor) : Text :=
  List.replicate t.depth '[' ++ t.base.render

/-- the name in source code -/
def javaName (t : TypeDescriptor) : Text :=
  t.base.javaName ++ (List.replicate t.depth "[]".toList).flatten

/-- a descriptor at the start of a text, with what follows -/
def read? (t : Text) : Option (TypeDescriptor × Text) :=
  (BaseType.read? (t.dropWhile (· == '['))).map fun (base, rest) =>
    (⟨(t.takeWhile (· == '[')).length, base⟩, rest)

/-- a descriptor that is the whole of a text -/
def parse (t : Text) : Except Error TypeDescriptor :=
  match read? t with
  | some (ty, []) => .ok ty
  | _ => .error (.invalidDescriptor t)

/-- a descriptor takes at least one character -/
theorem length_lt_of_read? {t rest : Text} {ty : TypeDescriptor} (h : read? t = some (ty, rest)) :
    rest.length < t.length := by
  simp only [read?, Option.map_eq_some_iff, Prod.mk.injEq] at h
  obtain ⟨⟨b, r⟩, hb, _, rfl⟩ := h
  exact Nat.lt_of_lt_of_le (BaseType.length_lt_of_read? hb)
    (List.dropWhile_sublist (l := t) (· == '[')).length_le

/-- the descriptors that follow one another at the start of a text, and what follows them -/
def readMany (t : Text) : List TypeDescriptor × Text :=
  match h : read? t with
  | some (ty, rest) =>
    have := length_lt_of_read? h
    let (tys, rest) := readMany rest
    (ty :: tys, rest)
  | none => ([], t)
termination_by t.length

end TypeDescriptor
end Smali
