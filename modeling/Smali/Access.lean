import Smali.Error

/-!
# Access flags and visibility

* `AccessFlags`         a set of flags of a class, a field or a method, as the bits of the class file;
* `AccessFlags.parse`   the flag of a modifier word such as `public`;
* `AccessFlags.render`  the names of the flags of a set;
* `Visibility`          how long an annotation is kept.

Two bits have two names each: `0x40` is `volatile` on a field and `bridge` on a method, `0x80` is
`transient` on a field and `varargs` on a method.
-/

namespace Smali

/-- a set of access flags -/
structure AccessFlags where
  bits : UInt32
deriving DecidableEq, Repr

namespace AccessFlags

def empty : AccessFlags := ⟨0⟩

def union (a b : AccessFlags) : AccessFlags := ⟨a.bits ||| b.bits⟩

/-- the modifier words with their bits -/
def words : List (String × UInt32) :=
  [("public", 0x1), ("private", 0x2), ("protected", 0x4), ("static", 0x8), ("final", 0x10),
   ("synchronized", 0x20), ("volatile", 0x40), ("bridge", 0x40), ("transient", 0x80),
   ("varargs", 0x80), ("native", 0x100), ("interface", 0x200), ("abstract", 0x400),
   ("strictfp", 0x800), ("strict", 0x800), ("synthetic", 0x1000), ("annotation", 0x2000),
   ("enum", 0x4000), ("constructor", 0x10000), ("declared-synchronized", 0x20000)]

/-- the flag of a modifier word -/
def ofWord? (t : Text) : Option AccessFlags :=
  (words.find? fun w => w.1.toList == t).map fun w => ⟨w.2⟩

def isModifier (t : Text) : Bool :=
  (ofWord? t).isSome

def parse (t : Text) : Except Error AccessFlags :=
  match ofWord? t with
  | some f => .ok f
  | none => .error (.unknownModifier t)

/-- the name of each bit, from the lowest; a bit with two names has the first -/
def names : List (String × UInt32) :=
  [("PUBLIC", 0x1), ("PRIVATE", 0x2), ("PROTECTED", 0x4), ("STATIC", 0x8), ("FINAL", 0x10),
   ("SYNCHRONIZED", 0x20), ("VOLATILE", 0x40), ("TRANSIENT", 0x80), ("NATIVE", 0x100),
   ("INTERFACE", 0x200), ("ABSTRACT", 0x400), ("STRICT", 0x800), ("SYNTHETIC", 0x1000),
   ("ANNOTATION", 0x2000), ("ENUM", 0x4000), ("CONSTRUCTOR", 0x10000),
   ("DECLARED_SYNCHRONIZED", 0x20000)]

/-- the names of the flags of the set, with a bar between them -/
def render (f : AccessFlags) : Text :=
  " | ".toList.intercalate <|
    (names.filter fun n => f.bits &&& n.2 != 0).map fun n => n.1.toList

end AccessFlags

/-- how long an annotation is kept -/
inductive Visibility where
  | build
  | runtime
  | system
deriving DecidableEq, Repr

namespace Visibility

def word : Visibility → Text
  | .build => "build".toList
  | .runtime => "runtime".toList
  | .system => "system".toList

def ofWord? (t : Text) : Option Visibility :=
  [build, runtime, system].find? fun v => v.word == t

def parse (t : Text) : Except Error Visibility :=
  match ofWord? t with
  | some v => .ok v
  | none => .error (.unknownModifier t)

end Visibility
end Smali
