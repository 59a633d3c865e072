import Smali.Text

/-!
# Class paths

The path of a class as it stands between `L` and `;` in a descriptor: segments with `/` between them.
A class without a name is the number of its enclosing class's body, written after a `$`.

* `ClassPath.segments`    the segments, without such a number at the end of the last one;
* `ClassPath.nested`      the digits of that number;
* `ClassPath.package?`, `ClassPath.simpleName`  the path before the last `/`, and what follows it;
* `ClassPath.read?`       reads `Lpath;` at the start of a text.
-/

namespace Smali

structure ClassPath where
  path : Text
deriving DecidableEq, Repr

namespace ClassPath

/-- the part of a name before the number of a nameless class, and the digits of the number -/
def cutNumber? (name : Text) : Option (Text × Text) :=
  match Text.cutLast? '$' name with
  | some (outer, digits) =>
    if !outer.isEmpty && !digits.isEmpty && digits.all isDigit then some (outer, digits) else none
  | none => none

/-- the last of the parts between the slashes -/
def lastPart (p : ClassPath) : Text :=
  (p.path.splitOn '/').getLast?.getD []

/-- the digits after the `$` of a nameless class -/
def nested (p : ClassPath) : Option Text :=
  (cutNumber? p.lastPart).map Prod.snd

/-- the parts between the slashes, the last one without the number of a nameless class -/
def segments (p : ClassPath) : List Text :=
  let parts := p.path.splitOn '/'
  match cutNumber? p.lastPart with
  | some (outer, _) => parts.dropLast ++ [outer]
  | none => parts

/-- the name in source code -/
def javaName (p : ClassPath) : Text :=
  p.path.map fun c => if c = '/' then '.' else c

/-- the name without the package -/
def simpleName (p : ClassPath) : Text :=
  match Text.cutLast? '/' p.path with
  | some (_, name) => name
  | none => p.path

/-- the path of the package -/
def package? (p : ClassPath) : Option Text :=
  (Text.cutLast? '/' p.path).map Prod.fst

/-- the descriptor `Lpath;` -/
def render (p : ClassPath) : Text :=
  'L' :: p.path ++ [';']

/-- the characters of a class path -/
def isPathChar (c : Char) : Bool :=
  !isBlank c && !(";<>(),\x7b\x7d:.[".toList.contains c)

/-- `L`, a nonempty path and `;` at the start of a text, with what follows -/
def read? : Text → Option (ClassPath × Text)
  | 'L' :: r =>
    match r.dropWhile isPathChar with
    | ';' :: rest =>
      if (r.takeWhile isPathChar).isEmpty then none else some (⟨r.takeWhile isPathChar⟩, rest)
    | _ => none
  | _ => none

/-- a class path takes at least one character -/
theorem length_lt_of_read? {t rest : Text} {p : ClassPath} (h : read? t = some (p, rest)) :
    rest.length < t.length := by
  unfold read? at h
  split at h
  · rename_i r
    split at h
    · rename_i after heq
      have hle := (List.dropWhile_sublist (l := r) isPathChar).length_le
      rw [heq] at hle
      split at h
      · simp at h
      · simp only [Option.some.injEq, Prod.mk.injEq] at h
        obtain ⟨-, rfl⟩ := h
        simp only [List.length_cons] at hle ⊢
        omega
    · simp at h
  · simp at h

end ClassPath
end Smali
