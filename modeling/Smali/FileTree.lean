import Smali.Error

/-!
# Files and directories

* `FileTree`           a file or a directory, whose entries are in the order of their names;
* `FileTree.resolve`   what a path leads to;
* `FileTree.read`      the text of the file at a path;
* `FileTree.sources`   the `.smali` files at or below a path, in the order of their names, directories being
                       searched in their place.
-/

namespace Smali

inductive FileTree where
  /-- a file with its text, or with none when its bytes are not UTF-8 -/
  | file (content : Option Text)
  /-- a directory with its entries in the order of their names -/
  | directory (entries : List (Text × FileTree))

/-- a source file that was read -/
structure SourceFile where
  path : Text
  text : Text
deriving DecidableEq, Repr

namespace FileTree

def empty : FileTree := .directory []

/-- a file with a text -/
def ofText (t : Text) : FileTree := .file (some t)

/-- a file with some bytes -/
def ofBytes (bytes : ByteArray) : FileTree :=
  .file ((String.fromUTF8? bytes).map String.toList)

/-- whether an entry may stand before another one: names are ordered by their characters -/
def precedes (a b : Text × FileTree) : Bool :=
  !b.1.lex a.1 fun c d => decide (c.toNat < d.toNat)

/-- a directory from entries in any order -/
def ofEntries (entries : List (Text × FileTree)) : FileTree :=
  .directory (entries.mergeSort precedes)

/-- the names of a path -/
def names (path : Text) : List Text :=
  (path.splitOn '/').filter fun n => !n.isEmpty && n != ".".toList

/-- puts a tree at a path; the directories on the way are made where they are missing -/
def insert (path : List Text) (new old : FileTree) : FileTree :=
  match path with
  | [] => new
  | name :: path =>
    let entries :=
      match old with
      | .file _ => []
      | .directory entries => entries
    let inner := insert path new ((entries.lookup name).getD empty)
    ofEntries ((name, inner) :: entries.filter fun e => e.1 != name)

/-- follows the names of a path from a tree, whose ancestors are `up`, the nearest one first -/
def follow (up : List FileTree) (here : FileTree) : List Text → Except ReadFailure FileTree
  | [] => .ok here
  | name :: names =>
    match here with
    | .file _ => .error .notDirectory
    | .directory entries =>
      if name.isEmpty || name == ".".toList then follow up here names
      else if name == "..".toList then
        match up with
        | [] => follow [] here names
        | parent :: up => follow up parent names
      else
        match entries.lookup name with
        | some t => follow (here :: up) t names
        | none => .error .missing

/-- what a path leads to -/
def resolve (tree : FileTree) (path : Text) : Except ReadFailure FileTree :=
  if path.isEmpty then .error .missing else follow [] tree (path.splitOn '/')

/-- the text of a file -/
def content : FileTree → Except ReadFailure Text
  | .file (some t) => .ok t
  | .file none => .error .notUtf8
  | .directory _ => .error .isDirectory

/-- the source file that a path leads to -/
def readAs (path : Text) (tree : Except ReadFailure FileTree) : Except Error SourceFile :=
  match tree >>= content with
  | .ok text => .ok ⟨path, text⟩
  | .error cause => .error (.unreadable path cause)

/-- the source file at a path -/
def read (tree : FileTree) (path : Text) : Except Error SourceFile :=
  readAs path (tree.resolve path)

/-- whether a name has the extension `smali`: the part after its last dot, when something is before that
dot -/
def isSourceName (name : Text) : Bool :=
  match Text.cutLast? '.' name with
  | some (stem, extension) => !stem.isEmpty && extension == "smali".toList
  | none => false

/-- a name below a path -/
def join (path name : Text) : Text :=
  if path.isEmpty || path.getLast? == some '/' then path ++ name else path ++ '/' :: name

mutual

/-- the sources in an entry of a directory -/
def sourcesOf (path name : Text) : FileTree → Except Error (List SourceFile)
  | .directory entries => sourcesIn (join path name) entries
  | .file content =>
    if isSourceName name then (readAs (join path name) (.ok (.file content))).map ([·]) else .ok []

/-- the sources in the entries of a directory -/
def sourcesIn (path : Text) : List (Text × FileTree) → Except Error (List SourceFile)
  | [] => .ok []
  | (name, tree) :: entries => do
    let found ← sourcesOf path name tree
    return found ++ (← sourcesIn path entries)

end

/-- the sources below the directory that a path leads to -/
def sourcesAs (path : Text) (tree : Except ReadFailure FileTree) : Except Error (List SourceFile) :=
  match tree with
  | .ok (.directory entries) => sourcesIn path entries
  | .ok (.file _) => .error (.unreadable path .notDirectory)
  | .error cause => .error (.unreadable path cause)

/-- the sources below the directory at a path -/
def sources (tree : FileTree) (path : Text) : Except Error (List SourceFile) :=
  sourcesAs path (tree.resolve path)

/-- the sources that a path given to the checker stands for: those below a directory, or the file itself
whatever its name -/
def collectAs (path : Text) (tree : Except ReadFailure FileTree) : Except Error (List SourceFile) :=
  match tree with
  | .ok (.directory _) => sourcesAs path tree
  | _ => (readAs path tree).map ([·])

end FileTree
end Smali
