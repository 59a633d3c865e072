import Smali.Catalog.Builtin
import Smali.Document.Parse
import Smali.Dump
import Smali.FileTree

/-!
# The checker

* `Check.Options`  what is asked for on the command line;
* `Check.Report`   what is printed, and the exit status;
* `Check.run`      checks the files that the paths stand for.

The status is 0 without problems, 1 with some, and 2 when a path cannot be read; then nothing is checked.
-/

namespace Smali
namespace Check

structure Options where
  paths : List Text
  /-- reject the instructions of optimized files -/
  noOdex : Bool
  /-- print the tokens of each line -/
  tokens : Bool
  /-- print the statements as YAML -/
  dump : Bool
deriving DecidableEq, Repr

namespace Options

/-- the options of some arguments; everything after `--` is a path -/
def ofArgs : List Text → Options
  | [] => ⟨[], false, false, false⟩
  | a :: args =>
    if a == "--".toList then ⟨args, false, false, false⟩
    else
      let rest := ofArgs args
      if a == "--no-odex".toList then { rest with noOdex := true }
      else if a == "--tokens".toList then { rest with tokens := true }
      else if a == "--dump".toList then { rest with dump := true }
      else { rest with paths := a :: rest.paths }

def language (o : Options) : Language :=
  ⟨Catalog.builtin, { ParseOptions.standard with odex := !o.noOdex }⟩

end Options

structure Report where
  status : Nat
  stdout : Text
  stderr : Text
deriving DecidableEq, Repr

/-- a path with a line and a column, counted from one -/
def place (path : Text) (p : Position) : Text :=
  path ++ ':' :: p.render ++ ": ".toList

/-- the line of a token -/
def tokenLine (path : Text) (t : Token) : Text :=
  place path t.span.start ++ t.kind.tag ++ " ".toList ++ Text.quoted t.text ++ ['\n']

/-- the line of a diagnostic -/
def diagnosticLine (path : Text) (d : Diagnostic) : Text :=
  let expected :=
    match d.expecting with
    | some pattern => " (expected ".toList ++ Text.quoted pattern ++ ")".toList
    | none => []
  place path d.span.start ++ d.category.describe ++ ": ".toList ++ d.message ++ expected ++ ['\n']

/-- the tokens of all lines of a file -/
def tokenLines (language : Language) (f : SourceFile) : Text :=
  (numberedLines f.text).flatMap fun (line, n) =>
    (tokenize language.catalog line n).flatMap (tokenLine f.path)

/-- what is printed on a file, and the number of its problems -/
def checkFile (o : Options) (f : SourceFile) : Text × Text × Nat :=
  let tokens := if o.tokens then tokenLines o.language f else []
  let document := parseDocument o.language f.text
  let (dump, failure) :=
    if o.dump then
      match document.dump? with
      | some yaml => ("# ".toList ++ f.path ++ '\n' :: yaml ++ ['\n'], [])
      | none => ([], "Error: serializing nested enums in YAML is not supported yet\n".toList)
    else ([], [])
  let diagnostics := document.diagnostics
  (tokens ++ dump ++ diagnostics.flatMap (diagnosticLine f.path), failure, diagnostics.length)

/-- the report on some files -/
def checkFiles (o : Options) (files : List SourceFile) : Report :=
  let results := files.map (checkFile o)
  let problems := results.foldr (fun r n => r.2.2 + n) 0
  let summary :=
    Numeral.decimal problems ++ " problem(s) in ".toList ++ Numeral.decimal files.length ++
      " file(s)\n".toList
  { status := if problems = 0 then 0 else 1
    stdout := results.flatMap fun r => r.1
    stderr := (results.flatMap fun r => r.2.1) ++ (if problems = 0 then [] else summary) }

/-- the files that some paths stand for, where `resolve` says what a path leads to -/
def collect (resolve : Text → Except ReadFailure FileTree) :
    List Text → Except Error (List SourceFile)
  | [] => .ok []
  | path :: paths => do
    let found ← FileTree.collectAs path (resolve path)
    return found ++ (← collect resolve paths)

/-- the report on the files that the paths stand for -/
def run (resolve : Text → Except ReadFailure FileTree) (o : Options) : Report :=
  match collect resolve o.paths with
  | .error e => ⟨2, [], "Error: ".toList ++ e.message ++ ['\n']⟩
  | .ok files => checkFiles o files

end Check
end Smali
