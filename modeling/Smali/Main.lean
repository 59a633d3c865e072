import Smali.Check

/-!
# The command line

`main` takes the options and paths of the checker, reads the files below the paths and prints the report.
Without a path it prints how it is used.
-/

namespace Smali
namespace CommandLine

/-- the tree at a path of the file system; of the files only those with source names are read below a
directory -/
partial def load (path : String) : IO FileTree := do
  let place := (← IO.currentDir) / path
  if ← place.isDir then
    let entries ← (← place.readDir).toList.mapM fun e => do
      let name := e.fileName.toList
      let below := path ++ "/" ++ e.fileName
      if FileTree.isSourceName name || (← (place / e.fileName).isDir) then
        return (name, ← load below)
      else
        return (name, FileTree.ofText [])
    return FileTree.ofEntries entries
  else
    return FileTree.ofBytes (← IO.FS.readBinFile place)

/-- why a path could not be read -/
def failure : IO.Error → ReadFailure
  | .inappropriateType .. => .notDirectory
  | _ => .missing

/-- the tree at a path, or why there is none -/
def resolve (path : Text) : IO (Except ReadFailure FileTree) := do
  try
    return .ok (← load (String.ofList path))
  catch e =>
    return .error (failure e)

end CommandLine
end Smali

open Smali in
def main (args : List String) : IO UInt32 := do
  let options := Check.Options.ofArgs (args.map String.toList)
  if options.paths.isEmpty then
    IO.eprintln "Usage: check [--no-odex] [--tokens] [--dump] PATH..."
    return 2
  let trees ← options.paths.mapM fun p => do return (p, ← CommandLine.resolve p)
  let report := Check.run (fun p => (trees.lookup p).getD (.error .missing)) options
  IO.print (String.ofList report.stdout)
  IO.eprint (String.ofList report.stderr)
  return report.status.toUInt32
