import Smali.Text

/-!
# Failures of the library

Problems inside a source text are diagnostics of its statements.  An `Error` is the answer of an
operation that cannot give any other: a word that is no modifier, a text that is no descriptor, a
catalog row that cannot be used, a file that cannot be read.

* `ReadFailure`    why a file or a directory could not be read;
* `Error`          the causes;
* `Error.message`  their wording.
-/

namespace Smali

/-- why a path could not be read -/
inductive ReadFailure where
  | missing
  | notDirectory
  | isDirectory
  | notUtf8
deriving DecidableEq, Repr

def ReadFailure.message : ReadFailure → Text
  | .missing => "No such file or directory (os error 2)".toList
  | .notDirectory => "Not a directory (os error 20)".toList
  | .isDirectory => "Is a directory (os error 21)".toList
  | .notUtf8 => "stream did not contain valid UTF-8".toList

inductive Error where
  /-- a path that could not be read -/
  | unreadable (path : Text) (cause : ReadFailure)
  /-- two catalog rows with one mnemonic -/
  | duplicateMnemonic (mnemonic : Text)
  /-- a catalog row whose pattern starts with a space or is empty -/
  | emptyPattern (code : Text)
  /-- an instruction row whose code is no byte in two hexadecimal digits -/
  | invalidCode (pattern code : Text)
  | unknownKeyword (word : Text)
  | unknownModifier (word : Text)
  | invalidRegister (text : Text)
  | invalidLiteral (text : Text)
  | invalidDescriptor (text : Text)
deriving DecidableEq, Repr

open Text in
def Error.message : Error → Text
  | .unreadable path cause => "failed to read ".toList ++ path ++ ": ".toList ++ cause.message
  | .duplicateMnemonic m => "duplicate mnemonic ".toList ++ quoted m ++ " in opcode catalog".toList
  | .emptyPattern code =>
    "catalog row with code ".toList ++ quoted code ++ " has an empty syntax name".toList
  | .invalidCode p code => quoted p ++ " has an invalid opcode ".toList ++ quoted code
  | .unknownKeyword w => "unknown keyword ".toList ++ quoted w
  | .unknownModifier w => "unknown modifier ".toList ++ quoted w
  | .invalidRegister t => "invalid register ".toList ++ quoted t
  | .invalidLiteral t => "invalid literal ".toList ++ quoted t
  | .invalidDescriptor t => "invalid descriptor ".toList ++ quoted t

end Smali
