import Smali.Block
import Smali.Error

/-!
# Directives

A directive is a statement whose keyword starts with a dot.

* `Directive.keyword`     its keyword; the two that end or restart a local variable have a second word;
* `Directive.parse`       the directive of a keyword;
* `Directive.opens?`      the block that the directive opens;
* `Directive.isTopLevel`  whether it belongs to the class itself, so that it ends every open block.
-/

namespace Smali

inductive Directive where
  | classDecl
  | superclass
  | implements
  | source
  | field
  | method
  | locals
  | registers
  | param
  | annot
  | subannot
  | enumValue
  | catchType
  | catchAll
  | arrayData
  | packedSwitch
  | sparseSwitch
  | prologue
  | epilogue
  | line
  | localVar
  | endLocal
  | restartLocal
  | endBlock
deriving DecidableEq, Repr

namespace Directive

/-- the keyword with its dot -/
def keyword : Directive → Text
  | .classDecl => ".class".toList
  | .superclass => ".super".toList
  | .implements => ".implements".toList
  | .source => ".source".toList
  | .field => ".field".toList
  | .method => ".method".toList
  | .locals => ".locals".toList
  | .registers => ".registers".toList
  | .param => ".param".toList
  | .annot => ".annotation".toList
  | .subannot => ".subannotation".toList
  | .enumValue => ".enum".toList
  | .catchType => ".catch".toList
  | .catchAll => ".catchall".toList
  | .arrayData => ".array-data".toList
  | .packedSwitch => ".packed-switch".toList
  | .sparseSwitch => ".sparse-switch".toList
  | .prologue => ".prologue".toList
  | .epilogue => ".epilogue".toList
  | .line => ".line".toList
  | .localVar => ".local".toList
  | .endLocal | .endBlock => ".end".toList
  | .restartLocal => ".restart".toList

/-- the name of a directive: its keyword without the dot, and the second word where there is one -/
def name : Directive → Text
  | .endLocal => "end local".toList
  | .restartLocal => "restart local".toList
  | d => d.keyword.drop 1

/-- the directives that a keyword alone decides; `.end` is `endBlock` until its next word is seen -/
def keyworded : List Directive :=
  [classDecl, superclass, implements, source, field, method, locals, registers, param, annot,
   subannot, enumValue, catchType, catchAll, arrayData, packedSwitch, sparseSwitch, prologue,
   epilogue, line, localVar, restartLocal, endBlock]

def ofKeyword? (t : Text) : Option Directive :=
  keyworded.find? fun d => d.keyword == t

def parse (t : Text) : Except Error Directive :=
  match ofKeyword? t with
  | some d => .ok d
  | none => .error (.unknownKeyword t)

/-- the block that the directive always opens -/
def opens? : Directive → Option BlockKind
  | .method => some .method
  | .annot => some .annot
  | .subannot => some .subannot
  | .arrayData => some .arrayData
  | .packedSwitch => some .packedSwitch
  | .sparseSwitch => some .sparseSwitch
  | _ => none

/-- the directives of the class itself; a block that is open where one stands was never closed -/
def isTopLevel : Directive → Bool
  | .classDecl | .superclass | .implements | .source | .field | .method => true
  | _ => false

end Directive
end Smali
