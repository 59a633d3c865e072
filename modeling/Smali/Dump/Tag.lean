import Smali.Access
import Smali.Catalog.Shape
import Smali.Descriptor.TypeDescriptor
import Smali.Diagnostic
import Smali.Directive
import Smali.Literal
import Smali.Token

/-!
# Tags

The name under which a dump writes each value of the enumerations, and the values of an enumeration in
order, so that a value can be found by its tag.
-/

namespace Smali

/-! ## directives and blocks -/

def Directive.all : List Directive :=
  [.classDecl, .superclass, .implements, .source, .field, .method, .locals, .registers, .param, .annot,
   .subannot, .enumValue, .catchType, .catchAll, .arrayData, .packedSwitch, .sparseSwitch, .prologue,
   .epilogue, .line, .localVar, .endLocal, .restartLocal, .endBlock]

def Directive.tag : Directive → Text
  | .classDecl => "Class".toList
  | .superclass => "Super".toList
  | .implements => "Implements".toList
  | .source => "Source".toList
  | .field => "Field".toList
  | .method => "Method".toList
  | .locals => "Locals".toList
  | .registers => "Registers".toList
  | .param => "Param".toList
  | .annot => "Annotation".toList
  | .subannot => "SubAnnotation".toList
  | .enumValue => "Enum".toList
  | .catchType => "Catch".toList
  | .catchAll => "CatchAll".toList
  | .arrayData => "ArrayData".toList
  | .packedSwitch => "PackedSwitch".toList
  | .sparseSwitch => "SparseSwitch".toList
  | .prologue => "Prologue".toList
  | .epilogue => "Epilogue".toList
  | .line => "Line".toList
  | .localVar => "Local".toList
  | .endLocal => "EndLocal".toList
  | .restartLocal => "RestartLocal".toList
  | .endBlock => "End".toList

def Directive.ofTag? (t : Text) : Option Directive :=
  Directive.all.find? fun d => d.tag == t

def BlockKind.all : List BlockKind :=
  [.method, .annot, .subannot, .arrayData, .packedSwitch, .sparseSwitch, .field, .param, .valueArray]

def BlockKind.tag : BlockKind → Text
  | .method => "Method".toList
  | .annot => "Annotation".toList
  | .subannot => "SubAnnotation".toList
  | .arrayData => "ArrayData".toList
  | .packedSwitch => "PackedSwitch".toList
  | .sparseSwitch => "SparseSwitch".toList
  | .field => "Field".toList
  | .param => "Param".toList
  | .valueArray => "ValueArray".toList

def BlockKind.ofTag? (t : Text) : Option BlockKind :=
  BlockKind.all.find? fun k => k.tag == t

/-! ## shapes -/

def Shape.all : List Shape :=
  [.none, .reg, .regReg, .regRegReg, .regLiteral, .regRegLiteral, .regString, .regType, .regRegType,
   .regField, .regRegField, .regLabel, .regRegLabel, .label, .regListType, .regRangeType,
   .regListMethod, .regRangeMethod, .regListMethodProto, .regRangeMethodProto, .regProto,
   .regListIndex, .regRangeIndex, .regRegIndex]

def Shape.tag : Shape → Text
  | .none => "None".toList
  | .reg => "Reg".toList
  | .regReg => "RegReg".toList
  | .regRegReg => "RegRegReg".toList
  | .regLiteral => "RegLiteral".toList
  | .regRegLiteral => "RegRegLiteral".toList
  | .regString => "RegString".toList
  | .regType => "RegType".toList
  | .regRegType => "RegRegType".toList
  | .regField => "RegField".toList
  | .regRegField => "RegRegField".toList
  | .regLabel => "RegLabel".toList
  | .regRegLabel => "RegRegLabel".toList
  | .label => "Label".toList
  | .regListType => "RegListType".toList
  | .regRangeType => "RegRangeType".toList
  | .regListMethod => "RegListMethod".toList
  | .regRangeMethod => "RegRangeMethod".toList
  | .regListMethodProto => "RegListMethodProto".toList
  | .regRangeMethodProto => "RegRangeMethodProto".toList
  | .regProto => "RegProto".toList
  | .regListIndex => "RegListIndex".toList
  | .regRangeIndex => "RegRangeIndex".toList
  | .regRegIndex => "RegRegIndex".toList

def Shape.ofTag? (t : Text) : Option Shape :=
  Shape.all.find? fun s => s.tag == t

def OperandKind.tag : OperandKind → Text
  | .register => "Register".toList
  | .registerList => "RegisterList".toList
  | .registerRange => "RegisterRange".toList
  | .literal => "Literal".toList
  | .string => "String".toList
  | .type => "Type".toList
  | .field => "Field".toList
  | .method => "Method".toList
  | .label => "Label".toList
  | .index => "Index".toList
  | .proto => "Proto".toList

/-! ## tokens, literals, types and diagnostics -/

def TokenKind.all : List TokenKind :=
  [.keyword, .identifier, .register, .number, .hexNumber, .string, .comment, .delimiter, .label,
   .whitespace, .error]

def TokenKind.ofTag? (t : Text) : Option TokenKind :=
  TokenKind.all.find? fun k => k.tag == t

def Classification.tag : Classification → Text
  | .keyword => "Keyword".toList
  | .comment => "Comment".toList
  | .identifier => "Identifier".toList
  | .string => "String".toList
  | .number => "Number".toList
  | .text => "Text".toList

def Width.tag : Width → Text
  | .byte => "Byte".toList
  | .short => "Short".toList
  | .int => "Int".toList
  | .long => "Long".toList
  | .float => "Float".toList
  | .double => "Double".toList

def Visibility.tag : Visibility → Text
  | .build => "Build".toList
  | .runtime => "Runtime".toList
  | .system => "System".toList

def Problem.Category.tag : Problem.Category → Text
  | .lexical => "Lex".toList
  | .syntactic => "Syntax".toList
  | .unterminated => "UnterminatedBlock".toList

end Smali
