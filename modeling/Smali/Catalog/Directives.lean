import Smali.Catalog

/-!
# The directives

Each row has the pattern of the directive, what it does and a sample.
-/

namespace Smali
namespace Catalog

/-- the directives, in the order in which they are offered -/
def directiveRows : List Entry :=
  [Entry.dir ".class flags type" .classDecl
     "Declares the class defined by this file, with its access flags."
     ".class public final Lcom/example/Foo;",
   Entry.dir ".super type" .superclass
     "Declares the superclass of the current class."
     ".super Ljava/lang/Object;",
   Entry.dir ".implements type" .implements
     "Declares an interface implemented by the current class."
     ".implements Ljava/lang/Runnable;",
   Entry.dir ".source string" .source
     "Names the source file the class was compiled from."
     ".source \"Foo.java\"",
   Entry.dir ".field flags name:type" .field
     "Declares a field, optionally with an initial value. May be followed by annotations and .end field."
     ".field private static final TAG:Ljava/lang/String; = \"Foo\"",
   Entry.dir ".method flags name(params)return" .method
     "Starts a method definition. The body runs until .end method."
     ".method public constructor <init>()V",
   Entry.dir ".locals count" .locals
     "Number of local (non-parameter) registers used by the method."
     ".locals 2",
   Entry.dir ".registers count" .registers
     "Total number of registers used by the method, parameters included."
     ".registers 4",
   Entry.dir ".param register, name" .param
     "Names a method parameter. May be followed by annotations and .end param."
     ".param p1, \"savedInstanceState\"",
   Entry.dir ".annotation visibility type" .annot
     "Starts an annotation of the given visibility (build, runtime or system). The elements run until .end annotation."
     ".annotation runtime Ljava/lang/Deprecated;",
   Entry.dir ".subannotation type" .subannot
     "Starts an annotation nested inside an annotation element value."
     "value = .subannotation Lcom/example/Inner;",
   Entry.dir ".enum field_id" .enumValue
     "An enum constant used as an annotation element value."
     "value = .enum Ljava/lang/annotation/RetentionPolicy;->RUNTIME:Ljava/lang/annotation/RetentionPolicy;",
   Entry.dir ".catch type \x7bstart .. end\x7d handler" .catchType
     "Registers an exception handler for the labelled try range."
     ".catch Ljava/lang/Exception; \x7b:try_start_0 .. :try_end_0\x7d :catch_0",
   Entry.dir ".catchall \x7bstart .. end\x7d handler" .catchAll
     "Registers a handler catching every exception thrown in the labelled try range."
     ".catchall \x7b:try_start_0 .. :try_end_0\x7d :catchall_0",
   Entry.dir ".array-data width" .arrayData
     "Starts a static data table for fill-array-data. Each element is width bytes wide."
     ".array-data 4",
   Entry.dir ".packed-switch first_key" .packedSwitch
     "Starts a packed switch table: consecutive keys from first_key, one target label per line."
     ".packed-switch 0x0",
   Entry.dir ".sparse-switch" .sparseSwitch
     "Starts a sparse switch table of key -> target label pairs."
     ".sparse-switch",
   Entry.dir ".prologue" .prologue
     "Marks the end of the method prologue in the debug info."
     ".prologue",
   Entry.dir ".epilogue" .epilogue
     "Marks the start of the method epilogue in the debug info."
     ".epilogue",
   Entry.dir ".line number" .line
     "Maps the following instructions to a source line number."
     ".line 42",
   Entry.dir ".local register, name:type" .localVar
     "Introduces a debug local variable held in the register."
     ".local v0, \"count\":I",
   Entry.dir ".restart local register" .restartLocal
     "Restarts a debug local variable that was previously ended."
     ".restart local v0",
   Entry.dir ".end kind" .endBlock
     "Closes the innermost block of the given kind, or ends a debug local with .end local."
     ".end method"]

end Catalog
end Smali
