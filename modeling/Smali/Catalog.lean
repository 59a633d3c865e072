import Smali.Catalog.Entry

/-!
# The catalog of instructions and directives

A catalog is a list of entries and an index that has the position of every mnemonic.

* `Catalog.Index`     a map from mnemonics to positions;
* `Index.fill`        puts entries into an index one by one, until a mnemonic is there already;
* `Catalog.ofRows`    a catalog from rows in any order: the first unusable row is the error, then
                      the rows are sorted, instructions by their byte and directives after them, and the
                      first mnemonic that is there twice is the error;
* `Catalog.lookup`    the entry of a mnemonic;
* `Catalog.completions`  the entries whose mnemonic starts with a text.
-/

namespace Smali

/-- a map from mnemonics to positions in a list of entries; no mnemonic is there twice -/
abbrev Catalog.Index := List (Text × Nat)

namespace Catalog.Index

/-- gives a mnemonic a position, in place of the one that it had before; that one is handed back -/
def insert (m : Text) (i : Nat) (x : Index) : Option Nat × Index :=
  (x.lookup m, x.filter (fun p => p.1 != m) ++ [(m, i)])

/-- gives the mnemonics of entries their positions, counted from `i`, until one has a position already -/
def fill (x : Index) (i : Nat) : List Entry → Except Error Index
  | [] => .ok x
  | e :: es =>
    match insert e.mnemonic i x with
    | (some _, _) => .error (.duplicateMnemonic e.mnemonic)
    | (none, x) => fill x (i + 1) es

/-- the mnemonics of entries with their positions -/
def ofEntries (es : List Entry) : Index :=
  (es.map Entry.mnemonic).zipIdx

end Catalog.Index

structure Catalog where
  entries : List Entry
  /-- where in the entries a mnemonic is -/
  index : Catalog.Index
deriving DecidableEq, Repr

namespace Catalog

/-- the catalog of entries that stand in their order, each with another mnemonic -/
def ofEntries (es : List Entry) : Catalog :=
  ⟨es, .ofEntries es⟩

def empty : Catalog := ofEntries []

/-- the catalog of some rows, or the first fault -/
def ofRows (rows : List Entry) : Except Error Catalog :=
  match rows.findSome? Entry.fault? with
  | some e => .error e
  | none =>
    let sorted := rows.mergeSort fun a b => decide (a.rank ≤ b.rank)
    match Index.fill [] 0 sorted with
    | .error e => .error e
    | .ok index => .ok ⟨sorted, index⟩

/-- the entry of a mnemonic: the one at the position of the mnemonic -/
def lookup (c : Catalog) (m : Text) : Option Entry :=
  (c.index.lookup m).bind fun i => c.entries[i]?

/-- the instruction of a mnemonic -/
def instruction? (c : Catalog) (m : Text) : Option Entry :=
  (c.lookup m).filter fun e => !e.isDirective

def instructions (c : Catalog) : List Entry :=
  c.entries.filter fun e => !e.isDirective

def directives (c : Catalog) : List Entry :=
  c.entries.filter Entry.isDirective

/-- the entries whose mnemonic starts with `p`, in the order of the catalog -/
def completions (c : Catalog) (p : Text) : List Entry :=
  c.entries.filter fun e => p.isPrefixOf e.mnemonic

end Catalog
end Smali
