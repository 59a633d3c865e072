import Mathlib.Data.List.Nodup
import Smali.Catalog.Builtin
import Smali.Proofs.Catalog.Index
import Smali.Proofs.Token.Steps

/-!
# The builtin catalog

* `Entry.isMnemonic`              a lower-case letter, then letters, digits, hyphens and slashes;
* `Entry.ofWord_of_isMnemonic`    a text of that form is no number;
* `Catalog.builtin_eq_spelled`    the builtin catalog in a form that is quick to evaluate;
* `Catalog.builtin_mnemonics`     the mnemonics of the instructions are of that form, and none occurs twice;
* `Catalog.ofRows_builtinRows`    the builtin catalog is what is made of its rows;
* `Catalog.builtin_instruction?`  each instruction is found by its mnemonic.

To decode a string takes long, and the patterns are strings.  `Entry.Spelled` takes the characters from the
strings as they stand, so nothing is decoded.
-/

namespace Smali
namespace Entry

/-- a lower-case letter, then letters, digits, hyphens and slashes, and not the name of a register -/
def isMnemonic : Text → Bool
  | [] => false
  | c :: r => decide ('a' ≤ c) && decide (c ≤ 'z') &&
      r.all (fun d => isAlphanumeric d || d == '-' || d == '/') && !LexContext.isRegister (c :: r)

section
variable {w : Text} (h : isMnemonic w = true)
include h

theorem exists_of_isMnemonic : ∃ c r, w = c :: r ∧ ('a' ≤ c ∧ c ≤ 'z') ∧
    (∀ d ∈ r, isAlphanumeric d = true ∨ d = '-' ∨ d = '/') ∧ LexContext.isRegister w = false := by
  cases w with
  | nil => cases h
  | cons c r =>
    simp only [isMnemonic, Bool.and_eq_true, decide_eq_true_eq, List.all_eq_true, Bool.or_eq_true, beq_iff_eq,
      Bool.not_eq_true', or_assoc] at h
    exact ⟨c, r, rfl, h.1.1, h.1.2, h.2⟩

theorem isWord_of_isMnemonic : w.IsWord := by
  obtain ⟨c, r, rfl, hc, hr, -⟩ := exists_of_isMnemonic h
  refine ⟨List.cons_ne_nil _ _, List.forall_mem_cons.mpr ⟨?_, fun d hd => ?_⟩⟩
  · apply Scan.isWordChar_of_isAlphanumeric
    simp [isAlphanumeric, hc]
  · rcases hr d hd with hd | rfl | rfl
    · exact Scan.isWordChar_of_isAlphanumeric hd
    · decide
    · decide

theorem ofWord_of_isMnemonic : Lexeme.ofWord w = .word := by
  obtain ⟨c, r, rfl, ⟨hlo, hhi⟩, -⟩ := exists_of_isMnemonic h
  have hne : ∀ d, ¬('a' ≤ d ∧ d ≤ 'z') → d ≠ c := by
    rintro d hd rfl
    exact hd ⟨hlo, hhi⟩
  have hdigit : isDigit c = false := by
    rw [isDigit, Bool.and_eq_false_iff, decide_eq_false_iff_not, decide_eq_false_iff_not]
    exact .inr fun hle => absurd (Char.le_trans hlo hle) (by decide)
  exact Lexeme.ofWord_of_head (hne _ (by decide)) hdigit (hne _ (by decide)) (hne _ (by decide)) r

end

/-- texts with different numbers are different -/
def number (w : Text) : Nat :=
  w.foldl (fun n c => 128 * n + c.toNat) 0

/-- rows, and the same rows with the characters of their texts -/
inductive Spelled : List Entry → List Entry → Prop where
  | nil : Spelled [] []
  | op {code pattern : Text} {shape : Shape} {description sample : String} {rows rows' : List Entry}
      (h : Spelled rows rows') :
    Spelled (Entry.op (String.ofList code) (String.ofList pattern) shape description sample :: rows)
      (⟨code, pattern, .instruction shape, description, sample, false⟩ :: rows')
  | odex {code pattern : Text} {shape : Shape} {description sample : String} {rows rows' : List Entry}
      (h : Spelled rows rows') :
    Spelled (Entry.odex (String.ofList code) (String.ofList pattern) shape description sample :: rows)
      (⟨code, pattern, .instruction shape, description, sample, true⟩ :: rows')
  | dir {pattern : Text} {d : Directive} {description sample : String} {rows rows' : List Entry}
      (h : Spelled rows rows') :
    Spelled (Entry.dir (String.ofList pattern) d description sample :: rows)
      (⟨[], pattern, .directive d, description, sample, false⟩ :: rows')
  | append {a a' b b' : List Entry} (ha : Spelled a a') (hb : Spelled b b') : Spelled (a ++ b) (a' ++ b')

theorem Spelled.eq {rows rows' : List Entry} (h : Spelled rows rows') : rows = rows' := by
  induction h with
  | nil => rfl
  | op _ ih => rw [ih, Entry.op, String.toList_ofList, String.toList_ofList]
  | odex _ ih => rw [ih, Entry.odex, String.toList_ofList, String.toList_ofList]
  | dir _ ih => rw [ih, Entry.dir, String.toList_ofList]
  | append _ _ iha ihb => rw [iha, ihb]

end Entry

namespace Catalog

/-- the rows of the builtin catalog with the characters of their texts -/
def spelled : { rows : List Entry // Entry.Spelled builtinRows rows } := by
  -- the rows are what the steps below make of them
  apply Subtype.mk
  unfold builtinRows
  repeat' apply Entry.Spelled.append
  · unfold moves
    repeat apply Entry.Spelled.op
    exact .nil
  · unfold objects
    repeat apply Entry.Spelled.op
    exact .nil
  · unfold accesses
    repeat first | apply Entry.Spelled.op | apply Entry.Spelled.odex
    exact .nil
  · unfold unaryOps
    repeat apply Entry.Spelled.op
    exact .nil
  · unfold binaryOps
    repeat apply Entry.Spelled.op
    exact .nil
  · unfold binaryOps2addr
    repeat apply Entry.Spelled.op
    exact .nil
  · unfold literalOps
    repeat apply Entry.Spelled.op
    exact .nil
  · unfold odexOps
    repeat first | apply Entry.Spelled.op | apply Entry.Spelled.odex
    exact .nil
  · unfold directiveRows
    repeat apply Entry.Spelled.dir
    exact .nil

theorem builtinRows_eq_spelled : builtinRows = spelled.val :=
  spelled.property.eq

theorem builtin_eq_spelled : builtin = ofEntries spelled.val :=
  congrArg ofEntries builtinRows_eq_spelled

/-- no mnemonic occurs twice, and those of the instructions are words -/
theorem builtin_mnemonics : (builtinRows.map Entry.mnemonic).Nodup ∧
    ∀ e ∈ builtinRows, e.isDirective = true ∨ Entry.isMnemonic e.mnemonic = true := by
  have hnodup : (spelled.val.map fun e => Entry.number e.mnemonic).Nodup := by
    decide +kernel
  have hform : (spelled.val.all fun e => e.isDirective || Entry.isMnemonic e.mnemonic) = true := by
    decide +kernel
  rw [builtinRows_eq_spelled]
  constructor
  · apply List.Nodup.of_map Entry.number
    rw [List.map_map]
    exact hnodup
  · intro e he
    exact Bool.or_eq_true_iff.mp (List.all_eq_true.mp hform e he)

/-- every row can be used, and the rows stand in the order of the catalog -/
theorem builtinRows_ranked : builtinRows.findSome? Entry.fault? = none ∧
    builtinRows.Pairwise fun a b => decide (a.rank ≤ b.rank) = true := by
  have hfaults : (spelled.val.findSome? Entry.fault?) = none := by
    decide +kernel
  have hranks : (spelled.val.map Entry.rank).IsChain (· ≤ ·) := by
    decide +kernel
  rw [builtinRows_eq_spelled]
  refine ⟨hfaults, ?_⟩
  rw [List.isChain_iff_pairwise, List.pairwise_map] at hranks
  exact hranks.imp decide_eq_true

/-- **The builtin catalog** is what is made of its rows: they can be used, stand in order, and are put into the index
one by one. -/
theorem ofRows_builtinRows : ofRows builtinRows = .ok builtin := by
  obtain ⟨hfaults, hranks⟩ := builtinRows_ranked
  have hindex : Index.fill [] 0 builtinRows = .ok (Index.ofEntries builtinRows) := by
    rw [Index.fill_nil_eq_ok_iff]
    exact ⟨builtin_mnemonics.1, rfl⟩
  rw [ofRows, hfaults]
  dsimp only
  rw [List.mergeSort_of_pairwise hranks, hindex]
  rfl

theorem builtin_lookup {e : Entry} (he : e ∈ builtinRows) : builtin.lookup e.mnemonic = some e :=
  (lookup_eq_some_iff rfl builtin_mnemonics.1).mpr ⟨he, rfl⟩

/-- an instruction is found by its mnemonic, which is a word -/
theorem builtin_instruction? {e : Entry} (he : e ∈ builtin.instructions) :
    builtin.instruction? e.mnemonic = some e ∧ Entry.isMnemonic e.mnemonic = true := by
  obtain ⟨hmem, hdirective⟩ := List.mem_filter.mp he
  refine ⟨?_, ?_⟩
  · rw [instruction?, builtin_lookup hmem, Option.filter_some, if_pos hdirective]
  · refine (builtin_mnemonics.2 e hmem).resolve_left fun h => ?_
    rw [h] at hdirective
    cases hdirective

end Catalog
end Smali
