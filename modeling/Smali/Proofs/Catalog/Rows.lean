import Mathlib.Data.Bool.Basic
import Mathlib.Data.List.Nodup
import Mathlib.Data.Prod.Lex
import Smali.Proofs.Catalog.Index
import Smali.Proofs.Literal.Integer
import Smali.Proofs.Sorting

/-!
# Catalogs from rows

Rows in any order are checked, sorted and indexed by their mnemonics.

* `Entry.DenotesByte`     the codes that stand for a byte;
* `Entry.Faulty`          what makes a row unusable, with the error that says so;
* `Entry.key`             what rows are sorted by: instructions before directives, and instructions by their byte;
* `Catalog.Lists`         what a catalog of some rows has to be: their stable sort, with one entry for a mnemonic and
                          its position in the index;
* `Catalog.Built`         the first fault of some rows, or else the catalog;
* `Catalog.ofRows_eq_iff` that is what `Catalog.ofRows` gives for any rows.
-/

namespace Smali

theorem Text.length_le_size (t : Text) : t.length ≤ Text.size t := by
  induction t with
  | nil => exact Nat.le_refl 0
  | cons c t ih =>
    have hc := c.utf8Size_pos
    rw [Text.size_cons, List.length_cons]
    omega

namespace Entry

/-! ## codes -/

/-- The code is two bytes of text that denote the byte `n` in base sixteen: digits, with an optional plus sign
before them. -/
structure DenotesByte (code : Text) (n : Nat) : Prop where
  size : Text.size code = 2
  digits : ∃ plus s, code = Text.mark '+' plus ++ s ∧ Numeral.Denotes 16 s n
  lt : n < 256

theorem lt_of_denotes {s : Text} {n : Nat} (h : Numeral.Denotes 16 s n) : n < 16 ^ s.length := by
  obtain ⟨-, ds, hds, rfl⟩ := h
  have hlt : ∀ d ∈ ds, d < 16 := by
    induction hds with
    | nil => exact List.forall_mem_nil _
    | cons hd _ ih => exact List.forall_mem_cons.mpr ⟨hd.1, ih⟩
  rw [hds.length_eq, ← List.length_reverse]
  exact Nat.ofDigits_lt_base_pow_length (by decide) fun d hd => hlt d (List.mem_reverse.mp hd)

theorem byte?_eq_some_iff {code : Text} {n : Nat} : byte? code = some n ↔ DenotesByte code n := by
  rw [byte?, Option.ite_none_right_eq_some, Numeral.unsigned?_eq_some_iff (Nat.le_refl 16)]
  constructor
  · rintro ⟨hsize, plus, s, rfl, hs⟩
    refine ⟨hsize, ⟨plus, s, rfl, hs⟩, ?_⟩
    have hlen : s.length ≤ 2 := by
      have hle := Text.length_le_size s
      rw [Text.size_append] at hsize
      omega
    exact Nat.lt_of_lt_of_le (lt_of_denotes hs) (Nat.pow_le_pow_right (by decide) hlen)
  · exact fun h => ⟨h.size, h.digits⟩

/-! ## faults -/

/-- The row cannot be used, for a cause.  That the mnemonic is missing is said first. -/
inductive Faulty (e : Entry) : Error → Prop
  | emptyPattern (hempty : e.mnemonic = []) : Faulty e (.emptyPattern e.code)
  | invalidCode {shape : Shape} (hrole : e.role = .instruction shape) (hnonempty : e.mnemonic ≠ [])
      (hcode : ∀ n, ¬DenotesByte e.code n) : Faulty e (.invalidCode e.pattern e.code)

theorem fault?_eq_some_iff {e : Entry} {cause : Error} : e.fault? = some cause ↔ e.Faulty cause := by
  unfold fault?
  constructor
  · intro h
    split at h
    · rename_i hempty
      obtain rfl := Option.some.inj h
      exact .emptyPattern (List.isEmpty_iff.mp hempty)
    · rename_i hempty
      split at h
      · rename_i shape hrole
        rw [Option.ite_none_left_eq_some] at h
        obtain ⟨hcode, h⟩ := h
        obtain rfl := Option.some.inj h
        refine .invalidCode hrole (fun h => hempty (List.isEmpty_iff.mpr h)) fun n hn => hcode ?_
        rw [byte?_eq_some_iff.mpr hn]
        rfl
      · cases h
  · rintro (hempty | ⟨hrole, hnonempty, hcode⟩)
    · rw [hempty]
      rfl
    · have hnone : byte? _ = none := Option.eq_none_iff_forall_ne_some.mpr fun n hn => hcode n (byte?_eq_some_iff.mp hn)
      rw [if_neg (by rwa [List.isEmpty_iff]), hrole]
      dsimp only
      rw [hnone]
      rfl

theorem fault?_eq_none_iff {e : Entry} : e.fault? = none ↔ ∀ cause, ¬e.Faulty cause := by
  rw [Option.eq_none_iff_forall_ne_some]
  exact forall_congr' fun cause => not_congr fault?_eq_some_iff

/-- the row can be used -/
def Usable (e : Entry) : Prop :=
  ∀ cause, ¬e.Faulty cause

theorem findSome?_fault?_eq_none_iff {rows : List Entry} :
    rows.findSome? fault? = none ↔ ∀ e ∈ rows, e.Usable := by
  rw [List.findSome?_eq_none_iff]
  exact forall₂_congr fun e _ => fault?_eq_none_iff

theorem exists_opcode? {e : Entry} (h : e.Usable) (hdirective : e.isDirective = false) : ∃ n, e.opcode? = some n := by
  unfold isDirective directive? at hdirective
  unfold opcode?
  cases hrole : e.role with
  | directive =>
    rw [hrole] at hdirective
    cases hdirective
  | instruction shape =>
    by_contra hnone
    have hcode : ∀ n, ¬DenotesByte e.code n := fun n hn => hnone ⟨n, byte?_eq_some_iff.mpr hn⟩
    by_cases hempty : e.mnemonic = []
    · exact h _ (.emptyPattern hempty)
    · exact h _ (.invalidCode hrole hempty hcode)

/-! ## the order -/

/-- what rows are sorted by: instructions before directives, and instructions by their byte -/
def key (e : Entry) : Bool ×ₗ Nat :=
  toLex (e.isDirective, e.opcode?.getD 0)

/-- the row may stand before the other one -/
def precedes (a b : Entry) : Bool :=
  decide (a.key ≤ b.key)

theorem rank_of_isDirective {e : Entry} (h : e.isDirective = true) : e.rank = 256 ∧ e.opcode?.getD 0 = 0 := by
  unfold isDirective directive? at h
  unfold rank opcode?
  cases hrole : e.role with
  | instruction =>
    rw [hrole] at h
    cases h
  | directive => exact ⟨rfl, rfl⟩

theorem rank_of_not_isDirective {e : Entry} (h : e.isDirective = false) :
    e.rank = e.opcode?.getD 0 ∧ e.rank < 256 := by
  unfold isDirective directive? at h
  unfold rank opcode?
  cases hrole : e.role with
  | instruction shape =>
    refine ⟨rfl, ?_⟩
    show (byte? e.code).getD 0 < 256
    cases hbyte : byte? e.code with
    | none => decide
    | some n => exact (byte?_eq_some_iff.mp hbyte).lt
  | directive =>
    rw [hrole] at h
    cases h

theorem rank_eq_iff {e : Entry} : e.rank = 256 ↔ e.isDirective = true := by
  cases h : e.isDirective with
  | true => exact iff_of_true (rank_of_isDirective h).1 rfl
  | false => exact iff_of_false (Nat.ne_of_lt (rank_of_not_isDirective h).2) nofun

theorem rank_le (e : Entry) : e.rank ≤ 256 := by
  cases h : e.isDirective with
  | true => exact Nat.le_of_eq (rank_of_isDirective h).1
  | false => exact Nat.le_of_lt (rank_of_not_isDirective h).2

/-- the rank puts the two parts of the key into one number -/
theorem rank_le_iff {a b : Entry} : a.rank ≤ b.rank ↔ a.key ≤ b.key := by
  rw [key, key, Prod.Lex.toLex_le_toLex]
  cases ha : a.isDirective with
  | true =>
    obtain ⟨hrank, hbyte⟩ := rank_of_isDirective ha
    cases hb : b.isDirective with
    | true => simp [hrank, hbyte, rank_of_isDirective hb]
    | false =>
      have hlt := (rank_of_not_isDirective hb).2
      refine iff_of_false (by omega) ?_
      rintro (h | h)
      · exact absurd (show true < false from h) (by decide)
      · cases h.1
  | false =>
    obtain ⟨hrank, hlt⟩ := rank_of_not_isDirective ha
    cases hb : b.isDirective with
    | true =>
      have hb := (rank_of_isDirective hb).1
      simp
      omega
    | false => simp [hrank, (rank_of_not_isDirective hb).1]

theorem precedes_iff {a b : Entry} : a.precedes b = true ↔ a.rank ≤ b.rank := by
  rw [precedes, decide_eq_true_iff, rank_le_iff]

theorem precedes_trans (a b c : Entry) (hab : a.precedes b = true) (hbc : b.precedes c = true) :
    a.precedes c = true := by
  rw [precedes_iff] at hab hbc ⊢
  exact Nat.le_trans hab hbc

theorem precedes_total (a b : Entry) : a.precedes b = true ∨ b.precedes a = true := by
  rw [precedes_iff, precedes_iff]
  exact Nat.le_total a.rank b.rank

theorem isStableSort_rank (rows : List Entry) :
    IsStableSort precedes rows (rows.mergeSort fun a b => decide (a.rank ≤ b.rank)) := by
  have horder : (fun a b : Entry => decide (a.rank ≤ b.rank)) = precedes := by
    funext a b
    rw [Bool.eq_iff_iff, decide_eq_true_iff, precedes_iff]
  rw [horder]
  exact isStableSort_mergeSort precedes_trans precedes_total rows

end Entry

/-! ## what is made of the rows -/

namespace Catalog

/-- The catalog has the rows in the order of their keys, and rows with the same key as they were given.  So the
instructions come first, by ascending bytes, and then the directives as they were given.  The index has the mnemonics
in this order, and the position of a mnemonic is that of the entry that has it.  So each mnemonic leads to its only
entry, and a start of mnemonics to all entries that go on with it. -/
structure Lists (rows : List Entry) (c : Catalog) : Prop where
  sorted : IsStableSort Entry.precedes rows c.entries
  split : c.entries = c.instructions ++ c.directives
  ascending : ∃ bytes : List Nat, c.instructions.map Entry.opcode? = bytes.map some ∧ bytes.Pairwise (· ≤ ·)
  directives : c.directives = rows.filter Entry.isDirective
  unique : (c.entries.map Entry.mnemonic).Nodup
  index : c.index = (c.entries.map Entry.mnemonic).zipIdx
  position : ∀ m i, c.index.lookup m = some i ↔ (c.entries.map Entry.mnemonic)[i]? = some m
  lookup : ∀ m e, c.lookup m = some e ↔ e ∈ c.entries ∧ e.mnemonic = m
  completions : ∀ p, c.completions p = c.entries.filter fun e => p <+: e.mnemonic

/-- The first row that cannot be used, or else the first entry in the order of the keys whose mnemonic was there
before, or else the catalog of the rows. -/
inductive Built (rows : List Entry) : Except Error Catalog → Prop
  | unusable {before after : List Entry} {e : Entry} {cause : Error} (hrows : rows = before ++ e :: after)
      (hbefore : ∀ b ∈ before, b.Usable) (hfault : e.Faulty cause) : Built rows (.error cause)
  | repeated {sorted before after : List Entry} {e : Entry} (husable : ∀ e ∈ rows, e.Usable)
      (hsorted : IsStableSort Entry.precedes rows sorted) (hsplit : sorted = before ++ e :: after)
      (hbefore : (before.map Entry.mnemonic).Nodup) (hmem : e.mnemonic ∈ before.map Entry.mnemonic) :
      Built rows (.error (.duplicateMnemonic e.mnemonic))
  | catalog {c : Catalog} (husable : ∀ e ∈ rows, e.Usable) (hlists : c.Lists rows) : Built rows (.ok c)

theorem completions_eq (c : Catalog) (p : Text) :
    c.completions p = c.entries.filter fun e => p <+: e.mnemonic := by
  apply List.filter_congr
  intro e _
  rw [Bool.eq_iff_iff, decide_eq_true_iff]
  exact List.isPrefixOf_iff_prefix

section
variable {rows sorted : List Entry} (hsorted : IsStableSort Entry.precedes rows sorted)
include hsorted

/-- no instruction comes after a directive -/
theorem sorted_eq_append : sorted =
    sorted.filter (fun e => !e.isDirective) ++ sorted.filter Entry.isDirective := by
  have horder := hsorted.ordered
  clear hsorted
  induction sorted with
  | nil => rfl
  | cons e es ih =>
    obtain ⟨he, hes⟩ := List.pairwise_cons.mp horder
    cases hdirective : e.isDirective with
    | false =>
      rw [List.filter_cons_of_pos (by rw [hdirective]; rfl), List.filter_cons_of_neg (by rw [hdirective]; decide),
        List.cons_append, ← ih hes]
    | true =>
      have hall : ∀ b ∈ es, b.isDirective = true := by
        intro b hb
        have hle := Entry.precedes_iff.mp (he b hb)
        rw [Entry.rank_eq_iff.mpr hdirective] at hle
        exact Entry.rank_eq_iff.mp (Nat.le_antisymm b.rank_le hle)
      have hnone : (e :: es).filter (fun e => !e.isDirective) = [] := by
        rw [List.filter_eq_nil_iff]
        intro b hb
        rcases List.mem_cons.mp hb with rfl | hb
        · rw [hdirective]
          decide
        · rw [hall b hb]
          decide
      rw [hnone, List.nil_append, List.filter_eq_self.mpr]
      exact List.forall_mem_cons.mpr ⟨hdirective, hall⟩

/-- all directives have the same key, so they stand as they were given -/
theorem filter_isDirective_sorted : sorted.filter Entry.isDirective = rows.filter Entry.isDirective := by
  obtain ⟨d, hd⟩ : ∃ d : Entry, d.rank = 256 := ⟨Entry.dir "" .classDecl "" "", rfl⟩
  have hsame : (fun e => d.precedes e && e.precedes d) = Entry.isDirective := by
    funext e
    have hle := e.rank_le
    rw [Bool.eq_iff_iff, Bool.and_eq_true, Entry.precedes_iff, Entry.precedes_iff, hd, ← Entry.rank_eq_iff]
    omega
  rw [← hsame]
  exact hsorted.stable d

end

theorem lists_of_sorted {rows sorted : List Entry} (husable : ∀ e ∈ rows, e.Usable)
    (hsorted : IsStableSort Entry.precedes rows sorted) (hnodup : (sorted.map Entry.mnemonic).Nodup) :
    Lists rows (ofEntries sorted) where
  sorted := hsorted
  split := sorted_eq_append hsorted
  ascending := by
    refine ⟨(ofEntries sorted).instructions.map Entry.rank, ?_, ?_⟩
    · rw [List.map_map]
      apply List.map_congr_left
      intro e he
      obtain ⟨hmem, hdirective⟩ := List.mem_filter.mp he
      rw [Bool.not_eq_true'] at hdirective
      obtain ⟨n, hn⟩ := Entry.exists_opcode? (husable e (hsorted.perm.mem_iff.mp hmem)) hdirective
      have hrank := (Entry.rank_of_not_isDirective hdirective).1
      rw [hn] at hrank
      rw [hn, Function.comp_apply, hrank]
      rfl
    · rw [List.pairwise_map]
      exact (hsorted.ordered.sublist List.filter_sublist).imp Entry.precedes_iff.mp
  directives := filter_isDirective_sorted hsorted
  unique := hnodup
  index := rfl
  position := fun _ _ => Index.lookup_ofEntries_iff hnodup
  lookup := fun _ _ => lookup_eq_some_iff rfl hnodup
  completions := completions_eq _

/-- **What is made of rows.**  The first row that cannot be used is the error: its mnemonic is missing, or it is an
instruction whose code is no byte.  If there is none, the rows are sorted, instructions by their byte and then
directives, and the first mnemonic that is there twice is the error.  If there is none either, the sorted rows are
the catalog, with the positions of their mnemonics: each mnemonic leads to its entry, and other words to none. -/
theorem ofRows_eq_iff (rows : List Entry) (r : Except Error Catalog) : ofRows rows = r ↔ Built rows r := by
  have hsort := Entry.isStableSort_rank rows
  unfold ofRows
  constructor
  · rintro rfl
    split
    · rename_i cause hfault
      obtain ⟨before, e, after, hrows, he, hbefore⟩ := List.findSome?_eq_some_iff.mp hfault
      exact .unusable hrows (fun b hb => Entry.fault?_eq_none_iff.mp (hbefore b hb)) (Entry.fault?_eq_some_iff.mp he)
    · rename_i hfault
      have husable := Entry.findSome?_fault?_eq_none_iff.mp hfault
      dsimp only
      split
      · rename_i cause hfill
        obtain ⟨before, e, after, hsplit, rfl, hnodup, hmem⟩ := Index.fill_nil_eq_error_iff.mp hfill
        exact .repeated husable hsort hsplit hnodup hmem
      · rename_i index hfill
        obtain ⟨hnodup, rfl⟩ := Index.fill_nil_eq_ok_iff.mp hfill
        exact .catalog husable (lists_of_sorted husable hsort hnodup)
  · rintro (⟨hrows, hbefore, hfault⟩ | ⟨husable, hsorted, hsplit, hbefore, hmem⟩ | ⟨husable, hlists⟩)
    · have hfirst : rows.findSome? Entry.fault? = some _ := List.findSome?_eq_some_iff.mpr ⟨_, _, _, hrows,
        Entry.fault?_eq_some_iff.mpr hfault, fun b hb => Entry.fault?_eq_none_iff.mpr (hbefore b hb)⟩
      rw [hfirst]
    · have hfill := Index.fill_nil_eq_error_iff.mpr ⟨_, _, _, hsplit, rfl, hbefore, hmem⟩
      rw [Entry.findSome?_fault?_eq_none_iff.mpr husable]
      dsimp only
      rw [hsort.unique Entry.precedes_total hsorted, hfill]
    · have hfill := Index.fill_nil_eq_ok_iff.mpr ⟨hlists.unique, hlists.index⟩
      rw [Entry.findSome?_fault?_eq_none_iff.mpr husable]
      dsimp only
      rw [hsort.unique Entry.precedes_total hlists.sorted, hfill]

end Catalog
end Smali
