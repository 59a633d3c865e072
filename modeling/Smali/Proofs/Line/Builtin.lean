import Smali.Proofs.Catalog
import Smali.Proofs.Line.Shape

/-!
# Lines under the builtin catalog

The builtin catalog gives each keyword the directive of that keyword, so a directive line declares what its
keyword says.

* `Catalog.builtin_directive?`   the entry of a keyword is that of its directive;
* `Language.IsLine.directive?_of_keyword`  so a line with a keyword has the directive of that keyword;
* `Language.IsLine.declares_nothing`  a line that opens a block declares neither a field nor a parameter;
* `Language.IsLine.isTopLevel_eq_false`  the end of a block does not belong to the class itself;
* `Language.IsLine.isTopLevel_of_opens_method`  the line that opens a method does.
-/

namespace Smali

theorem Directive.mem_of_ofKeyword? {word : Text} {d : Directive} (h : ofKeyword? word = some d) :
    d ∈ keyworded ∧ d.keyword = word := by
  refine ⟨List.mem_of_find?_eq_some h, ?_⟩
  simpa using List.find?_some h

/-- each keyword has a row with its directive -/
theorem Catalog.builtinRows_keyworded :
    ∀ d ∈ Directive.keyworded, ∃ e ∈ builtinRows, e.directive? = some d ∧ e.mnemonic = d.keyword := by
  rw [builtinRows_eq_spelled]
  decide +kernel

theorem Catalog.builtin_directive? {word : Text} {d : Directive}
    (h : Directive.ofKeyword? word = some d) : (builtin.lookup word).bind Entry.directive? = some d := by
  obtain ⟨hd, rfl⟩ := Directive.mem_of_ofKeyword? h
  obtain ⟨e, he, hdirective, hmnemonic⟩ := builtinRows_keyworded d hd
  rw [← hmnemonic, builtin_lookup he, Option.bind_some, hdirective]

/-- the mnemonic of an instruction is not the keyword of a directive -/
theorem Catalog.ofKeyword?_of_instruction? {word : Text} {entry : Entry}
    (h : builtin.instruction? word = some entry) :
    entry.directive? = none ∧ Directive.ofKeyword? word = none := by
  obtain ⟨hl, hn⟩ := Option.filter_eq_some_iff.mp h
  have hentry : entry.directive? = none := by simpa [Entry.isDirective] using hn
  refine ⟨hentry, ?_⟩
  cases hd : Directive.ofKeyword? word with
  | none => rfl
  | some d =>
    have hdir := builtin_directive? hd
    rw [show builtin.lookup word = some entry from hl, Option.bind_some, hentry] at hdir
    cases hdir

/-- the language of the builtin catalog -/
def Language.builtin (options : ParseOptions) : Language := ⟨.builtin, options⟩

namespace Statement

theorem directive?_eq_none {s : Statement} (hw : s.keyword = none) (ho : s.opcode = none) :
    s.directive? = none := by
  rw [directive?, hw, ho]
  rfl

theorem directive?_builtin {s : Statement} {word : Text} {d : Directive}
    (hd : Directive.ofKeyword? word = some d) (ho : s.opcode = Catalog.builtin.lookup word) :
    s.directive? = some d := by
  rw [directive?, ho, Catalog.builtin_directive? hd]
  rfl

end Statement

namespace Language.IsLine

variable {options : ParseOptions} {s : Statement}

/-- a line with the keyword of a directive has that directive, also when it is malformed -/
theorem directive?_of_keyword (hs : (Language.builtin options).IsLine s) {word : Text} {d : Directive}
    (hw : s.keyword = some word) (hd : Directive.ofKeyword? word = some d) : s.directive? = some d := by
  obtain ⟨h, hh, hw', hop, -, -, -⟩ := hs.exists_shape
  rw [hw] at hw'
  cases hh with
  | instruction w entry hi =>
    obtain rfl := Option.some.inj hw'
    rw [(Catalog.ofKeyword?_of_instruction? hi).2] at hd
    cases hd
  | directive w d' | endLocal w | blockEnd w =>
    obtain rfl := Option.some.inj hw'
    exact Statement.directive?_builtin hd hop
  | plain | openValue | closeValue => cases hw'

/-- a line that opens a block declares neither a field nor a parameter -/
theorem declares_nothing (hs : (Language.builtin options).IsLine s) (ho : s.opens.isSome) :
    s.directive? ≠ some .field ∧ s.directive? ≠ some .param := by
  obtain ⟨h, hh, hw, hop, ho', -, -⟩ := hs.exists_shape
  rw [ho'] at ho
  cases hh with
  | openValue k hk =>
    rw [Statement.directive?_eq_none hw hop]
    exact ⟨nofun, nofun⟩
  | directive word d hd =>
    rw [Statement.directive?_builtin hd hop]
    have hf : d ≠ .field ∧ d ≠ .param := by
      constructor
      · rintro rfl
        cases ho
      · rintro rfl
        cases ho
    exact ⟨fun e => hf.1 (Option.some.inj e), fun e => hf.2 (Option.some.inj e)⟩
  | plain | closeValue | instruction | endLocal | blockEnd => cases ho

/-- the end of a block does not belong to the class itself -/
theorem isTopLevel_eq_false (hs : (Language.builtin options).IsLine s) {k : BlockKind}
    (hc : s.closes = some k) : s.isTopLevel = false := by
  obtain ⟨h, hh, hw, hop, -, hc', -⟩ := hs.exists_shape
  rw [hc] at hc'
  cases hh with
  | closeValue =>
    rw [Statement.isTopLevel, Statement.directive?_eq_none hw hop]
    rfl
  | blockEnd word k hd =>
    rw [Statement.isTopLevel, Statement.directive?_builtin hd hop]
    rfl
  | plain | openValue | instruction | directive | endLocal => cases hc'

/-- a line that opens a method belongs to the class itself, also when it is malformed -/
theorem isTopLevel_of_opens_method (hs : (Language.builtin options).IsLine s)
    (ho : s.opens = some .method) : s.isTopLevel = true := by
  obtain ⟨h, hh, -, hop, ho', -, -⟩ := hs.exists_shape
  rw [ho] at ho'
  cases hh with
  | openValue k hk =>
    obtain rfl := Option.some.inj ho'
    rcases hk with hk | hk <;> cases hk
  | directive word d hd =>
    have hmethod : d = .method := by
      cases d with
      | method => rfl
      | _ => cases ho'
    rw [Statement.isTopLevel, Statement.directive?_builtin hd hop, hmethod]
    rfl
  | plain | closeValue | instruction | endLocal | blockEnd => cases ho'

end Language.IsLine
end Smali
