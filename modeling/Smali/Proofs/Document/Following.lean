import Smali.Proofs.Document.Tracking

/-!
# When the stack without the statements follows the nesting

`Nesting.stack_push_iff` compares one step of the two.  Here it is said of the nestings that a text leads to,
and for the end of a parameter the condition is traced back to the place of the parameter.

* `BlockStack.upTo k stack`     the innermost block of kind `k` and the blocks around it;
* `after_eq_stack_push_iff`     at every place of a text, the stack follows each line but some ends of
                                declarations;
* `Nesting.DeclaredIn d inner outer b`  the innermost declaration without an end has the blocks `inner` after
                                it and the blocks `outer` around it;
* `Nesting.method_not_mem_dropLast_stack`  a method is only open outside all other blocks;
* `stackAround_param_iff`       so an end of a parameter is followed when the parameter stands in the method
                                itself, or there is nothing to end.
-/

namespace Smali

/-! ## the blocks from one kind on -/

namespace BlockStack

/-- the innermost block of kind `k` and the blocks around it; all blocks when none has that kind -/
def upTo (k : BlockKind) (stack : BlockStack) : BlockStack :=
  if k ∈ stack then stack.dropWhile (· != k) else stack

theorem upTo_of_not_mem {k : BlockKind} {stack : BlockStack} (h : k ∉ stack) : upTo k stack = stack :=
  if_neg h

theorem upTo_append_cons {k : BlockKind} {inner : BlockStack} (h : k ∉ inner) (outer : BlockStack) :
    upTo k (inner ++ k :: outer) = k :: outer := by
  have hinner : ∀ x ∈ inner, (x != k) = true := fun x hx => bne_iff_ne.mpr fun e => h (e ▸ hx)
  rw [upTo, if_pos (List.mem_append_right _ List.mem_cons_self), List.dropWhile_append_of_pos hinner,
    List.dropWhile_cons_of_neg (by rw [bne_self_eq_false]; exact nofun)]

theorem getD_unwindTo? (k : BlockKind) (stack : BlockStack) :
    (unwindTo? k stack).getD stack = upTo k stack := by
  by_cases hk : k ∈ stack
  · obtain ⟨inner, outer, rfl, hinner⟩ := List.eq_append_cons_of_mem hk
    have hdrop := upTo_append_cons hinner outer
    rw [upTo, if_pos hk] at hdrop
    rw [upTo_append_cons hinner, unwindTo?, hdrop]
    rfl
  · have hdrop : stack.dropWhile (· != k) = [] := by
      rw [List.dropWhile_eq_nil_iff]
      exact fun x hx => bne_iff_ne.mpr fun e => hk (e ▸ hx)
    rw [upTo_of_not_mem hk, unwindTo?, hdrop]
    rfl

end BlockStack

/-! ## one step at a place of a text -/

namespace Nesting

theorem tracked_iff {s : Statement} {b : Nesting} :
    b.Tracked s ↔
      (s.closes = some .field → b.stack = [] ∨
        ∃ n ∈ b.top, n.closing = none ∧ n.statement.directive? = some .field) ∧
      (s.closes = some .param → b.stackAround .param = b.stack.upTo .method) := by
  rw [← BlockStack.getD_unwindTo?, ← frames_eq_nil_iff]
  simp only [← isOpenDeclaration_iff]
  unfold Tracked
  cases s.closes with
  | none => exact iff_of_true trivial ⟨nofun, nofun⟩
  | some k =>
    cases k with
    | field => exact ⟨fun h => ⟨fun _ => h, nofun⟩, fun h => h.1 rfl⟩
    | param => exact ⟨fun h => ⟨nofun, fun _ => h⟩, fun h => h.2 rfl⟩
    | method | annot | subannot | arrayData | packedSwitch | sparseSwitch | valueArray =>
      exact iff_of_true trivial ⟨nofun, nofun⟩

end Nesting

/-- **Which lines the stack follows.**  Before any line of a text, the stack after a further line is that of
the nesting after it, unless the line ends a field while blocks are open and no field outside them lacks its end,
or it ends a parameter and the blocks around that parameter are not those from the method on. -/
theorem after_eq_stack_push_iff (options lineOptions : ParseOptions) (text : Text) (m : Nat) (line : Text)
    (n : Nat) :
    let b := nestingBefore (.builtin options) text m
    let s := parseLine (.builtin lineOptions) b.stack line n
    BlockStack.after s b.stack = (b.push s).stack ↔
      (s.closes = some .field → b.stack = [] ∨
        ∃ d ∈ b.top, d.closing = none ∧ d.statement.directive? = some .field) ∧
      (s.closes = some .param → b.stackAround .param = b.stack.upTo .method) := by
  intro b s
  have hs : (Language.builtin lineOptions).IsLine s := ⟨b.stack, line, n, rfl⟩
  have hb : b.MembersOutside := membersOutside_nestingBefore text (.builtin options) m
  rw [eq_comm, Nesting.stack_push_iff hs hb, Nesting.tracked_iff]

/-! ## where a parameter stands -/

namespace Nesting

/-- The innermost declaration without an end has the open blocks `inner` after it and `outer` around it. -/
structure DeclaredIn (d : Directive) (inner outer : List Frame) (b : Nesting) : Prop where
  frames : b.frames = inner ++ outer
  found : ∃ n ∈ innermost ⟨outer, b.top⟩, isOpenDeclaration d n = true
  later : ∀ f ∈ inner, ∀ n ∈ f.children, isOpenDeclaration d n = false

/-- no declaration lacks its end -/
def Undeclared (d : Directive) (b : Nesting) : Prop :=
  ∀ nodes ∈ b.containers, ∀ n ∈ nodes, isOpenDeclaration d n = false

theorem exists_declaredIn_or_undeclared (d : Directive) (b : Nesting) :
    (∃ inner outer, b.DeclaredIn d inner outer) ∨ b.Undeclared d := by
  obtain ⟨frames, top⟩ := b
  induction frames with
  | nil =>
    by_cases h : ∃ n ∈ top, isOpenDeclaration d n = true
    · exact .inl ⟨[], [], rfl, h, List.forall_mem_nil _⟩
    · exact .inr (List.forall_mem_singleton.mpr (by simpa using h))
  | cons f fs ih =>
    by_cases h : ∃ n ∈ f.children, isOpenDeclaration d n = true
    · exact .inl ⟨[], f :: fs, rfl, h, List.forall_mem_nil _⟩
    · have hf : ∀ n ∈ f.children, isOpenDeclaration d n = false := by simpa using h
      rcases ih with ⟨inner, outer, hfs, hfound, hlater⟩ | hnone
      · exact .inl ⟨f :: inner, outer, congrArg (f :: ·) hfs, hfound,
          List.forall_mem_cons.mpr ⟨hf, hlater⟩⟩
      · exact .inr (List.forall_mem_cons.mpr ⟨hf, hnone⟩)

theorem containers_of_frames {inner outer : List Frame} {b : Nesting} (h : b.frames = inner ++ outer) :
    b.containers = inner.map Frame.children ++ containers ⟨outer, b.top⟩ := by
  rw [containers, h, List.map_append, List.append_assoc]
  rfl

theorem stackAround_of_declaredIn (k : BlockKind) {inner outer : List Frame} {b : Nesting}
    (h : b.DeclaredIn (declares k) inner outer) : b.stackAround k = outer.map Frame.kind := by
  obtain ⟨hframes, ⟨n, hn, hdecl⟩, hlater⟩ := h
  have hinner : ∀ nodes ∈ inner.map Frame.children, ∀ n ∈ nodes,
      isOpenDeclaration (declares k) n = false := by
    rwa [List.forall_mem_map]
  have houter : ∃ i, declaration? (declares k) (containers ⟨outer, b.top⟩) = some (0, i) := by
    rw [containers_eq, declaration?]
    cases hl : findLastIdx? (isOpenDeclaration (declares k)) (innermost ⟨outer, b.top⟩) with
    | some i => exact ⟨i, rfl⟩
    | none =>
      rw [findLastIdx?_eq_none_iff.mp hl n hn] at hdecl
      cases hdecl
  obtain ⟨i, hi⟩ := houter
  rw [stackAround, containers_of_frames hframes, declaration?_append _ hinner, hi, Option.map_some]
  show b.stack.drop ((inner.map Frame.children).length + 0) = _
  rw [stack, hframes, List.map_append, Nat.add_zero, List.length_map, ← List.length_map Frame.kind,
    List.drop_left]

theorem stackAround_of_undeclared (k : BlockKind) {b : Nesting} (h : b.Undeclared (declares k)) :
    b.stackAround k = b.stack := by
  have hnone := declaration?_append [] h
  rw [List.append_nil] at hnone
  rw [stackAround, hnone]
  rfl

/-! ## a method is outermost -/

/-- a method is only open outside all other blocks -/
theorem method_not_mem_dropLast_stack {options : ParseOptions} {b : Nesting} (hb : b.MembersOutside)
    (ho : b.Opened (Language.builtin options).IsLine) : BlockKind.method ∉ b.stack.dropLast := by
  rw [stack, ← List.map_dropLast, List.mem_map]
  rintro ⟨f, hf, hk⟩
  obtain ⟨hline, -, hopens⟩ := ho f ((List.dropLast_sublist b.frames).mem hf)
  rw [hk] at hopens
  have htop := hb.2 f hf
  rw [hline.isTopLevel_of_opens_method hopens] at htop
  cases htop

theorem exists_stack_of_method {b : Nesting} (hm : BlockKind.method ∉ b.stack.dropLast)
    (hmem : BlockKind.method ∈ b.stack) : ∃ inner, b.stack = inner ++ [.method] ∧ .method ∉ inner := by
  obtain ⟨inner, k, hk⟩ := (List.eq_nil_or_concat' b.stack).resolve_left (List.ne_nil_of_mem hmem)
  rw [hk, List.dropLast_concat] at hm
  rw [hk, List.mem_append, List.mem_singleton] at hmem
  obtain rfl := hmem.resolve_left hm
  exact ⟨inner, hk, hm⟩

theorem stackAround_param_of_method {b : Nesting} (hm : BlockKind.method ∉ b.stack.dropLast)
    (hmem : BlockKind.method ∈ b.stack) :
    b.stackAround .param = b.stack.upTo .method ↔
      (∃ inner f, b.DeclaredIn .param inner [f]) ∨ (b.Undeclared .param ∧ b.stack = [.method]) := by
  obtain ⟨above, hstack, habove⟩ := exists_stack_of_method hm hmem
  have hupTo : b.stack.upTo .method = [.method] := by
    rw [hstack, BlockStack.upTo_append_cons habove]
  rw [hupTo]
  constructor
  · intro h
    rcases exists_declaredIn_or_undeclared .param b with ⟨inner, outer, hd⟩ | hu
    · rw [stackAround_of_declaredIn .param hd, List.map_eq_singleton_iff] at h
      obtain ⟨f, rfl, -⟩ := h
      exact .inl ⟨inner, f, hd⟩
    · rw [stackAround_of_undeclared .param hu] at h
      exact .inr ⟨hu, h⟩
  · rintro (⟨inner, f, hd⟩ | ⟨hu, h⟩)
    · -- the outermost block is the method
      have hlast := congrArg List.getLast? hstack
      rw [stack, hd.frames, List.map_append, List.map_singleton, List.getLast?_concat,
        List.getLast?_concat, Option.some.injEq] at hlast
      rw [stackAround_of_declaredIn .param hd, List.map_singleton, hlast]
    · rw [stackAround_of_undeclared .param hu, h]

theorem stackAround_param_of_no_method {b : Nesting} (hmem : BlockKind.method ∉ b.stack) :
    b.stackAround .param = b.stack.upTo .method ↔
      b.DeclaredIn .param [] b.frames ∨ b.Undeclared .param := by
  rw [BlockStack.upTo_of_not_mem hmem]
  constructor
  · intro h
    rcases exists_declaredIn_or_undeclared .param b with ⟨inner, outer, hd⟩ | hu
    · have hlen := congrArg List.length h
      rw [stackAround_of_declaredIn .param hd, stack, hd.frames, List.length_map, List.length_map,
        List.length_append] at hlen
      obtain rfl : inner = [] := List.eq_nil_of_length_eq_zero (by omega)
      obtain rfl : b.frames = outer := hd.frames
      exact .inl hd
    · exact .inr hu
  · rintro (hd | hu)
    · exact stackAround_of_declaredIn .param hd
    · exact stackAround_of_undeclared .param hu

end Nesting

/-- **Which ends of parameters the stack follows.**  In a method the innermost parameter without an end has to
stand in the method itself, and where there is none, nothing else may be open.  Outside methods it has to stand
among the innermost trees, if there is one. -/
theorem stackAround_param_iff (options : ParseOptions) (text : Text) (m : Nat) :
    let b := nestingBefore (.builtin options) text m
    b.stackAround .param = b.stack.upTo .method ↔
      if .method ∈ b.stack then
        (∃ inner f, b.DeclaredIn .param inner [f]) ∨ (b.Undeclared .param ∧ b.stack = [.method])
      else b.DeclaredIn .param [] b.frames ∨ b.Undeclared .param := by
  intro b
  have hb : b.MembersOutside := membersOutside_nestingBefore text (.builtin options) m
  have ho : b.Opened (Language.builtin options).IsLine :=
    nestingBefore_keeps _ text (Nesting.kept_opened _) (Nesting.opened_empty _)
      (fun s hs => isLine_of_mem_lineStatements _ text hs) m
  by_cases hmem : BlockKind.method ∈ b.stack
  · rw [if_pos hmem]
    exact Nesting.stackAround_param_of_method (Nesting.method_not_mem_dropLast_stack hb ho) hmem
  · rw [if_neg hmem]
    exact Nesting.stackAround_param_of_no_method hmem

/-- a parameter before the method: its end ends the method, which stays on the stack -/
example :
    let b := nestingBefore (.builtin .standard) ".param p0\n.method a()V\n".toList 2
    b.stackAround .param = [] ∧ b.stack.upTo .method = [.method] := by
  rw [Language.builtin, Catalog.builtin_eq_spelled]
  decide +kernel

end Smali
