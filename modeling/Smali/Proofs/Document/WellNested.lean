import Smali.Proofs.Nesting

/-!
# Well nested lines and their trees

* `WellNested inside ss ns`  the statements `ss` are those of single lines, of blocks and of declarations
                        with an end, and their trees are `ns`; `inside` says whether they stand in a block;
* `push_opening`, `push_closing`, `push_declaration_end`  the three steps of a block;
* `foldl_push_wellNested`  well nested statements append their trees, whatever is open around them;
* `finish_wellNested`   a document of well nested statements consists of their trees.
-/

namespace Smali

/-- the kinds of the optional blocks and the directives that declare what they belong to -/
def IsDeclaredBy (k : BlockKind) (d : Directive) : Prop :=
  (k = .field ∧ d = .field) ∨ (k = .param ∧ d = .param)

/-- Statements that are well nested, and their trees.  A statement of the class itself does not stand in a
block, and no end is one. -/
inductive WellNested : Bool → List Statement → List Node → Prop
  | nil (inside : Bool) : WellNested inside [] []
  /-- a line that neither opens nor closes a block -/
  | line {inside : Bool} {s : Statement} {ss : List Statement} {ns : List Node}
      (ho : s.opens = none) (hc : s.closes = none) (ht : inside = true → s.isTopLevel = false)
      (rest : WellNested inside ss ns) :
      WellNested inside (s :: ss) (⟨s, [], none⟩ :: ns)
  /-- a block from its opening to its closing line -/
  | block {inside : Bool} {k : BlockKind} {opening closing : Statement} {body ss : List Statement}
      {children ns : List Node} (hk : k ≠ .field ∧ k ≠ .param)
      (ho : opening.opens = some k) (hc : opening.closes = none)
      (ht : inside = true → opening.isTopLevel = false)
      (hbody : WellNested true body children)
      (hco : closing.opens = none) (hcc : closing.closes = some k)
      (hct : closing.isTopLevel = false) (rest : WellNested inside ss ns) :
      WellNested inside (opening :: (body ++ closing :: ss))
        (⟨{ opening with span := opening.span.cover closing.span }, children, some closing⟩ :: ns)
  /-- a field or a parameter with its end; the lines between have no such declaration without an end -/
  | declared {inside : Bool} {k : BlockKind} {d : Directive} {declaration closing : Statement}
      {body ss : List Statement} {children ns : List Node} (hk : IsDeclaredBy k d)
      (hd : declaration.directive? = some d)
      (ho : declaration.opens = none) (hc : declaration.closes = none)
      (ht : inside = true → declaration.isTopLevel = false)
      (hbody : WellNested true body children)
      (hopen : ∀ n ∈ children, ¬(n.closing = none ∧ n.statement.directive? = some d))
      (hcc : closing.closes = some k) (hct : closing.isTopLevel = false)
      (rest : WellNested inside ss ns) :
      WellNested inside (declaration :: (body ++ closing :: ss))
        (⟨{ declaration with
              opens := some k
              span := declaration.span.cover closing.span }, children, some closing⟩ :: ns)

namespace Nesting

/-! ## the steps of a block -/

/-- appends trees to the innermost block -/
def addAll (ns : List Node) (b : Nesting) : Nesting :=
  b.mapInnermost (· ++ ns)

theorem addAll_nil (b : Nesting) : b.addAll [] = b := by
  have h : (fun nodes : List Node => nodes ++ []) = fun nodes => nodes := by
    funext nodes
    rw [List.append_nil]
  rw [addAll, h, mapInnermost_id]

theorem addAll_addAll (ms ns : List Node) (b : Nesting) :
    (b.addAll ms).addAll ns = b.addAll (ms ++ ns) := by
  rw [addAll, addAll, mapInnermost_mapInnermost, addAll]
  apply mapInnermost_congr
  rw [List.append_assoc]

theorem frames_addAll_eq_nil {b : Nesting} (ns : List Node) (h : b.frames = []) :
    (b.addAll ns).frames = [] := by
  rw [frames_eq_nil_iff, addAll, stack_mapInnermost, ← frames_eq_nil_iff, h]

/-- a statement that ends no block because it belongs to the class -/
theorem ite_unwindAll {s : Statement} {b : Nesting} (h : s.isTopLevel = true → b.frames = []) :
    (if s.isTopLevel then b.unwindAll else b) = b := by
  by_cases ht : s.isTopLevel = true
  · rw [if_pos ht, unwindAll_of_frames_eq_nil (h ht)]
  · rw [if_neg ht]

theorem push_line {s : Statement} {b : Nesting} (h : s.isTopLevel = true → b.frames = [])
    (ho : s.opens = none) (hc : s.closes = none) : b.push s = b.addAll [⟨s, [], none⟩] := by
  unfold push
  rw [ite_unwindAll h, hc, ho]
  rfl

theorem push_opening {s : Statement} {b : Nesting} {k : BlockKind}
    (h : s.isTopLevel = true → b.frames = []) (ho : s.opens = some k) (hc : s.closes = none) :
    b.push s = { b with frames := ⟨s, k, []⟩ :: b.frames } := by
  unfold push
  rw [ite_unwindAll h, hc, ho]

theorem push_end {s : Statement} {b : Nesting} {k : BlockKind} (ht : s.isTopLevel = false)
    (hc : s.closes = some k) :
    b.push s = if k.isOptional then b.closeDeclaration s k else b.close s k := by
  unfold push
  rw [ht, hc]
  rfl

theorem push_closing {s : Statement} {k : BlockKind} (opening : Statement) (children : List Node)
    (fs : List Frame) (top : List Node) (ht : s.isTopLevel = false) (hc : s.closes = some k)
    (hk : k.isOptional = false) :
    push s ⟨⟨opening, k, children⟩ :: fs, top⟩ =
      addAll [⟨{ opening with span := opening.span.cover s.span }, children, some s⟩] ⟨fs, top⟩ := by
  rw [push_end ht hc, hk, if_neg Bool.false_ne_true]
  -- the innermost block is the one that is closed, so nothing is unwound
  have hin : ((⟨opening, k, children⟩ :: fs : List Frame).takeWhile fun f => f.kind != k) = [] := by
    rw [List.takeWhile_cons_of_neg]
    rw [bne_self_eq_false]
    exact nofun
  simp only [close, hin, List.length_nil, List.length_cons]
  rw [if_neg (by omega)]
  rfl

theorem push_declaration_end {s : Statement} {k : BlockKind} {d : Directive} {b : Nesting}
    {before after : List Node} {declaration : Statement} (ht : s.isTopLevel = false)
    (hc : s.closes = some k) (hk : IsDeclaredBy k d) (hd : declaration.directive? = some d)
    (hb : b.innermost = before ++ ⟨declaration, [], none⟩ :: after)
    (hopen : ∀ n ∈ after, ¬(n.closing = none ∧ n.statement.directive? = some d)) :
    b.push s = b.mapInnermost fun _ => before ++
      [⟨{ declaration with opens := some k, span := declaration.span.cover s.span }, after,
        some s⟩] := by
  have hkd : k.isOptional = true ∧ declares k = d := by
    rcases hk with ⟨rfl, rfl⟩ | ⟨rfl, rfl⟩ <;> exact ⟨rfl, rfl⟩
  rw [push_end ht hc, if_pos hkd.1]
  have hfound : declaration? (declares k) b.containers = some (0, before.length) := by
    rw [containers_eq, hb, hkd.2, declaration?, findLastIdx?_append_cons]
    · rw [isOpenDeclaration, hd]
      simp
    · intro n hn
      have := hopen n hn
      simpa [isOpenDeclaration] using this
  simp only [closeDeclaration, hfound]
  show b.mapInnermost (claimAt k s before.length) = _
  apply mapInnermost_congr
  rw [hb, claimAt_append_cons]
  rfl

theorem frames_eq_nil_of_isTopLevel {inside : Bool} {s : Statement} {b : Nesting}
    (ht : inside = true → s.isTopLevel = false) (hb : inside = false → b.frames = [])
    (hs : s.isTopLevel = true) : b.frames = [] := by
  cases inside with
  | true =>
    rw [ht rfl] at hs
    cases hs
  | false => exact hb rfl

/-- **Well nested statements append their trees.**  Those in a block do so whatever is open around them;
the others need that nothing is open, since a statement of the class would end it. -/
theorem foldl_push_wellNested {inside : Bool} {ss : List Statement} {ns : List Node}
    (h : WellNested inside ss ns) :
    ∀ b : Nesting, (inside = false → b.frames = []) →
      ss.foldl (fun b s => b.push s) b = b.addAll ns := by
  induction h with
  | nil inside =>
    intro b _
    rw [List.foldl_nil, addAll_nil]
  | line ho hc ht rest ih =>
    rename_i inside s ss ns
    intro b hb
    have htop : s.isTopLevel = true → b.frames = [] := frames_eq_nil_of_isTopLevel ht hb
    rw [List.foldl_cons, push_line htop ho hc, ih _ fun hi => frames_addAll_eq_nil _ (hb hi),
      addAll_addAll]
    rfl
  | block hk ho hc ht hbody hco hcc hct rest ihbody ih =>
    rename_i inside k opening closing body ss children ns
    intro b hb
    have htop : opening.isTopLevel = true → b.frames = [] := frames_eq_nil_of_isTopLevel ht hb
    have hopt : k.isOptional = false := by
      cases k with
      | field => exact absurd rfl hk.1
      | param => exact absurd rfl hk.2
      | method | annot | subannot | arrayData | packedSwitch | sparseSwitch | valueArray => rfl
    rw [List.foldl_cons, push_opening htop ho hc, List.foldl_append, ihbody _ nofun, List.foldl_cons]
    -- the trees of the body are now the children of the frame that the opening line made
    show ss.foldl (fun b s => b.push s)
      (push closing ⟨⟨opening, k, [] ++ children⟩ :: b.frames, b.top⟩) = _
    rw [push_closing opening _ b.frames b.top hct hcc hopt,
      ih _ fun hi => frames_addAll_eq_nil _ (hb hi), addAll_addAll, List.nil_append]
    rfl
  | declared hk hd ho hc ht hbody hopen hcc hct rest ihbody ih =>
    rename_i inside k d declaration closing body ss children ns
    intro b hb
    have htop : declaration.isTopLevel = true → b.frames = [] := frames_eq_nil_of_isTopLevel ht hb
    rw [List.foldl_cons, push_line htop ho hc, List.foldl_append, ihbody _ nofun, addAll_addAll,
      List.foldl_cons]
    -- the declaration is the last one without an end, and the trees of the body follow it
    have hin : (b.addAll ([⟨declaration, [], none⟩] ++ children)).innermost
        = b.innermost ++ ⟨declaration, [], none⟩ :: children := innermost_mapInnermost _ _
    rw [push_declaration_end hct hcc hk hd hin hopen, addAll, mapInnermost_mapInnermost]
    have he : (b.mapInnermost fun _ => b.innermost ++
          [⟨{ declaration with opens := some k, span := declaration.span.cover closing.span }, children,
            some closing⟩])
        = b.addAll [⟨{ declaration with
            opens := some k, span := declaration.span.cover closing.span }, children, some closing⟩] :=
      mapInnermost_congr rfl
    rw [he, ih _ fun hi => frames_addAll_eq_nil _ (hb hi), addAll_addAll]
    rfl

/-- **Well nested lines give exactly their trees.** -/
theorem finish_wellNested {ss : List Statement} {ns : List Node} (h : WellNested false ss ns) :
    (ss.foldl (fun b s => b.push s) empty).finish = ⟨ns⟩ := by
  rw [foldl_push_wellNested h empty fun _ => rfl]
  rfl

/-! ## a class with an annotated field and a method -/

/-- line `number` of the sample, with its keyword and its block -/
def sampleLine (number : Nat) (keyword : String) (opens closes : Option BlockKind) : Statement :=
  { Statement.bare .entry [] (Span.onLine number 0 1) with keyword := some keyword.toList, opens, closes }

def sampleField : Statement := sampleLine 0 ".field" none none
def sampleAnnot (number : Nat) : Statement := sampleLine number ".annotation" (some .annot) none
def sampleEnd (number : Nat) (k : BlockKind) : Statement := sampleLine number ".end" none (some k)
def sampleMethod : Statement := sampleLine 4 ".method" (some .method) none
def sampleParam (number : Nat) : Statement := sampleLine number ".param" none none

/-- the lines of an annotated field and of a method whose second parameter has an end -/
def sampleLines : List Statement :=
  [sampleField, sampleAnnot 1, sampleEnd 2 .annot, sampleEnd 3 .field, sampleMethod, sampleParam 5,
    sampleParam 6, sampleEnd 7 .param, sampleEnd 8 .method]

/-- a statement that goes on up to a line -/
def upTo (number : Nat) (s : Statement) : Statement :=
  { s with span := ⟨s.span.start, ⟨number, 1⟩⟩ }

def sampleTrees : List Node :=
  [⟨{ upTo 3 sampleField with opens := some .field },
      [⟨upTo 2 (sampleAnnot 1), [], some (sampleEnd 2 .annot)⟩], some (sampleEnd 3 .field)⟩,
    ⟨upTo 8 sampleMethod,
      [⟨sampleParam 5, [], none⟩,
        ⟨{ upTo 7 (sampleParam 6) with opens := some .param }, [], some (sampleEnd 7 .param)⟩],
      some (sampleEnd 8 .method)⟩]

theorem finish_wellNested_sample :
    WellNested false sampleLines sampleTrees ∧
      (sampleLines.foldl (fun b s => b.push s) empty).finish = ⟨sampleTrees⟩ := by
  have hannot : WellNested true [sampleAnnot 1, sampleEnd 2 .annot]
      [⟨upTo 2 (sampleAnnot 1), [], some (sampleEnd 2 .annot)⟩] := by
    show WellNested true (sampleAnnot 1 :: ([] ++ [sampleEnd 2 .annot])) _
    exact .block (k := .annot) ⟨nofun, nofun⟩ rfl rfl (fun _ => by decide) (.nil _) rfl rfl (by decide) (.nil _)
  have hparam : WellNested true [sampleParam 6, sampleEnd 7 .param]
      [⟨{ upTo 7 (sampleParam 6) with opens := some .param }, [], some (sampleEnd 7 .param)⟩] := by
    show WellNested true (sampleParam 6 :: ([] ++ [sampleEnd 7 .param])) _
    exact .declared (.inr ⟨rfl, rfl⟩) (by decide) rfl rfl (fun _ => by decide) (.nil _) nofun rfl
      (by decide) (.nil _)
  have hmethod : WellNested false [sampleMethod, sampleParam 5, sampleParam 6, sampleEnd 7 .param,
      sampleEnd 8 .method] sampleTrees.tail := by
    show WellNested false (sampleMethod ::
      ([sampleParam 5, sampleParam 6, sampleEnd 7 .param] ++ [sampleEnd 8 .method])) _
    exact .block (k := .method) ⟨nofun, nofun⟩ rfl rfl nofun
      (.line rfl rfl (fun _ => by decide) hparam) rfl rfl (by decide) (.nil _)
  have h : WellNested false sampleLines sampleTrees := by
    show WellNested false (sampleField :: ([sampleAnnot 1, sampleEnd 2 .annot] ++
      sampleEnd 3 .field :: [sampleMethod, sampleParam 5, sampleParam 6, sampleEnd 7 .param,
        sampleEnd 8 .method])) _
    refine .declared (.inl ⟨rfl, rfl⟩) (by decide) rfl rfl nofun hannot ?_ rfl (by decide) hmethod
    intro n hn
    rw [List.mem_singleton.mp hn]
    exact nofun
  exact ⟨h, finish_wellNested h⟩

end Nesting
end Smali
