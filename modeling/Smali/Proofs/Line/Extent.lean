import Smali.Proofs.Descriptor
import Smali.Proofs.Line.Places
import Smali.Proofs.Position
import Smali.Proofs.Token.Layout

/-!
# Operands and the text they are read from

A reader takes tokens from the front of those that are left, and the place of its operand goes from the first
token that it took to the end of the last one, or, for a descriptor, to where its text ends.

* `OperandValue.WrittenAs`  a text that a value is written as;
* `Operand.AsWritten`     what stands at the place of an operand is its value, and the elements of an array are
                          so, one after the other inside the array;
* `Extent`                a line, with the places where its statement starts and ends;
* `Extent.Yields`         on given tokens of the line, a reader gives a value and leaves tokens as a condition
                          says, or fails with a diagnostic inside the statement; `Extent.Yields.bind` is the rule
                          from which the lemma of each reader follows its definition;
* `Extent.Spans`          a span around exactly the tokens that were taken;
* `Extent.Row`            operands one after the other, before the tokens that are left;
* `OperandKind.Fits`      a value that may stand at a place of a shape;
* `Extent.Gives`          an operand reader: its operand spans what it took, is as written, and fits.
-/

namespace Smali

/-! ## what stands at a place -/

/-- the span is on line `number`, whose text is `line`, and it cuts no character there -/
structure Span.Lies (line : Text) (number : Nat) (s : Span) : Prop where
  on : s.On number
  start : Text.isBoundary s.start.column line = true
  stop : Text.isBoundary s.stop.column line = true
  ordered : s.Ordered

/-- the text of a line at a span -/
def Span.slice (line : Text) (s : Span) : Text :=
  Text.slice s.start.column s.stop.column line

/-- whether a value is written as the text; of values that are made of several tokens nothing is said, and an
array is no single text -/
def OperandValue.WrittenAs : OperandValue → Text → Prop
  | .register r, t => Register.parse t = .ok r
  | .literal l, t => Literal.parse t = .ok l
  | .string s, t => t = '"' :: (s ++ ['"'])
  | .char s, t => t = '\'' :: (s ++ ['\''])
  | .label name, t => t = ':' :: name
  | .type v, t => t = v.render
  | .reference r, t => t = r.render
  | .prototype p, t => t = p.render
  | .member m, t => t = m.render
  | .identifier name, t => t = name
  | .array _, _ => False
  | _, _ => True

/-- What stands at the place of the operand is its value.  The elements of an array are as written, too, and lie
one after the other inside the array. -/
inductive Operand.AsWritten (line : Text) (number : Nat) : Operand → Prop
  | plain (o : Operand) (lies : o.span.Lies line number) (nonempty : o.span.start < o.span.stop)
      (text : o.value.WrittenAs (o.span.slice line)) : AsWritten line number o
  | array (elements : List Operand) (span : Span) (lies : span.Lies line number)
      (nonempty : span.start < span.stop) (each : ∀ e ∈ elements, AsWritten line number e)
      (inside : ∀ e ∈ elements, span.Covers e.span)
      (apart : elements.Pairwise fun a b => a.span.stop ≤ b.span.start) :
      AsWritten line number ⟨.array elements, span⟩

/-- `e` is the operand itself, or an element in it at any depth -/
inductive Operand.Part (o : Operand) : Operand → Prop
  | self : Part o o
  | element {elements : List Operand} {span : Span} {e : Operand} (h : Part o ⟨.array elements, span⟩)
      (he : e ∈ elements) : Part o e

/-- as `WrittenAs`, and the place of a constant of an enumeration ends with the text of its reference -/
def OperandValue.SpelledAs : OperandValue → Text → Prop
  | .enumValue r, t => r.WellFormed ∧ r.render <:+ t
  | v, t => v.WrittenAs t

/-- all constants of enumerations in the operand are spelled so -/
def Operand.Constants (line : Text) (o : Operand) : Prop :=
  ∀ e r, o.Part e → e.value = .enumValue r → r.WellFormed ∧ r.render <:+ e.span.slice line

theorem OperandValue.SpelledAs.writtenAs {v : OperandValue} {t : Text} (h : v.SpelledAs t) : v.WrittenAs t := by
  cases v with
  | enumValue r => trivial
  | _ => exact h

theorem Operand.Part.eq_self {o e : Operand} (h : o.Part e) (ho : ∀ elements, o.value ≠ .array elements) : e = o := by
  induction h with
  | self => rfl
  | element _ _ ih => exact absurd (congrArg Located.value ih.symm) (ho _)

theorem Operand.Part.of_array {elements : List Operand} {span : Span} {e : Operand}
    (h : Part ⟨.array elements, span⟩ e) : e = ⟨.array elements, span⟩ ∨ ∃ a ∈ elements, a.Part e := by
  induction h with
  | self => exact .inl rfl
  | element _ he ih =>
    rcases ih with heq | ⟨a, ha, hpart⟩
    · obtain rfl := OperandValue.array.inj (congrArg Located.value heq)
      exact .inr ⟨_, he, .self⟩
    · exact .inr ⟨a, ha, hpart.element he⟩

theorem OperandValue.SpelledAs.constants {line : Text} {v : OperandValue} {s : Span} (h : v.SpelledAs (s.slice line)) :
    Operand.Constants line ⟨v, s⟩ := by
  intro e r he hr
  have hv : ∀ elements, v ≠ .array elements := by
    rintro elements rfl
    exact h
  obtain rfl := he.eq_self hv
  obtain rfl : v = .enumValue r := hr
  exact h

theorem Operand.constants_array {line : Text} {elements : List Operand} (span : Span)
    (h : ∀ e ∈ elements, Operand.Constants line e) : Operand.Constants line ⟨.array elements, span⟩ := by
  intro e r he hr
  rcases he.of_array with rfl | ⟨a, ha, hpart⟩
  · cases hr
  · exact h a ha e r hpart hr

theorem Operand.AsWritten.lies {line : Text} {number : Nat} {o : Operand} (h : o.AsWritten line number) :
    o.span.Lies line number :=
  match h with
  | .plain _ hlies _ _ => hlies
  | .array _ _ hlies _ _ _ _ => hlies

theorem Span.On.le {n : Nat} {a b : Span} (ha : a.On n) (hb : b.On n) (h : a.stop.column ≤ b.start.column) :
    a.stop ≤ b.start :=
  .inr ⟨ha.2.trans hb.1.symm, h⟩

theorem Span.cover_onLine (n : Nat) {a b c d : Nat} (hstart : a ≤ c) (hstop : b ≤ d) :
    (onLine n a b).cover (onLine n c d) = onLine n a d := by
  have h1 : (⟨n, a⟩ : Position) ≤ ⟨n, c⟩ := .inr ⟨rfl, hstart⟩
  have h2 : (⟨n, b⟩ : Position) ≤ ⟨n, d⟩ := .inr ⟨rfl, hstop⟩
  rw [cover, onLine, onLine, Position.earlier, Position.later, if_pos h1, if_pos h2]
  rfl

theorem Text.dropBytes_suffix_of_le {a b : Nat} (h : a ≤ b) (t : Text) : dropBytes b t <:+ dropBytes a t := by
  induction t generalizing a b with
  | nil =>
    cases b with
    | zero =>
      obtain rfl := Nat.le_zero.mp h
      exact List.suffix_refl _
    | succ b => exact List.nil_suffix
  | cons c t ih =>
    cases a with
    | zero => exact ⟨takeBytes b (c :: t), takeBytes_append_dropBytes b (c :: t)⟩
    | succ a =>
      obtain ⟨b, rfl⟩ := Nat.exists_eq_succ_of_ne_zero (Nat.ne_of_gt (Nat.lt_of_lt_of_le (Nat.succ_pos a) h))
      rw [dropBytes, dropBytes]
      exact ih (Nat.sub_le_sub_right h _)

/-- a span that starts later and ends at the same place is an end of the text -/
theorem Span.slice_suffix (n : Nat) {a b c : Nat} (h : a ≤ b) (line : Text) :
    (onLine n b c).slice line <:+ (onLine n a c).slice line :=
  Text.dropBytes_suffix_of_le h _

/-- a token is between what is before it and what is after it on its line -/
theorem Token.CutFrom.exists_append {line : Text} {t : Token} (h : t.CutFrom line) :
    ∃ a b, line = a ++ (t.text ++ b) ∧ Text.size a = t.start := by
  have hcut := Text.takeBytes_append_dropBytes t.start (Text.takeBytes t.stop line)
  have hslice : Text.dropBytes t.start (Text.takeBytes t.stop line) = t.text := h.slice
  have hstop : Text.size (Text.takeBytes t.stop line) = t.start + Text.size t.text := beq_iff_eq.mp h.stop
  rw [hslice] at hcut
  refine ⟨Text.takeBytes t.start (Text.takeBytes t.stop line), Text.dropBytes t.stop line, ?_, ?_⟩
  · rw [← List.append_assoc, hcut, Text.takeBytes_append_dropBytes]
  · rw [← hcut, Text.size_append] at hstop
    omega

/-- the text of two tokens without a gap between them -/
theorem Token.CutFrom.slice_join {line : Text} {t u : Token} (ht : t.CutFrom line) (hu : u.CutFrom line)
    (hgap : t.stop = u.start) : Text.slice t.start u.stop line = t.text ++ u.text := by
  obtain ⟨a, b, hline, ha⟩ := ht.exists_append
  obtain ⟨a', b', hline', ha'⟩ := hu.exists_append
  have hbefore : a' = a ++ t.text := by
    have hsize : Text.size a' = Text.size (a ++ t.text) := by
      rw [ha', ← hgap, Token.stop, Text.size_append, ha]
      rfl
    have htake := Text.takeBytes_size a' (u.text ++ b')
    have htake' := Text.takeBytes_size (a ++ t.text) b
    rw [← hline'] at htake
    rw [List.append_assoc, ← hline] at htake'
    rw [← htake, hsize, htake']
  have hstop : u.stop = Text.size a + Text.size (t.text ++ u.text) := by
    rw [Token.stop, ← hgap, Token.stop, ha, Text.size_append]
    show t.start + Text.size t.text + Text.size u.text = _
    omega
  have hline'' : line = a ++ ((t.text ++ u.text) ++ b') := by
    rw [hline', hbefore, List.append_assoc, List.append_assoc]
  rw [hstop, ← ha, hline'']
  exact Text.slice_append a (t.text ++ u.text) b'

/-! ## the stretch of a statement -/

/-- a line, with the places where its statement starts and ends -/
structure Extent where
  line : Text
  number : Nat
  /-- where the first token starts -/
  first : Nat
  /-- the offset after the last token that is not a comment -/
  stop : Nat
  /-- the offset after the last token -/
  last : Nat
  first_le_stop : first ≤ stop
  stop_le_last : stop ≤ last
  isBoundary_stop : Text.isBoundary stop line = true
  /-- only blanks follow the last token -/
  solid : ∀ a c b, line = a ++ c :: b → isBlank c = false → Text.size (a ++ [c]) ≤ last

namespace Extent

variable (x : Extent)

/-- the cursor before some tokens of the line -/
abbrev cursor (ts : List Token) : Cursor :=
  ⟨x.line, x.number, ts, x.stop⟩

/-- the span lies in the statement -/
structure Has (s : Span) : Prop extends s.Lies x.line x.number where
  first_le : x.first ≤ s.start.column
  le_last : s.stop.column ≤ x.last

/-- Tokens of the statement, one after the other.  There may be text between them, but not before the name of a
label. -/
structure Laid (ts : List Token) : Prop extends Layout x.line x.number ts where
  names : ts.IsChain fun a b => b.kind = .label → a.stop = b.start
  first_le : ∀ t ∈ ts, x.first ≤ t.start
  le_stop : ∀ t ∈ ts, t.stop ≤ x.stop

/-- The span is around the tokens that were taken: it starts where the first one does, and ends where the last one
does or after, but before the tokens that are left. -/
def Spans (ts rest : List Token) (s : Span) : Prop :=
  ∃ t used stop, ts = t :: (used ++ rest) ∧ s = Span.onLine x.number t.start stop ∧
    (∀ u ∈ t :: used, u.stop ≤ stop) ∧ (∀ u ∈ rest, stop ≤ u.start) ∧ stop ≤ x.last ∧
    Text.isBoundary stop x.line = true

section
variable {x} {ts mid rest : List Token} {s : Span} {t : Token}

theorem has_onLine {a b : Nat} (ha : Text.isBoundary a x.line = true) (hb : Text.isBoundary b x.line = true)
    (hfirst : x.first ≤ a) (hle : a ≤ b) (hlast : b ≤ x.last) : x.Has (Span.onLine x.number a b) :=
  ⟨⟨⟨rfl, rfl⟩, ha, hb, .inr ⟨rfl, hle⟩⟩, hfirst, hlast⟩

theorem Laid.suffix (h : x.Laid ts) (hs : rest <:+ ts) : x.Laid rest :=
  ⟨h.toLayout.sublist hs.sublist, h.names.suffix hs, fun t ht => h.first_le t (hs.subset ht),
    fun t ht => h.le_stop t (hs.subset ht)⟩

theorem Laid.span_eq (h : x.Laid ts) (ht : t ∈ ts) : t.span = Span.onLine x.number t.start t.stop := by
  rw [Token.span, (h.sits t ht).line]

theorem Laid.has_span (h : x.Laid ts) (ht : t ∈ ts) : x.Has t.span := by
  obtain ⟨hstart, hstop, -⟩ := (h.sits t ht).cut
  have hlt := (h.sits t ht).start_lt_stop
  have hle := h.le_stop t ht
  rw [h.span_eq ht]
  exact has_onLine hstart hstop (h.first_le t ht) (Nat.le_of_lt hlt) (Nat.le_trans hle x.stop_le_last)

/-- the place of the next token, or after the last one, is in the statement -/
theorem Laid.has_here (h : x.Laid ts) : x.Has (x.cursor ts).here := by
  cases ts with
  | nil =>
    exact has_onLine x.isBoundary_stop x.isBoundary_stop x.first_le_stop (Nat.le_refl _) x.stop_le_last
  | cons t ts => exact h.has_span List.mem_cons_self

theorem Spans.suffix (h : x.Spans ts rest s) : rest <:+ ts := by
  obtain ⟨t, used, stop, rfl, -⟩ := h
  exact ⟨t :: used, rfl⟩

theorem Spans.has (h : x.Spans ts rest s) (hts : x.Laid ts) : x.Has s ∧ s.start < s.stop := by
  obtain ⟨t, used, stop, rfl, rfl, hused, -, hlast, hstop⟩ := h
  have ht := hts.sits t List.mem_cons_self
  have hlt := ht.start_lt_stop
  have hle := hused t List.mem_cons_self
  have hstart : t.start < stop := by omega
  exact ⟨has_onLine ht.cut.start hstop (hts.first_le t List.mem_cons_self) (Nat.le_of_lt hstart) hlast,
    .inr ⟨rfl, hstart⟩⟩

theorem spans_token (h : x.Laid (t :: ts)) : x.Spans (t :: ts) ts t.span := by
  refine ⟨t, [], t.stop, rfl, h.span_eq List.mem_cons_self, ?_, ?_, ?_, ?_⟩
  · intro u hu
    rw [List.mem_singleton.mp hu]
  · exact (List.pairwise_cons.mp h.order).1
  · exact Nat.le_trans (h.le_stop t List.mem_cons_self) x.stop_le_last
  · exact (h.sits t List.mem_cons_self).cut.stop

theorem Laid.slice_span (h : x.Laid ts) (ht : t ∈ ts) : t.span.slice x.line = t.text :=
  (h.sits t ht).cut.slice

/-- two spans with what is between them -/
theorem Spans.cover {ts' : List Token} {s' : Span} (hts : x.Laid ts) (h : x.Spans ts mid s) (hmid : ts' <:+ mid)
    (h' : x.Spans ts' rest s') : x.Spans ts rest (s.cover s') := by
  obtain ⟨t, used, stop, rfl, rfl, hused, hleft, -, -⟩ := h
  obtain ⟨between, rfl⟩ := hmid
  obtain ⟨u, used', stop', rfl, rfl, hused', hleft', hlast, hboundary⟩ := h'
  have hu := hleft u (List.mem_append_right between List.mem_cons_self)
  have hlt := (hts.sits t List.mem_cons_self).start_lt_stop
  have ht := hused t List.mem_cons_self
  have hlt' : u.start < u.stop :=
    (hts.sits u (by simp)).start_lt_stop
  have hu' := hused' u List.mem_cons_self
  refine ⟨t, used ++ (between ++ u :: used'), stop', ?_, ?_, ?_, hleft', hlast, hboundary⟩
  · simp only [List.append_assoc, List.cons_append]
  · rw [Span.cover_onLine]
    · omega
    · omega
  · -- a token between the two spans comes before the second one
    have horder : ∀ v ∈ t :: (used ++ between), v.stop ≤ u.start := by
      have hpair : ((t :: (used ++ between)) ++ u :: (used' ++ rest)).Pairwise fun a b => a.stop ≤ b.start := by
        have := hts.order
        simpa only [List.append_assoc, List.cons_append] using this
      exact fun v hv => (List.pairwise_append.mp hpair).2.2 v hv u List.mem_cons_self
    intro v hv
    rw [← List.append_assoc, ← List.cons_append] at hv
    rcases List.mem_append.mp hv with hv | hv
    · have := horder v hv
      omega
    · exact hused' v hv

end

/-! ## readers -/

section
variable {α β : Type}

/-- a value and tokens that are left, as `Q` says, or a diagnostic inside the statement -/
def Outcome (Q : α → List Token → Prop) : Except Diagnostic (α × Cursor) → Prop
  | .ok (a, c) => ∃ rest, c = x.cursor rest ∧ Q a rest
  | .error e => x.Has e.span

/-- on the tokens `ts`, the reader gives a value and leaves tokens as `Q` says, or fails with a diagnostic inside
the statement -/
def Yields (ts : List Token) (r : Reader α) (Q : α → List Token → Prop) : Prop :=
  x.Outcome Q (r (x.cursor ts))

variable {x} {ts : List Token} {Q : α → List Token → Prop}

namespace Yields

theorem pure {a : α} (h : Q a ts) : x.Yields ts (Pure.pure a) Q :=
  ⟨ts, rfl, h⟩

theorem get_bind {f : Cursor → Reader α} (h : x.Yields ts (f (x.cursor ts)) Q) :
    x.Yields ts (MonadState.get >>= f) Q :=
  h

theorem advance_bind {f : Unit → Reader α} (h : x.Yields ts.tail (f ()) Q) :
    x.Yields ts (Reader.advance >>= f) Q :=
  h

theorem bind {r : Reader β} {f : β → Reader α} {R : β → List Token → Prop} (hr : x.Yields ts r R)
    (hf : ∀ b rest, R b rest → x.Yields rest (f b) Q) : x.Yields ts (r >>= f) Q := by
  unfold Yields at hr
  show x.Outcome Q (Except.bind (r (x.cursor ts)) fun p => f p.1 p.2)
  cases hrun : r (x.cursor ts) with
  | error e =>
    rw [hrun] at hr
    exact hr
  | ok p =>
    rw [hrun] at hr
    obtain ⟨b, c⟩ := p
    obtain ⟨rest, rfl, hR⟩ := hr
    exact hf b rest hR

theorem mono {R : α → List Token → Prop} {r : Reader α} (hr : x.Yields ts r R)
    (h : ∀ a rest, R a rest → Q a rest) : x.Yields ts r Q := by
  unfold Yields at hr ⊢
  cases hrun : r (x.cursor ts) with
  | error e =>
    rw [hrun] at hr
    exact hr
  | ok p =>
    rw [hrun] at hr
    obtain ⟨rest, hc, hR⟩ := hr
    exact ⟨rest, hc, h _ _ hR⟩

theorem ite {c : Prop} [Decidable c] {r r' : Reader α} (hr : c → x.Yields ts r Q)
    (hr' : ¬c → x.Yields ts r' Q) : x.Yields ts (if c then r else r') Q := by
  split
  · rename_i h
    exact hr h
  · rename_i h
    exact hr' h

end Yields

theorem yields_fail (h : x.Laid ts) (p : Problem) : x.Yields ts (Reader.fail p) Q :=
  h.has_here

theorem yields_expected (h : x.Laid ts) (what : Text) : x.Yields ts (Reader.expected what) Q :=
  h.has_here

theorem yields_failAt {s : Span} (h : x.Has s) (p : Problem) : x.Yields ts (Reader.failAt s p) Q :=
  h

end

/-- the reader leaves an end of the tokens -/
def Passes {α : Type} (r : Reader α) : Prop :=
  ∀ ts, x.Laid ts → x.Yields ts r fun _ rest => rest <:+ ts

section
variable {x} {α : Type}

theorem passes_pure (a : α) : x.Passes (pure a : Reader α) :=
  fun ts _ => Yields.pure (List.suffix_refl ts)

theorem Passes.bind {β : Type} {r : Reader β} {f : β → Reader α} (hr : x.Passes r) (hf : ∀ b, x.Passes (f b)) :
    x.Passes (r >>= f) := by
  intro ts hts
  refine (hr ts hts).bind fun b rest hrest => ?_
  exact (hf b rest (hts.suffix hrest)).mono fun _ _ h => h.trans hrest

theorem passes_advance : x.Passes Reader.advance :=
  fun ts _ => ⟨ts.tail, rfl, List.tail_suffix ts⟩

theorem passes_atEnd : x.Passes Reader.atEnd :=
  fun ts _ => Yields.get_bind (Yields.pure (List.suffix_refl ts))

theorem passes_eat (text : Text) : x.Passes (Reader.eat text) := by
  intro ts hts
  refine Yields.get_bind (Yields.ite (fun _ => ?_) fun _ => passes_pure _ ts hts)
  exact passes_advance.bind (fun _ => passes_pure _) ts hts

theorem passes_eatWord (word : Text) : x.Passes (Reader.eatWord word) := by
  intro ts hts
  refine Yields.get_bind (Yields.ite (fun _ => ?_) fun _ => passes_pure _ ts hts)
  exact passes_advance.bind (fun _ => passes_pure _) ts hts

theorem passes_finish : x.Passes Reader.finish := by
  intro ts hts
  refine Yields.get_bind ?_
  cases ts with
  | nil => exact passes_pure _ [] hts
  | cons t ts => exact yields_fail hts _

/-- a delimiter that must come next is the next token -/
theorem yields_delimiter {ts : List Token} (hts : x.Laid ts) (text : Text) :
    x.Yields ts (Reader.delimiter text) fun s rest =>
      ∃ t, ts = t :: rest ∧ s = t.span ∧ t.isDelimiter text = true := by
  refine Yields.get_bind ?_
  cases ts with
  | nil => exact yields_expected hts _
  | cons t ts =>
    refine Yields.ite (fun ht => ?_) fun _ => yields_expected hts _
    exact Yields.advance_bind (Yields.pure ⟨t, rfl, rfl, ht⟩)

theorem passes_delimiter (text : Text) : x.Passes (Reader.delimiter text) := by
  intro ts hts
  refine (yields_delimiter hts text).mono ?_
  rintro _ rest ⟨t, rfl, -, -⟩
  exact List.suffix_cons t rest

end

/-! ## operands one after the other -/

/-- an operand that was read from `ts`, of which `rest` is left, with a value as `A` says -/
structure Reads (A : OperandValue → Prop) (ts : List Token) (o : Operand) (rest : List Token) : Prop where
  spans : x.Spans ts rest o.span
  written : o.AsWritten x.line x.number
  constants : o.Constants x.line
  value : A o.value

/-- Operands one after the other.  They start at tokens of `ts`, and `rest` is left after them. -/
structure Row (ts : List Token) (os : List Operand) (rest : List Token) : Prop where
  suffix : rest <:+ ts
  written : ∀ o ∈ os, o.AsWritten x.line x.number
  constants : ∀ o ∈ os, o.Constants x.line
  has : ∀ o ∈ os, x.Has o.span
  apart : os.Pairwise fun a b => a.span.stop ≤ b.span.start
  starts : ∀ o ∈ os, ∃ t ∈ ts, o.span.start.column = t.start
  stops : ∀ o ∈ os, ∀ t ∈ rest, o.span.stop.column ≤ t.start

section
variable {x} {A : OperandValue → Prop} {ts mid rest : List Token}

theorem reads_of_spans {v : OperandValue} {s : Span} (hts : x.Laid ts) (hs : x.Spans ts rest s)
    (hv : v.SpelledAs (s.slice x.line)) (hA : A v) : x.Reads A ts ⟨v, s⟩ rest := by
  obtain ⟨hhas, hlt⟩ := hs.has hts
  exact ⟨hs, .plain ⟨v, s⟩ hhas.toLies hlt hv.writtenAs, hv.constants, hA⟩

theorem Reads.mono {B : OperandValue → Prop} {o : Operand} (h : x.Reads A ts o rest) (hAB : ∀ v, A v → B v) :
    x.Reads B ts o rest :=
  ⟨h.spans, h.written, h.constants, hAB _ h.value⟩

theorem row_nil (ts : List Token) : x.Row ts [] ts :=
  ⟨List.suffix_refl ts, List.forall_mem_nil _, List.forall_mem_nil _, List.forall_mem_nil _, .nil,
    List.forall_mem_nil _, List.forall_mem_nil _⟩

/-- tokens that are passed over are before those that are left -/
theorem Row.pass {os : List Operand} (h : x.Row ts os mid) (hrest : rest <:+ mid) : x.Row ts os rest :=
  ⟨hrest.trans h.suffix, h.written, h.constants, h.has, h.apart, h.starts,
    fun o ho t ht => h.stops o ho t (hrest.subset ht)⟩

theorem Reads.row {o : Operand} (hts : x.Laid ts) (h : x.Reads A ts o rest) : x.Row ts [o] rest := by
  have hhas := (h.spans.has hts).1
  obtain ⟨t, used, stop, hcut, hspan, -, hleft, -, -⟩ := h.spans
  refine ⟨h.spans.suffix, ?_, ?_, ?_, List.pairwise_singleton _ _, ?_, ?_⟩
  · intro o' ho'
    rw [List.mem_singleton.mp ho']
    exact h.written
  · intro o' ho'
    rw [List.mem_singleton.mp ho']
    exact h.constants
  · intro o' ho'
    rw [List.mem_singleton.mp ho']
    exact hhas
  · intro o' ho'
    rw [List.mem_singleton.mp ho', hspan]
    exact ⟨t, by rw [hcut]; exact List.mem_cons_self, rfl⟩
  · intro o' ho'
    rw [List.mem_singleton.mp ho', hspan]
    exact hleft

theorem Row.append {os os' : List Operand} (h : x.Row ts os mid) (h' : x.Row mid os' rest) :
    x.Row ts (os ++ os') rest := by
  refine ⟨h'.suffix.trans h.suffix, ?_, ?_, ?_, List.pairwise_append.mpr ⟨h.apart, h'.apart, ?_⟩, ?_, ?_⟩
  · exact List.forall_mem_append.mpr ⟨h.written, h'.written⟩
  · exact List.forall_mem_append.mpr ⟨h.constants, h'.constants⟩
  · exact List.forall_mem_append.mpr ⟨h.has, h'.has⟩
  · intro a ha b hb
    obtain ⟨t, ht, hstart⟩ := h'.starts b hb
    refine (h.has a ha).on.le (h'.has b hb).on ?_
    rw [hstart]
    exact h.stops a ha t ht
  · refine List.forall_mem_append.mpr ⟨h.starts, fun o ho => ?_⟩
    obtain ⟨t, ht, hstart⟩ := h'.starts o ho
    exact ⟨t, h.suffix.subset ht, hstart⟩
  · exact List.forall_mem_append.mpr ⟨fun o ho t ht => h.stops o ho t (h'.suffix.subset ht), h'.stops⟩

end
end Extent

/-! ## plain operands -/

/-- whether a value may stand at a place of a shape; empty braces are the empty list of registers -/
def OperandKind.Fits : OperandKind → OperandValue → Prop
  | .register, .register _ => True
  | .registerList, .registerList _ => True
  | .registerRange, .registerRange _ => True
  | .registerRange, .registerList rs => rs = []
  | .literal, .literal _ => True
  | .string, .string _ => True
  | .type, .type _ => True
  | .field, .reference r => r.member.isField = true ∧ r.owner.isPrimitive = false
  | .method, .reference r => r.member.isField = false ∧ r.owner.isPrimitive = false
  | .label, .label _ => True
  | .index, .index _ _ => True
  | .proto, .prototype _ => True
  | _, _ => False

namespace Extent

variable (x : Extent)

/-- the reader reads an operand with a value as `A` says -/
def Gives (A : OperandValue → Prop) (r : Reader Operand) : Prop :=
  ∀ ts, x.Laid ts → x.Yields ts r (x.Reads A ts)

section
variable {x} {A B : OperandValue → Prop} {ts : List Token}

theorem Gives.mono {r : Reader Operand} (h : x.Gives A r) (hAB : ∀ v, A v → B v) : x.Gives B r :=
  fun ts hts => (h ts hts).mono fun _ _ hr => hr.mono hAB

theorem yields_bareRegister (hts : x.Laid ts) :
    x.Yields ts Reader.bareRegister fun p rest =>
      x.Spans ts rest p.2 ∧ Register.parse (p.2.slice x.line) = .ok p.1 := by
  refine Yields.get_bind ?_
  cases ts with
  | nil => exact yields_expected hts _
  | cons t ts =>
    refine Yields.ite (fun _ => ?_) fun _ => yields_expected hts _
    split
    · rename_i r hr
      refine Yields.advance_bind (Yields.pure ⟨spans_token hts, ?_⟩)
      rw [hts.slice_span List.mem_cons_self]
      exact hr
    · exact yields_fail hts _

theorem passes_bareRegister : x.Passes Reader.bareRegister :=
  fun _ hts => (yields_bareRegister hts).mono fun _ _ h => h.1.suffix

theorem gives_register : x.Gives OperandKind.register.Fits Reader.register := by
  intro ts hts
  refine (yields_bareRegister hts).bind fun p rest h => ?_
  exact Yields.pure (reads_of_spans hts h.1 h.2 trivial)

theorem passes_registers (n : Nat) : x.Passes (Reader.registers n) := by
  induction n with
  | zero => exact passes_pure _
  | succ n ih =>
    refine passes_bareRegister.bind fun _ => (passes_eat _).bind fun _ => ?_
    intro ts hts
    refine Yields.ite (fun _ => ?_) fun _ => passes_pure _ ts hts
    exact ih.bind (fun _ => passes_pure _) ts hts

/-- an operand in braces: whatever is read between them -/
theorem yields_closing {opening : Span} {mid ts' : List Token} {v : OperandValue} (hts : x.Laid ts)
    (hopening : x.Spans ts mid opening) (hmid : ts' <:+ mid) (hv : ∀ t, v.SpelledAs t) (hA : A v) :
    x.Yields ts' (do
      let closing ← Reader.delimiter "\x7d".toList
      return (⟨v, opening.cover closing⟩ : Operand)) (x.Reads A ts) := by
  have hts' : x.Laid ts' := hts.suffix (hmid.trans hopening.suffix)
  refine (yields_delimiter hts' _).bind ?_
  rintro closing rest ⟨t, rfl, rfl, -⟩
  exact Yields.pure (reads_of_spans hts (hopening.cover hts hmid (spans_token hts')) (hv _) hA)

/-- the opening brace, and then all that follows it -/
theorem yields_opening {α : Type} {f : Span → Reader α} {Q : α → List Token → Prop} (hts : x.Laid ts)
    (hf : ∀ opening mid, x.Spans ts mid opening → x.Yields mid (f opening) Q) :
    x.Yields ts (Reader.delimiter "\x7b".toList >>= f) Q := by
  refine (yields_delimiter hts _).bind ?_
  rintro opening mid ⟨t, rfl, rfl, -⟩
  exact hf _ _ (spans_token hts)

theorem gives_registerList : x.Gives OperandKind.registerList.Fits Reader.registerList := by
  intro ts hts
  refine yields_opening hts fun opening mid hopening => Yields.get_bind ?_
  refine Yields.ite (fun _ => ?_) fun _ => ?_
  · exact (passes_pure _ mid (hts.suffix hopening.suffix)).bind fun rs rest hrest =>
      yields_closing hts hopening hrest (fun _ => trivial) trivial
  · exact (passes_registers _ mid (hts.suffix hopening.suffix)).bind fun rs rest hrest =>
      yields_closing hts hopening hrest (fun _ => trivial) trivial

theorem gives_registerRange : x.Gives OperandKind.registerRange.Fits Reader.registerRange := by
  intro ts hts
  refine yields_opening hts fun opening mid hopening => Yields.get_bind ?_
  have hmid : x.Laid mid := hts.suffix hopening.suffix
  refine Yields.ite (fun _ => ?_) fun _ => ?_
  · exact yields_closing hts hopening (List.suffix_refl mid) (fun _ => trivial) rfl
  · refine (passes_bareRegister mid hmid).bind fun ⟨first, _⟩ rest hrest => ?_
    refine (passes_eat _ rest (hmid.suffix hrest)).bind fun dots rest' hrest' => ?_
    have hmid' : x.Laid rest' := hmid.suffix (hrest'.trans hrest)
    refine Yields.ite (fun _ => ?_) fun _ => ?_
    · refine (passes_bareRegister.bind (fun _ => passes_pure _) rest' hmid').bind fun last rest'' hlast => ?_
      exact yields_closing hts hopening (hlast.trans (hrest'.trans hrest)) (fun _ => trivial) trivial
    · refine (passes_pure _ rest' hmid').bind fun last rest'' hlast => ?_
      exact yields_closing hts hopening (hlast.trans (hrest'.trans hrest)) (fun _ => trivial) trivial

theorem yields_bareLiteral (hts : x.Laid ts) :
    x.Yields ts Reader.bareLiteral fun p rest =>
      x.Spans ts rest p.2 ∧ Literal.parse (p.2.slice x.line) = .ok p.1 := by
  refine Yields.get_bind ?_
  cases ts with
  | nil => exact yields_expected hts _
  | cons t ts =>
    refine Yields.ite (fun _ => ?_) fun _ => yields_expected hts _
    split
    · rename_i l hl
      refine Yields.advance_bind (Yields.pure ⟨spans_token hts, ?_⟩)
      rw [hts.slice_span List.mem_cons_self]
      exact hl
    · exact yields_fail hts _

theorem gives_literal : x.Gives OperandKind.literal.Fits Reader.literal := by
  intro ts hts
  refine (yields_bareLiteral hts).bind fun p rest h => ?_
  exact Yields.pure (reads_of_spans hts h.1 h.2 trivial)

/-- the text of a string without its quotes -/
theorem inner_quoted (q : Char) (s : Text) : Text.inner (q :: (s ++ [q])) = s :=
  List.dropLast_concat

/-- a token that is taken for a value that it is written as -/
theorem yields_single {v : OperandValue} {t : Token} (hts : x.Laid (t :: ts)) (hv : v.SpelledAs t.text) (hA : A v) :
    x.Yields (t :: ts) (Reader.single v) (x.Reads A (t :: ts)) := by
  refine Yields.get_bind (Yields.advance_bind (Yields.pure (reads_of_spans hts (spans_token hts) ?_ hA)))
  show v.SpelledAs (t.span.slice x.line)
  rw [hts.slice_span List.mem_cons_self]
  exact hv

theorem gives_string : x.Gives OperandKind.string.Fits Reader.string := by
  intro ts hts
  refine Yields.get_bind ?_
  cases ts with
  | nil => exact yields_expected hts _
  | cons t ts =>
    refine Yields.ite (fun ht => ?_) fun _ => yields_expected hts _
    obtain ⟨hk, hhead⟩ := Bool.and_eq_true_iff.mp ht
    obtain ⟨q, s, htext⟩ := (hts.sits t List.mem_cons_self).quoted (beq_iff_eq.mp hk)
    rw [htext] at hhead
    obtain rfl := Option.some.inj (beq_iff_eq.mp hhead)
    refine Yields.advance_bind (Yields.pure (reads_of_spans hts (spans_token hts) ?_ trivial))
    show t.span.slice x.line = '"' :: (Text.inner t.text ++ ['"'])
    rw [hts.slice_span List.mem_cons_self, htext, inner_quoted]

/-! ## labels and indices -/

theorem yields_bareLabel (hts : x.Laid ts) :
    x.Yields ts Reader.bareLabel fun p rest => x.Spans ts rest p.2 ∧ p.2.slice x.line = ':' :: p.1 := by
  refine Yields.get_bind ?_
  match ts with
  | [] => exact yields_expected hts _
  | [_] => exact yields_expected hts _
  | colon :: name :: ts =>
    refine Yields.ite (fun h => ?_) fun _ => yields_expected hts _
    obtain ⟨hcolon, hname⟩ := Bool.and_eq_true_iff.mp h
    have hgap : colon.stop = name.start :=
      (List.isChain_cons.mp hts.names).1 name rfl (beq_iff_eq.mp hname)
    have hts' : x.Laid (name :: ts) := hts.suffix (List.suffix_cons _ _)
    have hspans := (spans_token hts).cover hts (List.suffix_refl _) (spans_token hts')
    refine Yields.advance_bind (Yields.advance_bind (Yields.pure ⟨hspans, ?_⟩))
    have hlt := (hts.sits colon List.mem_cons_self).start_lt_stop
    have hlt' := (hts'.sits name List.mem_cons_self).start_lt_stop
    have hjoin := (hts.sits colon List.mem_cons_self).cut.slice_join (hts'.sits name List.mem_cons_self).cut hgap
    show (colon.span.cover name.span).slice x.line = ':' :: name.text
    rw [hts.span_eq List.mem_cons_self, hts'.span_eq List.mem_cons_self,
      Span.cover_onLine _ (by omega) (by omega)]
    show Text.slice colon.start name.stop x.line = _
    rw [hjoin, beq_iff_eq.mp (Bool.and_eq_true_iff.mp hcolon).2]
    rfl

theorem gives_label : x.Gives OperandKind.label.Fits Reader.label := by
  intro ts hts
  refine (yields_bareLabel hts).bind fun p rest h => ?_
  exact Yields.pure (reads_of_spans hts h.1 h.2 trivial)

theorem passes_bareLabel : x.Passes Reader.bareLabel :=
  fun _ hts => (yields_bareLabel hts).mono fun _ _ h => h.1.suffix

theorem gives_labelRange : x.Gives (fun _ => True) Reader.labelRange := by
  intro ts hts
  refine yields_opening hts fun opening mid hopening => ?_
  have hmid : x.Laid mid := hts.suffix hopening.suffix
  refine (passes_bareLabel mid hmid).bind fun ⟨first, _⟩ r1 h1 => ?_
  refine (passes_delimiter _ r1 (hmid.suffix h1)).bind fun _ r2 h2 => ?_
  refine (passes_bareLabel r2 (hmid.suffix (h2.trans h1))).bind fun ⟨last, _⟩ r3 h3 => ?_
  exact yields_closing hts hopening (h3.trans (h2.trans h1)) (fun _ => trivial) trivial

theorem gives_index : x.Gives OperandKind.index.Fits Reader.index := by
  intro ts hts
  refine Yields.get_bind ?_
  match ts with
  | [] => exact yields_expected hts _
  | [_] => exact yields_expected hts _
  | kind :: at_ :: ts =>
    refine Yields.ite (fun _ => ?_) fun _ => yields_expected hts _
    have hts' : x.Laid ts := hts.suffix ⟨[kind, at_], rfl⟩
    refine Yields.advance_bind (Yields.advance_bind ?_)
    refine (yields_bareLiteral hts').bind fun ⟨l, span⟩ rest h => ?_
    have hspans : x.Spans (kind :: at_ :: ts) rest (kind.span.cover span) :=
      (spans_token hts).cover hts (List.suffix_cons at_ ts) h.1
    dsimp only
    split
    · exact Yields.pure (reads_of_spans hts hspans trivial trivial)
    · exact yields_failAt (h.1.has hts').1 _

end
end Extent

/-! ## descriptors -/

/-- the text has a last character, and that is no blank -/
def Text.EndsSolid (t : Text) : Prop :=
  ∃ s c, t = s ++ [c] ∧ isBlank c = false

theorem Text.EndsSolid.append {t : Text} (h : t.EndsSolid) (r : Text) : (r ++ t).EndsSolid := by
  obtain ⟨s, c, rfl, hc⟩ := h
  exact ⟨r ++ s, c, (List.append_assoc r s [c]).symm, hc⟩

theorem TypeDescriptor.endsSolid_render (v : TypeDescriptor) : v.render.EndsSolid := by
  refine Text.EndsSolid.append ?_ _
  cases v.base with
  | primitive p => exact ⟨[], p.letter, rfl, by cases p <;> decide⟩
  | object path => exact ⟨'L' :: path.path, ';', rfl, by decide⟩

theorem Prototype.endsSolid_render (p : Prototype) : p.render.EndsSolid :=
  (p.returnType.endsSolid_render.append [')']).append ('(' :: (p.parameters.map TypeDescriptor.render).flatten)

theorem Member.endsSolid_render (m : Member) : m.render.EndsSolid := by
  cases m with
  | field name type => exact (type.endsSolid_render.append [':']).append name
  | method m => exact m.prototype.endsSolid_render.append m.name

theorem Reference.endsSolid_render (r : Reference) : r.render.EndsSolid :=
  r.member.endsSolid_render.append _

/-- what is read has a text as `P` says, and that text does not end in a blank -/
def Spelling {α : Type} (read? : Text → Option (α × Text)) (P : α → Text → Prop) : Prop :=
  ∀ t v rest, read? t = some (v, rest) → ∃ s, t = s ++ rest ∧ s.EndsSolid ∧ P v s

theorem Exact.spelling {α : Type} {read? : Text → Option (α × Text)} {render : α → Text} {W : α → Prop}
    (h : Exact read? render W) (hsolid : ∀ v, (render v).EndsSolid) :
    Spelling read? fun v s => W v ∧ s = render v := by
  intro t v rest hread
  obtain ⟨hv, ht⟩ := h.sound hread
  exact ⟨render v, ht, hsolid v, hv, rfl⟩

theorem spelling_type : Spelling TypeDescriptor.read? fun v s => v.WellFormed ∧ s = v.render :=
  TypeDescriptor.exact_read?.spelling TypeDescriptor.endsSolid_render

theorem spelling_reference : Spelling Reference.read? fun v s => v.WellFormed ∧ s = v.render :=
  Reference.exact_read?.spelling Reference.endsSolid_render

theorem spelling_referenceOrType : Spelling Reader.readReferenceOrType OperandValue.SpelledAs := by
  intro t v rest h
  unfold Reader.readReferenceOrType at h
  split at h
  · rename_i r rest' hr
    obtain ⟨rfl, rfl⟩ := Prod.mk.inj (Option.some.inj h)
    obtain ⟨s, ht, hs, -, hsr⟩ := spelling_reference t r rest' hr
    exact ⟨s, ht, hs, hsr⟩
  · obtain ⟨⟨type, rest'⟩, hr, he⟩ := Option.map_eq_some_iff.mp h
    obtain ⟨rfl, rfl⟩ := Prod.mk.inj he
    obtain ⟨s, ht, hs, -, hsr⟩ := spelling_type t type rest' hr
    exact ⟨s, ht, hs, hsr⟩

namespace Extent

section
variable {x : Extent} {ts rest : List Token}

/-- the tokens that are passed over stop before `stop`, and the others start after it -/
theorem exists_of_passTo {stop : Nat} (hts : x.Laid ts) (h : Reader.passTo stop ts = .ok rest) :
    ∃ used, ts = used ++ rest ∧ (∀ t ∈ used, t.stop ≤ stop) ∧ ∀ t ∈ rest, stop ≤ t.start := by
  induction ts with
  | nil =>
    obtain rfl := Except.ok.inj h
    exact ⟨[], rfl, List.forall_mem_nil _, List.forall_mem_nil _⟩
  | cons t ts ih =>
    rw [Reader.passTo] at h
    split at h
    · rename_i hstart
      obtain rfl := Except.ok.inj h
      refine ⟨[], rfl, List.forall_mem_nil _, fun u hu => ?_⟩
      exact Nat.le_trans hstart (hts.toLayout.start_le rfl hu)
    · split at h
      · cases h
      · rename_i hstop
        obtain ⟨used, hcut, hused, hrest⟩ := ih (hts.suffix (List.suffix_cons t ts)) h
        exact ⟨t :: used, by rw [hcut]; rfl, List.forall_mem_cons.mpr ⟨by omega, hused⟩, hrest⟩

theorem mem_of_passTo_error {stop : Nat} {t : Token} (h : Reader.passTo stop ts = .error t) : t ∈ ts := by
  induction ts with
  | nil => cases h
  | cons u ts ih =>
    rw [Reader.passTo] at h
    split at h
    · cases h
    · split at h
      · obtain rfl := Except.error.inj h
        exact List.mem_cons_self
      · exact List.mem_cons_of_mem u (ih h)

/-- a text that is read from a token on, and does not end in a blank, ends in the statement -/
theorem Laid.stop_of_endsSolid {t : Token} {s r : Text} (hts : x.Laid ts) (ht : t ∈ ts)
    (htext : Text.dropBytes t.start x.line = s ++ r) (hs : s.EndsSolid) :
    Text.size x.line - Text.size r = t.start + Text.size s ∧ t.start < t.start + Text.size s ∧
      t.start + Text.size s ≤ x.last ∧ Text.isBoundary (t.start + Text.size s) x.line = true ∧
      Text.slice t.start (t.start + Text.size s) x.line = s := by
  obtain ⟨a, hline, ha⟩ : ∃ a, x.line = a ++ (s ++ r) ∧ Text.size a = t.start := by
    refine ⟨Text.takeBytes t.start x.line, ?_, beq_iff_eq.mp (hts.sits t ht).cut.start⟩
    rw [← htext, Text.takeBytes_append_dropBytes]
  obtain ⟨s', c, rfl, hc⟩ := hs
  have hsize : Text.size (a ++ (s' ++ [c])) = t.start + Text.size (s' ++ [c]) := by
    rw [Text.size_append, ha]
  have hpos := Text.size_pos (List.append_ne_nil_of_right_ne_nil s' (List.cons_ne_nil c []))
  refine ⟨?_, Nat.lt_add_of_pos_right hpos, ?_, ?_, ?_⟩
  · rw [hline, ← List.append_assoc, Text.size_append, hsize]
    omega
  · rw [← hsize, ← List.append_assoc]
    refine x.solid (a ++ s') c r ?_ hc
    rw [hline]
    simp only [List.append_assoc, List.cons_append, List.nil_append]
  · rw [← hsize, hline, ← List.append_assoc a (s' ++ [c]) r]
    exact Text.isBoundary_size (a ++ (s' ++ [c])) r
  · rw [← ha, hline]
    exact Text.slice_append a (s' ++ [c]) r

/-- **A descriptor is the text at its span,** and its span goes over whole tokens. -/
theorem yields_descriptor {α : Type} {read? : Text → Option (α × Text)} {P : α → Text → Prop}
    (hspelling : Spelling read? P) (hts : x.Laid ts) (what : Text) :
    x.Yields ts (Reader.descriptor what read?) fun p rest => x.Spans ts rest p.2 ∧ P p.1 (p.2.slice x.line) := by
  unfold Yields Reader.descriptor
  cases ts with
  | nil => exact hts.has_here
  | cons t ts =>
    dsimp only
    cases hread : read? (Text.dropBytes t.start x.line) with
    | none => exact hts.has_here
    | some p =>
      obtain ⟨v, r⟩ := p
      obtain ⟨s, htext, hsolid, hP⟩ := hspelling _ _ _ hread
      obtain ⟨hstop, hlt, hlast, hboundary, hslice⟩ := hts.stop_of_endsSolid List.mem_cons_self htext hsolid
      dsimp only
      rw [hstop]
      cases hpass : Reader.passTo (t.start + Text.size s) (t :: ts) with
      | error u =>
        have hu := mem_of_passTo_error hpass
        have hmem : t ∈ t :: ts := List.mem_cons_self
        have hle := hts.toLayout.start_le rfl hu
        have hults := (hts.sits u hu).start_lt_stop
        have hustop := Nat.le_trans (hts.le_stop u hu) x.stop_le_last
        exact has_onLine (hts.sits t hmem).cut.start (hts.sits u hu).cut.stop (hts.first_le t hmem) (by omega)
          hustop
      | ok rest =>
        refine ⟨rest, rfl, ?_, ?_⟩
        · obtain ⟨used, hcut, hused, hrest⟩ := exists_of_passTo hts hpass
          cases used with
          | nil =>
            -- the descriptor is not empty, so its first token is passed over
            have := hrest t (by rw [← show t :: ts = rest from hcut]; exact List.mem_cons_self)
            omega
          | cons u used =>
            obtain ⟨rfl, rfl⟩ := List.cons.inj hcut
            exact ⟨t, used, _, rfl, rfl, hused, hrest, hlast, hboundary⟩
        · show P v (Text.slice t.start (t.start + Text.size s) x.line)
          rw [hslice]
          exact hP

end
end Extent
end Smali
