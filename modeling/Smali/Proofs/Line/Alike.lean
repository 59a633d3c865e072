import Smali.Proofs.Descriptor.Comment
import Smali.Proofs.Line.Places
import Smali.Proofs.Token.Comment

/-!
# Readers with and without a comment

The tokens before a comment are the same without it, and readers go by the tokens.  Only a descriptor is read
from the text of the line, and it goes on into the comment where a class path does.  Up to such a descriptor
the runs with and without the comment are the same.  There, the run without it fails, or it stops before the
arrow of a reference and fails later, and the run with it has no token left.

* `Commented`            a line with a comment;
* `Commented.Spells`     the tokens of an end of the part before the comment;
* `Cursor.Fits k`        a cursor on the line without the comment; `Cursor.extend k` puts it on the line with it;
* `Reader.Twin`          how the two runs of a reader compare;
* `Reader.Alike k S A r`   so they do for `r` on every cursor, where `S` says how the run without the comment ends
                         when the two part;
* `Reader.Alike.bind`, `Reader.Alike.bind_settles`  the rules for readers that run one after the other, from which
                         the lemma of each reader follows its definition.
-/

namespace Smali

theorem Text.dropBytes_append_of_le {n : Nat} {t : Text} (h : n ≤ size t) (r : Text) :
    dropBytes n (t ++ r) = dropBytes n t ++ r := by
  induction t generalizing n with
  | nil =>
    obtain rfl : n = 0 := Nat.le_zero.mp h
    rw [dropBytes, dropBytes]
  | cons c t ih =>
    cases n with
    | zero => rfl
    | succ n =>
      rw [List.cons_append, dropBytes, dropBytes]
      apply ih
      rw [size_cons] at h
      omega

theorem Text.dropBytes_suffix (n : Nat) (t : Text) : dropBytes n t <:+ t :=
  ⟨takeBytes n t, takeBytes_append_dropBytes n t⟩

theorem Text.size_dropBytes {n : Nat} {t : Text} (h : n ≤ size t) : size (dropBytes n t) + n ≤ size t := by
  induction t generalizing n with
  | nil =>
    obtain rfl : n = 0 := Nat.le_zero.mp h
    exact Nat.le_refl _
  | cons c t ih =>
    cases n with
    | zero => exact Nat.le_refl _
    | succ n =>
      rw [dropBytes]
      rw [size_cons] at h ⊢
      have := ih (n := n + 1 - c.utf8Size) (by omega)
      omega

/-- a line with a comment: what stands before it, and the comment, which may have blanks before it -/
structure Commented where
  before : Text
  trailer : Trailer
  number : Nat

namespace Commented

def comment (k : Commented) : Text :=
  k.trailer.text

/-- the place where the comment starts -/
def edge (k : Commented) : Position :=
  ⟨k.number, Text.size k.before⟩

/-- a class path runs into the comment -/
def Overrun (k : Commented) : Prop :=
  ClassPath.Across k.before k.comment

/-- the tokens of the text `y` at the end of the part before the comment, with blanks between them -/
inductive Spells (k : Commented) : Text → List Token → Prop
  | nil : Spells k [] []
  | blank {c : Char} {y : Text} {ts : List Token} (hc : isBlank c = true) (h : Spells k y ts) :
    Spells k (c :: y) ts
  | token {t : Token} {y : Text} {ts : List Token} (hne : t.text ≠ []) (hline : t.line = k.number)
    (hstart : t.start + Text.size (t.text ++ y) = Text.size k.before) (h : Spells k y ts) :
    Spells k (t.text ++ y) (t :: ts)

end Commented

/-- the span ends where the comment starts, or before -/
def Span.ClearOf (k : Commented) (s : Span) : Prop :=
  s.stop ≤ k.edge

/-- the diagnostic points at some text before the comment -/
structure Diagnostic.PointsBefore (k : Commented) (e : Diagnostic) : Prop where
  nonempty : e.span.start < e.span.stop
  clear : e.span.ClearOf k

variable {k : Commented}

theorem Span.clearOf_onLine {start stop : Nat} (h : stop ≤ Text.size k.before) :
    (onLine k.number start stop).ClearOf k :=
  .inr ⟨rfl, h⟩

theorem Span.not_clearOf_onLine {start stop : Nat} (h : Text.size k.before < stop) :
    ¬(onLine k.number start stop).ClearOf k := by
  rintro (hlt | ⟨-, hle⟩)
  · exact Nat.lt_irrefl _ hlt
  · exact Nat.not_lt.mpr hle h

theorem Span.ClearOf.cover {a b : Span} (ha : a.ClearOf k) (hb : b.ClearOf k) : (a.cover b).ClearOf k := by
  show Position.later a.stop b.stop ≤ k.edge
  unfold Position.later
  split
  · exact hb
  · exact ha

theorem Diagnostic.not_pointsBefore_of_empty {e : Diagnostic} (h : e.span.start = e.span.stop) :
    ¬e.PointsBefore k := by
  rintro ⟨hlt, -⟩
  rw [h] at hlt
  rcases hlt with hlt | ⟨-, hlt⟩ <;> exact Nat.lt_irrefl _ hlt

namespace Commented

theorem Spells.blanks {w y : Text} {ts : List Token} (hw : ∀ c ∈ w, isBlank c = true) (h : k.Spells y ts) :
    k.Spells (w ++ y) ts := by
  induction w with
  | nil => exact h
  | cons c w ih =>
    obtain ⟨hc, hw⟩ := List.forall_mem_cons.mp hw
    exact .blank hc (ih hw)

theorem Spells.of_mem {y : Text} {ts : List Token} (h : k.Spells y ts) {t : Token} (ht : t ∈ ts) :
    t.line = k.number ∧ t.start < t.stop ∧ t.stop ≤ Text.size k.before := by
  induction h with
  | nil => cases ht
  | blank hc h ih => exact ih ht
  | @token u y ts hne hline hstart h ih =>
    rcases List.mem_cons.mp ht with rfl | ht
    · have hpos := Text.size_pos hne
      rw [Text.size_append] at hstart
      refine ⟨hline, ?_, ?_⟩
      · show t.start < t.start + Text.size t.text
        omega
      · show t.start + Text.size t.text ≤ _
        omega
    · exact ih ht

theorem Spells.of_suffix {y : Text} {ts us : List Token} (h : k.Spells y ts) (hs : us <:+ ts) :
    ∃ z, z <:+ y ∧ k.Spells z us := by
  induction h with
  | nil =>
    obtain rfl := List.suffix_nil.mp hs
    exact ⟨[], List.suffix_refl _, .nil⟩
  | blank hc h ih =>
    obtain ⟨z, hz, hsp⟩ := ih hs
    exact ⟨z, hz.trans (List.suffix_cons _ _), hsp⟩
  | token hne hline hstart h ih =>
    rcases List.suffix_cons_iff.mp hs with rfl | hs
    · exact ⟨_, List.suffix_refl _, .token hne hline hstart h⟩
    · obtain ⟨z, hz, hsp⟩ := ih hs
      exact ⟨z, hz.trans (List.suffix_append _ _), hsp⟩

/-- what the tokens spell starts with the first of them -/
theorem Spells.dropBytes_suffix {y : Text} {t : Token} {ts : List Token} (h : k.Spells y (t :: ts))
    (hy : y <:+ k.before) : Text.dropBytes t.start k.before <:+ y := by
  generalize hts : t :: ts = us at h
  induction h with
  | nil => cases hts
  | blank hc h ih => exact (ih ((List.suffix_cons _ _).trans hy) hts).trans (List.suffix_cons _ _)
  | @token u y us hne hline hstart h ih =>
    obtain ⟨rfl, rfl⟩ := List.cons.inj hts
    obtain ⟨w, hw⟩ := hy
    have hsize : t.start = Text.size w := by
      rw [← hw, Text.size_append w] at hstart
      omega
    refine ⟨[], ?_⟩
    rw [List.nil_append, hsize, ← hw, Text.dropBytes_size]

/-- passing over the tokens up to a hyphen, a token that starts with the hyphen is next -/
theorem Spells.passTo_hyphen {y s : Text} {ts : List Token} (h : k.Spells y ts) (hs : '-' :: s <:+ y)
    {us : List Token} (hpass : Reader.passTo (Text.size k.before - Text.size ('-' :: s)) ts = .ok us) :
    ∃ t vs, us = t :: vs ∧ t ∈ ts ∧ t.text.head? = some '-' := by
  induction h with
  | nil => cases List.suffix_nil.mp hs
  | @blank c y ts hc h ih =>
    rcases List.suffix_cons_iff.mp hs with heq | hs
    · obtain ⟨rfl, -⟩ := List.cons.inj heq
      cases hc
    · exact ih hs hpass
  | @token t y ts hne hline hstart h ih =>
    rw [Text.size_append] at hstart
    have hpos := Text.size_pos hne
    rw [Reader.passTo] at hpass
    by_cases hy : '-' :: s <:+ y
    · -- the hyphen comes after the token, which is passed over
      have hle : Text.size ('-' :: s) ≤ Text.size y := by
        obtain ⟨w, rfl⟩ := hy
        rw [Text.size_append]
        omega
      have hstop : t.stop = t.start + Text.size t.text := rfl
      rw [if_neg (by omega), if_neg (by omega)] at hpass
      obtain ⟨u, vs, rfl, hu, hhead⟩ := ih hy hpass
      exact ⟨u, vs, rfl, List.mem_cons_of_mem _ hu, hhead⟩
    · obtain ⟨w, hw⟩ := hs
      rcases List.append_eq_append_iff.mp hw with ⟨a, htext, hrest⟩ | ⟨a, -, hrest⟩
      · have hsize : Text.size ('-' :: s) = Text.size a + Text.size y := by
          rw [hrest, Text.size_append]
        have htsize : Text.size t.text = Text.size w + Text.size a := by
          rw [htext, Text.size_append]
        have ha : a ≠ [] := by
          rintro rfl
          exact hy ⟨[], hrest⟩
        have hapos := Text.size_pos ha
        cases w with
        | nil =>
          rw [Text.size_nil] at htsize
          rw [if_pos (by omega)] at hpass
          refine ⟨t, ts, (Except.ok.inj hpass).symm, List.mem_cons_self, ?_⟩
          rw [htext, List.nil_append]
          cases a with
          | nil => exact absurd rfl ha
          | cons c a =>
            obtain ⟨rfl, -⟩ := List.cons.inj hrest
            rfl
        | cons c w =>
          -- the hyphen is inside the token
          have hwpos := Text.size_pos (List.cons_ne_nil c w)
          have hstop : t.stop = t.start + Text.size t.text := rfl
          rw [if_neg (by omega), if_pos (by omega)] at hpass
          cases hpass
      · exact absurd ⟨a, hrest.symm⟩ hy

end Commented

/-! ## cursors on the two lines -/

namespace Cursor

/-- the same place on the line with the comment -/
def extend (k : Commented) (c : Cursor) : Cursor :=
  { c with line := c.line ++ k.comment }

/-- the cursor is on the line without the comment -/
structure Fits (k : Commented) (c : Cursor) : Prop where
  line : c.line = k.before
  number : c.number = k.number
  stop : c.stop ≤ Text.size k.before
  tokens : ∃ y, y <:+ k.before ∧ k.Spells y c.tokens

/-- a token that starts with a hyphen is next -/
def AtHyphen (k : Commented) (c : Cursor) : Prop :=
  ∃ t ts, c.tokens = t :: ts ∧ t.text.head? = some '-' ∧ t.start < t.stop ∧ t.span.ClearOf k

variable {c : Cursor}

theorem Fits.of_mem (hc : c.Fits k) {t : Token} (ht : t ∈ c.tokens) : t.start < t.stop ∧ t.span.ClearOf k := by
  obtain ⟨y, -, hy⟩ := hc.tokens
  obtain ⟨hline, hlt, hstop⟩ := hy.of_mem ht
  refine ⟨hlt, ?_⟩
  rw [Token.span, hline]
  exact Span.clearOf_onLine hstop

theorem Fits.head (hc : c.Fits k) {t : Token} {ts : List Token} (ht : c.tokens = t :: ts) :
    t.start < t.stop ∧ t.span.ClearOf k :=
  hc.of_mem (by rw [ht]; exact List.mem_cons_self)

theorem Fits.pass (hc : c.Fits k) {tokens : List Token} (h : tokens <:+ c.tokens) : Fits k { c with tokens } := by
  obtain ⟨y, hy, hsp⟩ := hc.tokens
  obtain ⟨z, hz, hsp⟩ := hsp.of_suffix h
  exact ⟨hc.line, hc.number, hc.stop, z, hz.trans hy, hsp⟩

theorem Fits.here (hc : c.Fits k) : c.here.ClearOf k := by
  unfold Cursor.here
  split
  · rename_i t ts ht
    exact (hc.head ht).2
  · rw [hc.number]
    exact Span.clearOf_onLine hc.stop

/-- a diagnostic at the next token points at it -/
theorem pointsBefore_error {t : Token} {ts : List Token} (ht : c.tokens = t :: ts) (hlt : t.start < t.stop)
    (hclear : t.span.ClearOf k) (p : Problem) : (c.error p).PointsBefore k := by
  have hhere : c.here = t.span := by
    rw [here, ht]
  refine ⟨?_, ?_⟩
  · show c.here.start < c.here.stop
    rw [hhere]
    exact .inr ⟨rfl, hlt⟩
  · show c.here.ClearOf k
    rw [hhere]
    exact hclear

theorem not_pointsBefore_error (hc : c.tokens = []) (p : Problem) : ¬(c.error p).PointsBefore k := by
  apply Diagnostic.not_pointsBefore_of_empty
  show c.here.start = c.here.stop
  rw [here, hc]
  rfl

end Cursor

/-! ## how the two runs end -/

namespace Commented

/-- never -/
def Never : Except Diagnostic Cursor → Prop :=
  fun _ => False

/-- a failure that points at some text before the comment -/
def Failed (k : Commented) : Except Diagnostic Cursor → Prop
  | .ok _ => False
  | .error e => e.PointsBefore k

/-- such a failure, or a hyphen is next -/
def Stuck (k : Commented) : Except Diagnostic Cursor → Prop
  | .ok c => c.AtHyphen k
  | .error e => e.PointsBefore k

/-- nothing is left, or a failure that points at no text before the comment -/
def Spent (k : Commented) : Except Diagnostic Cursor → Prop
  | .ok c => c.tokens = []
  | .error e => ¬e.PointsBefore k

end Commented

open Commented

namespace Reader

variable {α β : Type}

/-- what is left, or the diagnostic -/
def ending : Except Diagnostic (α × Cursor) → Except Diagnostic Cursor
  | .ok (_, c) => .ok c
  | .error e => .error e

/-- How the runs without and with the comment compare: they give the same, or a class path runs into the
comment, the first one ends in `S`, and the second one has nothing left or fails elsewhere. -/
inductive Twin (k : Commented) (S : Except Diagnostic Cursor → Prop) (A : α → Prop) :
    Except Diagnostic (α × Cursor) → Except Diagnostic (α × Cursor) → Prop
  | ok {v : α} {c : Cursor} (hv : A v) (hc : c.Fits k) : Twin k S A (.ok (v, c)) (.ok (v, c.extend k))
  | error (e : Diagnostic) : Twin k S A (.error e) (.error e)
  | parted {b w : Except Diagnostic (α × Cursor)} (hover : k.Overrun) (hb : S (ending b))
    (hw : k.Spent (ending w)) : Twin k S A b w

/-- the reader gives the same with the comment, as far as `Twin` says -/
def Alike (k : Commented) (S : Except Diagnostic Cursor → Prop) (A : α → Prop) (r : Reader α) : Prop :=
  ∀ c : Cursor, c.Fits k → Twin k S A (r c) (r (c.extend k))

/-- A reader that goes on after the two runs parted: at a hyphen it ends in `S`, and with nothing left it stays
so or fails there. -/
structure Settles (k : Commented) (S : Except Diagnostic Cursor → Prop) (r : Reader α) : Prop where
  stuck : ∀ c : Cursor, c.AtHyphen k → S (ending (r c))
  spent : ∀ c : Cursor, c.tokens = [] → k.Spent (ending (r c))

variable {S : Except Diagnostic Cursor → Prop}

theorem Twin.bind {A : α → Prop} {B : β → Prop} {f : α → Reader β} {b w : Except Diagnostic (α × Cursor)}
    (h : Twin k Never A b w) (hf : ∀ a, A a → Alike k S B (f a)) :
    Twin k S B (b.bind fun p => f p.1 p.2) (w.bind fun p => f p.1 p.2) := by
  cases h with
  | ok hv hc => exact hf _ hv _ hc
  | error e => exact .error e
  | parted _ hb _ => exact hb.elim

namespace Alike

theorem pure {A : α → Prop} {a : α} (h : A a) : Alike k S A (Pure.pure a : Reader α) :=
  fun _ hc => .ok h hc

/-- the tokens that are left are the same with the comment -/
theorem get_bind {B : β → Prop} {f : Cursor → Reader β} (hf : ∀ c, f (c.extend k) = f c)
    (h : ∀ c : Cursor, c.Fits k → Alike k S B (f c)) : Alike k S B (MonadState.get >>= f) := by
  intro c hc
  show Twin k S B (f c c) (f (c.extend k) (c.extend k))
  rw [hf]
  exact h c hc c hc

theorem bind {A : α → Prop} {B : β → Prop} {x : Reader α} {f : α → Reader β} (hx : Alike k Never A x)
    (hf : ∀ a, A a → Alike k S B (f a)) : Alike k S B (x >>= f) :=
  fun c hc => (hx c hc).bind hf

/-- after the two runs of `x` parted, those of `f` settle it -/
theorem bind_settles {A : α → Prop} {B : β → Prop} {x : Reader α} {f : α → Reader β} (hx : Alike k k.Stuck A x)
    (hf : ∀ a, A a → Alike k k.Stuck B (f a)) (hs : ∀ a, Settles k k.Stuck (f a)) :
    Alike k k.Stuck B (x >>= f) := by
  intro c hc
  have hxc := hx c hc
  show Twin k k.Stuck B (Except.bind (x c) fun p => f p.1 p.2) (Except.bind (x (c.extend k)) fun p => f p.1 p.2)
  generalize x c = b at hxc
  generalize x (c.extend k) = w at hxc
  cases hxc with
  | ok hv hc => exact hf _ hv _ hc
  | error e => exact .error e
  | parted hover hb hw =>
    refine .parted hover ?_ ?_
    · cases b with
      | ok p => exact (hs p.1).stuck p.2 hb
      | error e => exact hb
    · cases w with
      | ok p => exact (hs p.1).spent p.2 hw
      | error e => exact hw

theorem ite {p : Prop} [Decidable p] {A : α → Prop} {x y : Reader α} (hx : Alike k S A x) (hy : Alike k S A y) :
    Alike k S A (if p then x else y) := by
  split
  · exact hx
  · exact hy

end Alike

theorem alike_pure (a : α) : Alike k S (fun _ => True) (pure a : Reader α) :=
  Alike.pure trivial

/-! ## where readers fail -/

theorem alike_fail {A : α → Prop} (p : Problem) : Alike k S A (fail p : Reader α) :=
  fun c _ => .error (c.error p)

theorem alike_expected {A : α → Prop} (what : Text) : Alike k S A (expected what : Reader α) :=
  fun c _ => .error (c.expected what)

theorem alike_failAt {A : α → Prop} (span : Span) (p : Problem) : Alike k S A (failAt span p : Reader α) :=
  fun _ _ => .error ⟨p, span, none⟩

/-! ## descriptors -/

theorem passTo_suffix {stop : Nat} {ts us : List Token} (h : passTo stop ts = .ok us) : us <:+ ts := by
  induction ts with
  | nil =>
    obtain rfl := Except.ok.inj h
    exact List.suffix_refl _
  | cons t ts ih =>
    rw [passTo] at h
    split at h
    · obtain rfl := Except.ok.inj h
      exact List.suffix_refl _
    · split at h
      · cases h
      · exact (ih h).trans (List.suffix_cons _ _)

theorem passTo_error {stop : Nat} {ts : List Token} {t : Token} (h : passTo stop ts = .error t) :
    t ∈ ts ∧ stop < t.stop := by
  induction ts with
  | nil => cases h
  | cons u ts ih =>
    rw [passTo] at h
    split at h
    · cases h
    · split at h
      · obtain rfl := Except.error.inj h
        exact ⟨List.mem_cons_self, by assumption⟩
      · exact ⟨List.mem_cons_of_mem _ (ih h).1, (ih h).2⟩

/-- all tokens end before the comment -/
theorem passTo_beyond {stop : Nat} {y : Text} {ts : List Token} (h : k.Spells y ts)
    (hstop : Text.size k.before < stop) : passTo stop ts = .ok [] := by
  have hall : ∀ t ∈ ts, t.start < t.stop ∧ t.stop ≤ Text.size k.before := fun t ht => (h.of_mem ht).2
  clear h
  induction ts with
  | nil => rfl
  | cons t ts ih =>
    obtain ⟨⟨hlt, hle⟩, hts⟩ := List.forall_mem_cons.mp hall
    rw [passTo, if_neg (by omega), if_neg (by omega)]
    exact ih hts

section
variable {what : Text} {read? : Text → Option (α × Text)} {c : Cursor} {first : Token} {more : List Token}

theorem descriptor_of_none (ht : c.tokens = first :: more)
    (hread : read? (Text.dropBytes first.start c.line) = none) :
    descriptor what read? c = .error (c.expected what) := by
  unfold descriptor
  rw [ht]
  dsimp only
  rw [hread]

theorem descriptor_of_some {v : α} {rest : Text} (ht : c.tokens = first :: more)
    (hread : read? (Text.dropBytes first.start c.line) = some (v, rest)) :
    descriptor what read? c =
      match passTo (Text.size c.line - Text.size rest) c.tokens with
      | .ok tokens =>
        .ok ((v, Span.onLine c.number first.start (Text.size c.line - Text.size rest)), { c with tokens })
      | .error t => .error ⟨.malformed what, Span.onLine c.number first.start t.stop, none⟩ := by
  unfold descriptor
  rw [ht]
  dsimp only
  generalize read? (Text.dropBytes first.start c.line) = found at hread ⊢
  subst hread
  rfl

variable (hc : c.Fits k)
include hc

theorem start_lt (ht : c.tokens = first :: more) : first.start < Text.size k.before := by
  obtain ⟨y, -, hy⟩ := hc.tokens
  obtain ⟨-, hlt, hle⟩ := hy.of_mem (t := first) (by rw [ht]; exact List.mem_cons_self)
  omega

/-- the text from a token on, with the comment -/
theorem dropBytes_extend (ht : c.tokens = first :: more) :
    Text.dropBytes first.start (c.extend k).line = Text.dropBytes first.start k.before ++ k.comment := by
  show Text.dropBytes first.start (c.line ++ k.comment) = _
  rw [hc.line]
  exact Text.dropBytes_append_of_le (Nat.le_of_lt (start_lt hc ht)) _

theorem pointsBefore_expected (ht : c.tokens = first :: more) : (c.expected what).PointsBefore k := by
  obtain ⟨hlt, hclear⟩ := hc.head ht
  exact Cursor.pointsBefore_error ht hlt hclear _

/-- a descriptor that is read as without the comment -/
theorem twin_of_overlooks (ht : c.tokens = first :: more)
    (hread : Overlooks read? (Text.dropBytes first.start k.before) k.comment) :
    Twin k S (fun p => p.2.ClearOf k) (descriptor what read? c) (descriptor what read? (c.extend k)) := by
  have ht' : (c.extend k).tokens = first :: more := ht
  rw [Overlooks, ← dropBytes_extend hc ht, ← hc.line] at hread
  cases hbare : read? (Text.dropBytes first.start c.line) with
  | none =>
    rw [hbare] at hread
    rw [descriptor_of_none ht hbare, descriptor_of_none ht' hread]
    exact .error _
  | some p =>
    obtain ⟨v, rest⟩ := p
    rw [hbare] at hread
    have hstop : Text.size (c.extend k).line - Text.size (rest ++ k.comment) =
        Text.size c.line - Text.size rest := by
      show Text.size (c.line ++ k.comment) - _ = _
      rw [Text.size_append, Text.size_append]
      omega
    rw [descriptor_of_some ht hbare, descriptor_of_some ht' hread, hstop]
    have hsame : (c.extend k).tokens = c.tokens := rfl
    rw [hsame]
    cases hpass : passTo (Text.size c.line - Text.size rest) c.tokens with
    | error t => exact .error _
    | ok tokens =>
      refine .ok ?_ (hc.pass (passTo_suffix hpass))
      show Span.ClearOf k _
      rw [hc.number, hc.line]
      exact Span.clearOf_onLine (Nat.sub_le _ _)

/-- a descriptor that goes on into the comment takes all tokens -/
theorem descriptor_beyond (what : Text) (ht : c.tokens = first :: more) {v : α} {s : Text}
    (hread : read? (Text.dropBytes first.start k.before ++ k.comment) = some (v, s))
    (hs : Text.size s < Text.size k.comment) :
    ∃ span, ¬span.ClearOf k ∧
      descriptor what read? (c.extend k) = .ok ((v, span), { c.extend k with tokens := [] }) := by
  rw [← dropBytes_extend hc ht] at hread
  have hstop : Text.size k.before < Text.size (c.extend k).line - Text.size s := by
    show _ < Text.size (c.line ++ k.comment) - _
    rw [hc.line, Text.size_append]
    omega
  obtain ⟨y, -, hy⟩ := hc.tokens
  have hpass : passTo _ (c.extend k).tokens = .ok [] := passTo_beyond hy hstop
  refine ⟨Span.onLine k.number first.start _, Span.not_clearOf_onLine hstop, ?_⟩
  rw [descriptor_of_some (show (c.extend k).tokens = first :: more from ht) hread, hpass, ← hc.number]
  rfl

end

theorem descriptor_nil {what : Text} {read? : Text → Option (α × Text)} {c : Cursor} (ht : c.tokens = []) :
    descriptor what read? c = .error (c.expected what) := by
  rw [descriptor, ht]

/-- the two runs part at a descriptor that goes on into the comment, where nothing is left -/
theorem twin_of_beyond {what : Text} {read? : Text → Option (α × Text)} {B : β → Prop} {f : α × Span → Reader β}
    {c : Cursor} {first : Token} {more : List Token} (hc : c.Fits k) (ht : c.tokens = first :: more)
    (hbare : k.Stuck (ending ((descriptor what read? >>= f) c)))
    (hwhole : ∃ v s, read? (Text.dropBytes first.start k.before ++ k.comment) = some (v, s) ∧
      Text.size s < Text.size k.comment)
    (hacross : ClassPath.Across (Text.dropBytes first.start k.before) k.comment)
    (hbeyond : ∀ p c, ¬p.2.ClearOf k → c.tokens = [] → k.Spent (ending (f p c))) :
    Twin k k.Stuck B ((descriptor what read? >>= f) c) ((descriptor what read? >>= f) (c.extend k)) := by
  obtain ⟨v, s, hv, hs⟩ := hwhole
  obtain ⟨span, hspan, hdescriptor⟩ := descriptor_beyond hc what ht hv hs
  refine .parted ?_ hbare ?_
  · obtain ⟨u, hu⟩ := Text.dropBytes_suffix first.start k.before
    have := hacross.append_left u
    rwa [hu] at this
  · show k.Spent (ending (Except.bind (descriptor what read? (c.extend k)) fun p => f p.1 p.2))
    rw [hdescriptor]
    exact hbeyond _ _ hspan rfl

theorem bind_descriptor_nil {what : Text} {read? : Text → Option (α × Text)} {B : β → Prop} {f : α × Span → Reader β}
    {c : Cursor} (ht : c.tokens = []) :
    Twin k S B ((descriptor what read? >>= f) c) ((descriptor what read? >>= f) (c.extend k)) := by
  show Twin k S B (Except.bind (descriptor what read? c) fun p => f p.1 p.2)
    (Except.bind (descriptor what read? (c.extend k)) fun p => f p.1 p.2)
  rw [descriptor_nil ht, descriptor_nil (show (c.extend k).tokens = [] from ht)]
  exact .error _

/-- a descriptor of an exact reader with what is done with it -/
theorem alike_descriptor_bind (what : Text) {read? : Text → Option (α × Text)} {B : β → Prop} {f : α × Span → Reader β}
    (hread : ∀ x, Overlooks read? x k.comment ∨ Overruns read? x k.comment)
    (hf : ∀ p, p.2.ClearOf k → Alike k k.Stuck B (f p))
    (hbeyond : ∀ p c, ¬p.2.ClearOf k → c.tokens = [] → k.Spent (ending (f p c))) :
    Alike k k.Stuck B (descriptor what read? >>= f) := by
  intro c hc
  cases ht : c.tokens with
  | nil => exact bind_descriptor_nil ht
  | cons first more =>
    rcases hread (Text.dropBytes first.start k.before) with hover | ⟨hbare, hwhole, hacross⟩
    · exact (twin_of_overlooks hc ht hover).bind hf
    · refine twin_of_beyond hc ht ?_ hwhole hacross hbeyond
      rw [← hc.line] at hbare
      show k.Stuck (ending (Except.bind (descriptor what read? c) fun p => f p.1 p.2))
      rw [descriptor_of_none ht hbare]
      exact pointsBefore_expected hc ht

/-- an operand that is made of a descriptor -/
theorem alike_descriptor (what : Text) {read? : Text → Option (α × Text)} (f : α → OperandValue)
    (hread : ∀ x, Overlooks read? x k.comment ∨ Overruns read? x k.comment) :
    Alike k k.Stuck (fun o => o.span.ClearOf k) (do
      let (a, span) ← descriptor what read?
      return (⟨f a, span⟩ : Operand)) :=
  alike_descriptor_bind what hread (fun _ hspan => Alike.pure hspan) fun _ _ _ hc => hc

/-- up to the hyphen of an arrow, where the type of a reference ends -/
theorem stuck_descriptor (what : Text) {read? : Text → Option (α × Text)} {c : Cursor} {first : Token}
    {more : List Token} (hc : c.Fits k) (ht : c.tokens = first :: more) {v : α} {s : Text}
    (hread : read? (Text.dropBytes first.start k.before) = some (v, '-' :: s))
    (hs : '-' :: s <:+ Text.dropBytes first.start k.before) : k.Stuck (ending (descriptor what read? c)) := by
  obtain ⟨y, hy, hsp⟩ := hc.tokens
  have hdrop : Text.dropBytes first.start k.before <:+ y := (ht ▸ hsp).dropBytes_suffix hy
  rw [descriptor_of_some ht (by rw [hc.line]; exact hread), hc.line]
  cases hpass : passTo (Text.size k.before - Text.size ('-' :: s)) c.tokens with
  | ok us =>
    obtain ⟨t, vs, rfl, hmem, hhead⟩ := hsp.passTo_hyphen (hs.trans hdrop) hpass
    obtain ⟨hlt, hclear⟩ := hc.of_mem hmem
    exact ⟨t, vs, rfl, hhead, hlt, hclear⟩
  | error t =>
    obtain ⟨hmem, hlt⟩ := passTo_error hpass
    obtain ⟨-, -, hstop⟩ := hsp.of_mem hmem
    have hsize := Text.size_dropBytes (Nat.le_of_lt (start_lt hc ht))
    obtain ⟨u, hu⟩ := hs
    rw [← hu, Text.size_append] at hsize
    refine ⟨.inr ⟨rfl, ?_⟩, ?_⟩
    · show first.start < t.stop
      omega
    · show (Span.onLine c.number _ _).ClearOf k
      rw [hc.number]
      exact Span.clearOf_onLine hstop

/-- a value that is a reference or a type -/
theorem alike_referenceOrType : Alike k k.Stuck (fun o => o.span.ClearOf k) (do
    let (v, span) ← descriptor "value".toList readReferenceOrType
    return (⟨v, span⟩ : Operand)) := by
  intro c hc
  have hpure : ∀ p : OperandValue × Span, p.2.ClearOf k →
      Alike k k.Stuck (fun o => o.span.ClearOf k) (pure ⟨p.1, p.2⟩ : Reader Operand) :=
    fun _ hspan => Alike.pure hspan
  cases ht : c.tokens with
  | nil => exact bind_descriptor_nil ht
  | cons first more =>
    rcases readReferenceOrType_before (Text.dropBytes first.start k.before) k.trailer with
      hover | ⟨hbare, hwhole, hacross⟩ | ⟨hacross, hwhole, v, s, hbare, hs⟩
    · exact (twin_of_overlooks hc ht hover).bind hpure
    · refine twin_of_beyond hc ht ?_ hwhole hacross fun _ _ _ hc => hc
      rw [← hc.line] at hbare
      show k.Stuck (ending (Except.bind (descriptor _ readReferenceOrType c) _))
      rw [descriptor_of_none ht hbare]
      exact pointsBefore_expected hc ht
    · refine twin_of_beyond hc ht ?_ hwhole hacross fun _ _ _ hc => hc
      have hstuck := stuck_descriptor "value".toList hc ht hbare hs
      show k.Stuck (ending (Except.bind (descriptor _ readReferenceOrType c) _))
      cases hd : descriptor "value".toList readReferenceOrType c with
      | ok p =>
        rw [hd] at hstuck
        exact hstuck
      | error e =>
        rw [hd] at hstuck
        exact hstuck

/-! ## punctuation and words -/

theorem alike_advance : Alike k S (fun _ => True) advance :=
  fun _ hc => .ok trivial (hc.pass (List.tail_suffix _))

theorem alike_atEnd : Alike k S (fun _ => True) atEnd :=
  Alike.get_bind (fun _ => rfl) fun _ _ => alike_pure _

theorem alike_eat (text : Text) : Alike k S (fun _ => True) (eat text) :=
  Alike.get_bind (fun _ => rfl) fun _ _ =>
    (alike_advance.bind fun _ _ => alike_pure _).ite (alike_pure _)

theorem alike_eatWord (word : Text) : Alike k S (fun _ => True) (eatWord word) :=
  Alike.get_bind (fun _ => rfl) fun _ _ =>
    (alike_advance.bind fun _ _ => alike_pure _).ite (alike_pure _)

theorem alike_delimiter (text : Text) : Alike k S (Span.ClearOf k) (delimiter text) := by
  refine Alike.get_bind (fun _ => rfl) fun c hc => ?_
  split
  · rename_i t ts ht
    have hclear := (hc.head ht).2
    exact (alike_advance.bind fun _ _ => Alike.pure hclear).ite (alike_expected _)
  · exact alike_expected _

theorem alike_finish : Alike k S (fun _ => True) finish := by
  refine Alike.get_bind (fun _ => rfl) fun c _ => ?_
  split
  · exact alike_fail _
  · exact alike_pure _

/-! ## plain operands -/

theorem alike_bareRegister : Alike k S (fun p => p.2.ClearOf k) bareRegister := by
  refine Alike.get_bind (fun _ => rfl) fun c hc => ?_
  split
  · rename_i t ts ht
    have hclear := (hc.head ht).2
    refine Alike.ite ?_ (alike_expected _)
    split
    · exact alike_advance.bind fun _ _ => Alike.pure hclear
    · exact alike_fail _
  · exact alike_expected _

theorem alike_register : Alike k S (fun o => o.span.ClearOf k) register :=
  alike_bareRegister.bind fun _ hp => Alike.pure hp

theorem alike_registers (m : Nat) : Alike k S (fun _ => True) (registers m) := by
  induction m generalizing S with
  | zero => exact alike_pure _
  | succ m ih =>
    refine alike_bareRegister.bind fun _ _ => (alike_eat _).bind fun _ _ => Alike.ite ?_ (alike_pure _)
    exact ih.bind fun _ _ => alike_pure _

theorem alike_registerList : Alike k S (fun o => o.span.ClearOf k) registerList := by
  refine (alike_delimiter _).bind fun opening hopening => Alike.get_bind (fun _ => rfl) fun c _ => ?_
  have close : ∀ rs : List Register, Alike k S (fun o => o.span.ClearOf k) (do
      let closing ← delimiter "\x7d".toList
      return (⟨.registerList rs, opening.cover closing⟩ : Operand)) :=
    fun _ => (alike_delimiter _).bind fun _ hclosing => Alike.pure (hopening.cover hclosing)
  exact Alike.ite ((alike_pure _).bind fun rs _ => close rs) ((alike_registers _).bind fun rs _ => close rs)

theorem alike_registerRange : Alike k S (fun o => o.span.ClearOf k) registerRange := by
  refine (alike_delimiter _).bind fun opening hopening => Alike.get_bind (fun _ => rfl) fun c _ => Alike.ite ?_ ?_
  · exact (alike_delimiter _).bind fun _ hclosing => Alike.pure (hopening.cover hclosing)
  · refine alike_bareRegister.bind fun ⟨first, _⟩ _ => (alike_eat _).bind fun _ _ => ?_
    have close : ∀ last : Register, Alike k S (fun o => o.span.ClearOf k) (do
        let closing ← delimiter "\x7d".toList
        return (⟨.registerRange ⟨first, last⟩, opening.cover closing⟩ : Operand)) :=
      fun _ => (alike_delimiter _).bind fun _ hclosing => Alike.pure (hopening.cover hclosing)
    have second : Alike k Never (fun _ => True) (do return (← bareRegister).1) :=
      alike_bareRegister.bind fun _ _ => alike_pure _
    exact Alike.ite (second.bind fun last _ => close last) ((alike_pure _).bind fun last _ => close last)

theorem alike_bareLiteral : Alike k S (fun p => p.2.ClearOf k) bareLiteral := by
  refine Alike.get_bind (fun _ => rfl) fun c hc => ?_
  split
  · rename_i t ts ht
    have hclear := (hc.head ht).2
    refine Alike.ite ?_ (alike_expected _)
    split
    · exact alike_advance.bind fun _ _ => Alike.pure hclear
    · exact alike_fail _
  · exact alike_expected _

theorem alike_literal : Alike k S (fun o => o.span.ClearOf k) literal :=
  alike_bareLiteral.bind fun _ hp => Alike.pure hp

theorem alike_string : Alike k S (fun o => o.span.ClearOf k) string := by
  refine Alike.get_bind (fun _ => rfl) fun c hc => ?_
  split
  · rename_i t ts ht
    have hclear := (hc.head ht).2
    refine Alike.ite ?_ (alike_expected _)
    exact alike_advance.bind fun _ _ => Alike.pure hclear
  · exact alike_expected _

theorem alike_bareLabel : Alike k S (fun p => p.2.ClearOf k) bareLabel := by
  refine Alike.get_bind (fun _ => rfl) fun c hc => ?_
  split
  · rename_i colon name ts ht
    have hcolon := (hc.head ht).2
    have hname := (hc.of_mem (t := name) (by rw [ht]; exact List.mem_cons_of_mem _ List.mem_cons_self)).2
    refine Alike.ite ?_ (alike_expected _)
    exact alike_advance.bind fun _ _ => alike_advance.bind fun _ _ => Alike.pure (hcolon.cover hname)
  · exact alike_expected _

theorem alike_label : Alike k S (fun o => o.span.ClearOf k) label :=
  alike_bareLabel.bind fun _ hp => Alike.pure hp

theorem alike_labelRange : Alike k S (fun o => o.span.ClearOf k) labelRange :=
  (alike_delimiter _).bind fun _ hopening => alike_bareLabel.bind fun _ _ => (alike_delimiter _).bind fun _ _ =>
    alike_bareLabel.bind fun _ _ => (alike_delimiter _).bind fun _ hclosing =>
      Alike.pure (hopening.cover hclosing)

theorem alike_index : Alike k S (fun o => o.span.ClearOf k) index := by
  refine Alike.get_bind (fun _ => rfl) fun c hc => ?_
  split
  · rename_i kind sign ts ht
    have hkind := (hc.head ht).2
    refine Alike.ite ?_ (alike_expected _)
    refine alike_advance.bind fun _ _ => alike_advance.bind fun _ _ =>
      alike_bareLiteral.bind fun ⟨l, span⟩ hspan => ?_
    dsimp only
    split
    · exact Alike.pure (hkind.cover hspan)
    · exact alike_failAt _ _
  · exact alike_expected _

theorem alike_single (v : OperandValue) : Alike k S (fun o => o.span.ClearOf k) (single v) :=
  Alike.get_bind (fun _ => rfl) fun _ hc => alike_advance.bind fun _ _ => Alike.pure hc.here

/-! ## types and references -/

theorem spent_failAt {A : Type} {span : Span} (hspan : ¬span.ClearOf k) (p : Problem) (c : Cursor) :
    k.Spent (ending ((failAt span p : Reader A) c)) :=
  fun h => hspan h.clear

theorem alike_classType : Alike k k.Stuck (fun o => o.span.ClearOf k) classType := by
  refine alike_descriptor_bind _ (fun x => TypeDescriptor.overlooks_or_overruns x _) (fun ⟨type, span⟩ hspan => ?_)
    fun ⟨type, span⟩ c hspan hc => ?_
  · exact (alike_failAt _ _).ite (Alike.pure hspan)
  · dsimp only
    split
    · exact spent_failAt hspan _ c
    · exact hc

theorem alike_enumValue : Alike k k.Stuck (fun o => o.span.ClearOf k) enumValue := by
  refine Alike.get_bind (fun _ => rfl) fun c hc => alike_advance.bind fun _ _ => ?_
  exact alike_descriptor_bind _ (fun x => Reference.overlooks_or_overruns x _)
    (fun _ hspan => Alike.pure (hc.here.cover hspan)) fun _ _ _ hc => hc

theorem alike_scalar (t : Token) : Alike k k.Stuck (fun o => o.span.ClearOf k) (scalar t) := by
  unfold scalar
  refine Alike.ite alike_literal ?_
  refine Alike.ite (Alike.ite (alike_single _) alike_string) ?_
  refine Alike.ite (alike_single _) (Alike.ite (alike_single _) (Alike.ite (alike_single _) ?_))
  exact Alike.ite alike_enumValue alike_referenceOrType

/-! ## what follows a value -/

theorem isDelimiter_of_hyphen {t : Token} {text : Text} (htext : text.head? ≠ some '-')
    (ht : t.text.head? = some '-') : t.isDelimiter text = false := by
  rw [Token.isDelimiter, Bool.and_eq_false_iff]
  refine .inr (beq_eq_false_iff_ne.mpr ?_)
  rintro rfl
  exact htext ht

/-- neither a hyphen nor nothing is a delimiter -/
theorem atDelimiter_eq_false {c : Cursor} {text : Text} (htext : text.head? ≠ some '-')
    (hc : c.AtHyphen k ∨ c.tokens = []) : c.atDelimiter text = false := by
  unfold Cursor.atDelimiter
  rcases hc with ⟨t, ts, ht, hhead, -⟩ | ht
  · rw [ht]
    exact isDelimiter_of_hyphen htext hhead
  · rw [ht]
    rfl

theorem eat_of_atDelimiter_eq_false {c : Cursor} {text : Text} (h : c.atDelimiter text = false) :
    eat text c = .ok (false, c) := by
  unfold eat
  rw [run_get_bind, h]
  rfl

theorem delimiter_of_atDelimiter_eq_false {c : Cursor} {text : Text} (h : c.atDelimiter text = false) :
    delimiter text c = .error (c.expected (Text.quoted text)) := by
  unfold delimiter
  rw [run_get_bind]
  unfold Cursor.atDelimiter at h
  cases ht : c.tokens with
  | nil => rfl
  | cons t ts =>
    rw [ht] at h
    have hdelim : t.isDelimiter text = false := h
    dsimp only
    rw [hdelim]
    rfl

/-- the reader fails for want of something else -/
def Rejects (k : Commented) (r : Reader α) : Prop :=
  ∀ c : Cursor, c.AtHyphen k ∨ c.tokens = [] → ∃ what, r c = .error (c.expected what)

theorem rejects_delimiter {text : Text} (htext : text.head? ≠ some '-') : Rejects k (delimiter text) :=
  fun _ hc => ⟨_, delimiter_of_atDelimiter_eq_false (atDelimiter_eq_false htext hc)⟩

theorem Rejects.bind {r : Reader α} (hr : Rejects k r) (f : α → Reader β) : Rejects k (r >>= f) := by
  intro c hc
  obtain ⟨what, hwhat⟩ := hr c hc
  refine ⟨what, ?_⟩
  show Except.bind (r c) (fun p => f p.1 p.2) = _
  rw [hwhat]
  rfl

theorem Rejects.settles {r : Reader α} (hr : Rejects k r) : Settles k k.Stuck r := by
  constructor
  · intro c hc
    obtain ⟨what, hwhat⟩ := hr c (.inl hc)
    obtain ⟨t, ts, ht, -, hlt, hclear⟩ := hc
    rw [hwhat]
    exact Cursor.pointsBefore_error ht hlt hclear _
  · intro c hc
    obtain ⟨what, hwhat⟩ := hr c (.inr hc)
    rw [hwhat]
    exact Cursor.not_pointsBefore_error hc _

theorem settles_pure (a : α) : Settles k k.Stuck (pure a : Reader α) :=
  ⟨fun _ hc => hc, fun _ hc => hc⟩

theorem settles_eat_bind {text : Text} (htext : text.head? ≠ some '-') {f : Bool → Reader β}
    (hf : Settles k S (f false)) : Settles k S (eat text >>= f) := by
  have hrun : ∀ c : Cursor, c.atDelimiter text = false → (eat text >>= f) c = f false c := by
    intro c hc
    show Except.bind (eat text c) (fun p => f p.1 p.2) = _
    rw [eat_of_atDelimiter_eq_false hc]
    rfl
  constructor
  · intro c hc
    rw [hrun c (atDelimiter_eq_false htext (.inl hc))]
    exact hf.stuck c hc
  · intro c hc
    rw [hrun c (atDelimiter_eq_false (k := k) htext (.inr hc))]
    exact hf.spent c hc

/-! ## values -/

/-- the two readers of values call each other with a smaller bound -/
theorem alike_valueWithin_and_elementsWithin (m : Nat) :
    Alike k k.Stuck (fun o => o.span.ClearOf k) (valueWithin m) ∧
      Alike k k.Stuck (fun _ => True) (elementsWithin m) := by
  induction m with
  | zero => exact ⟨alike_expected _, alike_expected _⟩
  | succ m ih =>
    constructor
    · refine Alike.get_bind (fun _ => rfl) fun c _ => ?_
      split
      · exact alike_expected _
      · refine Alike.ite ?_ (alike_scalar _)
        refine (alike_delimiter _).bind fun opening hopening => Alike.get_bind (fun _ => rfl) fun _ _ =>
          alike_atEnd.bind fun _ _ => ?_
        have close : ∀ elements : List Operand, Alike k k.Stuck (fun o => o.span.ClearOf k) (do
            let closing ← delimiter "\x7d".toList
            return (⟨.array elements, opening.cover closing⟩ : Operand)) :=
          fun _ => (alike_delimiter _).bind fun _ hclosing => Alike.pure (hopening.cover hclosing)
        refine Alike.ite ((alike_pure _).bind fun os _ => close os) (Alike.ite ?_ ?_)
        · exact Alike.bind (A := fun _ => True) (alike_expected _) fun os _ => close os
        · exact ih.2.bind_settles (fun os _ => close os) fun os =>
            ((rejects_delimiter (by decide)).bind _).settles
    · refine ih.1.bind_settles (fun v _ => (alike_eat _).bind fun _ _ => Alike.ite ?_ (alike_pure _)) fun v => ?_
      · exact ih.2.bind_settles (fun _ _ => alike_pure _) fun _ => settles_pure _
      · exact settles_eat_bind (by decide) (settles_pure _)

theorem alike_inlineValue : Alike k k.Stuck (fun o => o.span.ClearOf k) inlineValue :=
  Alike.get_bind (fun _ => rfl) fun _ _ => (alike_valueWithin_and_elementsWithin _).1

/-- the operand of the value ends before the comment -/
def ElementValue.ClearOf (k : Commented) : ElementValue → Prop
  | .complete o | .subannot o => o.span.ClearOf k
  | .openArray => True

theorem alike_elementValue : Alike k k.Stuck (ElementValue.ClearOf k) elementValue := by
  have complete : Alike k k.Stuck (ElementValue.ClearOf k) (do return ElementValue.complete (← inlineValue)) :=
    alike_inlineValue.bind_settles (fun _ ho => Alike.pure ho) fun _ => settles_pure _
  have annot : Alike k k.Stuck (ElementValue.ClearOf k) (do advance; return ElementValue.subannot (← classType)) :=
    alike_advance.bind fun _ _ => alike_classType.bind_settles (fun _ ho => Alike.pure ho) fun _ => settles_pure _
  refine Alike.get_bind (fun _ => rfl) fun c _ => ?_
  split
  · refine Alike.ite (alike_advance.bind fun _ _ => Alike.pure ?_) (Alike.ite annot complete)
    exact trivial
  · exact Alike.ite annot complete
  · exact alike_expected _

end Reader

namespace LineParser

/-! ## the operands of directives, entries and instructions -/

section
variable {S : Except Diagnostic Cursor → Prop}

theorem alike_count (what : Text) : Reader.Alike k S (fun o => o.span.ClearOf k) (count what) := by
  intro c hc
  have hl := Reader.alike_bareLiteral (S := Never) c hc
  unfold count
  generalize Reader.bareLiteral c = b at hl
  generalize Reader.bareLiteral (c.extend k) = w at hl
  cases hl with
  | @ok p rest hspan hrest =>
    obtain ⟨l, span⟩ := p
    dsimp only
    split
    · exact .ok hspan hrest
    · exact .error _
  | error e => exact .error (c.expected what)
  | parted _ hb _ => exact hb.elim

theorem alike_visibility : Reader.Alike k S (fun o => o.span.ClearOf k) visibility := by
  refine Reader.Alike.get_bind (fun _ => rfl) fun c _ => ?_
  split
  · split
    · exact Reader.alike_single _
    · exact Reader.alike_expected _
  · exact Reader.alike_expected _

theorem alike_elementWidth : Reader.Alike k S (fun o => o.span.ClearOf k) elementWidth := by
  refine Reader.alike_bareLiteral.bind fun ⟨l, span⟩ hspan => ?_
  dsimp only
  split
  · exact Reader.Alike.ite (Reader.Alike.pure hspan) (Reader.alike_failAt _ _)
  · exact Reader.alike_failAt _ _

theorem alike_localName : Reader.Alike k S (fun o => o.span.ClearOf k) localName := by
  refine Reader.Alike.get_bind (fun _ => rfl) fun c _ => ?_
  split
  · exact Reader.Alike.ite (Reader.alike_single _) Reader.alike_string
  · exact Reader.alike_string

theorem alike_elementName : Reader.Alike k S (fun o => o.span.ClearOf k) elementName := by
  refine Reader.Alike.get_bind (fun _ => rfl) fun c _ => ?_
  split
  · exact Reader.Alike.ite (Reader.alike_single _) (Reader.alike_expected _)
  · exact Reader.alike_expected _

theorem alike_reference (kind : OperandKind) : Reader.Alike k k.Stuck (fun o => o.span.ClearOf k) (reference kind) := by
  refine Reader.alike_descriptor_bind _ (fun x => Reference.overlooks_or_overruns x _) (fun ⟨r, span⟩ hspan => ?_)
    fun ⟨r, span⟩ c hspan hc => ?_
  · exact Reader.Alike.ite (Reader.Alike.pure hspan) (Reader.alike_failAt _ _)
  · dsimp only
    split
    · exact hc
    · exact Reader.spent_failAt hspan _ c

theorem alike_operand (kind : OperandKind) : Reader.Alike k k.Stuck (fun o => o.span.ClearOf k) (operand kind) := by
  cases kind with
  | register => exact Reader.alike_register
  | registerList => exact Reader.alike_registerList
  | registerRange => exact Reader.alike_registerRange
  | literal => exact Reader.alike_literal
  | string => exact Reader.alike_string
  | type => exact Reader.alike_descriptor _ .type fun x => TypeDescriptor.overlooks_or_overruns x _
  | field => exact alike_reference _
  | method => exact alike_reference _
  | label => exact Reader.alike_label
  | index => exact Reader.alike_index
  | proto => exact Reader.alike_descriptor _ .prototype fun x => Prototype.overlooks_or_overruns x _

end

end LineParser
end Smali
