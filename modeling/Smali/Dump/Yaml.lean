import Smali.Binary64.Decimal

/-!
# YAML documents in block style

* `Yaml`          scalars, texts, lists, records and values with a tag;
* `Yaml.fieldLines`, `Yaml.itemLines`  the lines of records and lists from a column on: the fields of a
                  record below one another, the items of a list at the column of the key that holds them,
                  everything else two columns further in;
* `Yaml.scalar`   a text as a scalar: as it is where it is read back as the same text, else in single
                  quotes, and in double quotes when it has characters that must be escaped;
* `Yaml.isWritable`  no tag directly follows another one: block style has no way to write that.
-/

namespace Smali

inductive Yaml where
  /-- a number, a truth value or nothing -/
  | plain (t : Text)
  /-- a text -/
  | text (t : Text)
  | list (items : List Yaml)
  | record (fields : List (String × Yaml))
  /-- a value with a tag -/
  | tagged (tag : Text) (value : Yaml)

namespace Yaml

def null : Yaml := .plain "null".toList

def bool (b : Bool) : Yaml := .plain (if b then "true".toList else "false".toList)

def nat (n : Nat) : Yaml := .plain (Numeral.decimal n)

def int (i : Int) : Yaml := .plain (Numeral.integer i)

/-- nothing, or a value -/
def option {α : Type} (f : α → Yaml) : Option α → Yaml
  | none => null
  | some a => f a

/-! ## numbers -/

/-- The digits `d` with the point after the first `p` of them: positional for `-5 < p ≤ 16`, with an
exponent otherwise.  A whole number has one zero after its point. -/
def positional (d : Text) (p : Int) : Text :=
  if 0 < p ∧ p ≤ 16 then
    if d.length ≤ p then d ++ List.replicate (p.toNat - d.length) '0' ++ ".0".toList
    else d.take p.toNat ++ '.' :: d.drop p.toNat
  else if -5 < p ∧ p ≤ 0 then "0.".toList ++ List.replicate (-p).toNat '0' ++ d
  else
    let mantissa := if d.length ≤ 1 then d else d.take 1 ++ '.' :: d.drop 1
    mantissa ++ 'e' :: Numeral.integer (p - 1)

/-- the digits of the shortest decimal of a number and the place of its point -/
def digits (x : Binary64) : Text × Int :=
  let d := x.shortest .even
  let all := Numeral.decimal d.coefficient
  (Decimal.trimZeros all, all.length + d.exponent)

/-- a floating point number -/
def float (x : Binary64) : Yaml :=
  .plain <|
    if x.isNan then ".nan".toList
    else
      let t :=
        if x.isZero then "0.0".toList
        else if x.isFinite then positional (digits x).1 (digits x).2
        else ".inf".toList
      if x.negative then '-' :: t else t

/-! ## texts -/

/-- the digits of a number below `limit` in some base, after `0` and a letter -/
def isBased (limit : Nat) (t : Text) : Bool :=
  let inRange (base : Nat) (r : Text) := (Numeral.value? base r).any (· < limit)
  match t with
  | '0' :: 'x' :: r => inRange 16 r
  | '0' :: 'o' :: r => inRange 8 r
  | '0' :: 'b' :: r => inRange 2 r
  | _ => false

/-- the text without a leading plus sign; nothing when another sign follows -/
def withoutPlus? : Text → Option Text
  | '+' :: '+' :: _ => none
  | '+' :: '-' :: _ => none
  | '+' :: r => some r
  | t => some t

/-- whether the text is read as a number; the ones with a base have 128 bits, and a sign is one of them -/
def isNumber (t : Text) : Bool :=
  match withoutPlus? t with
  | none => false
  | some u =>
    isBased 0x100000000000000000000000000000000 u ||
      (match t with | '-' :: r => isBased 0x80000000000000000000000000000001 r | _ => false) ||
      [".inf", ".Inf", ".INF"].any (fun s => s.toList == u) ||
      ["-.inf", "-.Inf", "-.INF", ".nan", ".NaN", ".NAN"].any (fun s => s.toList == t) ||
      (Binary64.parse? u).any Binary64.isFinite

/-- digits after a zero, and an optional sign before it: no number of the format, but one that other readers
may take it for, however long it is -/
def isZeroPadded : Text → Bool
  | '+' :: '0' :: r | '-' :: '0' :: r | '0' :: r => !r.isEmpty && r.all isDigit
  | _ => false

/-- whether the text is read as a truth value or as nothing -/
def isWord (t : Text) : Bool :=
  ["", "null", "Null", "NULL", "~", "true", "True", "TRUE", "false", "False", "FALSE"].any
    fun s => s.toList == t

/-- the characters that end a line -/
def isBreak (c : Char) : Bool :=
  c == '\r' || c == '\n' || c.toNat == 0x85 || c.toNat == 0x2028 || c.toNat == 0x2029

/-- the characters that need no escape -/
def isPrintable (c : Char) : Bool :=
  let n := c.toNat
  (0x20 ≤ n && n ≤ 0x7e) || (0xa0 ≤ n && n ≤ 0xfffd && n != 0xfeff) || 0x10000 ≤ n

/-- whether a blank, a line end or the end of the text comes next -/
def atGap : Text → Bool
  | [] => true
  | c :: _ => c == ' ' || c == '\t' || isBreak c

/-- whether the text, after something that is a gap or not, has a colon before a gap or a `#` after one -/
def hasMark : Bool → Text → Bool
  | _, [] => false
  | gap, c :: r =>
    (c == ':' && atGap r) || (c == '#' && gap) || hasMark (atGap [c]) r

/-- whether the text starts like something other than a text -/
def hasMarkAhead (t : Text) : Bool :=
  "---".toList.isPrefixOf t || "...".toList.isPrefixOf t ||
    match t with
    | [] => false
    | c :: r =>
      "#,[]\x7b\x7d&*!|>'\"%@`".toList.contains c || ((c == '?' || c == ':' || c == '-') && atGap r)

/-- whether the text can stand without quotes -/
def isPlain (t : Text) : Bool :=
  !isWord t && !isNumber t && !isZeroPadded t && !hasMarkAhead t && !hasMark true t && !t.any isBreak &&
    t.head? != some ' ' && t.getLast? != some ' '

/-- the escape of a character in double quotes -/
def escape (c : Char) : Text :=
  let n := c.toNat
  let hex (width : Nat) :=
    let d := (Numeral.hex n).map Char.toUpper
    List.replicate (width - d.length) '0' ++ d
  let letters : List (Nat × Char) :=
    [(0x00, '0'), (0x07, 'a'), (0x08, 'b'), (0x09, 't'), (0x0a, 'n'), (0x0b, 'v'), (0x0c, 'f'),
     (0x0d, 'r'), (0x1b, 'e'), (0x22, '"'), (0x5c, '\\'), (0x85, 'N'), (0x2028, 'L'), (0x2029, 'P')]
  match letters.find? fun l => l.1 == n with
  | some (_, l) => ['\\', l]
  | none =>
    if isPrintable c then [c]
    else if n ≤ 0xff then '\\' :: 'x' :: hex 2
    else if n ≤ 0xffff then '\\' :: 'u' :: hex 4
    else '\\' :: 'U' :: hex 8

/-- as many spaces as there are columns before `column` -/
def margin (column : Nat) : Text :=
  List.replicate column ' '

/-- whether a space stands next to a line end -/
def hasSpaceAtBreak : Text → Bool
  | c :: d :: r => (c == ' ' && isBreak d) || (isBreak c && d == ' ') || hasSpaceAtBreak (d :: r)
  | _ => false

/-- The text between single quotes.  A quote is written twice.  What follows a line end starts at
`column`; `broken` says whether a line has just ended. -/
def singleQuoted (column : Nat) (broken : Bool) : Text → Text
  | [] => if broken then margin column else []
  | c :: r =>
    if isBreak c then c :: singleQuoted column true r
    else
      (if broken then margin column else []) ++ (if c = '\'' then [c, c] else [c]) ++
        singleQuoted column false r

/-- A text as a scalar, whose lines after the first start at `column`.  In single quotes the spaces next
to a line end would be lost. -/
def scalar (column : Nat) (t : Text) : Text :=
  if t.all isPrintable && !hasSpaceAtBreak t then
    if isPlain t then t else '\'' :: singleQuoted column false t ++ ['\'']
  else '"' :: t.flatMap escape ++ ['"']

/-! ## lines -/

/-- what stands on the line of the key or the hyphen at `column` that holds a value -/
def head (column : Nat) : Yaml → Text
  | .plain t => ' ' :: t
  | .text t => ' ' :: scalar (column + 2) t
  | .list [] => " []".toList
  | .list _ | .record _ => []
  | .tagged tag v => " !".toList ++ tag ++ head column v

/-- lines from two columns after `column` on, with a hyphen at `column` -/
def hyphenated (column : Nat) : List Text → List Text
  | [] => []
  | l :: ls => (margin column ++ "- ".toList ++ l.drop (column + 2)) :: ls

mutual

/-- the lines below the key or the hyphen that holds a value; a list starts at `items` and a record at
`fields` -/
def linesBelow (items fields : Nat) : Yaml → List Text
  | .plain _ | .text _ => []
  | .list vs => itemLines items vs
  | .record fs => fieldLines fields fs
  | .tagged _ v => linesBelow items fields v

/-- the lines of an item whose hyphen stands at `column` -/
def item (column : Nat) : Yaml → List Text
  | .list (v :: vs) => hyphenated column (item (column + 2) v ++ itemLines (column + 2) vs)
  | .record fs => hyphenated column (fieldLines (column + 2) fs)
  | .tagged tag v =>
    (margin column ++ '-' :: head column (.tagged tag v)) :: linesBelow (column + 2) (column + 2) v
  | v => [margin column ++ '-' :: head column v]

/-- the lines of the items of a list, whose hyphens stand at `column` -/
def itemLines (column : Nat) : List Yaml → List Text
  | [] => []
  | v :: vs => item column v ++ itemLines column vs

/-- the lines of the fields of a record, whose keys stand at `column` -/
def fieldLines (column : Nat) : List (String × Yaml) → List Text
  | [] => []
  | (key, v) :: fs =>
    (margin column ++ key.toList ++ ':' :: head column v) :: linesBelow column (column + 2) v ++
      fieldLines column fs

end

mutual

/-- whether no tag directly follows another one -/
def isWritable : Yaml → Bool
  | .plain _ | .text _ => true
  | .list items => allWritable items
  | .record fields => allFieldsWritable fields
  | .tagged _ (.tagged _ _) => false
  | .tagged _ v => v.isWritable

def allWritable : List Yaml → Bool
  | [] => true
  | v :: vs => v.isWritable && allWritable vs

def allFieldsWritable : List (String × Yaml) → Bool
  | [] => true
  | (_, v) :: fs => v.isWritable && allFieldsWritable fs

end

/-- the text of a document, whose value is a list or a record: each line with its end -/
def render (v : Yaml) : Text :=
  (linesBelow 0 0 v).flatMap fun l => l ++ ['\n']

end Yaml
end Smali
