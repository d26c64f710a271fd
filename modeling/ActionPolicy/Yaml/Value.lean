import ActionPolicy.Document.Fault
import ActionPolicy.Yaml.Node

/-!
# Values of scalars

What a scalar stands for where nothing is expected of it. A scalar without quotes may be a null, a
truth value or a number; a tag of the core schema settles what it has to be. A zero may have a sign,
which is kept.

## Main definitions

* `Value` – what a scalar stands for.
* `Value.ofPlain` – the value of a scalar without quotes and tag.
* `Value.ofScalar` – the value of any scalar, or what is wrong with it.
* `Value.unsigned?` – an unsigned integer up to a limit.
-/

namespace ActionPolicy.Yaml

/-- What a scalar stands for. -/
inductive Value where
  | null
  | bool (b : Bool)
  /-- An integer of 64 bits, signed or unsigned. -/
  | int (n : Int)
  /-- The integer zero with a minus sign. -/
  | negativeZero
  /-- An integer of 128 bits, signed or unsigned. -/
  | wide (n : Int)
  | float (x : Binary64)
  | text (s : String)
  deriving DecidableEq, Repr

namespace Value

/-- The value in the terms of faults. -/
def found : Value → Found
  | null => .null
  | bool b => .bool b
  | int n => .int n
  | negativeZero => .int 0
  | wide n => .wideInt n
  | float x => .float x
  | text s => .text s

/-- The word stands for nothing. -/
def isNullWord (s : String) : Bool := s = "null" || s = "Null" || s = "NULL" || s = "~"

/-- The truth value that a word stands for. -/
def bool? (s : String) : Option Bool :=
  if s = "true" ∨ s = "True" ∨ s = "TRUE" then some true
  else if s = "false" ∨ s = "False" ∨ s = "FALSE" then some false
  else none

/-- The value of a digit in a base up to sixteen. -/
def digit? (base : Nat) (c : Char) : Option Nat := (hexDigit? c).filter fun d => d < base

/-- The number that digits make, if it is not beyond a limit. -/
def natOfDigits? (base limit : Nat) (cs : List Char) : Option Nat :=
  if cs.isEmpty then none
  else do
    let ds ← cs.mapM (digit? base)
    let n := ds.foldl (fun n d => n * base + d) 0
    if n ≤ limit then some n else none

/-- The base that a letter behind a zero stands for. -/
def base? (c : Char) : Option Nat :=
  match c with
  | 'x' => some 16
  | 'o' => some 8
  | 'b' => some 2
  | _ => none

/-- A number in another base than ten, if its digits make one. -/
def basedNat? (limit : Nat) (cs : List Char) : Option Nat :=
  match cs with
  | '0' :: c :: digits => do natOfDigits? (← base? c) limit digits
  | _ => none

/-- The text without a sign at its start. -/
def dropSign (cs : List Char) : List Char :=
  match cs with
  | '+' :: rest => rest
  | '-' :: rest => rest
  | _ => cs

/-- Several digits of which the first is a zero are no number. -/
def isZeroPadded (cs : List Char) : Bool :=
  match dropSign cs with
  | '0' :: c :: rest => (c :: rest).all Char.isDigit
  | _ => false

/-- An unsigned integer up to a limit, in base ten or with a mark for another base. -/
def unsigned? (limit : Nat) (s : String) : Option Nat :=
  let cs := s.toList
  let digits := if cs.head? = some '+' then cs.tail else cs
  match basedNat? limit digits with
  | some n => some n
  | none => if isZeroPadded cs then none else natOfDigits? 10 limit digits

/-- An integer with a minus sign, of which the magnitude is not beyond a limit. -/
def negative? (limit : Nat) (s : String) : Option Int :=
  match s.toList with
  | '-' :: digits =>
    match basedNat? limit digits with
    | some n => some (-n)
    | none => if isZeroPadded s.toList then none else (natOfDigits? 10 limit digits).map (-·)
  | _ => none

/-- The greatest unsigned integer of 64 bits. -/
def maxWord64 : Nat := UInt64.size - 1

/-- The greatest unsigned integer of 128 bits. -/
def maxWord128 : Nat := UInt64.size * UInt64.size - 1

/-- An integer of at most 128 bits. -/
def integer? (s : String) : Option Value :=
  match unsigned? maxWord64 s with
  | some n => some (int n)
  | none =>
    match negative? (maxWord64 / 2 + 1) s with
    | some n => some (if n = 0 then negativeZero else int n)
    | none =>
      match unsigned? maxWord128 s with
      | some n => some (wide n)
      | none => (negative? (maxWord128 / 2 + 1) s).map wide

/-! ### Binary numbers -/

/-- A number written with a point or an exponent or both, without its sign. -/
structure Scientific where
  /-- The digits before and behind the point. -/
  digits : List Char
  /-- The power of ten of the last digit. -/
  exponent : Int

namespace Scientific

/-- The digits at the front of a text, and what follows them. -/
def digitRun (cs : List Char) : List Char × List Char :=
  (cs.takeWhile Char.isDigit, cs.dropWhile Char.isDigit)

/-- The exponent that ends a text: none written is zero. -/
def exponent? (cs : List Char) : Option Int :=
  match cs with
  | [] => some 0
  | c :: rest =>
    if c = 'e' ∨ c = 'E' then
      let magnitude? := natOfDigits? 10 (Nat.pow 10 rest.length) (dropSign rest)
      magnitude?.map fun n => if rest.head? = some '-' then -n else n
    else none

/-- The parts of a written number, which has a digit at least. -/
def ofChars? (cs : List Char) : Option Scientific :=
  let (whole, rest) := digitRun cs
  let (fraction, rest) := match rest with
    | '.' :: behind => digitRun behind
    | _ => ([], rest)
  if whole.isEmpty ∧ fraction.isEmpty then none
  else (exponent? rest).map fun e => ⟨whole ++ fraction, e - fraction.length⟩

/-- The nearest binary number; none if the number is too large. Numbers far beyond the format are
told by the place of their first digit. -/
def nearest? (negative : Bool) (x : Scientific) : Option Binary64 :=
  let digits := x.digits.dropWhile (· = '0')
  let leading := x.exponent + digits.length
  if digits.isEmpty ∨ leading < -400 then some (.ofMagnitude negative 0)
  else if 400 < leading then none
  else
    let n := digits.foldl (fun n c => n * 10 + (c.toNat - '0'.toNat)) 0
    let value := Binary64.ofDecimal negative n x.exponent
    if value.isFinite then some value else none

end Scientific

/-- The word for an infinite number. -/
def isInfinityWord (cs : List Char) : Bool :=
  [".inf", ".Inf", ".INF"].contains (String.ofList cs)

/-- A binary number. -/
def float? (s : String) : Option Binary64 :=
  let finite? (negative : Bool) (cs : List Char) : Option Binary64 := do
    (← Scientific.ofChars? cs).nearest? negative
  if [".nan", ".NaN", ".NAN"].contains s then some .nan
  else
    match s.toList with
    | '-' :: rest => if isInfinityWord rest then some Binary64.infinity.neg else finite? true rest
    | '+' :: rest => if isInfinityWord rest then some .infinity else finite? false rest
    | cs => if isInfinityWord cs then some .infinity else finite? false cs

/-- The value of a scalar without quotes and tag. -/
def ofPlain (s : String) : Value :=
  if s = "" ∨ isNullWord s then null
  else
    match bool? s with
    | some b => bool b
    | none =>
      match integer? s with
      | some v => v
      | none =>
        match if isZeroPadded s.toList then none else float? s with
        | some x => float x
        | none => text s

/-! ### Scalars under tags -/

/-- A value that a tag of the core schema asks for, or the fault that there is none. -/
def demanded (s : String) (expected : Expected) (v : Option Value) : Except Fault Value :=
  match v with
  | some v => .ok v
  | none => .error (.wrongValue (.text s) expected)

/-- The value of a scalar. A local tag leaves it as it is without quotes, and any tag but those of
the core schema makes it a text. -/
def ofScalar (tag : Option Tag) (style : ScalarStyle) (s : String) : Except Fault Value :=
  let untagged := if style = .plain then ofPlain s else text s
  match tag with
  | none => .ok untagged
  | some t =>
    if t = .core "bool" then demanded s .bool ((bool? s).map bool)
    else if t = .core "int" then demanded s .integer (integer? s)
    else if t = .core "float" then demanded s .float ((float? s).map float)
    else if t = .core "null" then demanded s .null (if isNullWord s then some null else none)
    else if t.isLocal then .ok untagged
    else .ok (text s)

end Value

end ActionPolicy.Yaml
