import ActionPolicy.Decimal.Binary64

/-!
# JSON numerals

The written form of a number and the value it is read as.

## Main definitions

* `Json.Numeral` – the parts of a written number.
* `Json.Numeral.ofChars?` – the parts of a text that is a number.
* `Json.Numeral.value` – an integer where 64 bits hold it, else a binary floating point number, or
  none if the number is too large for one.

## Design notes

A number with a fraction or an exponent is read by collecting digits in a 64-bit significand.
Digits that no longer fit only raise the exponent before the point and are dropped behind it. The
significand, rounded to a binary number, is then multiplied or divided by one power of ten, itself
rounded, so the result can differ in the last place from the nearest number to the text.
-/

namespace ActionPolicy.Json

/-- A written number. -/
structure Numeral where
  /-- It starts with a minus sign. -/
  negative : Bool
  whole : List Nat
  /-- The digits behind the point, if there is one. -/
  fraction : List Nat
  /-- The exponent, if there is one: whether it is negative, and its digits. -/
  exponent : Option (Bool × List Nat)
  deriving Repr, DecidableEq

namespace Numeral

/-- The value of a decimal digit. -/
def digit? (c : Char) : Option Nat :=
  if '0' ≤ c ∧ c ≤ '9' then some (c.toNat - '0'.toNat) else none

/-- The digits at the front of a text, and the rest of it. -/
def digits : List Char → List Nat × List Char
  | [] => ([], [])
  | c :: cs =>
    match digit? c with
    | some d => let (ds, rest) := digits cs; (d :: ds, rest)
    | none => ([], c :: cs)

/-- The fraction, which is a point followed by at least one digit, or nothing. -/
def fraction? : List Char → Option (List Nat × List Char)
  | '.' :: cs =>
    match digits cs with
    | ([], _) => none
    | found => some found
  | cs => some ([], cs)

/-- The digits of an exponent after its sign. -/
def exponentDigits? (negative : Bool) (cs : List Char) : Option (Option (Bool × List Nat)) :=
  match digits cs with
  | ([], _) => none
  | (ds, []) => some (some (negative, ds))
  | _ => none

/-- The exponent, which ends the text: a mark, a sign if need be, and at least one digit. -/
def exponent? : List Char → Option (Option (Bool × List Nat))
  | [] => some none
  | c :: cs =>
    if c = 'e' ∨ c = 'E' then
      match cs with
      | '-' :: rest => exponentDigits? true rest
      | '+' :: rest => exponentDigits? false rest
      | _ => exponentDigits? false cs
    else none

/-- The parts of a number. Its whole part has a digit, and does not start with a zero unless the
zero is all of it. -/
def ofChars? (cs : List Char) : Option Numeral := do
  let (negative, cs) := match cs with
    | '-' :: rest => (true, rest)
    | _ => (false, cs)
  let (whole, cs) := digits cs
  match whole with
  | [] => none
  | 0 :: _ :: _ => none
  | _ =>
    let (fraction, cs) ← fraction? cs
    let exponent ← exponent? cs
    return ⟨negative, whole, fraction, exponent⟩

/-- The greatest unsigned integer of 64 bits. -/
def maxWord : Nat := UInt64.size - 1

/-- The greatest signed integer of 32 bits, the limit of a written exponent. -/
def maxExponent : Nat := UInt32.size / 2 - 1

/-- The value of digits. -/
def ofDigits (ds : List Nat) : Nat := ds.foldl (fun n d => n * 10 + d) 0

/-- The digits of the whole part taken into a significand while it fits, and how many were left. -/
def takeWhole (significand : Nat) : List Nat → Nat × Nat
  | [] => (significand, 0)
  | d :: ds =>
    if significand * 10 + d ≤ maxWord then takeWhole (significand * 10 + d) ds
    else (significand, ds.length + 1)

/-- The digits of the fraction taken into a significand while it fits, and how many were taken. -/
def takeFraction (significand taken : Nat) : List Nat → Nat × Nat
  | [] => (significand, taken)
  | d :: ds =>
    if significand * 10 + d ≤ maxWord then takeFraction (significand * 10 + d) (taken + 1) ds
    else (significand, taken)

/-- The power of ten, rounded to a binary number. -/
def powerOfTen (k : Nat) : Binary64 := .ofDecimal false 1 k

/-- The greatest power of ten that a binary number comes near. -/
def greatestPower : Nat := 308

/-- A magnitude divided by the `k`-th power of ten, the greatest power at a time. -/
def scaleDown (x : Binary64) (k : Nat) : Binary64 :=
  if k ≤ greatestPower then x.div (powerOfTen k)
  else if x.isZero then x
  else scaleDown (x.div (powerOfTen greatestPower)) (k - greatestPower)
termination_by k
decreasing_by simp only [greatestPower] at *; omega

/-- A magnitude times a power of ten; none if that is too large. -/
def scale? (x : Binary64) (exponent : Int) : Option Binary64 :=
  if exponent < 0 then some (scaleDown x exponent.natAbs)
  else if exponent ≤ greatestPower then
    let product := x.mul (powerOfTen exponent.toNat)
    if product.isInfinite then none else some product
  else if x.isZero then some x
  else none

/-- The written exponent, or none if it is beyond the limit. -/
def exponentValue? : Option (Bool × List Nat) → Option Int
  | none => some 0
  | some (negative, ds) =>
    let n := ofDigits ds
    if n ≤ maxExponent then some (if negative then -n else n) else none

/-- The value as a binary number; none if it is too large. -/
def float? (x : Numeral) : Option Binary64 := do
  let (significand, left) := takeWhole 0 x.whole
  let (significand, taken) := takeFraction significand 0 x.fraction
  let signed (m : Binary64) : Binary64 := if x.negative then m.neg else m
  match exponentValue? x.exponent, x.exponent with
  | some e, _ =>
    return signed (← scale? (.ofRatio false significand 1) ((left : Int) - taken + e))
  | none, some (true, _) => return signed (.ofMagnitude false 0)
  | none, _ => if significand = 0 then return signed (.ofMagnitude false 0) else none

/-- What a written number stands for. -/
inductive Value where
  /-- An integer of 64 bits, signed or unsigned. -/
  | int (n : Int)
  | float (x : Binary64)
  /-- A number beyond the largest binary number. -/
  | tooLarge
  deriving Repr, DecidableEq

/-- The value of a written number. A negative zero is a binary number. -/
def value (x : Numeral) : Value :=
  let n := ofDigits x.whole
  let asFloat := match x.float? with
    | some f => .float f
    | none => .tooLarge
  if x.fraction ≠ [] ∨ x.exponent ≠ none then asFloat
  else if x.negative then
    if n ≤ maxWord / 2 + 1 ∧ n ≠ 0 then .int (-n) else asFloat
  else if n ≤ maxWord then .int n else asFloat

end Numeral

end ActionPolicy.Json
