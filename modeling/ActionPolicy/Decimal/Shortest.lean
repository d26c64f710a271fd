import ActionPolicy.Decimal.Binary64

/-!
# Shortest decimals

The decimal with the fewest digits that is still nearer to a binary number than to any other, and
the texts written with it.

## Main definitions

* `Decimal` – an integer and a power of ten.
* `Decimal.Tie` – which of two equally near decimals is taken.
* `Decimal.shortest` – the shortest decimal that rounds to a binary number.
* `Decimal.positional` – digits with a point, however far away it is.
* `Decimal.scientific` – one digit, a point and a signed exponent.
-/

namespace ActionPolicy

/-- A decimal number: `digits` times ten to the `exponent`. -/
structure Decimal where
  /-- The digits, read as a natural number. -/
  digits : Nat
  /-- The power of ten of the last digit. -/
  exponent : Int
  deriving DecidableEq, Repr, Inhabited

namespace Decimal

/-- The digits of a natural number in base ten. -/
def digitChars (n : Nat) : List Char := Nat.toDigits 10 n

/-- How many digits a decimal has. -/
def width (d : Decimal) : Nat := (digitChars d.digits).length

/-- The exponent of the first digit. -/
def leading (d : Decimal) : Int := d.exponent + d.width - 1

/-- Which of two equally near decimals is taken. -/
inductive Tie where
  /-- The one with an even last digit. -/
  | toEven
  | up
  deriving DecidableEq, Repr

namespace Tie

/-- Of `n` and its successor, equally near, the successor is taken. -/
def takesNext (t : Tie) (n : Nat) : Bool := t = .up || n % 2 = 1

end Tie

/-- The reals that round to one binary number, between two quotients over one denominator. -/
structure Interval where
  /-- Numerator of the lower end. -/
  low : Nat
  /-- Numerator of the number itself. -/
  mid : Nat
  /-- Numerator of the upper end. -/
  high : Nat
  /-- The common denominator. -/
  den : Nat
  /-- The ends round to the number too. -/
  closed : Bool

namespace Interval

/-- The interval of a positive finite number. Its ends lie half way to the neighbours; the lower
one is nearer where the number is a power of two above the lowest binade. -/
def ofBinary (x : Binary64) : Interval :=
  let (m, e) := x.significand
  let narrow := m = Binary64.hiddenBit ∧ -1074 < e
  let (up, den) := Binary64.scaled 2 1 4 e
  { low := (4 * m - if narrow then 1 else 2) * up
    mid := 4 * m * up
    high := (4 * m + 2) * up
    den := den
    closed := m % 2 = 0 }

/-- The quotient `num / den'` lies in the interval. -/
def holds (i : Interval) (num den' : Nat) : Bool :=
  if i.closed then i.low * den' ≤ num * i.den && num * i.den ≤ i.high * den'
  else i.low * den' < num * i.den && num * i.den < i.high * den'

/-- The decimal `n` times ten to the `p`, as a quotient. -/
def grid (n : Nat) (p : Int) : Nat × Nat :=
  Binary64.scaled 10 n 1 p

/-- The multiple of the `p`-th power of ten in the interval that is nearest to its number, if
there is one. -/
def nearest? (tie : Tie) (i : Interval) (p : Int) : Option Nat :=
  let (num, den) := Binary64.scaled 10 i.mid i.den (-p)
  let below := num / den
  let twice := 2 * (num % den)
  let holdsAt (n : Nat) := let (a, b) := grid n p; i.holds a b
  let (first, second) := if den < twice ∨ twice = den ∧ tie.takesNext below
    then (below + 1, below) else (below, below + 1)
  if holdsAt first then some first else if holdsAt second then some second else none

end Interval

/-- Look for a decimal with one digit, then with two, and so on. -/
def search (tie : Tie) (i : Interval) : Nat → Int → Option Decimal
  | 0, _ => none
  | fuel + 1, p =>
    match i.nearest? tie p with
    | some n => some ⟨n, p⟩
    | none => search tie i fuel (p - 1)

/-- The exponent of the leading digit of a positive quotient, or one more. -/
def leadingBound (num den : Nat) : Int :=
  let ratioDigits := ((digitChars num).length : Int) - (digitChars den).length
  ratioDigits + 1

/-- Trailing zeros moved into the exponent. -/
def trim : Nat → Decimal → Decimal
  | 0, d => d
  | fuel + 1, d =>
    if d.digits ≠ 0 ∧ d.digits % 10 = 0 then trim fuel ⟨d.digits / 10, d.exponent + 1⟩ else d

/-- The shortest decimal that rounds to a finite number, without its sign. -/
def shortest (tie : Tie) (x : Binary64) : Decimal :=
  if x.isZero then ⟨0, 0⟩
  else
    let i := Interval.ofBinary x
    trim 30 ((search tie i 30 (leadingBound i.mid i.den)).getD ⟨0, 0⟩)

/-- All the digits with a point where it belongs, and one digit at least on both sides of it. -/
def positional (d : Decimal) : List Char :=
  let ds := digitChars d.digits
  if 0 ≤ d.exponent then ds ++ List.replicate d.exponent.toNat '0' ++ ['.', '0']
  else
    let places := (-d.exponent).toNat
    let padded := List.replicate (places + 1 - ds.length) '0' ++ ds
    padded.take (padded.length - places) ++ '.' :: padded.drop (padded.length - places)

/-- The first digit, a point and the other digits if there are any, and the exponent of the first
digit with its sign. -/
def scientific (d : Decimal) : List Char :=
  let e := d.leading
  let mantissa := match digitChars d.digits with
    | [] => []
    | [c] => [c]
    | c :: rest => c :: '.' :: rest
  mantissa ++ 'e' :: (if e < 0 then '-' else '+') :: digitChars e.natAbs

end Decimal

end ActionPolicy
