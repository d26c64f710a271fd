/-!
# Binary floating point numbers

The 64-bit binary format: a sign, eleven exponent bits and 52 fraction bits. Values are computed
exactly, as quotients of natural numbers, and rounded once.

## Main definitions

* `Binary64` – a number in the format, known by its bits.
* `Binary64.ofRatio` – the nearest number to a quotient, a tie going to the even neighbour.
* `Binary64.ratio` – the exact value of a finite number.
* `Binary64.mul`, `Binary64.div` – product and quotient, rounded to the nearest number.
-/

namespace ActionPolicy

/-- A number of the 64-bit binary format. -/
structure Binary64 where
  /-- Sign, exponent and fraction, from the highest bit down. -/
  bits : UInt64
  deriving DecidableEq, Repr, Inhabited

namespace Binary64

/-- Bit pattern of the infinite magnitude. -/
def infinityBits : Nat := 0x7FF0000000000000

/-- Weight of the sign bit. -/
def signBit : Nat := 0x8000000000000000

/-- Weight of the lowest exponent bit, which is that of the leading bit of a normal significand. -/
def hiddenBit : Nat := 0x10000000000000

/-- The sign and the pattern of the magnitude. -/
def ofMagnitude (negative : Bool) (pattern : Nat) : Binary64 :=
  ⟨(pattern + if negative then signBit else 0).toUInt64⟩

/-- The number is below zero, or a zero or not-a-number with the sign set. -/
def negative (x : Binary64) : Bool := signBit ≤ x.bits.toNat

/-- The pattern without the sign. -/
def magnitude (x : Binary64) : Nat := x.bits.toNat % signBit

/-- The magnitude is infinite. -/
def isInfinite (x : Binary64) : Bool := x.magnitude = infinityBits

/-- The pattern stands for no number. -/
def isNaN (x : Binary64) : Bool := infinityBits < x.magnitude

/-- The number is neither infinite nor not-a-number. -/
def isFinite (x : Binary64) : Bool := x.magnitude < infinityBits

/-- The number is a zero of either sign. -/
def isZero (x : Binary64) : Bool := x.magnitude = 0

/-- The number with the other sign. -/
def neg (x : Binary64) : Binary64 := ofMagnitude (!x.negative) x.magnitude

/-- The positive infinity. -/
def infinity : Binary64 := ofMagnitude false infinityBits

/-- The usual pattern that stands for no number. -/
def nan : Binary64 := ofMagnitude false 0x7FF8000000000000

/-- A finite magnitude as an integer significand and a power of two. -/
def significand (x : Binary64) : Nat × Int :=
  let fraction : Nat := x.magnitude % hiddenBit
  let exponent : Nat := x.magnitude / hiddenBit
  if exponent = 0 then (fraction, -1074) else (hiddenBit + fraction, (exponent : Int) - 1075)

/-- The quotient `num / den` times the `e`-th power of a base. -/
def scaled (base num den : Nat) (e : Int) : Nat × Nat :=
  if 0 ≤ e then (num * base.pow e.toNat, den) else (num, den * base.pow (-e).toNat)

/-- The exact magnitude of a finite number, as numerator and denominator. -/
def ratio (x : Binary64) : Nat × Nat :=
  let (m, e) := x.significand
  scaled 2 m 1 e

/-- The quotient rounded to the nearest integer, a tie going to the even one. -/
def roundDiv (num den : Nat) : Nat :=
  let q := num / den
  let twice := 2 * (num % den)
  if twice < den then q
  else if den < twice then q + 1
  else q + q % 2

/-- The power of two in whose multiples the quotient is written: the significand then has 53 bits,
or fewer at the lower end of the format. -/
def scaleOf (num den : Nat) : Int :=
  let e := max ((Nat.log2 num : Int) - (Nat.log2 den : Int) - 53) (-1074)
  let (n, d) := scaled 2 num den (-e)
  if n / d < 2 * hiddenBit then e else e + 1

/-- The nearest number to a quotient with a positive denominator; infinite if it is too large. -/
def ofRatio (negative : Bool) (num den : Nat) : Binary64 :=
  if num = 0 then ofMagnitude negative 0
  else
    let e := scaleOf num den
    let (n, d) := scaled 2 num den (-e)
    ofMagnitude negative (min ((e + 1074).toNat * hiddenBit + roundDiv n d) infinityBits)

/-- The nearest number to `digits` times a power of ten. -/
def ofDecimal (negative : Bool) (digits : Nat) (exponent : Int) : Binary64 :=
  let (n, d) := scaled 10 digits 1 exponent
  ofRatio negative n d

/-- The product of two finite numbers. -/
def mul (x y : Binary64) : Binary64 :=
  let (a, b) := x.ratio
  let (c, d) := y.ratio
  ofRatio (x.negative != y.negative) (a * c) (b * d)

/-- The quotient of two finite numbers, of which the second is not zero. -/
def div (x y : Binary64) : Binary64 :=
  let (a, b) := x.ratio
  let (c, d) := y.ratio
  ofRatio (x.negative != y.negative) (a * d) (b * c)

end Binary64

end ActionPolicy
