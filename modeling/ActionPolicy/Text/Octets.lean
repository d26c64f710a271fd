/-!
# Octets as text

Reading a sequence of bytes as UTF-8 when some of them may belong to no character.

## Main definitions

* `Octets.chars` – the characters of a sequence of bytes, and a gap for every stray byte.
* `Octets.standIn` – a character that a text does not use.
-/

namespace ActionPolicy.Octets

/-- A character of which some bytes have been read. -/
structure Partial where
  /-- How many bytes have been read. -/
  taken : Nat
  missing : Nat
  /-- The bits read so far. -/
  value : Nat
  /-- The least value that needs that many bytes. -/
  least : Nat

/-- What a first byte announces: a whole character, or the rest of one. -/
def lead? (b : Nat) : Option (Char ⊕ Partial) :=
  if b < 0x80 then some (.inl (Char.ofNat b))
  else if 0xC0 ≤ b ∧ b < 0xE0 then some (.inr ⟨1, 1, b - 0xC0, 0x80⟩)
  else if 0xE0 ≤ b ∧ b < 0xF0 then some (.inr ⟨1, 2, b - 0xE0, 0x800⟩)
  else if 0xF0 ≤ b ∧ b < 0xF8 then some (.inr ⟨1, 3, b - 0xF0, 0x10000⟩)
  else none

/-- The character of a complete value, or a gap for each of its bytes. -/
def close (p : Partial) : List (Option Char) :=
  if p.least ≤ p.value ∧ p.value.isValidChar then [some (Char.ofNat p.value)]
  else List.replicate p.taken none

/-- The characters of bytes that follow a partly read character. -/
def charsAfter (pending : Option Partial) : List UInt8 → List (Option Char)
  | [] =>
    match pending with
    | none => []
    | some p => List.replicate p.taken none
  | byte :: rest =>
    let b := byte.toNat
    let start (gaps : List (Option Char)) : List (Option Char) :=
      match lead? b with
      | some (.inl c) => gaps ++ some c :: charsAfter none rest
      | some (.inr p) => gaps ++ charsAfter (some p) rest
      | none => gaps ++ none :: charsAfter none rest
    match pending with
    | none => start []
    | some p =>
      if 0x80 ≤ b ∧ b < 0xC0 then
        let q : Partial := ⟨p.taken + 1, p.missing - 1, p.value * 64 + (b - 0x80), p.least⟩
        if p.missing ≤ 1 then close q ++ charsAfter none rest else charsAfter (some q) rest
      else start (List.replicate p.taken none)

/-- The characters of bytes, and a gap for every byte that belongs to none. -/
def chars (bytes : List UInt8) : List (Option Char) := charsAfter none bytes

/-- The first private character from code point `n` on that is not used, looking `fuel` times. -/
def unusedFrom (used : List (Option Char)) : Nat → Nat → Char
  | 0, n => Char.ofNat n
  | fuel + 1, n =>
    if used.contains (some (Char.ofNat n)) then unusedFrom used fuel (n + 1) else Char.ofNat n

/-- A character that does not occur. -/
def standIn (used : List (Option Char)) : Char := unusedFrom used used.length 0xF0000

end ActionPolicy.Octets
