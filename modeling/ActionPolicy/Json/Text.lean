import ActionPolicy.Json.Basic

/-!
# JSON text

How values are written.

## Main definitions

* `Json.quote` – a text in quotes, with the escapes of the format.
* `Json.compact` – a value on one line without blanks.
* `Json.pretty` – a value with every part on a line of its own, indented by two blanks a level.

## Design notes

Only quote, backslash and the control characters below the blank are escaped; five of these have
a letter of their own, the others are written by number. A binary number has at least one digit on
both sides of its point, and an exponent where its first digit is far from the point.
-/

namespace ActionPolicy.Json

/-- A digit of base sixteen. -/
def hexDigit (n : Nat) : Char :=
  if n < 10 then Char.ofNat ('0'.toNat + n) else Char.ofNat ('a'.toNat + (n - 10))

/-- A character of a text as it is written between quotes. -/
def escape (c : Char) : List Char :=
  if c = '\x22' then ['\\', '\x22']
  else if c = '\\' then ['\\', '\\']
  else if c = '\x08' then ['\\', 'b']
  else if c = '\x0c' then ['\\', 'f']
  else if c = '\n' then ['\\', 'n']
  else if c = '\x0d' then ['\\', 'r']
  else if c = '\t' then ['\\', 't']
  else if c < ' ' then ['\\', 'u', '0', '0', hexDigit (c.toNat / 16), hexDigit (c.toNat % 16)]
  else [c]

/-- A text in quotes. -/
def quote (cs : List Char) : List Char := '\x22' :: (cs.flatMap escape ++ ['\x22'])

/-- A binary number; one that is not finite has no JSON form and is written `null`. -/
def floatText (x : Binary64) : List Char :=
  if !x.isFinite then "null".toList
  else
    let d := Decimal.shortest .toEven x
    let digits := if -5 ≤ d.leading ∧ d.leading ≤ 15 then d.positional else d.scientific
    if x.negative then '-' :: digits else digits

/-- An integer in base ten. -/
def intText (n : Int) : List Char :=
  if n < 0 then '-' :: Nat.toDigits 10 n.natAbs else Nat.toDigits 10 n.natAbs

mutual

/-- A value on one line. -/
def compactChars : Json → List Char
  | .null => "null".toList
  | .bool true => "true".toList
  | .bool false => "false".toList
  | .int n => intText n
  | .float x => floatText x
  | .string s => quote s.toList
  | .array items => '[' :: (compactItems items ++ [']'])
  | .object members => '\x7b' :: (compactMembers members ++ ['\x7d'])

/-- The items of a list with commas between them. -/
def compactItems : List Json → List Char
  | [] => []
  | [j] => compactChars j
  | j :: rest => compactChars j ++ ',' :: compactItems rest

/-- The members of an object with commas between them. -/
def compactMembers : List (String × Json) → List Char
  | [] => []
  | [(name, j)] => quote name.toList ++ ':' :: compactChars j
  | (name, j) :: rest => quote name.toList ++ ':' :: (compactChars j ++ ',' :: compactMembers rest)

end

/-- A new line at an indentation level. -/
def newline (level : Nat) : List Char := '\n' :: List.replicate (2 * level) ' '

mutual

/-- A value whose parts stand on lines of their own, one level further in. -/
def prettyChars (level : Nat) : Json → List Char
  | .array [] => ['[', ']']
  | .array (j :: rest) =>
    '[' :: (newline (level + 1) ++ prettyChars (level + 1) j ++ prettyItems (level + 1) rest ++
      newline level ++ [']'])
  | .object [] => ['\x7b', '\x7d']
  | .object ((name, j) :: rest) =>
    '\x7b' :: (newline (level + 1) ++ quote name.toList ++ ':' :: ' ' ::
      prettyChars (level + 1) j ++ prettyMembers (level + 1) rest ++ newline level ++ ['\x7d'])
  | .null => compactChars .null
  | .bool b => compactChars (.bool b)
  | .int n => compactChars (.int n)
  | .float x => compactChars (.float x)
  | .string s => compactChars (.string s)

/-- The items after the first, each after a comma on a new line. -/
def prettyItems (level : Nat) : List Json → List Char
  | [] => []
  | j :: rest => ',' :: (newline level ++ prettyChars level j ++ prettyItems level rest)

/-- The members after the first, each after a comma on a new line. -/
def prettyMembers (level : Nat) : List (String × Json) → List Char
  | [] => []
  | (name, j) :: rest =>
    ',' :: (newline level ++ quote name.toList ++ ':' :: ' ' :: prettyChars level j ++
      prettyMembers level rest)

end

/-- A value on one line without blanks. -/
def compact (j : Json) : String := String.ofList j.compactChars

/-- A value over several lines. -/
def pretty (j : Json) : String := String.ofList (j.prettyChars 0)

end ActionPolicy.Json
