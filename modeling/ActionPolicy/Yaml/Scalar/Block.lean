import ActionPolicy.Yaml.Glyph

/-!
# Block scalars

A scalar that consists of indented lines. Its header says whether lines are joined, how far the
lines are indented if that is not to be seen, and what becomes of the line ends behind the last
line.

## Main definitions

* `Chomping` – what becomes of the last line ends.
* `BlockHeader` – the header.
* `blockScalar?` – the block scalar at the front of a text.
-/

namespace ActionPolicy.Yaml

/-- What becomes of the line ends behind the last line. -/
inductive Chomping where
  /-- One is kept. -/
  | clip
  /-- All are kept. -/
  | keep
  /-- None is kept. -/
  | strip
  deriving DecidableEq, Repr

/-- The header of a block scalar. -/
structure BlockHeader where
  /-- What becomes of the last line ends. -/
  chomping : Chomping
  /-- How much deeper than what is around them the lines are indented; zero if the header does not
  say. -/
  increment : Nat

/-- The mark of a chomping. -/
def chomping? (c : Char) : Option Chomping :=
  match c with
  | '+' => some .keep
  | '-' => some .strip
  | _ => none

/-- A chomping mark at the front of a text, if there is one. -/
def chompingMark (gs : List Glyph) : Chomping × List Glyph :=
  match gs with
  | g :: rest =>
    match chomping? g.char with
    | some c => (c, rest)
    | none => (.clip, gs)
  | [] => (.clip, [])

/-- A digit at the front of a text, if there is one; none if it is a zero. -/
def incrementMark? (gs : List Glyph) : Option (Nat × List Glyph) :=
  match gs with
  | g :: rest =>
    if g.char.isDigit then
      if g.char = '0' then none else some (g.char.toNat - '0'.toNat, rest)
    else some (0, gs)
  | [] => some (0, [])

namespace BlockHeader

/-- The header at the front of a text, and what follows its line. The two marks may stand in
either order. -/
def read? (gs : List Glyph) : Option (BlockHeader × List Glyph) := do
  let (increment, afterDigit) ← incrementMark? gs
  if increment ≠ 0 then
    let (chomping, rest) := chompingMark afterDigit
    return (⟨chomping, increment⟩, ← endLine? rest)
  else
    let (chomping, rest) := chompingMark gs
    let (increment, rest) ← if chomping = .clip then some (0, rest) else incrementMark? rest
    return (⟨chomping, increment⟩, ← endLine? rest)

end BlockHeader

/-- Reads indentation up to a column and the ends of empty lines; up to any column if it is zero.
Gives the widest indentation, the line ends and what follows. -/
def emptyLines (indent : Nat) (widest : Nat) (breaks : List Char) :
    List Glyph → Option (Nat × List Char × List Glyph)
  | [] => some (widest, breaks, [])
  | g :: rest =>
    let inside := indent = 0 || g.column < indent
    if inside && g.char = ' ' then emptyLines indent widest breaks rest
    else if inside && g.char = '\t' then none
    else if g.isBreak then emptyLines indent (max widest g.column) (breaks ++ [g.char]) rest
    else some (max widest g.column, breaks, g :: rest)

/-- A block scalar that is being read. -/
structure BlockText where
  /-- What has been read of the text. -/
  text : List Char
  /-- The end of the last line, not added yet. -/
  lead : Option Char
  /-- The ends of empty lines behind it. -/
  breaks : List Char
  /-- The last line starts with a blank. -/
  indented : Bool

namespace BlockText

/-- What joins the last line with the next one. Where lines are joined, a space takes the place of
a single line feed, unless one of the lines starts with a blank. -/
def joint (b : BlockText) (folded nextIndented : Bool) : List Char :=
  if folded ∧ b.lead = some '\n' ∧ ¬b.indented ∧ ¬nextIndented then
    (if b.breaks.isEmpty then [' '] else []) ++ b.breaks
  else b.lead.toList ++ b.breaks

/-- The text with its last line ends. -/
def finish (b : BlockText) (c : Chomping) : List Char :=
  match c with
  | .strip => b.text
  | .clip => b.text ++ b.lead.toList
  | .keep => b.text ++ b.lead.toList ++ b.breaks

/-- Reads lines as long as they are indented as far as the first one. -/
def readLines (folded : Bool) (indent : Nat) :
    Nat → BlockText → List Glyph → Option (BlockText × List Glyph)
  | 0, _, _ => none
  | _ + 1, b, [] => some (b, [])
  | fuel + 1, b, g :: gs =>
    if g.column = indent then
      let line := (g :: gs).takeWhile fun h => !h.isBreak
      let text := b.text ++ b.joint folded g.isBlank ++ line.map Glyph.char
      match (g :: gs).dropWhile fun h => !h.isBreak with
      | [] => some (⟨text, none, [], g.isBlank⟩, [])
      | h :: rest => do
        let (_, breaks, rest) ← emptyLines indent 0 [] rest
        readLines folded indent fuel ⟨text, some h.char, breaks, g.isBlank⟩ rest
    else some (b, g :: gs)

end BlockText

/-- The text of a block scalar inside a collection of the given indentation, and what comes after
it. The mark that starts it is read already. -/
def blockScalar? (folded : Bool) (outer : Int) (gs : List Glyph) :
    Option (List Char × List Glyph) := do
  let (header, rest) ← BlockHeader.read? gs
  let given := if header.increment = 0 then 0 else (max outer 0).toNat + header.increment
  let (widest, breaks, rest) ← emptyLines given 0 [] rest
  let indent := if given = 0 then max widest (max (outer + 1) 1).toNat else given
  let (b, rest) ← BlockText.readLines folded indent (rest.length + 1) ⟨[], none, breaks, false⟩ rest
  return (b.finish header.chomping, rest)

end ActionPolicy.Yaml
