import ActionPolicy.Yaml.Glyph
import ActionPolicy.Yaml.Token

/-!
# Tags and directives

How tags, names of nodes and the lines before a document are read.

## Main definitions

* `tagToken?` – the tag at the front of a text.
* `nodeName?` – the name of a node.
* `directive?` – a line that says something about the document.

## Design notes

A tag is written `!<whole>`, `!handle!suffix`, `!suffix` or `!`. Bytes of a tag may be written by
number. A first byte says how many bytes follow it, but not all sequences of bytes of this form are
characters.
-/

namespace ActionPolicy.Yaml

/-- A character that may stand in a tag as it is. -/
def isTagChar (c : Char) : Bool :=
  isNameChar c || [';', '/', '?', ':', '@', '&', '=', '+', '$', '.', '!', '~', '*', '\x27', '(',
    ')'].contains c

/-- A character that may stand in a whole tag but not in a short one. -/
def isWholeTagChar (c : Char) : Bool := c = ',' || c = '[' || c = ']'

/-- The names at the front of a text: its longest run of name characters. -/
def nameRun (gs : List Glyph) : List Char × List Glyph :=
  ((gs.takeWhile fun g => isNameChar g.char).map Glyph.char,
    gs.dropWhile fun g => isNameChar g.char)

/-- A byte written by number. -/
def writtenByte? : List Glyph → Option (UInt8 × List Glyph)
  | p :: a :: b :: rest => do
    let high ← hexDigit? a.char
    let low ← hexDigit? b.char
    if p.char = '%' then return ((high * 16 + low).toUInt8, rest) else none
  | _ => none

/-- How many bytes have to follow a first byte. -/
def furtherCount? (byte : UInt8) : Option Nat :=
  if byte < 0x80 then some 0
  else if 0xC0 ≤ byte ∧ byte < 0xE0 then some 1
  else if 0xE0 ≤ byte ∧ byte < 0xF0 then some 2
  else if 0xF0 ≤ byte ∧ byte < 0xF8 then some 3
  else none

/-- So many bytes that follow a first byte. -/
def furtherBytes? : Nat → List Glyph → Option (List UInt8 × List Glyph)
  | 0, gs => some ([], gs)
  | n + 1, gs => do
    let (byte, rest) ← writtenByte? gs
    if 0x80 ≤ byte ∧ byte < 0xC0 then
      let (bytes, rest) ← furtherBytes? n rest
      return (byte :: bytes, rest)
    else none

/-- A first byte written by number and the bytes that have to follow it. -/
def writtenBytes? (gs : List Glyph) : Option (List UInt8 × List Glyph) := do
  let (byte, rest) ← writtenByte? gs
  let (bytes, rest) ← furtherBytes? (← furtherCount? byte) rest
  return (byte :: bytes, rest)

/-- The bytes of the longest run of tag characters at the front of a text. -/
def tagRun? (whole : Bool) : Nat → List Glyph → Option (List UInt8 × List Glyph)
  | 0, _ => none
  | _ + 1, [] => some ([], [])
  | fuel + 1, g :: rest =>
    if g.char = '%' then do
      let (first, after) ← writtenBytes? (g :: rest)
      let (bytes, after) ← tagRun? whole fuel after
      return (first ++ bytes, after)
    else if isTagChar g.char || (whole && isWholeTagChar g.char) then do
      let (bytes, after) ← tagRun? whole fuel rest
      return (g.char.toNat.toUInt8 :: bytes, after)
    else some ([], g :: rest)

/-- A run of tag characters that is not empty. -/
def tagText? (whole : Bool) (gs : List Glyph) : Option (Tag × List Glyph) :=
  match tagRun? whole (gs.length + 1) gs with
  | some ([], _) => none
  | found => found.map fun (bytes, rest) => (.ofBytes bytes, rest)

/-- The handle at the front of a text: an exclamation mark, a name, and another mark if there is
one. Gives the name and whether it is closed. -/
def handle? : List Glyph → Option (List Char × Bool × List Glyph)
  | g :: rest =>
    if g.char = '!' then
      let (name, after) := nameRun rest
      match after with
      | h :: after' => if h.char = '!' then some (name, true, after') else some (name, false, after)
      | [] => some (name, false, [])
    else none
  | [] => none

/-- A tag ends before a blank, and inside a flow collection before a comma. -/
def endsTag (inFlow : Bool) (gs : List Glyph) : Bool := blankAhead gs || (inFlow && ahead ',' gs)

/-- The handle and the suffix of the tag at the front of a text. -/
def tagParts? (gs : List Glyph) : Option (String × Tag × List Glyph) :=
  match gs with
  | g :: h :: rest =>
    if g.char = '!' ∧ h.char = '<' then do
      let (tag, after) ← tagText? true rest
      if ahead '>' after then return ("", tag, after.tail) else none
    else do
      let (name, closed, after) ← handle? gs
      if closed then
        let (suffix, after) ← tagText? false after
        return (String.ofList ('!' :: name ++ ['!']), suffix, after)
      else
        let (more, after) ← tagRun? false (after.length + 1) after
        let suffix := Tag.ofChars name ++ .ofBytes more
        if suffix.bytes.isEmpty then return ("", .mark, after) else return ("!", suffix, after)
  | _ => if ahead '!' gs then some ("", .mark, gs.tail) else none

/-- The tag at the front of a text. -/
def tagToken? (inFlow : Bool) (gs : List Glyph) : Option (Token × List Glyph) := do
  let (handle, suffix, rest) ← tagParts? gs
  if endsTag inFlow rest then return (.tag handle suffix, rest) else none

/-- A character that may follow the name of a node. -/
def endsNodeName : List Glyph → Bool
  | [] => true
  | g :: _ => g.isGap || ['?', ':', ',', ']', '\x7d', '%', '@', '\x60'].contains g.char

/-- The name of a node. -/
def nodeName? (gs : List Glyph) : Option (String × List Glyph) :=
  match nameRun gs with
  | ([], _) => none
  | (name, rest) => if endsNodeName rest then some (String.ofList name, rest) else none

/-- A number of at most nine digits. -/
def shortNumber? (gs : List Glyph) : Option (Nat × List Glyph) :=
  let digits := gs.takeWhile fun g => g.char.isDigit
  if digits.isEmpty ∨ 9 < digits.length then none
  else some (digits.foldl (fun n g => n * 10 + (g.char.toNat - '0'.toNat)) 0,
    gs.dropWhile fun g => g.char.isDigit)

/-- The version of a version line. -/
def versionDirective? (gs : List Glyph) : Option (Token × List Glyph) := do
  let (major, rest) ← shortNumber? (gs.dropWhile Glyph.isBlank)
  if ahead '.' rest then
    let (minor, rest) ← shortNumber? rest.tail
    return (.version major minor, rest)
  else none

/-- The handle of a tag line and what it stands for. -/
def tagDirective? (gs : List Glyph) : Option (Token × List Glyph) := do
  let (name, closed, rest) ← handle? (gs.dropWhile Glyph.isBlank)
  if !closed && !name.isEmpty then none
  if !(rest.head?.any Glyph.isBlank) then none
  let (stem, rest) ← tagText? true (rest.dropWhile Glyph.isBlank)
  let handle := if closed then '!' :: name ++ ['!'] else ['!']
  if blankAhead rest then return (.tagHandle (String.ofList handle) stem, rest)
  else none

/-- A line that says something about the document, without the percent sign it starts with. -/
def directive? (gs : List Glyph) : Option (Token × List Glyph) := do
  let (name, rest) := nameRun gs
  if !blankAhead rest then none
  let (token, rest) ←
    if name = "YAML".toList then versionDirective? rest
    else if name = "TAG".toList then tagDirective? rest
    else none
  return (token, ← endLine? rest)

end ActionPolicy.Yaml
