/-!
# Placed characters

A YAML text as the list of its characters, each with its place. Every way to end a line is one
character, so a reader need not know that there are several.

## Main definitions

* `Glyph` – a character with its place.
* `Glyph.ofText?` – the characters of a text; none if one of them is not allowed in YAML.
* `blankAhead`, `documentMark`, `endLine?` – what comes next.

## Design notes

A carriage return, a line feed, the two of them and the next-line character all read as a line
feed. The separators of lines and paragraphs end a line too and stay what they are. A column counts
characters, an index the bytes they take in UTF-8.
-/

namespace ActionPolicy.Yaml

/-- A character with its place in the text. -/
structure Glyph where
  char : Char
  /-- How many bytes come before it. -/
  index : Nat
  /-- How many lines end before it. -/
  line : Nat
  /-- How many characters come before it in its line. -/
  column : Nat
  deriving DecidableEq, Repr, Inhabited

/-- A character that separates lines or paragraphs and is kept where lines are joined. -/
def isSeparator (c : Char) : Bool := c = '\u2028' || c = '\u2029'

/-- A character that ends a line and reads as a line feed. -/
def isLineEnd (c : Char) : Bool := c = '\n' || c = '\x0d' || c = '\x85'

/-- A character that may stand in a YAML text. -/
def isAllowed (c : Char) : Bool :=
  let n := c.toNat
  n = 0x9 || n = 0xA || n = 0xD || (0x20 ≤ n && n ≤ 0x7E) || n = 0x85 ||
    (0xA0 ≤ n && n ≤ 0xFFFD) || 0x10000 ≤ n

namespace Glyph

/-- The character ends a line. -/
def isBreak (g : Glyph) : Bool := g.char = '\n' || isSeparator g.char

/-- The character is a space or a tab. -/
def isBlank (g : Glyph) : Bool := g.char = ' ' || g.char = '\t'

/-- The character is a byte order mark that starts a line. -/
def isByteOrderMark (g : Glyph) : Bool := g.char = '\uFEFF' && g.column = 0

/-- The character is a space or a tab, or ends a line. -/
def isGap (g : Glyph) : Bool := g.isBlank || g.isBreak

/-- Characters with their places, of which the first has the given place. -/
def place (index line column : Nat) : List Char → List Glyph
  | [] => []
  | '\x0d' :: '\n' :: rest => ⟨'\n', index, line, column⟩ :: place (index + 2) (line + 1) 0 rest
  | c :: rest =>
    let next := index + c.utf8Size
    if isLineEnd c then ⟨'\n', index, line, column⟩ :: place next (line + 1) 0 rest
    else if isSeparator c then ⟨c, index, line, column⟩ :: place next (line + 1) 0 rest
    else ⟨c, index, line, column⟩ :: place next line (column + 1) rest

/-- The characters of a text. -/
def ofText? (text : String) : Option (List Glyph) :=
  let cs := text.toList
  if cs.all isAllowed then some (place 0 0 0 cs) else none

end Glyph

/-- The text ends here or goes on with a blank or the end of a line. -/
def blankAhead : List Glyph → Bool
  | [] => true
  | g :: _ => g.isGap

/-- The next character is the given one. -/
def ahead (c : Char) : List Glyph → Bool
  | [] => false
  | g :: _ => g.char = c

/-- A line starts here with three times the given character and nothing else up to a blank. -/
def documentMark (c : Char) : List Glyph → Bool
  | g₁ :: g₂ :: g₃ :: rest =>
    g₁.column = 0 && g₁.char = c && g₂.char = c && g₃.char = c && blankAhead rest
  | _ => false

/-- A line starts here that starts or ends a document. -/
def anyDocumentMark (gs : List Glyph) : Bool := documentMark '-' gs || documentMark '.' gs

/-- The text after the end of a line of which only blanks and a comment are left. -/
def endLine? (gs : List Glyph) : Option (List Glyph) :=
  let gs := gs.dropWhile Glyph.isBlank
  let gs := if ahead '#' gs then gs.dropWhile fun g => !g.isBreak else gs
  match gs with
  | [] => some []
  | g :: rest => if g.isBreak then some rest else none

/-- The value of a digit of base sixteen. -/
def hexDigit? (c : Char) : Option Nat :=
  if '0' ≤ c ∧ c ≤ '9' then some (c.toNat - '0'.toNat)
  else if 'a' ≤ c ∧ c ≤ 'f' then some (c.toNat - 'a'.toNat + 10)
  else if 'A' ≤ c ∧ c ≤ 'F' then some (c.toNat - 'A'.toNat + 10)
  else none

/-- A character of a name: an ASCII letter or digit, a hyphen or an underscore. -/
def isNameChar (c : Char) : Bool := c.isAlphanum || c = '_' || c = '-'

end ActionPolicy.Yaml
