import ActionPolicy.Yaml.Scalar.Gap

/-!
# Plain scalars

A scalar without quotes. It consists of words with gaps between them, and ends where something
else begins: a colon before a blank, a comment, a line that is not indented.

## Main definitions

* `startsPlain` – a plain scalar starts here.
* `plainScalar?` – the plain scalar at the front of a text.
-/

namespace ActionPolicy.Yaml

/-- Characters that no plain scalar starts with, as they mean something else. -/
def indicators : List Char :=
  ['-', '?', ':', ',', '[', ']', '\x7b', '\x7d', '#', '&', '*', '!', '|', '>', '\x27', '\x22',
    '%', '@', '\x60']

/-- The characters that structure flow collections. -/
def isFlowMark (c : Char) : Bool :=
  c = ',' || c = '[' || c = ']' || c = '\x7b' || c = '\x7d'

/-- A plain scalar starts here. Some indicators may start one if no blank follows. -/
def startsPlain (inFlow : Bool) : List Glyph → Bool
  | [] => false
  | g :: rest =>
    (!g.isGap && !indicators.contains g.char) || (g.char = '-' && !blankAhead rest) ||
      (!inFlow && (g.char = '?' || g.char = ':') && !blankAhead rest)

/-- The word at the front of a text, which may be empty. In a flow collection no colon may stand
right before another mark. -/
def plainWord (inFlow : Bool) : List Glyph → Option (List Char × List Glyph)
  | [] => some ([], [])
  | g :: rest =>
    if g.isGap then some ([], g :: rest)
    else if inFlow && g.char = ':' && rest.head?.any (fun h => isFlowMark h.char || h.char = '?') then
      none
    else if (g.char = ':' && blankAhead rest) || (inFlow && isFlowMark g.char) then
      some ([], g :: rest)
    else do
      let (word, after) ← plainWord inFlow rest
      return (g.char :: word, after)

/-- The text goes on left of a margin. -/
def leftOf (margin : Int) : List Glyph → Bool
  | [] => false
  | g :: _ => (g.column : Int) < margin

/-- Reads words as long as there are some. Gives the text, whether a line ended behind it, and
what comes after. -/
def plainWords (inFlow : Bool) (margin : Int) :
    Nat → List Char → Gap → List Glyph → Option (List Char × Bool × List Glyph)
  | 0, _, _, _ => none
  | fuel + 1, text, gap, gs =>
    if anyDocumentMark gs || ahead '#' gs then some (text, gap.isLines, gs)
    else do
      let (word, rest) ← plainWord inFlow gs
      if word.isEmpty then return (text, gap.isLines, gs)
      let text := text ++ gap.text ++ word
      if !(rest.head?.any Glyph.isGap) then return (text, false, rest)
      let (gap, rest) ← Gap.read margin (.blanks []) rest
      if !inFlow && leftOf margin rest then return (text, gap.isLines, rest)
      plainWords inFlow margin fuel text gap rest

/-- The plain scalar at the front of a text, whether a line ended behind it, and what comes
after. -/
def plainScalar? (inFlow : Bool) (margin : Int) (gs : List Glyph) :
    Option (List Char × Bool × List Glyph) :=
  plainWords inFlow margin (gs.length + 1) [] (.blanks []) gs

end ActionPolicy.Yaml
