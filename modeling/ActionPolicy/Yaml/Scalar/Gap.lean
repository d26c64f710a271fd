import ActionPolicy.Yaml.Glyph

/-!
# Gaps

Between two words of a scalar that may span lines stand blanks, or line ends with blanks around
them. Blanks on one line are kept; lines are joined.

## Main definitions

* `Gap` – what stands between two words.
* `Gap.text` – what it adds to the scalar.
* `Gap.read` – the gap at the front of a text.
-/

namespace ActionPolicy.Yaml

/-- What stands between two words. -/
inductive Gap where
  | blanks (chars : List Char)
  /-- The end of a line, unless it is escaped, and of further lines. -/
  | lines (first : Option Char) (more : List Char)
  deriving DecidableEq, Repr

namespace Gap

/-- The gap reaches over the end of a line. -/
def isLines : Gap → Bool
  | blanks _ => false
  | lines _ _ => true

/-- What the gap adds to the scalar. One line feed becomes a space, and of several the first is
dropped. -/
def text : Gap → List Char
  | blanks chars => chars
  | lines (some '\n') [] => [' ']
  | lines (some '\n') more => more
  | lines first more => first.toList ++ more

/-- Reads on in a gap. After the end of a line no tab may stand left of a margin. -/
def read (margin : Int) (gap : Gap) : List Glyph → Option (Gap × List Glyph)
  | [] => some (gap, [])
  | g :: rest =>
    if g.isBlank then
      match gap with
      | blanks chars => read margin (blanks (chars ++ [g.char])) rest
      | lines first more =>
        if g.char = '\t' ∧ (g.column : Int) < margin then none
        else read margin (lines first more) rest
    else if g.isBreak then
      match gap with
      | blanks _ => read margin (lines (some g.char) []) rest
      | lines first more => read margin (lines first (more ++ [g.char])) rest
    else some (gap, g :: rest)

end Gap

end ActionPolicy.Yaml
