import ActionPolicy.Yaml.Scalar.Gap

/-!
# Quoted scalars

A scalar between single or double quotes. Between single quotes a quote is written twice; between
double quotes a backslash starts an escape, and before the end of a line it joins the lines
without a space.

## Main definitions

* `escape?` – the character that an escape stands for.
* `quotedScalar?` – the quoted scalar at the front of a text.
-/

namespace ActionPolicy.Yaml

/-- The kind of quotes. -/
inductive Quote where
  | single
  | double
  deriving DecidableEq, Repr

namespace Quote

/-- The quote itself. -/
def char : Quote → Char
  | single => '\x27'
  | double => '\x22'

end Quote

/-- The character that an escape of one letter stands for. -/
def letterEscape? (c : Char) : Option Char :=
  match c with
  | '0' => some '\x00'
  | 'a' => some '\x07'
  | 'b' => some '\x08'
  | 't' => some '\t'
  | '\t' => some '\t'
  | 'n' => some '\n'
  | 'v' => some '\x0b'
  | 'f' => some '\x0c'
  | 'r' => some '\x0d'
  | 'e' => some '\x1b'
  | ' ' => some ' '
  | '\x22' => some '\x22'
  | '/' => some '/'
  | '\\' => some '\\'
  | 'N' => some '\x85'
  | '_' => some '\xa0'
  | 'L' => some '\u2028'
  | 'P' => some '\u2029'
  | _ => none

/-- How many digits follow the letter of an escape by number. -/
def numberEscape? (c : Char) : Option Nat :=
  match c with
  | 'x' => some 2
  | 'u' => some 4
  | 'U' => some 8
  | _ => none

/-- The character with a number, if there is one. -/
def charOfNumber? (n : Nat) : Option Char :=
  if h : n.isValidChar then some (Char.ofNatAux n h) else none

/-- The number that so many digits of base sixteen at the front of a text make. -/
def hexNumber? (value : Nat) : Nat → List Glyph → Option (Nat × List Glyph)
  | 0, gs => some (value, gs)
  | _ + 1, [] => none
  | n + 1, g :: rest => do
    let d ← hexDigit? g.char
    hexNumber? (value * 16 + d) n rest

/-- The character that an escape stands for, given its letter and what follows it. -/
def escape? (letter : Char) (gs : List Glyph) : Option (Char × List Glyph) :=
  match letterEscape? letter with
  | some c => some (c, gs)
  | none => do
    let (n, rest) ← hexNumber? 0 (← numberEscape? letter) gs
    return (← charOfNumber? n, rest)

/-- The word at the front of a text, whether it ends with an escaped line end, and what follows. -/
def quotedWord (quote : Quote) : Nat → List Glyph → Option (List Char × Bool × List Glyph)
  | 0, _ => none
  | _ + 1, [] => some ([], false, [])
  | fuel + 1, g :: rest =>
    let more (c : Char) (gs : List Glyph) : Option (List Char × Bool × List Glyph) := do
      let (word, joined, after) ← quotedWord quote fuel gs
      return (c :: word, joined, after)
    if g.isGap then some ([], false, g :: rest)
    else if g.char = quote.char then
      match quote, rest with
      | .single, h :: rest' =>
        if h.char = quote.char then more h.char rest' else some ([], false, g :: rest)
      | _, _ => some ([], false, g :: rest)
    else if quote = .double ∧ g.char = '\\' then
      match rest with
      | [] => none
      | h :: rest' =>
        if h.isBreak then some ([], true, rest')
        else do
          let (c, after) ← escape? h.char rest'
          more c after
    else more g.char rest

/-- Reads words and gaps up to the closing quote. No document may start or end in between. -/
def quotedWords (quote : Quote) : Nat → List Char → List Glyph → Option (List Char × List Glyph)
  | 0, _, _ => none
  | fuel + 1, text, gs =>
    if anyDocumentMark gs then none
    else do
      let (word, joined, rest) ← quotedWord quote (gs.length + 1) gs
      let text := text ++ word
      match rest with
      | [] => none
      | g :: after =>
        if g.char = quote.char then return (text, after)
        let (gap, after) ← Gap.read 0 (if joined then .lines none [] else .blanks []) rest
        quotedWords quote fuel (text ++ gap.text) after

/-- The text of a quoted scalar, and what comes after it. The opening quote is read already. -/
def quotedScalar? (quote : Quote) (gs : List Glyph) : Option (List Char × List Glyph) :=
  quotedWords quote (gs.length + 1) [] gs

end ActionPolicy.Yaml
