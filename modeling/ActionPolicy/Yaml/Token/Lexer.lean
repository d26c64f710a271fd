import ActionPolicy.Yaml.Scalar.Block
import ActionPolicy.Yaml.Scalar.Plain
import ActionPolicy.Yaml.Scalar.Quoted
import ActionPolicy.Yaml.Token.Tag

/-!
# From text to tokens

A key is known as one only at the colon behind it. So wherever a key may start, its place is kept,
and when the colon comes, the tokens that announce it are put there.

## Main definitions

* `SimpleKey` – a place where a key may have started.
* `Lexer` – what has been read, and what follows from it for the rest.
* `Token.ofText?` – the tokens of a text; none if it cannot be divided into tokens.

## Design notes

A key without a mark of its own has to be on one line with its colon and start at most 1024 bytes
before it. Inside brackets and braces, indentation means nothing. A byte order mark may stand at the
start of any line, unless the line belongs to a scalar.
-/

namespace ActionPolicy.Yaml

/-- A place where a key may have started. -/
structure SimpleKey where
  /-- If it is no key, the text is not well-formed. -/
  required : Bool
  /-- How many tokens come before it. -/
  number : Nat
  start : Glyph

/-- How many bytes may lie between the start of a key and its colon. -/
def maxKeyLength : Nat := 1024

namespace SimpleKey

/-- The colon at this place can still belong to the key. -/
def reaches (k : SimpleKey) (g : Glyph) : Bool :=
  k.start.line = g.line && g.index ≤ k.start.index + maxKeyLength

end SimpleKey

/-- What has been read of a text, and what follows from it for the rest. -/
structure Lexer where
  rest : List Glyph
  /-- The tokens read so far. -/
  tokens : Array Token
  /-- The column of the innermost collection by indentation; -1 outside of all. -/
  indent : Int
  /-- The columns of the collections around it. -/
  outer : List Int
  /-- A key may start here. -/
  keyAllowed : Bool
  /-- The place where a key may have started in what is inside the innermost brackets. -/
  candidate : Option SimpleKey
  /-- The same for what is around them, one for each pair of brackets that is open. -/
  outerCandidates : List (Option SimpleKey)

namespace Lexer

/-- Nothing has been read. -/
def start (gs : List Glyph) : Lexer := ⟨gs, #[], -1, [], true, none, []⟩

/-- The rest lies inside brackets or braces. -/
def inFlow (l : Lexer) : Bool := !l.outerCandidates.isEmpty

/-- A token was read. -/
def emit (l : Lexer) (t : Token) : Lexer := { l with tokens := l.tokens.push t }

/-- A token was read, and this is the rest of the text. -/
def emitThen (l : Lexer) (t : Token) (rest : List Glyph) : Lexer :=
  { l with tokens := l.tokens.push t, rest := rest }

/-- Skips blanks, comments, line ends and byte order marks. A key may start after the end of a
line. Where a key may start, a tab is no blank. -/
def skipGap (inFlow inComment keyAllowed : Bool) : List Glyph → Bool × List Glyph
  | [] => (keyAllowed, [])
  | g :: rest =>
    if g.isBreak then skipGap inFlow false (keyAllowed || !inFlow) rest
    else if inComment || g.isByteOrderMark || g.char = ' ' ||
        (g.char = '\t' && (inFlow || !keyAllowed)) then
      skipGap inFlow inComment keyAllowed rest
    else if g.char = '#' then skipGap inFlow true keyAllowed rest
    else (keyAllowed, g :: rest)

/-- A candidate that can still become a key at a place; none if it had to and cannot. -/
def stillPossible? (g : Glyph) : Option SimpleKey → Option (Option SimpleKey)
  | none => some none
  | some k => if k.reaches g then some (some k) else if k.required then none else some none

/-- The candidates that can still become keys at a place. -/
def dropStale? (g : Glyph) (l : Lexer) : Option Lexer := do
  return { l with
    candidate := ← stillPossible? g l.candidate
    outerCandidates := ← l.outerCandidates.mapM (stillPossible? g) }

/-- The candidate is no key. -/
def dropCandidate? (l : Lexer) : Option Lexer :=
  match l.candidate with
  | some k => if k.required then none else some { l with candidate := none }
  | none => some l

/-- A key may start at a place. -/
def saveCandidate? (g : Glyph) (l : Lexer) : Option Lexer :=
  if l.keyAllowed then do
    let required := !l.inFlow && l.indent = g.column
    return { ← l.dropCandidate? with candidate := some ⟨required, l.tokens.size, g⟩ }
  else some l

/-- The collections that are indented deeper than a column end. -/
def endBlocks (column : Int) (l : Lexer) : Lexer :=
  if l.inFlow then l
  else
    let ended := (l.indent :: l.outer).takeWhile fun i => column < i
    match (l.indent :: l.outer).dropWhile fun i => column < i with
    | i :: outer =>
      { l with
        tokens := l.tokens ++ Array.replicate ended.length .blockEnd
        indent := i
        outer := outer }
    | [] => l

/-- A collection starts at a column, if it is indented deeper than what is around it. Its first
token is put behind so many tokens. -/
def startBlock (column number : Nat) (t : Token) (l : Lexer) : Lexer :=
  if !l.inFlow ∧ l.indent < column then
    { l with
      tokens := l.tokens.insertIdxIfInBounds number t
      indent := column
      outer := l.indent :: l.outer }
  else l

/-- Brackets or braces open. -/
def openFlow? (g : Glyph) (rest : List Glyph) (t : Token) (l : Lexer) : Option Lexer := do
  let l ← l.saveCandidate? g
  return { l.emitThen t rest with
    keyAllowed := true
    candidate := none
    outerCandidates := l.candidate :: l.outerCandidates }

/-- Brackets or braces close. -/
def closeFlow? (rest : List Glyph) (t : Token) (l : Lexer) : Option Lexer := do
  let l ← l.dropCandidate?
  let l := { l.emitThen t rest with keyAllowed := false }
  match l.outerCandidates with
  | c :: cs => return { l with candidate := c, outerCandidates := cs }
  | [] => return l

/-- A comma. -/
def comma? (rest : List Glyph) (l : Lexer) : Option Lexer := do
  return { (← l.dropCandidate?).emitThen .flowEntry rest with keyAllowed := true }

/-- A dash before an item. -/
def dash? (g : Glyph) (rest : List Glyph) (l : Lexer) : Option Lexer := do
  if !l.inFlow && !l.keyAllowed then none
  let l ← (l.startBlock g.column l.tokens.size .blockSequenceStart).dropCandidate?
  return { l.emitThen .blockEntry rest with keyAllowed := true }

/-- A question mark before a key. -/
def keyMark? (g : Glyph) (rest : List Glyph) (l : Lexer) : Option Lexer := do
  if !l.inFlow && !l.keyAllowed then none
  let l ← (l.startBlock g.column l.tokens.size .blockMappingStart).dropCandidate?
  return { l.emitThen .key rest with keyAllowed := !l.inFlow }

/-- A colon before a value. If a key may have started, it was one. -/
def colon? (g : Glyph) (rest : List Glyph) (l : Lexer) : Option Lexer :=
  match l.candidate with
  | some k =>
    let l := { l with tokens := l.tokens.insertIdxIfInBounds k.number .key }
    let l := l.startBlock k.start.column k.number .blockMappingStart
    some { l.emitThen .value rest with candidate := none, keyAllowed := false }
  | none =>
    if !l.inFlow && !l.keyAllowed then none
    else
      let l := l.startBlock g.column l.tokens.size .blockMappingStart
      some { l.emitThen .value rest with keyAllowed := !l.inFlow }

/-- All collections by indentation end, and no key can be left open. -/
def endAllBlocks? (l : Lexer) : Option Lexer := do
  return { ← (l.endBlocks (-1)).dropCandidate? with keyAllowed := false }

/-- A part of a node that a key may start with, and after which none may. -/
def nodePart? (g : Glyph) (part : Option (Token × List Glyph)) (l : Lexer) : Option Lexer := do
  let l ← l.saveCandidate? g
  let (t, rest) ← part
  return { l.emitThen t rest with keyAllowed := false }

/-- A scalar in indented lines. -/
def block? (style : ScalarStyle) (rest : List Glyph) (l : Lexer) : Option Lexer := do
  let l ← l.dropCandidate?
  let (text, rest) ← blockScalar? (style = .folded) l.indent rest
  return { l.emitThen (.scalar style (String.ofList text)) rest with keyAllowed := true }

/-- A scalar without quotes. A key may start behind it if a line ended there. -/
def plain? (g : Glyph) (l : Lexer) : Option Lexer := do
  let l ← l.saveCandidate? g
  let (text, newLine, rest) ← plainScalar? l.inFlow (l.indent + 1) l.rest
  return { l.emitThen (.scalar .plain (String.ofList text)) rest with keyAllowed := newLine }

/-- The text of a scalar between quotes as a token. -/
def quotedToken? (quote : Quote) (rest : List Glyph) : Option (Token × List Glyph) := do
  let (text, rest) ← quotedScalar? quote rest
  return (.scalar .quoted (String.ofList text), rest)

/-- The token that starts at a character. -/
def token? (l : Lexer) (g : Glyph) (rest : List Glyph) : Option Lexer :=
  let marked := l.inFlow || blankAhead rest
  if g.column = 0 ∧ g.char = '%' then do
    let l ← l.endAllBlocks?
    let (t, rest) ← directive? rest
    return l.emitThen t rest
  else if documentMark '-' l.rest then do
    return (← l.endAllBlocks?).emitThen .documentStart (l.rest.drop 3)
  else if documentMark '.' l.rest then do
    return (← l.endAllBlocks?).emitThen .documentEnd (l.rest.drop 3)
  else if g.char = '[' then l.openFlow? g rest .flowSequenceStart
  else if g.char = '\x7b' then l.openFlow? g rest .flowMappingStart
  else if g.char = ']' then l.closeFlow? rest .flowSequenceEnd
  else if g.char = '\x7d' then l.closeFlow? rest .flowMappingEnd
  else if g.char = ',' then l.comma? rest
  else if g.char = '-' ∧ blankAhead rest then l.dash? g rest
  else if g.char = '?' ∧ marked then l.keyMark? g rest
  else if g.char = ':' ∧ marked then l.colon? g rest
  else if g.char = '*' then
    l.nodePart? g ((nodeName? rest).map fun (name, after) => (.reference name, after))
  else if g.char = '&' then
    l.nodePart? g ((nodeName? rest).map fun (name, after) => (.anchor name, after))
  else if g.char = '!' then l.nodePart? g (tagToken? l.inFlow l.rest)
  else if g.char = '|' ∧ !l.inFlow then l.block? .literal rest
  else if g.char = '>' ∧ !l.inFlow then l.block? .folded rest
  else if g.char = '\x27' then l.nodePart? g (quotedToken? .single rest)
  else if g.char = '\x22' then l.nodePart? g (quotedToken? .double rest)
  else if startsPlain l.inFlow l.rest then l.plain? g
  else none

/-- Reads all tokens. -/
def run? : Nat → Lexer → Option (Array Token)
  | 0, _ => none
  | fuel + 1, l =>
    let (keyAllowed, rest) := skipGap l.inFlow false l.keyAllowed l.rest
    let l := { l with keyAllowed := keyAllowed, rest := rest }
    match rest with
    | [] => do return ((← l.endAllBlocks?).emit .streamEnd).tokens
    | g :: rest => do run? fuel (← ((← l.dropStale? g).endBlocks g.column).token? g rest)

end Lexer

namespace Token

/-- The tokens of a text. -/
def ofText? (text : String) : Option (List Token) := do
  let gs ← Glyph.ofText? text
  return (← Lexer.run? (gs.length + 1) (.start gs)).toList

end Token

end ActionPolicy.Yaml
