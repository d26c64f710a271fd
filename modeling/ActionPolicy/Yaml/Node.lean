import ActionPolicy.Yaml.Token.Lexer

/-!
# YAML nodes

What a YAML text stands for: scalars, lists and maps, some of them named, and references to named
nodes.

## Main definitions

* `Node` – a node; a reference stands for a node by its number.
* `Tree` – the node of a document with the named nodes.
* `Tree.ofText?` – the document that a text is; none if it is not one well-formed document.

## Design notes

A name counts from where its node starts, so a node may refer to itself. A name given again
belongs to the new node from there on. The number of a named node is the number of different names
given before it; of nodes that come to have the same number the last one has it.
-/

namespace ActionPolicy.Yaml

/-- A node of a document. -/
inductive Node where
  /-- A scalar with its tag, if it has one. -/
  | scalar (tag : Option Tag) (style : ScalarStyle) (text : String)
  | sequence (tag : Option Tag) (items : List Node)
  /-- Keys with their values. -/
  | mapping (tag : Option Tag) (entries : List (Node × Node))
  /-- The named node with a number. -/
  | reference (number : Nat)
  deriving Inhabited, Repr

/-- A named node. -/
structure Anchored where
  number : Nat
  /-- How many named nodes start before it. -/
  place : Nat
  node : Node

/-- A document. -/
structure Tree where
  /-- Its node; none if there is nothing in the text. -/
  root : Option Node
  named : List Anchored
  /-- How many nodes and ends of collections there are. -/
  events : Nat

namespace Tree

/-- Of two named nodes the one that starts later. -/
def later (a : Option Anchored) (b : Anchored) : Option Anchored :=
  match a with
  | some x => if x.place ≤ b.place then some b else some x
  | none => some b

/-- The named node with a number. -/
def node? (t : Tree) (number : Nat) : Option Node :=
  ((t.named.filter fun a => a.number = number).foldl later none).map Anchored.node

end Tree

/-! ### From tokens to nodes -/

/-- What is left of the tokens, and what is known of names. -/
structure NodeReader where
  tokens : List Token
  /-- The names given so far with the numbers of their nodes. -/
  names : List (String × Nat)
  /-- How many named nodes have started. -/
  started : Nat
  /-- The named nodes that are complete. -/
  named : List Anchored
  /-- How many nodes and ends of collections there are. -/
  events : Nat

namespace NodeReader

/-- A step of reading. -/
abbrev Step := StateT NodeReader Option

/-- The next token; behind the last one the text ends. -/
def peek : Step Token := do return (← get).tokens.headD .streamEnd

/-- Go past the next token. -/
def advance : Step Unit := modify fun r => { r with tokens := r.tokens.tail }

/-- Go past the next token if it is the given one; tells whether it was. -/
def accept (t : Token) : Step Bool := do
  if (← peek) = t then advance; return true else return false

/-- Go past the next token, which has to be the given one. -/
def expect (t : Token) : Step Unit := do
  if !(← accept t) then failure

/-- Count a node or the end of a collection. -/
def countEvent : Step Unit := modify fun r => { r with events := r.events + 1 }

/-- A node that is not written. -/
def emptyNode : Step Node := do
  countEvent
  return .scalar none .plain ""

/-- What the handles of tags stand for. -/
abbrev Handles := List (String × Tag)

/-- The long form of a tag, if its handle stands for something. -/
def longTag? (handles : Handles) (handle : String) (suffix : Tag) : Option Tag :=
  if handle = "" then some suffix else (handles.lookup handle).map (· ++ suffix)

/-- The name and the tag before a node, in either order. -/
def properties (handles : Handles) : Step (Option String × Option Tag) := do
  let tagAhead : Step (Option Tag) := do
    match ← peek with
    | .tag handle suffix => advance; return some (← longTag? handles handle suffix)
    | _ => return none
  let nameAhead : Step (Option String) := do
    match ← peek with
    | .anchor name => advance; return some name
    | _ => return none
  match ← nameAhead with
  | some name => return (some name, ← tagAhead)
  | none =>
    let tag ← tagAhead
    if tag.isSome then return (← nameAhead, tag) else return (none, none)

/-- A named node starts here; gives its number and its place among the named nodes. -/
def start (name : Option String) : Step (Option (Nat × Nat)) := do
  countEvent
  match name with
  | none => return none
  | some name =>
    let r ← get
    let number := r.names.length
    let names := if (r.names.lookup name).isSome
      then r.names.map fun (n, k) => if n = name then (n, number) else (n, k)
      else (name, number) :: r.names
    set { r with names := names, started := r.started + 1 }
    return some (number, r.started)

/-- A node that has started is complete. -/
def complete (anchor : Option (Nat × Nat)) (node : Node) : Step Node := do
  match anchor with
  | some (number, place) => modify fun r => { r with named := ⟨number, place, node⟩ :: r.named }
  | none => pure ()
  return node

/-- A token that cannot start a value or key behind a mark in a collection by indentation. -/
def endsBlockPart (t : Token) : Bool := t = .key || t = .value || t = .blockEnd

mutual

/-- A node. In some places it cannot be a collection by indentation, and only as the value or key
of a map it can be a list with its dashes at the column of the key. -/
def node (handles : Handles) (block indentless : Bool) : Nat → Step Node
  | 0 => failure
  | fuel + 1 => do
    match ← peek with
    | .reference name =>
      advance
      countEvent
      return .reference (← (← get).names.lookup name)
    | _ =>
      let (name, tag) ← properties handles
      match ← peek with
      | .scalar style text =>
        advance
        complete (← start name) (.scalar tag style text)
      | .flowSequenceStart =>
        advance
        let anchor ← start name
        complete anchor (.sequence tag (← flowItems handles true fuel))
      | .flowMappingStart =>
        advance
        let anchor ← start name
        complete anchor (.mapping tag (← flowEntries handles true fuel))
      | t =>
        if indentless && t = .blockEntry then
          let anchor ← start name
          complete anchor (.sequence tag (← indentlessItems handles fuel))
        else if block && t = .blockSequenceStart then
          advance
          let anchor ← start name
          complete anchor (.sequence tag (← blockItems handles fuel))
        else if block && t = .blockMappingStart then
          advance
          let anchor ← start name
          complete anchor (.mapping tag (← blockEntries handles fuel))
        else if name.isSome || tag.isSome then complete (← start name) (.scalar tag .plain "")
        else failure

/-- The items of a list by indentation. -/
def blockItems (handles : Handles) : Nat → Step (List Node)
  | 0 => failure
  | fuel + 1 => do
    if ← accept .blockEntry then
      let t ← peek
      let item ← if t = .blockEntry || t = .blockEnd then emptyNode
        else node handles true false fuel
      return item :: (← blockItems handles fuel)
    else
      expect .blockEnd
      countEvent
      return []

/-- The items of a list with its dashes at the column of a key. It ends where no dash follows. -/
def indentlessItems (handles : Handles) : Nat → Step (List Node)
  | 0 => failure
  | fuel + 1 => do
    if ← accept .blockEntry then
      let t ← peek
      let item ← if t = .blockEntry || endsBlockPart t then emptyNode
        else node handles true false fuel
      return item :: (← indentlessItems handles fuel)
    else
      countEvent
      return []

/-- The entries of a map by indentation. -/
def blockEntries (handles : Handles) : Nat → Step (List (Node × Node))
  | 0 => failure
  | fuel + 1 => do
    if ← accept .key then
      let k ← if endsBlockPart (← peek) then emptyNode else node handles true true fuel
      let v ← if ← accept .value then
          if endsBlockPart (← peek) then emptyNode else node handles true true fuel
        else emptyNode
      return (k, v) :: (← blockEntries handles fuel)
    else
      expect .blockEnd
      countEvent
      return []

/-- The items of a list in brackets. A key among them makes a map of one entry. -/
def flowItems (handles : Handles) (first : Bool) : Nat → Step (List Node)
  | 0 => failure
  | fuel + 1 => do
    let closing : Step (List Node) := do
      expect .flowSequenceEnd
      countEvent
      return []
    if (← peek) = .flowSequenceEnd then closing
    else
      if !first then expect .flowEntry
      if (← peek) = .flowSequenceEnd then closing
      else
        let item ← if ← accept .key then flowPair handles fuel else node handles false false fuel
        return item :: (← flowItems handles false fuel)

/-- A map of one entry among the items of a list in brackets. Where the key is not written, the
token in its place is passed over. -/
def flowPair (handles : Handles) : Nat → Step Node
  | 0 => failure
  | fuel + 1 => do
    countEvent
    let t ← peek
    let k ← if t = .value || t = .flowEntry || t = .flowSequenceEnd then advance *> emptyNode
      else node handles false false fuel
    let v ← if ← accept .value then
        let t ← peek
        if t = .flowEntry || t = .flowSequenceEnd then emptyNode
        else node handles false false fuel
      else emptyNode
    countEvent
    return .mapping none [(k, v)]

/-- The entries of a map in braces. -/
def flowEntries (handles : Handles) (first : Bool) : Nat → Step (List (Node × Node))
  | 0 => failure
  | fuel + 1 => do
    let closing : Step (List (Node × Node)) := do
      expect .flowMappingEnd
      countEvent
      return []
    if (← peek) = .flowMappingEnd then closing
    else
      if !first then expect .flowEntry
      if ← accept .key then
        let t ← peek
        let k ← if t = .value || t = .flowEntry || t = .flowMappingEnd then emptyNode
          else node handles false false fuel
        let v ← if ← accept .value then
            let t ← peek
            if t = .flowEntry || t = .flowMappingEnd then emptyNode
            else node handles false false fuel
          else emptyNode
        return (k, v) :: (← flowEntries handles false fuel)
      else if (← peek) = .flowMappingEnd then closing
      else
        let k ← node handles false false fuel
        let v ← emptyNode
        return (k, v) :: (← flowEntries handles false fuel)

end

/-- The short forms of tags that need no line of their own. -/
def usualHandles : Handles := [("!", .mark), ("!!", .coreStem)]

/-- The lines before a document: at most one version, which has to be known, and short forms of
tags, each at most once. -/
def directives (versionSeen : Bool) (handles : Handles) : Nat → Step Handles
  | 0 => failure
  | fuel + 1 => do
    match ← peek with
    | .version major minor =>
      if versionSeen || major ≠ 1 || (minor ≠ 1 && minor ≠ 2) then failure
      else advance *> directives true handles fuel
    | .tagHandle handle stem =>
      if (handles.lookup handle).isSome then failure
      else advance *> directives versionSeen ((handle, stem) :: handles) fuel
    | _ => return handles

/-- The node behind the line that starts a document. -/
def documentNode (handles : Handles) (fuel : Nat) : Step Node := do
  match ← peek with
  | .version _ _ | .tagHandle _ _ | .documentStart | .documentEnd | .streamEnd => emptyNode
  | _ => node handles true false fuel

/-- Marks of the end of a document, behind which nothing follows. -/
def ending : Nat → Step Unit
  | 0 => failure
  | fuel + 1 => do if ← accept .documentEnd then ending fuel else expect .streamEnd

/-- The only document of a text, if there is one. -/
def document (fuel : Nat) : Step (Option Node) := do
  match ← peek with
  | .streamEnd => return none
  | .version _ _ | .tagHandle _ _ | .documentStart =>
    let handles ← directives false [] fuel
    expect .documentStart
    let root ← documentNode (handles ++ usualHandles) fuel
    ending fuel
    return some root
  | _ =>
    let root ← node usualHandles true false fuel
    ending fuel
    return some root

end NodeReader

namespace Tree

/-- The document that tokens make. Every level of a node uses up a token or two, so that three
times their number is enough for all levels. -/
def ofTokens? (tokens : List Token) : Option Tree := do
  let (root, r) ← NodeReader.document (3 * tokens.length + 3) |>.run ⟨tokens, [], 0, [], 0⟩
  return ⟨root, r.named, r.events⟩

/-- The document that a text is. -/
def ofText? (text : String) : Option Tree := do ofTokens? (← Token.ofText? text)

end Tree

end ActionPolicy.Yaml
