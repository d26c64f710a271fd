import ActionPolicy.Document.Text
import ActionPolicy.Yaml.Value

/-!
# YAML as a source

A scalar is read as what is expected: any scalar is a text, and one without quotes is a number, a
truth value or a null where one of these is expected. Only where nothing is expected does a scalar
have a type of its own.

## Main definitions

* `Part` – a part of a document with the way to it.
* `Part.content` – the data that a part holds, where nothing is expected of it.
* the instance `Source Part`.
* `Document.readYaml` – reads a YAML text with a reader of its parts.

## Design notes

Where nothing is written, a record has no fields and a list no items. A named part may be used
again, and a part may hold itself, so the depth of what is read and the number of references that
are followed have limits. The second one is for the whole document; where data are read of which
nothing is expected, reading also stops at it, as such data could hold more than can ever be read.
-/

namespace ActionPolicy.Yaml

/-- A part of a document. -/
structure Part where
  tree : Tree
  /-- The node; none if there is nothing in the document. -/
  node : Option Node
  path : List Step
  /-- How many containers it stands in. -/
  level : Nat

/-- How many containers may be nested. -/
def depthLimit : Nat := 128

/-- How often references may be followed, for each node and end of a collection. -/
def referenceFactor : Nat := 100

/-- How often references may be followed. -/
def Tree.referenceLimit (t : Tree) : Nat := t.events * referenceFactor

/-- What data are read for, which decides what cannot be among them. -/
inductive Purpose where
  /-- Being set aside until it is known which record they are. -/
  | kept
  /-- Being the name of the field that tells records apart, or set aside as another key. -/
  | key (field : String)
  | json
  deriving DecidableEq, Repr

namespace Purpose

/-- What the parts of a container are read for. -/
def ofParts : Purpose → Purpose
  | kept => kept
  | key _ => kept
  | json => json

/-- The fault of a value under a local tag. -/
def tagFault : Purpose → Fault
  | kept => .taggedContent
  | key _ => .taggedContent
  | json => .wrongType .tagged .anyJson

/-- The fault of an integer of more than 64 bits. -/
def wideFault (n : Int) : Purpose → Fault
  | kept => .wrongType (.wideInt n) .anyValue
  | key field => .wrongType (.wideInt n) (.tagOrAny field)
  | json => .numberOutOfRange

end Purpose

namespace Value

/-- A value as data, unless it cannot be among them. -/
def toScalar (purpose : Purpose) : Value → Except Fault Scalar
  | null => .ok .null
  | bool b => .ok (.bool b)
  | int n => .ok (.int n)
  | negativeZero => .ok .negativeZero
  | wide n => .error (purpose.wideFault n)
  | float x => .ok (.float x)
  | text s => .ok (.text s)

end Value

namespace Node

/-- The tag of a node. -/
def tag : Node → Option Tag
  | scalar tag _ _ => tag
  | sequence tag _ => tag
  | mapping tag _ => tag
  | reference _ => none

/-- The name of the local tag of a node. -/
def localName? (n : Node) : Option String := n.tag.bind Tag.localName?

/-- The step to the value of a key. -/
def step : Node → Step
  | scalar _ _ s => .key s
  | _ => .unnamed

/-- How many references are followed from a node to what it stands for. -/
def distance : Node → Nat
  | reference _ => 1
  | _ => 0

end Node

/-- A fault with its place. -/
def faultAt (path : List Step) (f : Fault) : DecodeError := .fault (some path) f

/-- A fault of the whole document. -/
def globalFault (f : Fault) : DecodeError := .fault (some []) f

/-! ### Data of which nothing is expected -/

/-- Reading that counts down how often references may still be followed. -/
abbrev Counting := StateT Nat Decoded

/-- The node that a reference stands for. -/
def follow (tree : Tree) : Node → Counting Node
  | .reference number => do
    Decoded.followOne
    match ← get with
    | 0 => throw (globalFault .tooManyReferences)
    | n + 1 =>
      set n
      return (tree.node? number).getD (.reference number)
  | node => return node

/-- A key that has to be a text. -/
def textKey (tree : Tree) (path : List Step) (first : Bool) (key : Node) : Counting String := do
  let expected := if first then Expected.textKey else .text
  match ← follow tree key with
  | .scalar _ _ s => return s
  | .sequence _ _ => throw (faultAt path (.wrongType .list expected))
  | _ => throw (faultAt path (.wrongType .map expected))

/-- The data of a node that lies at a place and may hold so many nested containers. -/
def content (tree : Tree) : Nat → Purpose → List Step → Node → Counting Datum
  | room, purpose, path, node => do
    let node ← follow tree node
    if node.localName?.isSome then throw (faultAt path purpose.tagFault)
    match room, node with
    | _, .scalar tag style s =>
      match Value.ofScalar tag style s >>= Value.toScalar purpose with
      | .ok v => return .scalar v
      | .error f => throw (faultAt path f)
    | room + 1, .sequence _ items => do
      let ds ← items.zipIdx.mapM fun (item, i) =>
        content tree room purpose.ofParts (path ++ [.index i]) item
      return .list ds
    | room + 1, .mapping _ entries => do
      let ds ← entries.zipIdx.mapM fun ((key, value), i) => do
        let k ← match purpose with
          | .json => do pure (.scalar (.text (← textKey tree path (i = 0) key)))
          | _ => content tree room .kept path key
        return (k, ← content tree room purpose.ofParts (path ++ [key.step]) value)
      return .map ds
    | _, _ => throw (globalFault .tooDeep)

/-! ### Parts -/

namespace Part

/-- The node with a reference followed. -/
def target (p : Part) : Option Node :=
  p.node.map fun
    | .reference number => (p.tree.node? number).getD (.reference number)
    | node => node

/-- How many references are followed to get at the part. -/
def distance (p : Part) : Nat := (p.node.map Node.distance).getD 0

/-- The part with its reference followed. -/
def settled (p : Part) : Part := { p with node := p.target }

/-- A fault of this part. -/
def fail {α : Type} (p : Part) (f : Fault) : Except DecodeError α := .error (faultAt p.path f)

/-- The fault of a part of the wrong type. -/
def mismatch {α : Type} (p : Part) (expected : Expected) : Except DecodeError α :=
  match p.target with
  | none => .error (globalFault .endOfStream)
  | some (.scalar tag style s) =>
    match Value.ofScalar tag style s with
    | .ok v => p.fail (.wrongType v.found expected)
    | .error f => p.fail f
  | some (.sequence _ _) => p.fail (.wrongType .list expected)
  | some _ => p.fail (.wrongType .map expected)

/-- A part of a container. -/
def child (p : Part) (step : Step) (node : Node) : Part :=
  { p with node := some node, path := p.path ++ [step], level := p.level + 1 }

/-- Nothing is written. -/
def isBlank (p : Part) : Bool :=
  match p.target with
  | none => true
  | some (.scalar _ .plain "") => true
  | _ => false

/-- The scalar can be read as a value of a core type: it has no quotes, or stays as it is under
the tag of this type. -/
def readsAs (core : String) (tag : Option Tag) (style : ScalarStyle) : Bool :=
  style = .plain || (style = .literal && tag = some (.core core))

/-- Any scalar is a text. -/
def text (p : Part) : Except DecodeError String :=
  match p.target with
  | some (.scalar _ _ s) => .ok s
  | _ => p.mismatch .text

/-- A truth value. -/
def bool (p : Part) : Except DecodeError Bool :=
  match p.target with
  | some (.scalar tag style s) =>
    match if readsAs "bool" tag style then Value.bool? s else none with
    | some b => .ok b
    | none => p.mismatch .bool
  | _ => p.mismatch .bool

/-- An unsigned integer of 32 bits. -/
def word32 (p : Part) : Except DecodeError UInt32 :=
  match p.target with
  | some (.scalar tag style s) =>
    match if readsAs "int" tag style then Value.unsigned? Value.maxWord64 s else none with
    | some n =>
      if n < UInt32.size then .ok n.toUInt32 else p.fail (.wrongValue (.int n) .word32)
    | none => p.mismatch .word32
  | _ => p.mismatch .word32

/-- The part itself, its reference followed, unless it is null or nothing is written. Quotes and
tags other than the one of nulls make it something. -/
def option (p : Part) : Except DecodeError (Option Part) :=
  match p.target with
  | none => .ok none
  | some (.scalar none .plain s) =>
    .ok (if s = "" ∨ Value.isNullWord s then none else some p.settled)
  | some (.scalar (some tag) .plain s) =>
    if tag ≠ .core "null" then .ok (some p.settled)
    else if Value.isNullWord s then .ok none
    else .error (.ofFault (.wrongValue (.text s) .null))
  | some _ => .ok (some p.settled)

/-- One more container may be nested. -/
def enter (p : Part) : Except DecodeError Unit :=
  if p.level < depthLimit then .ok () else .error (globalFault .tooDeep)

/-- The items of a list. -/
def items (p : Part) : Except DecodeError (List Part) :=
  match p.target with
  | some (.sequence _ ns) => do
    p.enter
    return ns.zipIdx.map fun (n, i) => p.child (.index i) n
  | _ => if p.isBlank then .ok [] else p.mismatch .list

/-- The key of a record that a node is: any scalar names a field. -/
def label (p : Part) (key : Node) : Label :=
  match { p with node := some key }.target with
  | some (.scalar _ _ s) => .name s
  | some (.sequence _ _) => .bad (faultAt p.path (.wrongType .list .fieldName))
  | _ => .bad (faultAt p.path (.wrongType .map .fieldName))

/-- The layout of a record: only keys with their values. -/
def layout (name : String) (p : Part) : Except DecodeError (Layout Part) :=
  match p.target with
  | some (.mapping _ entries) => do
    p.enter
    return .members (entries.map fun (k, v) => ⟨p.label k, k.distance, p.child k.step v⟩)
  | _ => if p.isBlank then .ok (.members []) else p.mismatch (.record name)

/-- A name among those given. -/
def nameAmong (names : List String) (s : String) : Except Fault String :=
  if names.contains s then .ok s else .error (.unknownVariant s names)

/-- The value behind a tag that names a variant holds nothing. -/
def checkUnit (p : Part) : Except DecodeError Unit :=
  match p.target with
  | some (.scalar _ style s) =>
    if s = "" ∨ (style = .plain ∧ Value.isNullWord s) then .ok ()
    else p.fail (.wrongValue (.text s) .null)
  | _ => p.mismatch .unit

/-- The place of a local tag that names no variant: that of the reference to it, if there is one,
and else not known here. -/
def locateTag (p : Part) (f : Fault) : DecodeError :=
  match p.node with
  | some (.reference _) => faultAt p.path f
  | _ => .ofFault f

/-- One of the given names, as a scalar or as a local tag. -/
def variant (names : List String) (p : Part) : Except DecodeError String :=
  match p.target with
  | none => .error (globalFault .endOfStream)
  | some node =>
    match node.localName?, node with
    | some name, _ => do
      let s ← (nameAmong names name).mapError p.locateTag
      p.checkUnit
      return s
    | none, .scalar _ _ s => (nameAmong names s).mapError (faultAt p.path)
    | none, _ => p.mismatch .tag

/-- One of the given names, as a scalar. -/
def plainName (names : List String) (p : Part) : Except DecodeError String :=
  match p.target with
  | some (.scalar _ _ s) => (nameAmong names s).mapError (faultAt p.path)
  | _ => p.mismatch .variantName

/-- What was read of the part, counting the reference to it. -/
def counted {α : Type} (p : Part) (read : Except DecodeError α) : Decoded α :=
  (Decoded.ofExcept read).after p.distance

/-- Runs a counting reader from the start of the count. -/
def limited {α : Type} (p : Part) (read : Counting α) : Decoded α :=
  Prod.fst <$> read.run p.tree.referenceLimit

/-- The data of a node in this container. -/
def childContent (p : Part) (purpose : Purpose) (path : List Step) (node : Node) :
    Counting Datum :=
  content p.tree (depthLimit - p.level - 1) purpose path node

/-- The tag among the entries of a record, and the other entries as data. -/
def splitTag (p : Part) (field : String) (names : List String) (tag : Option String)
    (others : List (Datum × Datum)) : List (Node × Node) → Counting (String × View)
  | [] =>
    match tag with
    | some t => return (t, ⟨.kept, p.level, .map others.reverse⟩)
    | none => throw (faultAt p.path (.missingField field))
  | (key, value) :: rest => do
    match ← p.childContent (.key field) p.path key with
    | .scalar (.text s) =>
      if s = field then
        if tag.isSome then throw (faultAt p.path (.duplicateField field))
        else
          let c := p.child key.step value
          let t ← c.counted (c.plainName names)
          splitTag p field names (some t) others rest
      else
        let d ← p.childContent .kept (p.path ++ [key.step]) value
        splitTag p field names tag ((.scalar (.text s), d) :: others) rest
    | k =>
      let d ← p.childContent .kept (p.path ++ [key.step]) value
      splitTag p field names tag ((k, d) :: others) rest

/-- One of several records, told apart by a field. The list form starts with the name. -/
def tagged (name field : String) (names : List String) (p : Part) : Decoded (String × View) := do
  match p.target with
  | none => p.fail (.wrongType .option (.taggedRecord name))
  | some node =>
    if node.localName?.isSome then p.fail (.wrongType .tagged (.taggedRecord name))
    else
      match node with
      | .mapping _ entries =>
        p.enter
        p.limited (p.splitTag field names none [] entries)
      | .sequence _ [] => p.fail (.missingField field)
      | .sequence _ (first :: rest) =>
        p.enter
        let c := p.child (.index 0) first
        let t ← c.counted (c.plainName names)
        let ds ← p.limited (rest.zipIdx.mapM fun (n, i) =>
          p.childContent .kept (p.path ++ [.index (i + 1)]) n)
        return (t, ⟨.kept, p.level, .list ds⟩)
      | _ => p.mismatch (.taggedRecord name)

/-- Members of any names, ordered by name. -/
def members (p : Part) : Decoded (List (String × Json)) := do
  match p.target with
  | some (.mapping _ entries) =>
    p.enter
    let ds ← p.limited (entries.mapM fun (key, value) => do
      let k ← textKey p.tree p.path false key
      return (Datum.scalar (.text k), ← p.childContent .json (p.path ++ [key.step]) value))
    return (Datum.entriesToJson? [] ds).getD []
  | _ => if p.isBlank then return [] else p.mismatch .map

instance : Source Part where
  text p := p.counted p.text
  bool p := p.counted p.bool
  word32 p := p.counted p.word32
  option p := p.counted p.option
  items p := p.counted p.items
  layout name p := p.counted (p.layout name)
  variant names p := p.counted (p.variant names)
  tagged name field names p := (p.tagged name field names).after p.distance
  members p := p.members.after p.distance
  locate p e := e.within p.path

end Part

end ActionPolicy.Yaml

namespace ActionPolicy.Document

/-- Reads a YAML text that is one document. -/
def readYaml {α : Type} (read : Yaml.Part → Decoded α) (text : String) :
    Except DocumentError α :=
  match Yaml.Tree.ofText? text with
  | none => .error .malformed
  | some tree =>
    let excess := Yaml.globalFault .tooManyReferences
    ((read ⟨tree, tree.root, [], 0⟩).limited tree.referenceLimit excess).mapError (errorIn .yaml)

end ActionPolicy.Document
