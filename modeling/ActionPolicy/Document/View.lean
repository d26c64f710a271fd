import ActionPolicy.Document.Source

/-!
# Plain data as a source

Data keep the type they are written with: a number is no text, and nothing is a record.

## Main definitions

* `Scalar.found`, `Datum.found` – what a datum is, in the terms of faults.
* `Datum.label` – the key of a record that a datum is.
* the instance `Source View`.

## Design notes

A name from a closed vocabulary can also be written as a map with this name as its only key and a
null as its value. Data read from a text have no words for what else stands in place of a name.
Nothing in plain data is a reference.
-/

namespace ActionPolicy

/-- How many containers may be nested in a document where its data are kept. -/
def nestingLimit : Nat := 127

namespace Scalar

/-- What a scalar is; none if it cannot be kept. -/
def found? : Scalar → Option Found
  | null => some .null
  | bool b => some (.bool b)
  | int n => some (.int n)
  | float x => some (.float x)
  | text s => some (.text s)
  | negativeZero => some (.int 0)
  | tooLarge => none
  | garbled => none

end Scalar

namespace Datum

/-- What a datum is; none if it is a scalar that cannot be kept. -/
def found? : Datum → Option Found
  | scalar s => s.found?
  | list _ => some .list
  | map _ => some .map

/-- The error of a datum of the wrong type. -/
def mismatch (d : Datum) (expected : Expected) : DecodeError :=
  match d.found? with
  | some found => .ofFault (.wrongType found expected)
  | none => .unkeepable

/-- The key of a record that a datum is: a text names a field, and an integer without a sign counts
to one. -/
def label (d : Datum) : Label :=
  match d with
  | .scalar (.text s) => .name s
  | .scalar (.int n) => if 0 ≤ n then .position n.toNat else .bad (d.mismatch .fieldName)
  | _ => .bad (d.mismatch .fieldName)

/-- One of the given names; data that were set aside may also count to it. -/
def nameAmong (names : List String) (d : Datum) : Except DecodeError String :=
  match d with
  | .scalar (.text s) =>
    if names.contains s then .ok s else .error (.ofFault (.unknownVariant s names))
  | .scalar (.int n) =>
    if 0 ≤ n then
      match names[n.toNat]? with
      | some s => .ok s
      | none => .error (.ofFault (.wrongValue (.int n) (.variantNumber names.length)))
    else .error (d.mismatch .variantName)
  | _ => .error (d.mismatch .variantName)

/-- The value that follows the name of a variant holds nothing. -/
def checkUnit (flavour : Flavour) (d : Datum) : Except DecodeError Unit :=
  match d with
  | .scalar .null => .ok ()
  | .map [] => if flavour = .kept then .ok () else .error (d.mismatch .unit)
  | _ => .error (d.mismatch .unit)

/-- The text of a tag field. -/
def tagName (names : List String) (d : Datum) : Except DecodeError String :=
  match d with
  | .scalar (.text s) =>
    if names.contains s then .ok s else .error (.ofFault (.unknownVariant s names))
  | _ => .error (d.mismatch .variantName)

end Datum

namespace View

/-- The root of a document read from a text. -/
def ofText (d : Datum) : View := ⟨.text, 0, d⟩

/-- A value as a document. -/
def ofJson (j : Json) : View := ⟨.tree, 0, j.toDatum⟩

/-- A part of a container. -/
def child (v : View) (d : Datum) : View := { v with level := v.level + 1, datum := d }

/-- The part and all it holds can be kept: a text may not nest containers too deeply. -/
def keepable (v : View) : Bool :=
  v.datum.keepable && (v.flavour ≠ .text || v.level + v.datum.depth ≤ nestingLimit)

/-- A text. -/
def text (v : View) : Except DecodeError String :=
  match v.datum with
  | .scalar (.text s) => .ok s
  | d => .error (d.mismatch .text)

/-- A truth value. -/
def bool (v : View) : Except DecodeError Bool :=
  match v.datum with
  | .scalar (.bool b) => .ok b
  | d => .error (d.mismatch .bool)

/-- An unsigned integer of 32 bits. -/
def word32 (v : View) : Except DecodeError UInt32 :=
  match v.datum with
  | .scalar .negativeZero => .ok 0
  | .scalar (.int n) =>
    if 0 ≤ n ∧ n < UInt32.size then .ok n.toNat.toUInt32
    else .error (.ofFault (.wrongValue (.int n) .word32))
  | d => .error (d.mismatch .word32)

/-- The part itself, unless it is null. -/
def option (v : View) : Except DecodeError (Option View) :=
  match v.datum with
  | .scalar .null => .ok none
  | _ => .ok (some v)

/-- The items of a list. -/
def items (v : View) : Except DecodeError (List View) :=
  match v.datum with
  | .list ds => .ok (ds.map v.child)
  | d => .error (d.mismatch .list)

/-- What is wrong with a list of `n` values for a record of `width` fields. -/
def surplus (v : View) (n width : Nat) : DecodeError :=
  match v.flavour with
  | .text => .unworded
  | .tree => .ofFault (.wrongLength n .fewerItems)
  | .kept => .ofFault (.wrongLength n (.items width))

/-- The layout of a record. -/
def layout (name : String) (v : View) : Except DecodeError (Layout View) :=
  match v.datum with
  | .list ds => .ok (.values (ds.map v.child) (v.surplus ds.length))
  | .map entries => .ok (.members (entries.map fun (k, d) => ⟨k.label, 0, v.child d⟩))
  | d => .error (d.mismatch (.record name))

/-- One of the given names. -/
def variant (names : List String) (v : View) : Except DecodeError String :=
  match v.datum, v.flavour with
  | .scalar (.text s), _ => Datum.nameAmong names (.scalar (.text s))
  | .map ((k, d) :: rest), .text => do
    let s ← k.nameAmong names
    d.checkUnit .text
    if rest.isEmpty then return s else .error .unworded
  | .scalar .garbled, .text => .error .unkeepable
  | _, .text => .error .unworded
  | .map [(k, d)], flavour => do
    let s ← k.nameAmong names
    d.checkUnit flavour
    return s
  | .map _, _ => .error (.ofFault (.wrongValue .map .singleKeyMap))
  | d, _ => .error (d.mismatch .textOrMap)

/-- The tag among the members of a record, and the other members. A member that cannot be kept, a
second tag and a tag of no variant are faults, whichever comes first. -/
def splitTag (v : View) (field : String) (names : List String) (tag : Option String)
    (others : List (Datum × Datum)) :
    List (Datum × Datum) → Except DecodeError (String × View)
  | [] =>
    match tag with
    | some t => .ok (t, ⟨.kept, v.level, .map others.reverse⟩)
    | none => .error (.ofFault (.missingField field))
  | (.scalar (.text s), d) :: rest => do
    if s = field then
      if tag.isSome then .error (.ofFault (.duplicateField field))
      else splitTag v field names (some (← d.tagName names)) others rest
    else if (v.child d).keepable then
      splitTag v field names tag ((.scalar (.text s), d) :: others) rest
    else .error .unkeepable
  | (k, d) :: rest =>
    if (v.child k).keepable && (v.child d).keepable then
      splitTag v field names tag ((k, d) :: others) rest
    else .error .unkeepable

/-- One of several records, told apart by a field. -/
def tagged (name field : String) (names : List String) (v : View) :
    Except DecodeError (String × View) :=
  match v.datum with
  | .list [] => .error (.ofFault (.missingField field))
  | .list (d :: rest) => do
    let t ← d.tagName names
    if rest.all fun d => (v.child d).keepable then return (t, ⟨.kept, v.level, .list rest⟩)
    else .error .unkeepable
  | .map entries => v.splitTag field names none [] entries
  | d => .error (d.mismatch (.taggedRecord name))

/-- Members of any names. -/
def members (v : View) : Except DecodeError (List (String × Json)) :=
  match v.datum with
  | .map entries =>
    if v.keepable then
      match Datum.entriesToJson? [] entries with
      | some ms => .ok ms
      | none => .error .unkeepable
    else .error .unkeepable
  | d => .error (d.mismatch .map)

instance : Source View where
  text v := .ofExcept v.text
  bool v := .ofExcept v.bool
  word32 v := .ofExcept v.word32
  option v := .ofExcept v.option
  items v := .ofExcept v.items
  layout name v := .ofExcept (v.layout name)
  variant names v := .ofExcept (v.variant names)
  tagged name field names v := .ofExcept (v.tagged name field names)
  members v := .ofExcept v.members
  locate _ e := e

end View

end ActionPolicy
