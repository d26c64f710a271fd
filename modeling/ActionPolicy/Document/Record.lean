import ActionPolicy.Document.Source

/-!
# Records

A record is described by its fields in declared order. The description says which names are known
and reads all fields, from named members or from a plain list.

## Main definitions

* `Reading` – what the fields of a record hold, or the fault among them.
* `Record` – a description that yields a value.
* `Record.required`, `Record.defaulted`, `Record.optional` – a record of one field.
* `Record.read` – reads a part of a document as a record.

## Design notes

Of several faults the one that comes first in the document counts. Every fault has a place: the
key of the `i`-th member stands at `2 * i`, its value at `2 * i + 1`, and a missing field comes
after all members, in declared order. So the fields can be read independently of one another. The
references followed up to the first fault are those at places that do not come after it.
-/

namespace ActionPolicy

/-- A fault with its place in the order of reading. -/
structure Slip where
  /-- Where it comes in the order of reading. -/
  place : Nat
  error : DecodeError

namespace Slip

/-- The one that comes first. -/
def first (s t : Slip) : Slip := if s.place ≤ t.place then s else t

end Slip

/-- What the fields of a record are read from. -/
structure Sheet (σ : Type) where
  name : String
  /-- How many fields the record has. -/
  width : Nat
  layout : Layout σ

/-- What fields hold. -/
structure Reading (α : Type) where
  /-- The value made of them, or the slip that comes first. -/
  result : Except Slip α
  /-- The places of the values, each with the number of references followed to read it. -/
  followed : List (Nat × Nat)

namespace Reading

variable {α β : Type}

/-- Fields that need not be read. -/
def ofExcept (r : Except Slip α) : Reading α := ⟨r, []⟩

/-- A field of which the value stands at a place. -/
def ofDecoded (place : Nat) (d : Decoded α) : Reading α :=
  ⟨d.result.mapError (Slip.mk place), [(place, d.followed)]⟩

/-- Both results, or the slip that comes first. -/
def both : Except Slip (α → β) → Except Slip α → Except Slip β
  | .ok f, .ok a => .ok (f a)
  | .ok _, .error t => .error t
  | .error s, .ok _ => .error s
  | .error s, .error t => .error (s.first t)

/-- Some fields and further ones. -/
def combine (f : Reading (α → β)) (x : Reading α) : Reading β :=
  ⟨both f.result x.result, f.followed ++ x.followed⟩

/-- The references followed up to the end or a slip are counted. -/
def toDecoded (r : Reading α) : Decoded α :=
  let reached := match r.result with
    | .ok _ => r.followed
    | .error s => r.followed.filter fun (place, _) => place ≤ s.place
  ⟨reached.foldr (fun (_, n) total => n + total) 0, r.result.mapError Slip.error⟩

end Reading

/-- A description of the fields of a record from which a value is made. -/
structure Record (σ α : Type) where
  /-- The names of the fields, in declared order. -/
  fields : List String
  /-- Reads the fields, of which the first has the given number. -/
  run : Sheet σ → Nat → Reading α

namespace Record

variable {σ α β : Type}

/-- The first member with the name or number of a field, and how many members stand before it. -/
def findMember? (name : String) (number : Nat) :
    Nat → List (Member σ) → Option (Nat × σ)
  | _, [] => none
  | i, m :: rest =>
    if m.label = .name name ∨ m.label = .position number then some (i, m.part)
    else findMember? name number (i + 1) rest

/-- A record of one field, with the value it has when it is not written. -/
def field (name : String) (read : σ → Decoded α) (default? : Option α) : Record σ α where
  fields := [name]
  run sheet number :=
    match sheet.layout with
    | .members entries =>
      match findMember? name number 0 entries, default? with
      | some (i, part), _ => .ofDecoded (2 * i + 1) (read part)
      | none, some d => .ofExcept (.ok d)
      | none, none =>
        .ofExcept (.error ⟨2 * entries.length + number, .ofFault (.missingField name)⟩)
    | .values items _ =>
      match items[number]?, default? with
      | some part, _ => .ofDecoded number (read part)
      | none, some d => .ofExcept (.ok d)
      | none, none =>
        .ofExcept
          (.error ⟨number, .ofFault (.wrongLength number (.recordList sheet.name sheet.width))⟩)

/-- A field that has to be written. -/
def required (name : String) (read : σ → Decoded α) : Record σ α := field name read none

/-- A field with a default. -/
def defaulted (name : String) (read : σ → Decoded α) (d : α) : Record σ α :=
  field name read (some d)

/-- A field that may be missing or null. -/
def optional [Source σ] (name : String) (read : σ → Decoded α) : Record σ (Option α) :=
  field name (Source.optional read) (some none)

instance : Applicative (Record σ) where
  pure a := ⟨[], fun _ _ => .ofExcept (.ok a)⟩
  seq f x :=
    let r := x ()
    ⟨f.fields ++ r.fields, fun sheet number =>
      (f.run sheet number).combine (r.run sheet (number + f.fields.length))⟩

/-- The number of the field that a key stands for. -/
def fieldNumber? (fields : List String) : Label → Option Nat
  | .name s => fields.idxOf? s
  | .position n => if n < fields.length then some n else none
  | .bad _ => none

/-- What is wrong with a key that stands for no field. -/
def strangeKey (strict : Bool) (fields : List String) : Label → Option DecodeError
  | .bad e => some e
  | .name s => if strict then some (.ofFault (.unknownField s fields)) else none
  | .position n =>
    if strict then some (.ofFault (.wrongValue (.int n) (.fieldNumber fields.length))) else none

/-- The first key that is wrong in itself or repeats one before it. -/
def keySlip? (strict : Bool) (fields : List String) (seen : List Nat) :
    Nat → List (Member σ) → Option Slip
  | _, [] => none
  | i, m :: rest =>
    match fieldNumber? fields m.label with
    | some n =>
      if seen.contains n then
        some ⟨2 * i, .ofFault (.duplicateField (fields.getD n ""))⟩
      else keySlip? strict fields (n :: seen) (i + 1) rest
    | none =>
      match strangeKey strict fields m.label with
      | some e => some ⟨2 * i, e⟩
      | none => keySlip? strict fields seen (i + 1) rest

/-- What is wrong with a layout apart from the values of its fields. -/
def layoutSlip? (strict : Bool) (fields : List String) : Layout σ → Option Slip
  | .members entries => keySlip? strict fields [] 0 entries
  | .values items surplus =>
    if fields.length < items.length then some ⟨fields.length, surplus fields.length⟩ else none

/-- The places of the keys of a layout, each with the number of references followed to read it. -/
def keyCounts : Layout σ → List (Nat × Nat)
  | .members entries => entries.zipIdx.map fun (m, i) => (2 * i, m.followed)
  | .values _ _ => []

/-- Reads a record from its layout. -/
def readLayout (r : Record σ α) (name : String) (strict : Bool) (layout : Layout σ) :
    Decoded α :=
  let fields := r.run ⟨name, r.fields.length, layout⟩ 0
  let result := match layoutSlip? strict r.fields layout, fields.result with
    | none, result => result
    | some s, .ok _ => .error s
    | some s, .error t => .error (s.first t)
  Reading.toDecoded ⟨result, keyCounts layout ++ fields.followed⟩

/-- Reads a part of a document as a record of the given name. A strict record has no other keys
than its fields. -/
def read [Source σ] (r : Record σ α) (name : String) (strict : Bool) (s : σ) : Decoded α := do
  Source.locating s (r.readLayout name strict (← Source.layout name s))

end Record

end ActionPolicy
