import ActionPolicy.Proofs.Document.Parts
import ActionPolicy.Proofs.KeyedList

/-!
# Reading written records

A record that is written as an object is read back field by field. What the single fields hold is
put together along the description of the record.

## Main definitions

* `View.membersOf` – the members of an object as a record is read from them.
* `Record.Reads` – a record has a value in an object, whatever its fields are numbered.

## Main statements

* `Record.Reads.seq`, `Record.Reads.required`, `Record.Reads.optional` – how the value of a record
  comes from those of its fields.
* `Record.Reads.text`, `Record.Reads.bool`, `Record.Reads.word32`, `Record.Reads.named`,
  `Record.Reads.texts`, `Record.Reads.nonemptyTexts`, `Record.Reads.optionalText` – fields of the
  types that most records consist of.
* `Record.Reads.read` – a record is read from an object in which it has a value.

## Design notes

The names of the members have to differ: the first of several would count, and a second one that
names a field is an error.
-/

namespace ActionPolicy

/-! ### Members -/

namespace View

/-- The members of an object as a record is read from them. -/
def membersOf (v : View) (members : List (String × Json)) : List (Member View) :=
  members.map fun m => ⟨.name m.1, 0, v.child m.2.toDatum⟩

/-- The layout of an object. -/
theorem layout_object {v : View} {members : List (String × Json)}
    (hv : v.datum = (Json.object members).toDatum) (name : String) :
    v.layout name = .ok (.members (v.membersOf members)) := by
  rw [layout, hv, Json.toDatum, Json.membersToData_eq_map]
  simp [membersOf, Datum.label]

end View

namespace Record

variable {α β : Type} {v : View}

theorem part?_membersOf (members : List (String × Json)) (name : String) (number : Nat) :
    (Layout.members (v.membersOf members)).part? name number =
      (members.lookup name).map fun j => v.child j.toDatum := by
  show (findMember? name number 0 (named (fun j => v.child j.toDatum) members)).map Prod.snd = _
  exact map_findMember?_named name number 0

/-- No key of an object is out of place if all names differ, and all are known to a strict
record. -/
theorem keySlip?_membersOf {strict : Bool} {fields : List String} {members : List (String × Json)}
    (hnodup : (members.map Prod.fst).Nodup)
    (hknown : strict = true → ∀ m ∈ members, m.1 ∈ fields) :
    keySlip? strict fields [] 0 (v.membersOf members) = none := by
  refine (keySlip?_eq_none_iff 0).mpr ⟨?_, ?_, fun _ _ _ _ => List.not_mem_nil⟩
  · rw [View.membersOf, List.forall_mem_map]
    intro m hm hnumber
    cases strict with
    | false => rfl
    | true => exact absurd (hknown rfl m hm) (List.idxOf?_eq_none_iff.mp hnumber)
  · -- Two different names are not the same field.
    have hfield : ∀ s t : String, ∀ n ∈ fields.idxOf? s, n ∈ fields.idxOf? t → s = t := by
      intro s t n hs ht
      obtain ⟨_, hs, -⟩ := List.idxOf?_eq_some_iff.mp hs
      obtain ⟨_, ht, -⟩ := List.idxOf?_eq_some_iff.mp ht
      rw [← hs, ← ht]
    have hnumbers : ((v.membersOf members).filterMap fun m => fieldNumber? fields m.label) =
        (members.map Prod.fst).filterMap fields.idxOf? := by
      rw [View.membersOf, List.filterMap_map, List.filterMap_map]
      rfl
    rw [hnumbers]
    exact hnodup.filterMap hfield

/-! ### Fields -/

/-- The record has the value in the object of the given members, whatever its fields are
numbered. -/
def Reads (r : Record View α) (v : View) (members : List (String × Option Json)) (a : α) : Prop :=
  ∀ name width number,
    (r.run ⟨name, width, .members (v.membersOf (Json.present members))⟩ number).result = .ok a

theorem Reads.pure (v : View) (members : List (String × Option Json)) (a : α) :
    Reads (Pure.pure a) v members a := fun _ _ _ => rfl

variable {members : List (String × Option Json)}

/-- Both parts of a record have their values. -/
theorem Reads.seq {f : Record View (α → β)} {x : Record View α} {g : α → β} {a : α}
    (hf : f.Reads v members g) (hx : x.Reads v members a) :
    (f <*> x).Reads v members (g a) := fun name width number =>
  holds_seq.mpr ⟨g, a, hf name width number, hx name width (number + f.fields.length), rfl⟩

theorem Reads.map {x : Record View α} {a : α} (g : α → β) (hx : x.Reads v members a) :
    (g <$> x).Reads v members (g a) :=
  Reads.seq (Reads.pure v members g) hx

/-- What a field is read from is the value of the member of its name. -/
theorem part?_present_of_some {name : String} {j : Json} (number : Nat)
    (hnodup : (members.map Prod.fst).Nodup) (hmem : (name, some j) ∈ members) :
    (Layout.members (v.membersOf (Json.present members))).part? name number =
      some (v.child j.toDatum) := by
  have hlookup : (Json.present members).lookup name = some j :=
    (lookup_eq_some_iff_mem (hnodup.sublist (Json.names_present_sublist members))).mpr
      (Json.mem_present.mpr hmem)
  rw [part?_membersOf, hlookup, Option.map_some]

/-- A field without a member, or with one that has no value, is not written. -/
theorem part?_present_of_none {name : String} (number : Nat)
    (hnodup : (members.map Prod.fst).Nodup) (hmem : (name, none) ∈ members) :
    (Layout.members (v.membersOf (Json.present members))).part? name number = none := by
  have hlookup : (Json.present members).lookup name = none := by
    refine lookup_eq_none_iff_key.mpr fun m hm hname => ?_
    obtain ⟨name', j⟩ := m
    subst hname
    have hvalues := List.inj_on_of_nodup_map hnodup hmem (Json.mem_present.mp hm) rfl
    exact absurd (Prod.mk.inj hvalues).2 (by simp)
  rw [part?_membersOf, hlookup, Option.map_none]

theorem Reads.field_of_some {name : String} {read : View → Decoded α} {default? : Option α}
    {j : Json} {a : α} (hnodup : (members.map Prod.fst).Nodup) (hmem : (name, some j) ∈ members)
    (hread : (read (v.child j.toDatum)).result = .ok a) :
    (field name read default?).Reads v members a := fun _ _ number =>
  holds_field.mpr (Or.inl ⟨_, part?_present_of_some number hnodup hmem, hread⟩)

theorem Reads.field_of_none {name : String} {read : View → Decoded α} {a : α}
    (hnodup : (members.map Prod.fst).Nodup) (hmem : (name, none) ∈ members) :
    (field name read (some a)).Reads v members a := fun _ _ number =>
  holds_field.mpr (Or.inr ⟨part?_present_of_none number hnodup hmem, rfl⟩)

/-- A field that has to be written has the value of its member. -/
theorem Reads.required {name : String} {read : View → Decoded α} {j : Json} {a : α}
    (hnodup : (members.map Prod.fst).Nodup) (hmem : (name, some j) ∈ members)
    (hread : (read (v.child j.toDatum)).result = .ok a) :
    (Record.required name read).Reads v members a :=
  .field_of_some hnodup hmem hread

/-- A field that may be missing is written exactly if it is there, and never as a null. -/
theorem Reads.optional {name : String} {read : View → Decoded α} (write : α → Json)
    {value : Option α} (hnodup : (members.map Prod.fst).Nodup)
    (hmem : (name, value.map write) ∈ members)
    (hread : ∀ a, value = some a → (read (v.child (write a).toDatum)).result = .ok a)
    (hnull : ∀ a, (write a).toDatum ≠ .scalar .null) :
    (Record.optional name read).Reads v members value := by
  cases value with
  | none => exact .field_of_none hnodup hmem
  | some a =>
    exact .field_of_some hnodup hmem
      (View.result_optional_iff.mpr (Or.inr ⟨hnull a, a, hread a rfl, rfl⟩))

theorem Reads.text {name s : String} (hnodup : (members.map Prod.fst).Nodup)
    (hmem : (name, some (.string s)) ∈ members) :
    (Record.required name Source.text).Reads v members s :=
  .required hnodup hmem (View.result_text rfl)

theorem Reads.bool {name : String} {b : Bool} (hnodup : (members.map Prod.fst).Nodup)
    (hmem : (name, some (.bool b)) ∈ members) :
    (Record.required name Source.bool).Reads v members b :=
  .required hnodup hmem (View.result_bool rfl)

theorem Reads.word32 {name : String} {n : UInt32} (hnodup : (members.map Prod.fst).Nodup)
    (hmem : (name, some (.nat n.toNat)) ∈ members) :
    (Record.required name Source.word32).Reads v members n :=
  .required hnodup hmem (View.result_word32 rfl)

theorem Reads.named [Named α] [Inhabited α] {name : String} {a : α}
    (hnodup : (members.map Prod.fst).Nodup) (hmem : (name, some (Named.toJson a)) ∈ members)
    (ha : Named.ofName? (Named.name a) = some a) :
    (Record.required name Source.named).Reads v members a :=
  .required hnodup hmem (View.result_named ha rfl)

theorem Reads.texts {name : String} {ss : List String} (hnodup : (members.map Prod.fst).Nodup)
    (hmem : (name, some (.strings ss)) ∈ members) :
    (Record.defaulted name Source.texts []).Reads v members ss :=
  .field_of_some hnodup hmem (View.result_texts rfl)

/-- An empty list may be left out. -/
theorem Reads.nonemptyTexts {name : String} {ss : List String}
    (hnodup : (members.map Prod.fst).Nodup) (hmem : (name, Json.nonemptyStrings ss) ∈ members) :
    (Record.defaulted name Source.texts []).Reads v members ss := by
  cases ss with
  | nil => exact .field_of_none hnodup hmem
  | cons s ss => exact .field_of_some hnodup hmem (View.result_texts rfl)

theorem Reads.optionalText {name : String} {value : Option String}
    (hnodup : (members.map Prod.fst).Nodup) (hmem : (name, value.map .string) ∈ members) :
    (Record.optional name Source.text).Reads v members value := by
  refine .optional Json.string hnodup hmem (fun s _ => View.result_text rfl) fun s => ?_
  rw [Json.toDatum]
  simp

/-- A record is read from an object in which it has a value. A strict record knows all names. -/
theorem Reads.read {r : Record View α} {a : α} (hr : r.Reads v members a)
    (hv : v.datum = (Json.record members).toDatum) (name : String) {strict : Bool}
    (hnodup : (members.map Prod.fst).Nodup)
    (hknown : strict = true → ∀ m ∈ members, m.1 ∈ r.fields) :
    (r.read name strict v).result = .ok a := by
  refine read_iff.mpr ⟨_, View.layout_object hv name, ?_, hr name r.fields.length 0⟩
  refine keySlip?_membersOf (hnodup.sublist (Json.names_present_sublist members)) ?_
  intro hs m hm
  exact hknown hs (m.1, some m.2) (Json.mem_present.mp hm)

end Record

end ActionPolicy
