import ActionPolicy.Proofs.Document.Acceptance

/-!
# Keys that stand for no field

A strict record has no other keys than its fields. Any other record skips them: it is read exactly
where a strict one is read from the members that are left when those under other keys are taken
away, and has the same value.

## Main definitions

* `Record.isField` – a member is written under the key of a field.
* `Record.Admits` – a record may be written with a member.
* `Record.ByParts` – what a record holds depends on the parts of its own fields only.
* `Source.itemsOf`, `Source.unlessNull` – the parts of a list, and of what may be null.

## Main statements

* `Record.byParts_map_field`, `Record.ByParts.and_field` – so does what a record
  holds that is put together from fields.
* `Record.result_readLayout_members_iff` – when a record is read from members.
* `Record.forall₂_of_holds_listOf`, `Record.forall₂_of_holds_optional` – which parts a list and a
  field that may be null are read from.
-/

namespace ActionPolicy

variable {σ α β : Type}

namespace Record

/-! ### Members that are no fields -/

/-- The member is written under the key of a field. -/
def isField (fields : List String) (m : Member σ) : Bool := (fieldNumber? fields m.label).isSome

/-- A record may be written with the member: a strict one with those of its fields, any other one
with all that have something like a key. -/
def Admits (strict : Bool) (fields : List String) (m : Member σ) : Prop :=
  isField fields m = true ∨ strict = false ∧ ∀ e, m.label ≠ .bad e

variable {strict : Bool} {fields : List String} {entries : List (Member σ)}

theorem admits_iff {m : Member σ} :
    Admits strict fields m ↔
      (fieldNumber? fields m.label = none → strangeKey strict fields m.label = none) := by
  unfold Admits isField
  cases hlabel : m.label with
  | bad e => simp [fieldNumber?, strangeKey]
  | name s => cases fieldNumber? fields (.name s) <;> cases strict <;> simp [strangeKey]
  | position n => cases fieldNumber? fields (.position n) <;> cases strict <;> simp [strangeKey]

theorem admits_name_iff {m : Member σ} {key : String} (hm : m.label = .name key) :
    Admits strict fields m ↔ (strict = true → key ∈ fields) := by
  unfold Admits isField
  rw [hm]
  simp only [fieldNumber?, List.isSome_idxOf?, reduceCtorEq, not_false_eq_true, implies_true,
    and_true, ne_eq]
  cases strict <;> simp

theorem Admits.ne_bad {m : Member σ} (h : Admits strict fields m) (e : DecodeError) :
    m.label ≠ .bad e := by
  intro hm
  rcases h with hfield | ⟨-, hnone⟩
  · rw [isField, hm] at hfield
    cases hfield
  · exact hnone e hm

/-- What stands for no field is no repetition of one. -/
theorem filterMap_fieldNumber?_filter :
    ((entries.filter (isField fields)).filterMap fun m => fieldNumber? fields m.label) =
      entries.filterMap fun m => fieldNumber? fields m.label := by
  rw [List.filterMap_filter]
  refine List.filterMap_congr fun m _ => ?_
  unfold isField
  cases fieldNumber? fields m.label <;> rfl

/-- The keys of a record are in order if all are admitted, and those of fields alone are in order
for a strict one. -/
theorem keySlip?_eq_none_iff_filter :
    keySlip? strict fields [] 0 entries = none ↔
      (∀ m ∈ entries, Admits strict fields m) ∧
        keySlip? true fields [] 0 (entries.filter (isField fields)) = none := by
  have hknown : ∀ m ∈ entries.filter (isField fields), fieldNumber? fields m.label = none →
      strangeKey true fields m.label = none := by
    intro m hm hnone
    have hfield := (List.mem_filter.mp hm).2
    rw [isField, hnone] at hfield
    cases hfield
  rw [keySlip?_eq_none_iff, keySlip?_eq_none_iff, filterMap_fieldNumber?_filter]
  simp only [admits_iff, List.not_mem_nil, not_false_eq_true, implies_true, and_true]
  exact and_congr_right fun _ => ⟨fun hnodup => ⟨hknown, hnodup⟩, And.right⟩

theorem map_findMember?_filter {p : Member σ → Bool} {name : String} {number : Nat}
    (hp : ∀ m : Member σ, m.label = .name name ∨ m.label = .position number → p m = true)
    (i j : Nat) :
    (findMember? name number i (entries.filter p)).map Prod.snd =
      (findMember? name number j entries).map Prod.snd := by
  -- Members that are taken away move the others forward, so the places count apart.
  induction entries generalizing i j with
  | nil => rfl
  | cons m entries ih =>
    by_cases hm : m.label = .name name ∨ m.label = .position number
    · rw [List.filter_cons_of_pos (hp m hm), findMember?, findMember?, if_pos hm, if_pos hm]
      rfl
    · rw [findMember?, if_neg hm]
      by_cases hkept : p m = true
      · rw [List.filter_cons_of_pos hkept, findMember?, if_neg hm]
        exact ih (i + 1) (j + 1)
      · rw [List.filter_cons_of_neg hkept]
        exact ih i (j + 1)

/-- A field is read from the same part when all members that are no fields are taken away. -/
theorem part?_filter {name : String} {number : Nat} (h : fields[number]? = some name) :
    (Layout.members (entries.filter (isField fields))).part? name number =
      (Layout.members entries).part? name number := by
  refine map_findMember?_filter (fun m hm => ?_) 0 0
  obtain ⟨hlt, hname⟩ := List.getElem?_eq_some_iff.mp h
  unfold isField
  rcases hm with hm | hm
  · rw [hm]
    exact List.isSome_idxOf?.mpr (hname ▸ List.getElem_mem hlt)
  · rw [hm, fieldNumber?, if_pos hlt]
    rfl

/-! ### What a record depends on -/

/-- What the record holds depends on the parts of its own fields only. -/
def ByParts (r : Record σ α) : Prop :=
  ∀ (sheet sheet' : Sheet σ) (number : Nat) (a : α),
    (∀ i name, r.fields[i]? = some name →
      sheet.layout.part? name (number + i) = sheet'.layout.part? name (number + i)) →
    r.Holds sheet number a → r.Holds sheet' number a

theorem byParts_field {name : String} {read : σ → Decoded α} {default? : Option α} :
    (field name read default?).ByParts := by
  intro sheet sheet' number a hparts h
  have hpart : sheet.layout.part? name number = sheet'.layout.part? name number := hparts 0 name rfl
  rw [holds_field] at h ⊢
  rwa [← hpart]

theorem byParts_pure (a : α) : (pure a : Record σ α).ByParts := fun _ _ _ _ _ h =>
  holds_pure.mpr (holds_pure.mp h)

theorem ByParts.seq {f : Record σ (α → β)} {x : Record σ α} (hf : f.ByParts) (hx : x.ByParts) :
    (f <*> x).ByParts := by
  intro sheet sheet' number b hparts h
  obtain ⟨g, a, hg, ha, rfl⟩ := holds_seq.mp h
  have hfields : (f <*> x).fields = f.fields ++ x.fields := rfl
  refine holds_seq.mpr ⟨g, a, hf sheet sheet' number g ?_ hg, hx sheet sheet' _ a ?_ ha, rfl⟩
  · intro i name hi
    refine hparts i name ?_
    obtain ⟨hlt, -⟩ := List.getElem?_eq_some_iff.mp hi
    rw [hfields, List.getElem?_append_left hlt, hi]
  · intro i name hi
    rw [Nat.add_assoc]
    refine hparts (f.fields.length + i) name ?_
    rw [hfields, List.getElem?_append_right (Nat.le_add_right _ i), Nat.add_sub_cancel_left, hi]

theorem ByParts.map {x : Record σ α} (g : α → β) (hx : x.ByParts) : (g <$> x).ByParts :=
  (byParts_pure g).seq hx

theorem byParts_map_field {name : String} {read : σ → Decoded α} {default? : Option α}
    {g : α → β} : (g <$> field name read default?).ByParts :=
  byParts_field.map g

theorem ByParts.and_field {f : Record σ (α → β)} {name : String} {read : σ → Decoded α}
    {default? : Option α} (hf : f.ByParts) : (f <*> field name read default?).ByParts :=
  hf.seq byParts_field

variable {r : Record σ α} {a : α}

/-- The fields hold the same when the members that are no fields are taken away. -/
theorem ByParts.holds_filter_iff (hr : r.ByParts) (name : String) :
    r.Holds ⟨name, r.fields.length, .members (entries.filter (isField r.fields))⟩ 0 a ↔
      r.Holds ⟨name, r.fields.length, .members entries⟩ 0 a := by
  have hparts : ∀ i field, r.fields[i]? = some field →
      (Layout.members (entries.filter (isField r.fields))).part? field (0 + i) =
        (Layout.members entries).part? field (0 + i) := by
    intro i field hi
    rw [Nat.zero_add]
    exact part?_filter hi
  exact ⟨hr _ _ 0 a hparts, hr _ _ 0 a fun i field hi => (hparts i field hi).symm⟩

/-- A record is read from members that it admits, and has the value that a strict one is read with
from those of its fields. -/
theorem result_readLayout_members_iff (hr : r.ByParts) {name : String} :
    (r.readLayout name strict (.members entries)).result = .ok a ↔
      (∀ m ∈ entries, Admits strict r.fields m) ∧
        (r.readLayout name true (.members (entries.filter (isField r.fields)))).result = .ok a := by
  rw [result_readLayout_eq_ok_iff, result_readLayout_eq_ok_iff, hr.holds_filter_iff, layoutSlip?,
    layoutSlip?, keySlip?_eq_none_iff_filter, and_assoc]

/-- A field with a part holds what is read from it. -/
theorem result_of_holds_field {name : String} {read : σ → Decoded α} {default? : Option α}
    {sheet : Sheet σ} {number : Nat} {part : σ}
    (h : (field name read default?).Holds sheet number a)
    (hpart : sheet.layout.part? name number = some part) : (read part).result = .ok a := by
  obtain ⟨part', hpart', hread⟩ | ⟨hnone, -⟩ := holds_field.mp h
  · obtain rfl : part' = part := Option.some.inj (hpart'.symm.trans hpart)
    exact hread
  · rw [hpart] at hnone
    cases hnone

end Record

/-! ### Parts of any source -/

namespace Source

variable [Source σ] {s : σ} {read : σ → Decoded α}

/-- The items of a part, if it is a list. -/
def itemsOf (s : σ) : List σ := (items s).result.toOption.getD []

/-- The part itself, unless it is a null. -/
def unlessNull (s : σ) : Option σ := (option s).result.toOption.join

theorem forall₂_of_listOf {as : List α} (h : (listOf read s).result = .ok as) :
    List.Forall₂ (fun part a => (read part).result = .ok a) (itemsOf s) as := by
  obtain ⟨parts, hparts, hread⟩ := Decoded.result_bind_eq_ok_iff.mp h
  rw [itemsOf, hparts]
  exact Decoded.result_mapM_eq_ok_iff.mp (result_locating_eq_ok_iff.mp hread)

theorem forall₂_of_optional {value : Option α} (h : (optional read s).result = .ok value) :
    List.Forall₂ (fun part a => (read part).result = .ok a) (unlessNull s).toList
      value.toList := by
  obtain ⟨part?, hoption, hread⟩ := Decoded.result_bind_eq_ok_iff.mp h
  have hpart : unlessNull s = part? := by
    rw [unlessNull, hoption]
    rfl
  rw [hpart]
  cases part? with
  | none =>
    obtain rfl : none = value := Except.ok.inj hread
    exact .nil
  | some part =>
    obtain ⟨a, ha, hvalue⟩ := Decoded.result_bind_eq_ok_iff.mp hread
    obtain rfl : some a = value := Except.ok.inj hvalue
    exact .cons ha .nil

end Source

namespace Record

variable [Source σ] {name : String} {read : σ → Decoded α} {sheet : Sheet σ} {number : Nat}

/-- A list that may be left out holds what is read from the items under its key. -/
theorem forall₂_of_holds_listOf {as : List α}
    (h : (defaulted name (Source.listOf read) []).Holds sheet number as) :
    List.Forall₂ (fun part a => (read part).result = .ok a)
      (((sheet.layout.part? name number).map Source.itemsOf).getD []) as := by
  obtain ⟨part, hpart, hread⟩ | ⟨hpart, hdefault⟩ := holds_field.mp h
  · rw [hpart]
    exact Source.forall₂_of_listOf hread
  · obtain rfl : [] = as := Option.some.inj hdefault
    rw [hpart]
    exact .nil

/-- A field that may be missing or null holds what is read from what else is under its key. -/
theorem forall₂_of_holds_optional {value : Option α}
    (h : (optional name read).Holds sheet number value) :
    List.Forall₂ (fun part a => (read part).result = .ok a)
      ((sheet.layout.part? name number).bind Source.unlessNull).toList value.toList := by
  obtain ⟨part, hpart, hread⟩ | ⟨hpart, hdefault⟩ := holds_field.mp h
  · rw [hpart]
    exact Source.forall₂_of_optional hread
  · obtain rfl : none = value := Option.some.inj hdefault
    rw [hpart]
    exact .nil

end Record

end ActionPolicy
