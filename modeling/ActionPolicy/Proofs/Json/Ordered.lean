import ActionPolicy.Proofs.Json.RoundTrip

/-!
# Values with ordered members

Where a value is kept as it is written, the members of its objects are put in order by name. A value
that has them in order is kept unchanged, and setting a member leaves them in order.

## Main definitions

* `Json.Ordered` – the members of every object are ordered by name, and no name comes twice.

## Main statements

* `Json.put_eq_concat`, `Json.pairwise_names_put` – where a member is set.
* `Json.Ordered.toJson?_toDatum` – what is kept of an ordered value.
* `Json.Ordered.put` – an ordered object with a member set.
-/

namespace ActionPolicy.Json

/-- The members of every object are ordered by name, and no name comes twice. -/
inductive Ordered : Json → Prop where
  | null : Ordered .null
  | bool (b : Bool) : Ordered (.bool b)
  | int (n : Int) : Ordered (.int n)
  | float (x : Binary64) : Ordered (.float x)
  | string (s : String) : Ordered (.string s)
  | array {items : List Json} (h : ∀ j ∈ items, Ordered j) : Ordered (.array items)
  | object {members : List (String × Json)} (names : (members.map Prod.fst).Pairwise (· < ·))
    (h : ∀ m ∈ members, Ordered m.2) : Ordered (.object members)

/-! ### Setting a member -/

variable {α : Type} {name : String} {value : α} {done : List (String × α)}

/-- A member is put behind those of smaller names. -/
theorem put_eq_concat (h : ∀ m ∈ done, m.1 < name) : put name value done = done ++ [(name, value)] := by
  induction done with
  | nil => rfl
  | cons m done ih =>
    obtain ⟨hm, hdone⟩ := List.forall_mem_cons.mp h
    have hne : m.1 ≠ name := fun hsame => String.lt_irrefl name (hsame ▸ hm)
    have hnot : ¬name < m.1 := fun hlt => String.lt_irrefl name (String.lt_trans hlt hm)
    rw [put, if_neg hne, if_neg hnot, ih hdone, List.cons_append]

theorem eq_or_mem_of_mem_put {m : String × α} (h : m ∈ put name value done) :
    m = (name, value) ∨ m ∈ done := by
  induction done with
  | nil => exact Or.inl (List.mem_singleton.mp h)
  | cons p done ih =>
    unfold put at h
    split at h
    · rcases List.mem_cons.mp h with rfl | h
      · exact Or.inl rfl
      · exact Or.inr (List.mem_cons_of_mem _ h)
    split at h
    · exact List.mem_cons.mp h
    · rcases List.mem_cons.mp h with rfl | h
      · exact Or.inr List.mem_cons_self
      · exact (ih h).imp_right (List.mem_cons_of_mem _)

theorem pairwise_names_put (h : (done.map Prod.fst).Pairwise (· < ·)) :
    ((put name value done).map Prod.fst).Pairwise (· < ·) := by
  induction done with
  | nil => exact List.pairwise_singleton _ _
  | cons p done ih =>
    obtain ⟨hfirst, hdone⟩ := List.pairwise_cons.mp h
    unfold put
    split
    · rename_i hsame
      exact List.pairwise_cons.mpr ⟨hsame ▸ hfirst, hdone⟩
    split
    · rename_i hlt
      refine List.pairwise_cons.mpr ⟨fun n hn => ?_, h⟩
      rcases List.mem_cons.mp hn with rfl | hn
      · exact hlt
      · exact String.lt_trans hlt (hfirst n hn)
    · rename_i hne hnot
      refine List.pairwise_cons.mpr ⟨fun n hn => ?_, ih hdone⟩
      obtain ⟨m, hm, rfl⟩ := List.mem_map.mp hn
      rcases eq_or_mem_of_mem_put hm with rfl | hm
      · exact String.not_le.mp fun hle => hne (String.le_antisymm (String.not_lt.mp hnot) hle)
      · exact hfirst _ (List.mem_map_of_mem hm)

theorem Ordered.put {members : List (String × Json)} {j : Json} (h : (Json.object members).Ordered)
    (hj : j.Ordered) (name : String) : (Json.object (Json.put name j members)).Ordered := by
  cases h with
  | object names h =>
    refine .object (pairwise_names_put names) fun m hm => ?_
    rcases eq_or_mem_of_mem_put hm with rfl | hm
    · exact hj
    · exact h m hm

/-! ### What is kept -/

theorem itemsToJson?_toData {items : List Json} (h : ∀ j ∈ items, j.toDatum.toJson? = some j) :
    Datum.itemsToJson? (itemsToData items) = some items := by
  induction items with
  | nil => rfl
  | cons j items ih =>
    obtain ⟨hj, hitems⟩ := List.forall_mem_cons.mp h
    rw [itemsToData, Datum.itemsToJson?, hj, ih hitems]
    rfl

/-- Members with ascending names are put one behind the other. -/
theorem entriesToJson?_toData {members : List (String × Json)} (done : List (String × Json))
    (names : ((done ++ members).map Prod.fst).Pairwise (· < ·))
    (h : ∀ m ∈ members, m.2.toDatum.toJson? = some m.2) :
    Datum.entriesToJson? done (membersToData members) = some (done ++ members) := by
  induction members generalizing done with
  | nil => rw [membersToData, Datum.entriesToJson?, List.append_nil]
  | cons m members ih =>
    obtain ⟨hm, hmembers⟩ := List.forall_mem_cons.mp h
    have hbehind : ∀ n ∈ done, n.1 < m.1 := by
      intro n hn
      rw [List.map_append, List.pairwise_append] at names
      exact names.2.2 n.1 (List.mem_map_of_mem hn) m.1 (by simp)
    have hrest : (done ++ [m]) ++ members = done ++ m :: members := by simp
    rw [membersToData, Datum.entriesToJson?, hm]
    show Datum.entriesToJson? (Json.put m.1 m.2 done) (membersToData members) = _
    rw [put_eq_concat hbehind, ih (done ++ [m]) (hrest ▸ names) hmembers, hrest]

/-- A value with ordered members is kept unchanged, if its numbers are integers. -/
theorem Ordered.toJson?_toDatum {j : Json} (h : j.Ordered) (hexact : j.Exact) :
    j.toDatum.toJson? = some j := by
  induction h with
  | null => rfl
  | bool b => rfl
  | int n => rfl
  | float x => cases hexact
  | string s => rfl
  | array h ih =>
    cases hexact with
    | array hexact =>
      rw [toDatum, Datum.toJson?, itemsToJson?_toData fun j hj => ih j hj (hexact j hj)]
      rfl
  | object names h ih =>
    cases hexact with
    | object hexact =>
      rw [toDatum, Datum.toJson?,
        entriesToJson?_toData [] names fun m hm => ih m hm (hexact m hm)]
      rfl

end ActionPolicy.Json
