import ActionPolicy.Document.Facts
import ActionPolicy.Proofs.Document.Acceptance
import ActionPolicy.Proofs.Json.RoundTrip

/-!
# Reading written parts

Texts, numbers, lists and names are read from the values they are written as, and a record behind a
tag is set aside as it is.

## Main definitions

* `Json.present` – the members of an object that have a value.
* `Json.Fits` – a value is read whole where so many containers may be nested.

## Main statements

* `View.result_text`, `View.result_bool`, `View.result_word32` – scalars.
* `View.result_listOf`, `View.result_texts` – lists.
* `View.result_named` – names from a closed vocabulary.
* `View.result_tagged` – a record told by its tag.
-/

namespace ActionPolicy

namespace Json

/-- The members that have a value. -/
def present (members : List (String × Option Json)) : List (String × Json) :=
  members.filterMap fun m => m.2.map (m.1, ·)

theorem record_eq (members : List (String × Option Json)) :
    record members = .object (present members) := rfl

variable {members : List (String × Option Json)} {name : String} {j : Json}

theorem present_cons_some (name : String) (j : Json) (members : List (String × Option Json)) :
    present ((name, some j) :: members) = (name, j) :: present members := rfl

theorem mem_present : (name, j) ∈ present members ↔ (name, some j) ∈ members := by
  constructor
  · intro h
    obtain ⟨⟨name', value⟩, hm, heq⟩ := List.mem_filterMap.mp h
    obtain ⟨j', hvalue, hpair⟩ := Option.map_eq_some_iff.mp heq
    obtain ⟨rfl, rfl⟩ := Prod.mk.inj hpair
    exact hvalue ▸ hm
  · intro h
    exact List.mem_filterMap.mpr ⟨(name, some j), h, rfl⟩

theorem names_present_sublist (members : List (String × Option Json)) :
    ((present members).map Prod.fst).Sublist (members.map Prod.fst) := by
  induction members with
  | nil => exact List.Sublist.refl _
  | cons m members ih =>
    obtain ⟨name, value⟩ := m
    cases value with
    | none => exact ih.cons _
    | some j => exact ih.cons_cons _

/-! ### Values that are read whole -/

theorem itemsDepth_le {n : Nat} {items : List Json} (h : ∀ j ∈ items, j.toDatum.depth ≤ n) :
    Datum.itemsDepth (itemsToData items) ≤ n := by
  induction items with
  | nil => exact Nat.zero_le n
  | cons j items ih =>
    obtain ⟨hj, hitems⟩ := List.forall_mem_cons.mp h
    exact Nat.max_le.mpr ⟨hj, ih hitems⟩

theorem entriesDepth_le {n : Nat} {members : List (String × Json)}
    (h : ∀ m ∈ members, m.2.toDatum.depth ≤ n) :
    Datum.entriesDepth (membersToData members) ≤ n := by
  induction members with
  | nil => exact Nat.zero_le n
  | cons m members ih =>
    obtain ⟨hm, hmembers⟩ := List.forall_mem_cons.mp h
    have hentry : max 0 m.2.toDatum.depth ≤ n := by omega
    exact Nat.max_le.mpr ⟨hentry, ih hmembers⟩

/-- All numbers of a value are integers of 64 bits, and at most `n` containers are nested. -/
structure Fits (n : Nat) (j : Json) : Prop where
  /-- The numbers are integers of 64 bits. -/
  exact : j.Exact
  depth : j.toDatum.depth ≤ n

namespace Fits

variable {n : Nat}

theorem string (s : String) : (Json.string s).Fits n := ⟨.string s, Nat.zero_le n⟩

theorem bool (b : Bool) : (Json.bool b).Fits n := ⟨.bool b, Nat.zero_le n⟩

theorem nat (k : UInt32) : (Json.nat k.toNat).Fits n := by
  have hk : k.toNat ≤ Numeral.maxWord :=
    Nat.le_trans (Nat.le_of_lt k.toNat_lt) (by decide : 2 ^ 32 ≤ Numeral.maxWord)
  have hword : IsWord64 (k.toNat : Int) := ⟨by omega, by omega⟩
  exact ⟨.int hword, Nat.zero_le n⟩

theorem array {items : List Json} (h : ∀ j ∈ items, j.Fits n) : (Json.array items).Fits (n + 1) :=
  ⟨.array fun j hj => (h j hj).exact, Nat.succ_le_succ (itemsDepth_le fun j hj => (h j hj).depth)⟩

theorem strings (ss : List String) : (Json.strings ss).Fits (n + 1) := by
  refine array fun j hj => ?_
  obtain ⟨s, -, rfl⟩ := List.mem_map.mp hj
  exact string s

theorem of_mem_some (hj : j.Fits n) : ∀ k ∈ some j, k.Fits n := fun _ hk =>
  Option.mem_some.mp hk ▸ hj

theorem of_mem_map {α : Type} {write : α → Json} {value : Option α}
    (h : ∀ a, (write a).Fits n) : ∀ k ∈ value.map write, k.Fits n := by
  intro k hk
  obtain ⟨a, -, rfl⟩ := Option.map_eq_some_iff.mp hk
  exact h a

theorem of_mem_nonemptyStrings (ss : List String) :
    ∀ k ∈ Json.nonemptyStrings ss, k.Fits (n + 1) := by
  cases ss with
  | nil => exact nofun
  | cons s ss => exact of_mem_some (strings (s :: ss))

theorem record (h : ∀ m ∈ members, ∀ j ∈ m.2, j.Fits n) : (Json.record members).Fits (n + 1) := by
  have hpresent : ∀ m ∈ present members, m.2.Fits n := fun m hm =>
    h (m.1, some m.2) (mem_present.mp hm) m.2 rfl
  exact ⟨.object fun m hm => (hpresent m hm).exact,
    Nat.succ_le_succ (entriesDepth_le fun m hm => (hpresent m hm).depth)⟩

end Fits

end Json

/-! ### Scalars, lists and names -/

namespace View

variable {α : Type} {v : View}

theorem result_text {s : String} (hv : v.datum = (Json.string s).toDatum) :
    (Source.text v).result = .ok s := by
  show v.text = _
  rw [text, hv, Json.toDatum]

theorem result_bool {b : Bool} (hv : v.datum = (Json.bool b).toDatum) :
    (Source.bool v).result = .ok b := by
  show v.bool = _
  rw [bool, hv, Json.toDatum]

theorem result_word32 {n : UInt32} (hv : v.datum = (Json.nat n.toNat).toDatum) :
    (Source.word32 v).result = .ok n := by
  have hint : v.datum = .scalar (.int n.toNat) := hv
  exact (word32_eq_ok_iff (by simp [hint])).mpr hint

/-- A list is read item by item. -/
theorem result_listOf {read : View → Decoded α} {write : α → Json} {values : List α}
    (hv : v.datum = (Json.array (values.map write)).toDatum)
    (hread : ∀ a ∈ values, (read (v.child (write a).toDatum)).result = .ok a) :
    (Source.listOf read v).result = .ok values := by
  refine result_listOf_iff.mpr ⟨values.map fun a => (write a).toDatum, ?_, ?_⟩
  · rw [hv, Json.toDatum, Json.itemsToData_eq_map, List.map_map]
    rfl
  · exact List.forall₂_map_left_iff.mpr (List.forall₂_same.mpr hread)

theorem result_texts {ss : List String} (hv : v.datum = (Json.strings ss).toDatum) :
    (Source.texts v).result = .ok ss :=
  result_listOf hv fun _ _ => result_text rfl

/-- A member of a closed vocabulary is read from its name. -/
theorem result_named [Named α] [Inhabited α] {a : α}
    (ha : Named.ofName? (Named.name a) = some a) (hv : v.datum = (Named.toJson a).toDatum) :
    (Source.named v : Decoded α).result = .ok a := by
  have hknown : (Named.names α).contains (Named.name a) = true := by
    have hmem : a ∈ Named.all (α := α) := List.mem_of_find?_eq_some ha
    simpa [Named.names] using ⟨a, hmem, rfl⟩
  have hvariant : (Source.variant (Named.names α) v).result = .ok (Named.name a) := by
    show v.variant _ = _
    rw [variant, hv, Named.toJson, Json.toDatum]
    simp only [Datum.nameAmong, hknown, if_true]
  rw [Source.named, Decoded.result_bind, hvariant]
  show Except.ok ((Named.ofName? (Named.name a)).getD default) = _
  rw [ha, Option.getD_some]

end View

/-! ### Tags -/

mutual

/-- Nothing in a value is beyond keeping. -/
theorem Json.keepable_toDatum : ∀ j : Json, j.toDatum.keepable = true
  | .null => rfl
  | .bool _ => rfl
  | .int _ => rfl
  | .float _ => rfl
  | .string _ => rfl
  | .array items => Json.itemsKeepable_toData items
  | .object members => Json.entriesKeepable_toData members

theorem Json.itemsKeepable_toData :
    ∀ items : List Json, Datum.itemsKeepable (Json.itemsToData items) = true
  | [] => rfl
  | j :: items => by
    have hj := Json.keepable_toDatum j
    have hitems := Json.itemsKeepable_toData items
    simp only [Json.itemsToData, Datum.itemsKeepable, hj, hitems, Bool.and_self]

theorem Json.entriesKeepable_toData :
    ∀ members : List (String × Json), Datum.entriesKeepable (Json.membersToData members) = true
  | [] => rfl
  | (name, j) :: members => by
    have hname : (Datum.scalar (.text name)).keepable = true := rfl
    have hj := Json.keepable_toDatum j
    have hmembers := Json.entriesKeepable_toData members
    simp only [Json.membersToData, Datum.entriesKeepable, hname, hj, hmembers, Bool.and_self]

end

namespace View

variable {v : View}

/-- The members behind the tag are set aside as they are. -/
theorem splitTag_membersToData {field tag : String} {names : List String}
    {members : List (String × Json)} (others : List (Datum × Datum))
    (hnames : ∀ m ∈ members, m.1 ≠ field)
    (hdepth : v.flavour = .text → ∀ m ∈ members, v.level + 1 + m.2.toDatum.depth ≤ nestingLimit) :
    v.splitTag field names (some tag) others (Json.membersToData members) =
      .ok (tag, ⟨.kept, v.level, .map (others.reverse ++ Json.membersToData members)⟩) := by
  induction members generalizing others with
  | nil => simp [Json.membersToData, splitTag]
  | cons m members ih =>
    obtain ⟨name, j⟩ := m
    obtain ⟨hname, hnames⟩ := List.forall_mem_cons.mp hnames
    have hkeepable : (v.child j.toDatum).keepable = true := by
      have hlevel : v.flavour ≠ .text ∨ v.level + 1 + j.toDatum.depth ≤ nestingLimit := by
        by_cases hflavour : v.flavour = .text
        · exact Or.inr (hdepth hflavour (name, j) List.mem_cons_self)
        · exact Or.inl hflavour
      simp only [keepable, child, Json.keepable_toDatum, Bool.true_and, Bool.or_eq_true]
      exact hlevel.imp decide_eq_true decide_eq_true
    have hrest := ih ((.scalar (.text name), j.toDatum) :: others) hnames
      fun hflavour m hm => hdepth hflavour m (List.mem_cons_of_mem _ hm)
    rw [Json.membersToData, splitTag, if_neg hname, if_pos hkeepable, hrest]
    simp

/-- A record is told by the tag in front of its members. -/
theorem result_tagged {record field tag : String} {names : List String}
    {members : List (String × Option Json)}
    (hv : v.datum = (Json.record ((field, some (.string tag)) :: members)).toDatum)
    (htag : tag ∈ names) (hnames : ∀ m ∈ members, m.1 ≠ field)
    (hdepth : v.flavour = .text →
      ∀ m ∈ members, ∀ j ∈ m.2, v.level + 1 + j.toDatum.depth ≤ nestingLimit) :
    (Source.tagged record field names v).result =
      .ok (tag, ⟨.kept, v.level, (Json.record members).toDatum⟩) := by
  have hname : (Datum.scalar (.text tag)).tagName names = .ok tag := by
    simp [Datum.tagName, htag]
  have hrest : v.splitTag field names (some tag) []
      (Json.membersToData (Json.present members)) = _ :=
    splitTag_membersToData []
      (fun m hm => hnames (m.1, some m.2) (Json.mem_present.mp hm))
      fun hflavour m hm => hdepth hflavour (m.1, some m.2) (Json.mem_present.mp hm) m.2 rfl
  show v.tagged record field names = _
  rw [tagged, hv, Json.record_eq, Json.present_cons_some, Json.toDatum, Json.membersToData]
  show splitTag v field names none [] ((.scalar (.text field), .scalar (.text tag)) :: _) = _
  rw [splitTag, if_pos rfl, hname]
  exact hrest

end View

end ActionPolicy
