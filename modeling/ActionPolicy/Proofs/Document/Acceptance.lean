import ActionPolicy.Document.Record
import ActionPolicy.Document.View
import ActionPolicy.Proofs.Json.Data
import ActionPolicy.Proofs.KeyedList
import Mathlib.Data.List.Nodup

/-!
# What a record is read from

A record is read exactly where no key is out of place and every field finds what it takes, and its
value is made of what the fields hold. So what a description accepts is put together from what its
fields accept, in both directions.

## Main definitions

* `Datum.object`, `Datum.texts` – an object with texts as keys, and a list of texts.
* `Layout.part?` – the part of a layout that a field is read from.
* `Record.Holds` – a record has a value in a layout, with its fields numbered from a number on.
* `HoldsOr`, `MayHold` – what is written under a key that has a default, and under one that may be
  missing or null.

## Main statements

* `Record.keySlip?_eq_none_iff`, `Record.keySlip?_named_iff` – when no key is out of place.
* `Record.holds_seq`, `Record.holds_map`, `Record.holds_field` – the value of a record and those of
  its fields.
* `Record.read_object_iff`, `Record.read_list_iff` – when a strict record is read from an object,
  and when from a list.
* `Record.exists_object_of_read` – an object that a strict record is read from has texts as keys.
-/

namespace ActionPolicy

/-- An object with texts as keys. -/
def Datum.object (members : List (String × Datum)) : Datum :=
  .map (members.map fun m => (.scalar (.text m.1), m.2))

/-- A list of texts. -/
def Datum.texts (ss : List String) : Datum := .list (ss.map fun s => .scalar (.text s))

variable {σ α β : Type}

theorem mapError_eq_ok_iff {ε ε' : Type} {f : ε → ε'} {x : Except ε α} {a : α} :
    x.mapError f = .ok a ↔ x = .ok a := by
  cases x <;> simp [Except.mapError]

/-! ### Keys -/

namespace Record

/-- Members under names. -/
def named {E : Type} (part : E → σ) (members : List (String × E)) : List (Member σ) :=
  members.map fun m => ⟨.name m.1, 0, part m.2⟩

variable {E : Type} {part : E → σ} {members : List (String × E)}

theorem map_findMember?_named (name : String) (number i : Nat) :
    (findMember? name number i (named part members)).map Prod.snd =
      (members.lookup name).map part := by
  induction members generalizing i with
  | nil => rfl
  | cons m members ih =>
    have hrest := ih (i + 1)
    rw [named] at hrest
    rw [named, List.map_cons, findMember?, List.lookup_cons]
    by_cases hm : m.1 = name
    · have hbeq : (name == m.1) = true := by simp [hm]
      rw [if_pos (Or.inl (by rw [hm])), hbeq]
      rfl
    · have hbeq : (name == m.1) = false := by simpa using fun h => hm h.symm
      rw [if_neg (by simp [hm]), hrest, hbeq]

/-- No key is out of place if each one that stands for no field may be skipped, and no two stand for
the same field. -/
theorem keySlip?_eq_none_iff {strict : Bool} {fields : List String} {seen : List Nat} (i : Nat)
    {entries : List (Member σ)} :
    keySlip? strict fields seen i entries = none ↔
      (∀ m ∈ entries, fieldNumber? fields m.label = none →
        strangeKey strict fields m.label = none) ∧
      (entries.filterMap fun m => fieldNumber? fields m.label).Nodup ∧
      ∀ m ∈ entries, ∀ n, fieldNumber? fields m.label = some n → n ∉ seen := by
  induction entries generalizing seen i with
  | nil => simp [keySlip?]
  | cons m entries ih =>
    rw [keySlip?]
    cases hnumber : fieldNumber? fields m.label with
    | none =>
      cases hstrange : strangeKey strict fields m.label with
      | none => simp [ih, hnumber, hstrange]
      | some e => simp [hnumber, hstrange]
    | some n =>
      by_cases hseen : n ∈ seen
      · simp [hnumber, hseen]
      · -- What has been seen so far grows by `n`, which no later key may stand for.
        have hapart : (∀ m' ∈ entries, ∀ n', fieldNumber? fields m'.label = some n' →
            n' ∉ n :: seen) ↔
            n ∉ (entries.filterMap fun m => fieldNumber? fields m.label) ∧
              ∀ m' ∈ entries, ∀ n', fieldNumber? fields m'.label = some n' → n' ∉ seen := by
          constructor
          · intro h
            refine ⟨fun hmem => ?_, fun m' hm' n' hn' hmem => ?_⟩
            · obtain ⟨m', hm', hn'⟩ := List.mem_filterMap.mp hmem
              exact h m' hm' n hn' List.mem_cons_self
            · exact h m' hm' n' hn' (List.mem_cons_of_mem _ hmem)
          · rintro ⟨hn, hrest⟩ m' hm' n' hn' hmem
            rcases List.mem_cons.mp hmem with rfl | hmem
            · exact hn (List.mem_filterMap.mpr ⟨m', hm', hn'⟩)
            · exact hrest m' hm' n' hn' hmem
        simp only [List.contains_iff_mem, hseen, if_false, ih, hapart, List.forall_mem_cons,
          hnumber, List.filterMap_cons, List.nodup_cons, Option.some.injEq]
        grind

theorem idxOf?_of_mem {fields : List String} {s : String} (h : s ∈ fields) :
    fields.idxOf? s = some (fields.idxOf s) := by
  obtain ⟨n, hn⟩ := Option.isSome_iff_exists.mp (List.isSome_idxOf?.mpr h)
  rw [List.idxOf_eq_getD_idxOf?, hn, Option.getD_some]

/-- A strict record has no key out of place exactly if all names are those of fields, and none
repeats. -/
theorem keySlip?_named_iff {fields : List String} :
    keySlip? true fields [] 0 (named part members) = none ↔
      (∀ m ∈ members, m.1 ∈ fields) ∧ (members.map Prod.fst).Nodup := by
  rw [keySlip?_eq_none_iff]
  have hknown : (∀ m ∈ named part members, fieldNumber? fields m.label = none →
      strangeKey true fields m.label = none) ↔ ∀ m ∈ members, m.1 ∈ fields := by
    rw [named, List.forall_mem_map]
    refine forall₂_congr fun m _ => ?_
    simp only [fieldNumber?, strangeKey, List.idxOf?_eq_none_iff, if_true, reduceCtorEq,
      imp_false, not_not]
  rw [hknown]
  refine and_congr_right fun hfields => ?_
  -- Where all names are known, they are numbered by their positions, which tells them apart.
  have hnumbers : ((named part members).filterMap fun m => fieldNumber? fields m.label) =
      (members.map Prod.fst).map fields.idxOf := by
    rw [named, List.filterMap_map, List.map_map, List.filterMap_eq_map_iff_forall_eq_some]
    exact fun m hm => idxOf?_of_mem (hfields m hm)
  rw [hnumbers]
  constructor
  · rintro ⟨hnodup, -⟩
    exact hnodup.of_map
  · intro hnodup
    refine ⟨hnodup.map_on fun s hs t ht hst => ?_, by simp⟩
    obtain ⟨m, hm, rfl⟩ := List.mem_map.mp hs
    exact (List.idxOf_inj (hfields m hm)).mp hst

/-! ### Fields -/

end Record

namespace Layout

/-- The part that the field of a name and number is read from. -/
def part? (name : String) (number : Nat) : Layout σ → Option σ
  | .members entries => (Record.findMember? name number 0 entries).map Prod.snd
  | .values items _ => items[number]?

end Layout

namespace Reading

theorem both_eq_ok_iff {f : Except Slip (α → β)} {x : Except Slip α} {b : β} :
    both f x = .ok b ↔ ∃ g a, f = .ok g ∧ x = .ok a ∧ g a = b := by
  cases f <;> cases x <;> simp [both]

end Reading

namespace Record

/-- The record has the value on a sheet, with its first field of the given number. -/
def Holds (r : Record σ α) (sheet : Sheet σ) (number : Nat) (a : α) : Prop :=
  (r.run sheet number).result = .ok a

variable {sheet : Sheet σ} {number : Nat}

theorem holds_seq {f : Record σ (α → β)} {x : Record σ α} {b : β} :
    (f <*> x).Holds sheet number b ↔
      ∃ g a, f.Holds sheet number g ∧ x.Holds sheet (number + f.fields.length) a ∧ g a = b :=
  Reading.both_eq_ok_iff

theorem holds_pure {a b : α} : (pure a : Record σ α).Holds sheet number b ↔ a = b :=
  Except.ok.injEq a b ▸ Iff.rfl

theorem holds_map {g : α → β} {x : Record σ α} {b : β} :
    (g <$> x).Holds sheet number b ↔ ∃ a, x.Holds sheet number a ∧ g a = b := by
  have hseq : (g <$> x).Holds sheet number b ↔ ∃ g' a, (pure g : Record σ (α → β)).Holds sheet
      number g' ∧ x.Holds sheet number a ∧ g' a = b := holds_seq
  simp [hseq, holds_pure]

/-- A field holds what is read from its part, or its default where it has none. -/
theorem holds_field {name : String} {read : σ → Decoded α} {default? : Option α} {a : α} :
    (field name read default?).Holds sheet number a ↔
      (∃ part, sheet.layout.part? name number = some part ∧ (read part).result = .ok a) ∨
      (sheet.layout.part? name number = none ∧ default? = some a) := by
  have hdecoded : ∀ place (d : Decoded α),
      (Reading.ofDecoded place d).result = .ok a ↔ d.result = .ok a :=
    fun _ _ => mapError_eq_ok_iff
  unfold Holds field
  simp only
  cases sheet.layout with
  | members entries =>
    simp only [Layout.part?]
    cases findMember? name number 0 entries with
    | some found => simp [hdecoded]
    | none => cases default? <;> simp [Reading.ofExcept]
  | values items surplus =>
    simp only [Layout.part?]
    cases items[number]? with
    | some part => simp [hdecoded]
    | none => cases default? <;> simp [Reading.ofExcept]

theorem result_readLayout_eq_ok_iff {r : Record σ α} {name : String} {strict : Bool}
    {layout : Layout σ} {a : α} :
    (r.readLayout name strict layout).result = .ok a ↔
      layoutSlip? strict r.fields layout = none ∧
        r.Holds ⟨name, r.fields.length, layout⟩ 0 a := by
  unfold readLayout Holds
  simp only [Reading.toDecoded]
  cases layoutSlip? strict r.fields layout <;>
    cases (r.run ⟨name, r.fields.length, layout⟩ 0).result <;> simp [Except.mapError]

end Record

/-! ### Plain data -/

namespace Decoded

theorem result_bind_eq_ok_iff {x : Decoded α} {f : α → Decoded β} {b : β} :
    (x >>= f).result = .ok b ↔ ∃ a, x.result = .ok a ∧ (f a).result = .ok b := by
  rw [result_bind]
  cases x.result with
  | error e =>
    show Except.error e = .ok b ↔ _
    simp
  | ok a =>
    show (f a).result = .ok b ↔ _
    simp

theorem result_mapM_eq_ok_iff {f : σ → Decoded α} {parts : List σ} {as : List α} :
    (parts.mapM f).result = .ok as ↔
      List.Forall₂ (fun part a => (f part).result = .ok a) parts as := by
  induction parts generalizing as with
  | nil => simp [eq_comm]
  | cons part parts ih =>
    simp only [List.mapM_cons, result_bind_eq_ok_iff, ih, List.forall₂_cons_left_iff, result_pure,
      Except.ok.injEq]
    constructor
    · rintro ⟨a, ha, as, has, rfl⟩
      exact ⟨a, as, ha, has, rfl⟩
    · rintro ⟨a, as, ha, has, rfl⟩
      exact ⟨a, ha, as, has, rfl⟩

end Decoded

/-- What is read does not depend on where the part is said to be. -/
theorem Source.result_locating_eq_ok_iff [Source σ] {s : σ} {d : Decoded α} {a : α} :
    (locating s d).result = .ok a ↔ d.result = .ok a := by
  rw [locating, Decoded.result_mapError, mapError_eq_ok_iff]

theorem Record.result_read_eq_ok_iff [Source σ] {r : Record σ α} {name : String} {strict : Bool}
    {s : σ} {a : α} :
    (r.read name strict s).result = .ok a ↔
      ∃ layout, (Source.layout name s).result = .ok layout ∧
        (r.readLayout name strict layout).result = .ok a := by
  rw [Record.read, Decoded.result_bind_eq_ok_iff]
  simp only [Source.result_locating_eq_ok_iff]

namespace View

variable {v : View}

theorem text_eq_ok_iff {s : String} : v.text = .ok s ↔ v.datum = .scalar (.text s) := by
  unfold text
  split
  · rename_i s' hv
    rw [hv]
    simp
  · rename_i hv
    simp only [reduceCtorEq, false_iff]
    exact fun h => hv s h

/-- A number is the one that is written, unless it is a zero with a minus sign. -/
theorem word32_eq_ok_iff {n : UInt32} (hv : v.datum ≠ .scalar .negativeZero) :
    v.word32 = .ok n ↔ v.datum = .scalar (.int n.toNat) := by
  unfold word32
  split
  · rename_i hzero
    exact absurd hzero hv
  · rename_i i hint
    rw [hint, Datum.scalar.injEq, Scalar.int.injEq]
    have hsize : n.toNat < UInt32.size := n.toNat_lt
    split
    · rename_i hi
      rw [Except.ok.injEq, ← UInt32.toNat_inj, Nat.toUInt32,
        UInt32.toNat_ofNat_of_lt' (by omega)]
      omega
    · simp only [reduceCtorEq, false_iff]
      omega
  · rename_i hint
    simp only [reduceCtorEq, false_iff]
    exact fun h => hint _ h

theorem result_listOf_iff {read : View → Decoded α} {as : List α} :
    (Source.listOf read v).result = .ok as ↔
      ∃ ds, v.datum = .list ds ∧
        List.Forall₂ (fun d a => (read (v.child d)).result = .ok a) ds as := by
  have hitems : ∀ vs, v.items = .ok vs ↔ ∃ ds, v.datum = .list ds ∧ ds.map v.child = vs := by
    intro vs
    unfold items
    split
    · rename_i ds hv
      simp [hv]
    · rename_i hv
      simp only [reduceCtorEq, false_iff]
      rintro ⟨ds, hds, -⟩
      exact hv ds hds
  rw [Source.listOf, Decoded.result_bind_eq_ok_iff]
  show (∃ vs, v.items = .ok vs ∧ _) ↔ _
  simp only [Source.result_locating_eq_ok_iff, Decoded.result_mapM_eq_ok_iff, hitems]
  constructor
  · rintro ⟨-, ⟨ds, hv, rfl⟩, has⟩
    exact ⟨ds, hv, List.forall₂_map_left_iff.mp has⟩
  · rintro ⟨ds, hv, has⟩
    exact ⟨ds.map v.child, ⟨ds, hv, rfl⟩, List.forall₂_map_left_iff.mpr has⟩

theorem result_texts_iff {ss : List String} :
    (Source.texts v).result = .ok ss ↔ v.datum = .texts ss := by
  have htexts : ∀ (ds : List Datum) (ss : List String),
      List.Forall₂ (fun d s => (v.child d).text = .ok s) ds ss ↔
        ds = ss.map fun s => .scalar (.text s) := by
    intro ds ss
    simp only [text_eq_ok_iff]
    rw [← List.forall₂_eq_eq_eq, List.forall₂_map_right_iff]
    rfl
  rw [Source.texts, result_listOf_iff]
  show (∃ ds, _ ∧ List.Forall₂ (fun d s => (v.child d).text = .ok s) ds ss) ↔ _
  simp [htexts, Datum.texts]

theorem result_optional_iff {read : View → Decoded α} {value : Option α} :
    (Source.optional read v).result = .ok value ↔
      v.datum = .scalar .null ∧ value = none ∨
        v.datum ≠ .scalar .null ∧ ∃ a, (read v).result = .ok a ∧ value = some a := by
  rw [Source.optional, Decoded.result_bind_eq_ok_iff]
  show (∃ part, v.option = .ok part ∧ _) ↔ _
  unfold option
  split
  · rename_i hv
    simp [hv, eq_comm]
  · rename_i hv
    have hne : v.datum ≠ .scalar .null := hv
    cases hread : (read v).result <;> simp [hne, hread, eq_comm]

end View

/-- What is written under a key that stands for a default where it is missing. -/
inductive HoldsOr (P : Datum → α → Prop) (a₀ : α) : Option Datum → α → Prop where
  | missing : HoldsOr P a₀ none a₀
  | value {d : Datum} {a : α} (h : P d a) : HoldsOr P a₀ (some d) a

/-- What is written under a key that may be missing or null. -/
inductive MayHold (P : Datum → α → Prop) : Option Datum → Option α → Prop where
  | missing : MayHold P none none
  | null : MayHold P (some (.scalar .null)) none
  | value {d : Datum} {a : α} (hd : d ≠ .scalar .null) (h : P d a) : MayHold P (some d) (some a)

namespace Record

variable {v : View} {r : Record View α} {name : String} {number : Nat} {sheet : Sheet View}
  {read : View → Decoded α} {P : Datum → α → Prop} {written : Option Datum} {a : α}

theorem read_iff {strict : Bool} :
    (r.read name strict v).result = .ok a ↔
      ∃ layout, v.layout name = .ok layout ∧ layoutSlip? strict r.fields layout = none ∧
        r.Holds ⟨name, r.fields.length, layout⟩ 0 a := by
  simp only [result_read_eq_ok_iff, result_readLayout_eq_ok_iff]
  rfl

theorem read_object_iff {members : List (String × Datum)} (hv : v.datum = .object members) :
    (r.read name true v).result = .ok a ↔
      ((∀ m ∈ members, m.1 ∈ r.fields) ∧ (members.map Prod.fst).Nodup) ∧
        r.Holds ⟨name, r.fields.length, .members (named v.child members)⟩ 0 a := by
  have hlayout : v.layout name = .ok (.members (named v.child members)) := by
    rw [View.layout, hv, Datum.object]
    simp [named, Datum.label]
  simp [read_iff, hlayout, layoutSlip?, keySlip?_named_iff]

theorem read_list_iff {strict : Bool} {items : List Datum} (hv : v.datum = .list items) :
    (r.read name strict v).result = .ok a ↔
      items.length ≤ r.fields.length ∧
        r.Holds ⟨name, r.fields.length, .values (items.map v.child) (v.surplus items.length)⟩ 0
          a := by
  have hlayout : v.layout name =
      .ok (.values (items.map v.child) (v.surplus items.length)) := by
    rw [View.layout, hv]
  simp [read_iff, hlayout, layoutSlip?]

/-- A strict record is read from no object with a key that is no text. -/
theorem exists_object_of_read {entries : List (Datum × Datum)} (hv : v.datum = .map entries)
    (hkeys : ∀ e ∈ entries, e.1.IsKey) (h : (r.read name true v).result = .ok a) :
    ∃ members, v.datum = .object members := by
  have hlayout : v.layout name =
      .ok (.members (entries.map fun e => ⟨e.1.label, 0, v.child e.2⟩)) := by
    rw [View.layout, hv]
  obtain ⟨layout, hlayout', hslip, -⟩ := read_iff.mp h
  obtain rfl : _ = layout := Except.ok.inj (hlayout.symm.trans hlayout')
  rw [layoutSlip?, keySlip?_eq_none_iff, List.forall_mem_map] at hslip
  have htexts : ∀ e ∈ entries, ∃ s, e.1 = .scalar (.text s) := by
    intro e he
    rcases hkeys e he with htext | hgarbled
    · exact htext
    · have hstrange := hslip.1 e he (by rw [hgarbled]; rfl)
      rw [hgarbled] at hstrange
      cases hstrange
  choose! text htext using htexts
  refine ⟨entries.map fun e => (text e, e.2), ?_⟩
  rw [hv, Datum.object, List.map_map, Datum.map.injEq]
  refine (List.map_id entries).symm.trans (List.map_congr_left fun e he => ?_)
  exact Prod.ext (htext e he) rfl

theorem holds_required (hpart : sheet.layout.part? name number = written.map v.child)
    (hread : ∀ d, written = some d → ((read (v.child d)).result = .ok a ↔ P d a)) :
    (required name read).Holds sheet number a ↔ ∃ d, written = some d ∧ P d a := by
  rw [required, holds_field, hpart]
  cases written with
  | none => simp
  | some d => simp [hread d rfl]

theorem holds_defaulted {a₀ : α} (hpart : sheet.layout.part? name number = written.map v.child)
    (hread : ∀ d, written = some d → ((read (v.child d)).result = .ok a ↔ P d a)) :
    (defaulted name read a₀).Holds sheet number a ↔ HoldsOr P a₀ written a := by
  rw [defaulted, holds_field, hpart]
  cases written with
  | none =>
    simp only [Option.map_none, reduceCtorEq, false_and, exists_false, Option.some.injEq, true_and,
      false_or]
    constructor
    · rintro rfl
      exact .missing
    · rintro ⟨⟩
      rfl
  | some d =>
    simp only [Option.map_some, Option.some.injEq, exists_eq_left', reduceCtorEq, false_and,
      or_false, hread d rfl]
    constructor
    · exact .value
    · rintro (_ | h)
      exact h

theorem holds_optional {value : Option α}
    (hpart : sheet.layout.part? name number = written.map v.child)
    (hread : ∀ d a, written = some d → ((read (v.child d)).result = .ok a ↔ P d a)) :
    (optional name read).Holds sheet number value ↔ MayHold P written value := by
  rw [optional, holds_field, hpart]
  cases written with
  | none =>
    simp only [Option.map_none, reduceCtorEq, false_and, exists_false, Option.some.injEq, true_and,
      false_or]
    constructor
    · rintro rfl
      exact .missing
    · rintro ⟨⟩
      rfl
  | some d =>
    simp only [Option.map_some, Option.some.injEq, exists_eq_left', View.result_optional_iff,
      reduceCtorEq, false_and, or_false, hread d _ rfl]
    constructor
    · rintro (⟨hd, rfl⟩ | ⟨hd, a, ha, rfl⟩)
      · obtain rfl : d = .scalar .null := hd
        exact .null
      · exact .value hd ha
    · rintro (_ | _ | ⟨hd, ha⟩)
      · exact Or.inl ⟨rfl, rfl⟩
      · exact Or.inr ⟨hd, _, ha, rfl⟩

end Record

end ActionPolicy
