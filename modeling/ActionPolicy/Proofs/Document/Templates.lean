import ActionPolicy.Document.Rules
import ActionPolicy.Document.Text
import ActionPolicy.Proofs.Document.Acceptance
import ActionPolicy.Proofs.Resolve.StableOrder

/-!
# The grammar of templates

Which objects are templates, and which template each of them is.

## Main definitions

* `Conditions.Dimensions`, `Conditions.Spelt` – conditions as written, in an object or in a list.
* `Payload.Spelt`, `Template.Spelt` – payloads and templates as written.
* `Context.AllowedUnder` – a context is among those that a written dimension allows.

## Main statements

* `Conditions.decode_iff` – conditions are read exactly from what spells them.
* `Conditions.Spelt.metBy_iff` – they are met where all that is written allows it.
* `Template.decode_exact` – an object is read as a template exactly if it spells one, and the
  template applies where all that is written under its conditions allows it to.
* `Template.readJson_eq_ok_iff` – so is a JSON text.
-/

namespace ActionPolicy

variable {v : View}

/-! ### Conditions -/

namespace Conditions

/-- The dimensions as they are written: each may be missing or null, and else is a list of texts. -/
structure Dimensions (status nodeTypes roles formTypes : Option Datum) (c : Conditions) : Prop where
  status : MayHold (fun d ss => d = .texts ss) status c.status
  nodeTypes : MayHold (fun d ss => d = .texts ss) nodeTypes c.nodeTypes
  roles : MayHold (fun d ss => d = .texts ss) roles c.roles
  formTypes : MayHold (fun d ss => d = .texts ss) formTypes c.formTypes

/-- Conditions as they are written: an object of dimensions, none of them twice, or the list of all
dimensions, of which the last ones may be left out. -/
inductive Spelt : Datum → Conditions → Prop where
  | object {members : List (String × Datum)} {c : Conditions}
    (known : ∀ m ∈ members, m.1 ∈ ["status", "node_types", "roles", "form_types"])
    (distinct : (members.map Prod.fst).Nodup)
    (dimensions : Dimensions (members.lookup "status") (members.lookup "node_types")
      (members.lookup "roles") (members.lookup "form_types") c) : Spelt (.object members) c
  | list {items : List Datum} {c : Conditions} (length : items.length ≤ 4)
    (dimensions : Dimensions items[0]? items[1]? items[2]? items[3]? c) : Spelt (.list items) c

variable {c : Conditions}

theorem holds_record_iff {sheet : Sheet View} {status nodeTypes roles formTypes : Option Datum}
    (hstatus : sheet.layout.part? "status" 0 = status.map v.child)
    (hnodeTypes : sheet.layout.part? "node_types" 1 = nodeTypes.map v.child)
    (hroles : sheet.layout.part? "roles" 2 = roles.map v.child)
    (hformTypes : sheet.layout.part? "form_types" 3 = formTypes.map v.child) :
    record.Holds sheet 0 c ↔ Dimensions status nodeTypes roles formTypes c := by
  have hdimension : ∀ {name number written} {value : Option (List String)},
      sheet.layout.part? name number = written.map v.child →
      ((Record.optional name Source.texts).Holds sheet number value ↔
        MayHold (fun d ss => d = .texts ss) written value) :=
    fun hpart => Record.holds_optional hpart fun _ _ _ => View.result_texts_iff
  unfold record
  simp only [Record.holds_seq, Record.holds_map]
  constructor
  · rintro ⟨_, _, ⟨_, _, ⟨_, _, ⟨_, hs, rfl⟩, hn, rfl⟩, hr, rfl⟩, hf, rfl⟩
    exact ⟨(hdimension hstatus).mp hs, (hdimension hnodeTypes).mp hn, (hdimension hroles).mp hr,
      (hdimension hformTypes).mp hf⟩
  · rintro ⟨hs, hn, hr, hf⟩
    refine ⟨_, _, ⟨_, _, ⟨_, _, ⟨_, ?_, rfl⟩, ?_, rfl⟩, ?_, rfl⟩, ?_, rfl⟩
    · exact (hdimension hstatus).mpr hs
    · exact (hdimension hnodeTypes).mpr hn
    · exact (hdimension hroles).mpr hr
    · exact (hdimension hformTypes).mpr hf

theorem decode_list_iff {items : List Datum} (hv : v.datum = .list items) :
    (decode v).result = .ok c ↔
      items.length ≤ 4 ∧ Dimensions items[0]? items[1]? items[2]? items[3]? c := by
  have hpart : ∀ n, (items.map v.child)[n]? = (items[n]?).map v.child := fun n => List.getElem?_map
  exact (Record.read_list_iff hv).trans
    (and_congr_right' (holds_record_iff (hpart 0) (hpart 1) (hpart 2) (hpart 3)))

theorem decode_object_iff {members : List (String × Datum)} (hv : v.datum = .object members) :
    (decode v).result = .ok c ↔
      ((∀ m ∈ members, m.1 ∈ ["status", "node_types", "roles", "form_types"]) ∧
        (members.map Prod.fst).Nodup) ∧
      Dimensions (members.lookup "status") (members.lookup "node_types") (members.lookup "roles")
        (members.lookup "form_types") c :=
  (Record.read_object_iff hv).trans (and_congr_right' (holds_record_iff
    (Record.map_findMember?_named _ _ _) (Record.map_findMember?_named _ _ _)
    (Record.map_findMember?_named _ _ _) (Record.map_findMember?_named _ _ _)))

/-- Conditions are read exactly from what spells them. -/
theorem decode_iff (hjson : v.datum.OfJson) : (decode v).result = .ok c ↔ Spelt v.datum c := by
  constructor
  · intro h
    cases hv : v.datum with
    | scalar s =>
      obtain ⟨layout, hlayout, -⟩ := Record.read_iff.mp h
      rw [View.layout, hv] at hlayout
      cases hlayout
    | list items =>
      obtain ⟨length, dimensions⟩ := (decode_list_iff hv).mp h
      exact .list length dimensions
    | map entries =>
      obtain ⟨members, hmembers⟩ := Record.exists_object_of_read hv (hv ▸ hjson).isKey h
      obtain ⟨⟨known, distinct⟩, dimensions⟩ := (decode_object_iff hmembers).mp h
      rw [← hv, hmembers]
      exact .object known distinct dimensions
  · intro h
    generalize hv : v.datum = d at h
    cases h with
    | object known distinct dimensions =>
      exact (decode_object_iff hv).mpr ⟨⟨known, distinct⟩, dimensions⟩
    | list length dimensions => exact (decode_list_iff hv).mpr ⟨length, dimensions⟩

end Conditions

theorem Datum.object_injective : Function.Injective Datum.object := by
  intro members members' h
  have hentry : Function.Injective fun m : String × Datum => (Datum.scalar (.text m.1), m.2) := by
    rintro ⟨name, d⟩ ⟨name', d'⟩ heq
    simpa using heq
  exact List.map_injective_iff.mpr hentry (Datum.map.inj h)

theorem Datum.texts_inj {ss ss' : List String} : Datum.texts ss = .texts ss' ↔ ss = ss' := by
  have hscalar : Function.Injective fun s => Datum.scalar (.text s) := by
    intro s s' h
    simpa using h
  rw [texts, texts, Datum.list.injEq]
  exact (List.map_injective_iff.mpr hscalar).eq_iff

theorem MayHold.eq_some_iff {written : Option Datum} {value : Option (List String)}
    (h : MayHold (fun d ss => d = .texts ss) written value) (ss : List String) :
    value = some ss ↔ written = some (.texts ss) := by
  cases h with
  | missing => simp
  | null => simp [Datum.texts]
  | value _ hd => rw [hd, Option.some.injEq, Option.some.injEq, Datum.texts_inj]

/-- A context is among those that a dimension of a name allows. There is none under a name that no
dimension has. -/
def Context.AllowedUnder (ctx : Context) (name : String) (values : List String) : Prop :=
  match name with
  | "status" => ctx.status ∈ values
  | "node_types" => ∀ fact, ctx.nodeType = some fact → fact ∈ values
  | "roles" => ∀ held, ctx.roles = some held → ∃ r ∈ values, r ∈ held
  | "form_types" => ∀ fact, ctx.formType = some fact → fact ∈ values
  | _ => False

namespace Conditions

variable {c : Conditions}

/-- Conditions are met exactly where every dimension that is written allows it. -/
theorem Spelt.metBy_iff {members : List (String × Datum)} {ctx : Context}
    (h : Spelt (.object members) c) :
    c.metBy ctx = true ↔
      ∀ name values, (name, .texts values) ∈ members → ctx.AllowedUnder name values := by
  generalize hd : Datum.object members = d at h
  cases h with
  | list => cases hd
  | @object members' _ known distinct dimensions =>
    obtain rfl : members = members' := Datum.object_injective hd
    have hmem : ∀ {name ss}, members.lookup name = some (.texts ss) ↔ (name, .texts ss) ∈ members :=
      lookup_eq_some_iff_mem distinct
    have hstatus := fun ss => (dimensions.status.eq_some_iff ss).trans hmem
    have hnodeTypes := fun ss => (dimensions.nodeTypes.eq_some_iff ss).trans hmem
    have hroles := fun ss => (dimensions.roles.eq_some_iff ss).trans hmem
    have hformTypes := fun ss => (dimensions.formTypes.eq_some_iff ss).trans hmem
    rw [Conditions.metBy_iff]
    constructor
    · intro hadmits name values hwritten
      have hname := known _ hwritten
      simp only [List.mem_cons, List.not_mem_nil, or_false] at hname
      rcases hname with rfl | rfl | rfl | rfl
      · exact hadmits.status values ((hstatus values).mpr hwritten)
      · exact fun fact => hadmits.nodeType values fact ((hnodeTypes values).mpr hwritten)
      · exact fun held => hadmits.roles values held ((hroles values).mpr hwritten)
      · exact fun fact => hadmits.formType values fact ((hformTypes values).mpr hwritten)
    · intro hallowed
      constructor
      · intro values hvalues
        exact hallowed "status" values ((hstatus values).mp hvalues)
      · intro values fact hvalues
        exact hallowed "node_types" values ((hnodeTypes values).mp hvalues) fact
      · intro values held hvalues
        exact hallowed "roles" values ((hroles values).mp hvalues) held
      · intro values fact hvalues
        exact hallowed "form_types" values ((hformTypes values).mp hvalues) fact

end Conditions

/-! ### Templates -/

/-- Nothing is written under a key. -/
def Blank (written : Option Datum) : Prop := written = none ∨ written = some (.scalar .null)

theorem mayHold_none_iff {α : Type} {P : Datum → α → Prop} {written : Option Datum} :
    MayHold P written none ↔ Blank written := by
  constructor
  · rintro (_ | _)
    · exact Or.inl rfl
    · exact Or.inr rfl
  · rintro (rfl | rfl)
    · exact .missing
    · exact .null

theorem mayHold_some_iff {α : Type} {P : Datum → α → Prop} {written : Option Datum} {a : α} :
    MayHold P written (some a) ↔ ∃ d, written = some d ∧ d ≠ .scalar .null ∧ P d a := by
  constructor
  · rintro (_ | _ | ⟨hd, h⟩)
    exact ⟨_, rfl, hd, h⟩
  · rintro ⟨d, rfl, hd, h⟩
    exact .value hd h

/-- The one payload of a template under the key of its kind, and nothing under the other key. -/
inductive Payload.Spelt (v : View) : Option Datum → Option Datum → Payload → Prop where
  | action {d : Datum} {fieldPermission : Option Datum} {spec : ActionSpec}
    (present : d ≠ .scalar .null) (written : (ActionSpec.decode (v.child d)).result = .ok spec)
    (blank : Blank fieldPermission) : Payload.Spelt v (some d) fieldPermission (.action spec)
  | fieldPermission {action : Option Datum} {d : Datum} {spec : FieldPermissionSpec}
    (blank : Blank action) (present : d ≠ .scalar .null)
    (written : (FieldPermissionSpec.decode (v.child d)).result = .ok spec) :
    Payload.Spelt v action (some d) (.fieldPermission spec)

/-- Of what may be written under the two keys one is there and the other is not. -/
theorem Payload.spelt_iff {action fieldPermission : Option Datum} {p : Payload} :
    Payload.Spelt v action fieldPermission p ↔ ∃ a f,
      MayHold (fun d spec => (ActionSpec.decode (v.child d)).result = .ok spec) action a ∧
      MayHold (fun d spec => (FieldPermissionSpec.decode (v.child d)).result = .ok spec)
        fieldPermission f ∧
      ((∃ spec, a = some spec ∧ f = none ∧ p = .action spec) ∨
        ∃ spec, a = none ∧ f = some spec ∧ p = .fieldPermission spec) := by
  constructor
  · rintro (⟨present, written, blank⟩ | ⟨blank, present, written⟩)
    · exact ⟨some _, none, .value present written, mayHold_none_iff.mpr blank,
        Or.inl ⟨_, rfl, rfl, rfl⟩⟩
    · exact ⟨none, some _, mayHold_none_iff.mpr blank, .value present written,
        Or.inr ⟨_, rfl, rfl, rfl⟩⟩
  · rintro ⟨_, _, ha, hf, ⟨spec, rfl, rfl, rfl⟩ | ⟨spec, rfl, rfl, rfl⟩⟩
    · obtain ⟨d, rfl, present, written⟩ := mayHold_some_iff.mp ha
      exact .action present written (mayHold_none_iff.mp hf)
    · obtain ⟨d, rfl, present, written⟩ := mayHold_some_iff.mp hf
      exact .fieldPermission (mayHold_none_iff.mp ha) present written

namespace Template

/-- A template as it is written in an object of the given members. -/
structure Spelt (v : View) (members : List (String × Datum)) (t : Template) : Prop where
  known : ∀ m ∈ members, m.1 ∈ ["code", "priority", "conditions", "action", "field_permission"]
  distinct : (members.map Prod.fst).Nodup
  code : members.lookup "code" = some (.scalar (.text t.code))
  priority : MayHold (fun d n => d = .scalar (.int (UInt32.toNat n))) (members.lookup "priority")
    t.priority
  conditions : HoldsOr Conditions.Spelt .any (members.lookup "conditions") t.conditions
  payload : Payload.Spelt v (members.lookup "action") (members.lookup "field_permission") t.payload

theorem ofJson_of_lookup {members : List (String × Datum)} (hjson : (Datum.object members).OfJson)
    {name : String} {d : Datum} (h : members.lookup name = some d) : d.OfJson := by
  obtain ⟨before, after, rfl, -⟩ := List.lookup_eq_some_iff.mp h
  have hmem : (Datum.scalar (.text name), d) ∈
      (before ++ (name, d) :: after).map fun m => (Datum.scalar (.text m.1), m.2) :=
    List.mem_map.mpr ⟨(name, d), by simp, rfl⟩
  exact hjson.value hmem

namespace Draft

variable {members : List (String × Datum)} {draft : Draft}

/-- What is written in an object of the given members before the payload is settled. -/
structure Spelt (v : View) (members : List (String × Datum)) (draft : Draft) : Prop where
  code : members.lookup "code" = some (.scalar (.text draft.code))
  priority : MayHold (fun d n => d = .scalar (.int (UInt32.toNat n))) (members.lookup "priority")
    draft.priority
  conditions : HoldsOr Conditions.Spelt .any (members.lookup "conditions") draft.conditions
  action : MayHold (fun d spec => (ActionSpec.decode (v.child d)).result = .ok spec)
    (members.lookup "action") draft.action
  fieldPermission :
    MayHold (fun d spec => (FieldPermissionSpec.decode (v.child d)).result = .ok spec)
      (members.lookup "field_permission") draft.fieldPermission

theorem holds_record_iff {sheet : Sheet View} (hjson : (Datum.object members).OfJson)
    (hpart : ∀ name number, sheet.layout.part? name number = (members.lookup name).map v.child) :
    record.Holds sheet 0 draft ↔ draft.Spelt v members := by
  have hcode : ∀ {s}, (Record.required "code" Source.text).Holds sheet 0 s ↔
      ∃ d, members.lookup "code" = some d ∧ d = .scalar (.text s) := fun {s} =>
    Record.holds_required (P := fun d s => d = .scalar (.text s)) (hpart "code" 0) fun d _ =>
      View.text_eq_ok_iff
  have hpriority : ∀ {value}, (Record.optional "priority" Source.word32).Holds sheet 1 value ↔
      MayHold (fun d n => d = .scalar (.int (UInt32.toNat n))) (members.lookup "priority")
        value := by
    refine Record.holds_optional (hpart "priority" 1) fun d n hd => View.word32_eq_ok_iff ?_
    rintro (rfl : d = .scalar .negativeZero)
    cases ofJson_of_lookup hjson hd with
    | scalar hs => exact hs rfl
  have hconditions : ∀ {c}, (Record.defaulted "conditions" Conditions.decode .any).Holds sheet 2 c ↔
      HoldsOr Conditions.Spelt .any (members.lookup "conditions") c := fun {c} =>
    Record.holds_defaulted (hpart "conditions" 2) fun d hd =>
      Conditions.decode_iff (v := v.child d) (ofJson_of_lookup hjson hd)
  have haction : ∀ {value}, (Record.optional "action" ActionSpec.decode).Holds sheet 3 value ↔
      MayHold (fun d spec => (ActionSpec.decode (v.child d)).result = .ok spec)
        (members.lookup "action") value :=
    Record.holds_optional (hpart "action" 3) fun _ _ _ => Iff.rfl
  have hfieldPermission : ∀ {value},
      (Record.optional "field_permission" FieldPermissionSpec.decode).Holds sheet 4 value ↔
      MayHold (fun d spec => (FieldPermissionSpec.decode (v.child d)).result = .ok spec)
        (members.lookup "field_permission") value :=
    Record.holds_optional (hpart "field_permission" 4) fun _ _ _ => Iff.rfl
  unfold record
  simp only [Record.holds_seq, Record.holds_map]
  constructor
  · rintro ⟨_, _, ⟨_, _, ⟨_, _, ⟨_, _, ⟨_, hc, rfl⟩, hp, rfl⟩, hd, rfl⟩, ha, rfl⟩, hf, rfl⟩
    obtain ⟨_, hc, rfl⟩ := hcode.mp hc
    exact ⟨hc, hpriority.mp hp, hconditions.mp hd, haction.mp ha, hfieldPermission.mp hf⟩
  · rintro ⟨hc, hp, hd, ha, hf⟩
    refine ⟨_, _, ⟨_, _, ⟨_, _, ⟨_, _, ⟨_, ?_, rfl⟩, ?_, rfl⟩, ?_, rfl⟩, ?_, rfl⟩, ?_, rfl⟩
    · exact hcode.mpr ⟨_, hc, rfl⟩
    · exact hpriority.mpr hp
    · exact hconditions.mpr hd
    · exact haction.mpr ha
    · exact hfieldPermission.mpr hf

theorem read_iff (hv : v.datum = .object members) (hjson : v.datum.OfJson) :
    (record.read "RawTemplate" true v).result = .ok draft ↔
      ((∀ m ∈ members, m.1 ∈ ["code", "priority", "conditions", "action", "field_permission"]) ∧
        (members.map Prod.fst).Nodup) ∧ draft.Spelt v members :=
  (Record.read_object_iff hv).trans (and_congr_right'
    (holds_record_iff (hv ▸ hjson) fun name number =>
      Record.map_findMember?_named name number 0))

/-- A payload is settled where one is written and the other is not. -/
theorem settle_eq_ok_iff {t : Template} :
    draft.settle = .ok t ↔ t.code = draft.code ∧ t.priority = draft.priority ∧
      t.conditions = draft.conditions ∧
      ((∃ spec, draft.action = some spec ∧ draft.fieldPermission = none ∧
          t.payload = .action spec) ∨
        ∃ spec, draft.action = none ∧ draft.fieldPermission = some spec ∧
          t.payload = .fieldPermission spec) := by
  obtain ⟨code, priority, conditions, payload⟩ := t
  unfold settle
  cases draft.action <;> cases draft.fieldPermission <;> simp [eq_comm]

end Draft

variable {members : List (String × Datum)} {t : Template}

theorem decode_object_iff (hv : v.datum = .object members) (hjson : v.datum.OfJson) :
    (decode v).result = .ok t ↔ t.Spelt v members := by
  have hsettle : ∀ draft : Draft, (Decoded.ofExcept
      (draft.settle.mapError DecodeError.ofFault)).result = .ok t ↔ draft.settle = .ok t :=
    fun _ => mapError_eq_ok_iff
  have hdecode : (decode v).result = .ok t ↔
      ∃ draft, (Draft.record.read "RawTemplate" true v).result = .ok draft ∧
        (Decoded.ofExcept (draft.settle.mapError DecodeError.ofFault)).result = .ok t :=
    Decoded.result_bind_eq_ok_iff
  rw [hdecode]
  simp only [hsettle, Draft.read_iff hv hjson, Draft.settle_eq_ok_iff]
  constructor
  · rintro ⟨draft, ⟨⟨known, distinct⟩, hdraft⟩, hcode, hpriority, hconditions, hpayload⟩
    exact ⟨known, distinct, hcode ▸ hdraft.code, hpriority ▸ hdraft.priority,
      hconditions ▸ hdraft.conditions,
      Payload.spelt_iff.mpr ⟨_, _, hdraft.action, hdraft.fieldPermission, hpayload⟩⟩
  · intro h
    obtain ⟨action, fieldPermission, ha, hf, hpayload⟩ := Payload.spelt_iff.mp h.payload
    exact ⟨⟨t.code, t.priority, t.conditions, action, fieldPermission⟩,
      ⟨⟨h.known, h.distinct⟩, h.code, h.priority, h.conditions, ha, hf⟩, rfl, rfl, rfl, hpayload⟩

/-- A template applies exactly where every dimension that is written under its conditions allows
it. -/
theorem Spelt.appliesTo_iff {written : List (String × Datum)} {ctx : Context}
    (h : t.Spelt v members) (hwritten : ("conditions", .object written) ∈ members) :
    t.appliesTo ctx = true ↔
      ∀ name values, (name, .texts values) ∈ written → ctx.AllowedUnder name values := by
  have hconditions := h.conditions
  rw [(lookup_eq_some_iff_mem h.distinct).mpr hwritten] at hconditions
  generalize hd : some (Datum.object written) = d at hconditions
  generalize hc : t.conditions = c at hconditions
  cases hconditions with
  | missing => cases hd
  | value hspelt =>
    obtain rfl := Option.some.inj hd
    rw [appliesTo, hc]
    exact hspelt.metBy_iff

theorem decode_iff_exists_object {entries : List (Datum × Datum)} (hv : v.datum = .map entries)
    (hjson : v.datum.OfJson) :
    (decode v).result = .ok t ↔ ∃ members, v.datum = .object members ∧ t.Spelt v members := by
  constructor
  · intro h
    obtain ⟨draft, hread, -⟩ := Decoded.result_bind_eq_ok_iff.mp h
    obtain ⟨members, hmembers⟩ := Record.exists_object_of_read hv (hv ▸ hjson).isKey hread
    exact ⟨members, hmembers, (decode_object_iff hmembers hjson).mp h⟩
  · rintro ⟨members, hmembers, h⟩
    exact (decode_object_iff hmembers hjson).mpr h

/-- An object is read as a template exactly if it spells one: all its keys are known and none is
there twice, and its code, its priority, its conditions and its one payload are those of the
template. Such a template applies exactly where every dimension that is written under its
conditions allows it, so no key there goes unheard. -/
theorem decode_exact {entries : List (Datum × Datum)} (hv : v.datum = .map entries)
    (hjson : v.datum.OfJson) (t : Template) :
    ((decode v).result = .ok t ↔ ∃ members, v.datum = .object members ∧ t.Spelt v members) ∧
      ∀ members written ctx, (decode v).result = .ok t → v.datum = .object members →
        ("conditions", .object written) ∈ members →
        (t.appliesTo ctx = true ↔
          ∀ name values, (name, .texts values) ∈ written → ctx.AllowedUnder name values) := by
  refine ⟨decode_iff_exists_object hv hjson, ?_⟩
  intro members written ctx h hmembers hwritten
  exact ((decode_object_iff hmembers hjson).mp h).appliesTo_iff hwritten

theorem decode_exact_claim :
    let conditions : List (String × Datum) := [("status", .texts ["PENDING"])]
    let v : View := .ofText (.object [("code", .scalar (.text "claim")),
      ("conditions", .object conditions),
      ("action", .object [("label", .scalar (.text "Claim"))])])
    let t : Template :=
      ⟨"claim", none, ⟨some ["PENDING"], none, none, none⟩, .action (.ofLabel "Claim")⟩
    (decode v).result = .ok t ∧ (∃ members, v.datum = .object members ∧ t.Spelt v members) ∧
      (t.appliesTo (.ofStatus "DRAFT") = true ↔
        ∀ name values, (name, .texts values) ∈ conditions →
          (Context.ofStatus "DRAFT").AllowedUnder name values) := by
  intro conditions v t
  have hjson : v.datum.OfJson := Json.ofJson_toDatum (.object [("code", .string "claim"),
    ("conditions", .object [("status", .strings ["PENDING"])]),
    ("action", .object [("label", .string "Claim")])])
  have hread : (decode v).result = .ok t := rfl
  obtain ⟨hspelt, hallowed⟩ := decode_exact (v := v) rfl hjson t
  exact ⟨hread, hspelt.mp hread, hallowed _ conditions _ hread rfl (by simp)⟩

/-- A JSON text that holds an object is read as a template exactly if the object spells one. -/
theorem readJson_eq_ok_iff {text : String} {entries : List (Datum × Datum)}
    (h : Json.read? text = some (.map entries)) :
    Document.readJson decode text = .ok t ↔
      ∃ members, Datum.map entries = .object members ∧
        t.Spelt (.ofText (.map entries)) members := by
  have hread : Document.readJson decode text = .ok t ↔
      (decode (View.ofText (.map entries))).result = .ok t := by
    rw [Document.readJson, h, Document.readDatum]
    exact mapError_eq_ok_iff
  exact hread.trans (decode_iff_exists_object rfl (Json.ofJson_of_read? h))

end Template

end ActionPolicy
