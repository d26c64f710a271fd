import ActionPolicy.Document.Requests
import ActionPolicy.Document.Text
import ActionPolicy.Proofs.Document.Decisions
import ActionPolicy.Proofs.Json.Ordered

/-!
# Reading written rules, facts and requests

What is written as compact JSON is read back. A template has two descriptions: it is written with
its payload under one of two keys, and read as a draft that may have both. A request holds values of
any form, which are read back if they are in the order in which values are kept, if their numbers
are integers, and if a text may nest containers so deeply.

## Main definitions

* `Payload.action?`, `Payload.fieldPermission?` – the two payloads of a draft.
* `Template.draft` – a template as it is read.

## Main statements

* `Template.decode_toJson` – a template, by its draft.
* `ActionRequest.decode_toJson` – a request.
* `Document.readJson_toJson` – every type that is written and read.
-/

namespace ActionPolicy

variable {v : View}

theorem Namespace.ofName?_name (ns : Namespace) : Named.ofName? (Named.name ns) = some ns := by
  cases ns <;> decide

theorem Json.present_append (members others : List (String × Option Json)) :
    present (members ++ others) = present members ++ present others :=
  List.filterMap_append

/-! ### Fields -/

namespace Record.Reads

variable {α : Type} {members : List (String × Option Json)} {name : String}

theorem optionalTexts {value : Option (List String)} (hnodup : (members.map Prod.fst).Nodup)
    (hmem : (name, value.map .strings) ∈ members) :
    (Record.optional name Source.texts).Reads v members value := by
  refine .optional Json.strings hnodup hmem (fun ss _ => View.result_texts rfl) fun ss => ?_
  rw [Json.strings, Json.toDatum]
  simp

theorem optionalNamed [Named α] [Inhabited α] {value : Option α}
    (hnodup : (members.map Prod.fst).Nodup) (hmem : (name, value.map Named.toJson) ∈ members)
    (hnames : ∀ a : α, Named.ofName? (Named.name a) = some a) :
    (Record.optional name Source.named).Reads v members value := by
  refine .optional Named.toJson hnodup hmem (fun a _ => View.result_named (hnames a) rfl) fun a => ?_
  rw [Named.toJson, Json.toDatum]
  simp

theorem optionalWord32 {value : Option UInt32} (hnodup : (members.map Prod.fst).Nodup)
    (hmem : (name, value.map fun n => Json.nat n.toNat) ∈ members) :
    (Record.optional name Source.word32).Reads v members value := by
  refine .optional (fun n : UInt32 => Json.nat n.toNat) hnodup hmem
    (fun n _ => View.result_word32 rfl) fun n => ?_
  rw [Json.nat, Json.toDatum]
  simp

end Record.Reads

/-! ### Facts -/

theorem CacheKey.decode_toJson (k : CacheKey) (hv : v.datum = k.toJson.toDatum) :
    (decode v).result = .ok k := by
  obtain ⟨ns, identifier⟩ := k
  have hnodup : ["namespace", "identifier"].Nodup := by decide
  have hreads : record.Reads v [("namespace", some (Named.toJson ns)),
      ("identifier", some (.string identifier))] ⟨ns, identifier⟩ :=
    .seq (.map CacheKey.mk (.named hnodup (by simp) ns.ofName?_name)) (.text hnodup (by simp))
  exact hreads.read hv "CacheKey" hnodup nofun

theorem CacheKey.fits_toJson (k : CacheKey) : k.toJson.Fits 1 := by
  show (Json.record [("namespace", some (Named.toJson k.ns)),
    ("identifier", some (.string k.identifier))]).Fits 1
  refine .record ?_
  simp only [List.forall_mem_cons, List.not_mem_nil, IsEmpty.forall_iff, implies_true, and_true]
  exact ⟨.of_mem_some (.string _), .of_mem_some (.string _)⟩

theorem Context.decode_toJson (c : Context) (hv : v.datum = c.toJson.toDatum) :
    (decode v).result = .ok c := by
  obtain ⟨status, nodeType, formType, roles, taskId, processInstanceId⟩ := c
  have hnodup : ["status", "node_type", "form_type", "roles", "task_id",
    "process_instance_id"].Nodup := by decide
  have hreads : record.Reads v [("status", some (.string status)),
      ("node_type", nodeType.map .string), ("form_type", formType.map .string),
      ("roles", roles.map .strings), ("task_id", taskId.map .string),
      ("process_instance_id", processInstanceId.map .string)]
      ⟨status, nodeType, formType, roles, taskId, processInstanceId⟩ := by
    refine .seq (.seq (.seq (.seq (.seq (.map Context.mk ?status) ?nodeType) ?formType) ?roles)
      ?taskId) ?processInstanceId
    case status => exact .text hnodup (by simp)
    case nodeType => exact .optionalText hnodup (by simp)
    case formType => exact .optionalText hnodup (by simp)
    case roles => exact .optionalTexts hnodup (by simp)
    case taskId => exact .optionalText hnodup (by simp)
    case processInstanceId => exact .optionalText hnodup (by simp)
  exact hreads.read hv "Context" hnodup nofun

theorem Context.fits_toJson (c : Context) : c.toJson.Fits 2 := by
  refine .record ?_
  simp only [List.forall_mem_cons, List.not_mem_nil, IsEmpty.forall_iff, implies_true, and_true]
  exact ⟨.of_mem_some (.string _), .of_mem_map .string, .of_mem_map .string, .of_mem_map .strings,
    .of_mem_map .string, .of_mem_map .string⟩

theorem FieldAccess.decode_toJson (a : FieldAccess) (hv : v.datum = a.toJson.toDatum) :
    (decode v).result = .ok a := by
  obtain ⟨editable, visible, required⟩ := a
  have hnodup : ["editable", "visible", "required"].Nodup := by decide
  have hreads : record.Reads v [("editable", some (.bool editable)),
      ("visible", some (.bool visible)), ("required", some (.bool required))]
      ⟨editable, visible, required⟩ :=
    .seq (.seq (.map FieldAccess.mk (.bool hnodup (by simp))) (.bool hnodup (by simp)))
      (.bool hnodup (by simp))
  exact hreads.read hv "FieldAccess" hnodup nofun

theorem FieldAccess.fits_toJson (a : FieldAccess) : a.toJson.Fits 1 := by
  show (Json.record [("editable", some (.bool a.editable)), ("visible", some (.bool a.visible)),
    ("required", some (.bool a.required))]).Fits 1
  refine .record ?_
  simp only [List.forall_mem_cons, List.not_mem_nil, IsEmpty.forall_iff, implies_true, and_true]
  exact ⟨.of_mem_some (.bool _), .of_mem_some (.bool _), .of_mem_some (.bool _)⟩

/-! ### Rules -/

theorem Conditions.decode_toJson (c : Conditions) (hv : v.datum = c.toJson.toDatum) :
    (decode v).result = .ok c := by
  obtain ⟨status, nodeTypes, roles, formTypes⟩ := c
  have hnodup : ["status", "node_types", "roles", "form_types"].Nodup := by decide
  have hreads : record.Reads v [("status", status.map .strings),
      ("node_types", nodeTypes.map .strings), ("roles", roles.map .strings),
      ("form_types", formTypes.map .strings)] ⟨status, nodeTypes, roles, formTypes⟩ :=
    .seq (.seq (.seq (.map Conditions.mk (.optionalTexts hnodup (by simp)))
      (.optionalTexts hnodup (by simp))) (.optionalTexts hnodup (by simp)))
      (.optionalTexts hnodup (by simp))
  refine hreads.read hv "Conditions" hnodup fun _ m hm => ?_
  exact List.mem_map_of_mem (f := Prod.fst) hm

theorem Conditions.fits_toJson (c : Conditions) : c.toJson.Fits 2 := by
  refine .record ?_
  simp only [List.forall_mem_cons, List.not_mem_nil, IsEmpty.forall_iff, implies_true, and_true]
  exact ⟨.of_mem_map .strings, .of_mem_map .strings, .of_mem_map .strings, .of_mem_map .strings⟩

theorem Conditions.isEmpty_iff {c : Conditions} : c.isEmpty = true ↔ c = .any := by
  obtain ⟨status, nodeTypes, roles, formTypes⟩ := c
  simp [isEmpty, any, and_assoc]

theorem ActionSpec.decode_toJson (a : ActionSpec) (hv : v.datum = a.toJson.toDatum) :
    (decode v).result = .ok a := by
  obtain ⟨label, style, icon, auth, requireComment, confirm, className, target⟩ := a
  have hnodup : ["label", "style", "icon", "auth", "require_comment", "confirm", "class_name",
    "target"].Nodup := by decide
  have hreads : record.Reads v [("label", some (.string label)),
      ("style", some (Named.toJson style)), ("icon", icon.map .string),
      ("auth", Json.nonemptyStrings auth), ("require_comment", some (.bool requireComment)),
      ("confirm", confirm.map Confirm.toJson), ("class_name", className.map .string),
      ("target", target.map Named.toJson)]
      ⟨label, style, icon, auth, requireComment, confirm, className, target⟩ := by
    refine .seq (.seq (.seq (.seq (.seq (.seq (.seq (.map ActionSpec.mk ?label) ?style) ?icon)
      ?auth) ?requireComment) ?confirm) ?className) ?target
    case label => exact .text hnodup (by simp)
    case style =>
      exact .field_of_some hnodup (j := Named.toJson style) (by simp)
        (View.result_named style.ofName?_name rfl)
    case icon => exact .optionalText hnodup (by simp)
    case auth => exact .nonemptyTexts hnodup (by simp)
    case requireComment =>
      exact .field_of_some hnodup (j := .bool requireComment) (by simp) (View.result_bool rfl)
    case confirm =>
      exact .optional Confirm.toJson hnodup (by simp) (fun c _ => c.decode_toJson rfl)
        fun _ => Json.toDatum_record_ne_null _
    case className => exact .optionalText hnodup (by simp)
    case target => exact .optionalNamed hnodup (by simp) Target.ofName?_name
  exact hreads.read hv "ActionSpec" hnodup nofun

theorem ActionSpec.fits_toJson (a : ActionSpec) : a.toJson.Fits 2 := by
  refine .record ?_
  simp only [List.forall_mem_cons, List.not_mem_nil, IsEmpty.forall_iff, implies_true, and_true]
  exact ⟨.of_mem_some (.string _), .of_mem_some (.string _), .of_mem_map .string,
    .of_mem_nonemptyStrings _, .of_mem_some (.bool _), .of_mem_map Confirm.fits_toJson,
    .of_mem_map .string, .of_mem_map fun _ => .string _⟩

theorem FieldPermissionSpec.decode_toJson (p : FieldPermissionSpec)
    (hv : v.datum = p.toJson.toDatum) : (decode v).result = .ok p := by
  obtain ⟨editable, readonly, hidden, required⟩ := p
  have hnodup : ["editable", "readonly", "hidden", "required"].Nodup := by decide
  have hreads : record.Reads v [("editable", some (.strings editable)),
      ("readonly", some (.strings readonly)), ("hidden", some (.strings hidden)),
      ("required", some (.strings required))] ⟨editable, readonly, hidden, required⟩ :=
    .seq (.seq (.seq (.map FieldPermissionSpec.mk (.texts hnodup (by simp)))
      (.texts hnodup (by simp))) (.texts hnodup (by simp))) (.texts hnodup (by simp))
  exact hreads.read hv "FieldPermissionSpec" hnodup nofun

theorem FieldPermissionSpec.fits_toJson (p : FieldPermissionSpec) : p.toJson.Fits 2 := by
  show (Json.record [("editable", some (.strings p.editable)),
    ("readonly", some (.strings p.readonly)), ("hidden", some (.strings p.hidden)),
    ("required", some (.strings p.required))]).Fits 2
  refine .record ?_
  simp only [List.forall_mem_cons, List.not_mem_nil, IsEmpty.forall_iff, implies_true, and_true]
  exact ⟨.of_mem_some (.strings _), .of_mem_some (.strings _), .of_mem_some (.strings _),
    .of_mem_some (.strings _)⟩

/-! ### Templates -/

namespace Payload

/-- The action, if the payload is one. -/
def action? : Payload → Option ActionSpec
  | action spec => some spec
  | fieldPermission _ => none

/-- The field permissions, if the payload holds some. -/
def fieldPermission? : Payload → Option FieldPermissionSpec
  | action _ => none
  | fieldPermission spec => some spec

end Payload

namespace Template

/-- A template as it is read. -/
def draft (t : Template) : Draft :=
  ⟨t.code, t.priority, t.conditions, t.payload.action?, t.payload.fieldPermission?⟩

theorem settle_draft (t : Template) : t.draft.settle = .ok t := by
  obtain ⟨code, priority, conditions, payload⟩ := t
  cases payload <;> rfl

/-- The members of a template but for its payload. -/
def settings (t : Template) : List (String × Option Json) :=
  [("code", some (.string t.code)), ("priority", t.priority.map fun p => .nat p.toNat),
    ("conditions", if t.conditions.isEmpty then none else some t.conditions.toJson)]

/-- The members that a template may have, with both keys of a payload. -/
def members (t : Template) : List (String × Option Json) :=
  t.settings ++ [("action", t.payload.action?.map ActionSpec.toJson),
    ("field_permission", t.payload.fieldPermission?.map FieldPermissionSpec.toJson)]

/-- The key that a template has no payload for is not written. -/
theorem toJson_eq_record (t : Template) : t.toJson = .record t.members := by
  have hwritten : t.toJson = .record (t.settings ++
      [((payloadMember t.payload).1, some (payloadMember t.payload).2)]) := rfl
  rw [hwritten, members, Json.record_eq, Json.record_eq, Json.present_append, Json.present_append]
  cases t.payload <;> rfl

/-- Conditions that are left out are those that are taken for missing ones. -/
theorem reads_conditions {members : List (String × Option Json)} {name : String} {c : Conditions}
    (hnodup : (members.map Prod.fst).Nodup)
    (hmem : (name, if c.isEmpty then none else some c.toJson) ∈ members) :
    (Record.defaulted name Conditions.decode .any).Reads v members c := by
  by_cases hempty : c.isEmpty = true
  · rw [if_pos hempty] at hmem
    obtain rfl := Conditions.isEmpty_iff.mp hempty
    exact .field_of_none hnodup hmem
  · rw [if_neg hempty] at hmem
    exact .field_of_some hnodup hmem (c.decode_toJson rfl)

theorem reads_draft (t : Template) : Draft.record.Reads v t.members t.draft := by
  have hnodup : (t.members.map Prod.fst).Nodup := by
    show ["code", "priority", "conditions", "action", "field_permission"].Nodup
    decide
  refine .seq (.seq (.seq (.seq (.map Draft.mk ?code) ?priority) ?conditions) ?action)
    ?fieldPermission
  case code => exact .text hnodup (by simp [members, settings])
  case priority => exact .optionalWord32 hnodup (by simp [members, settings])
  case conditions => exact reads_conditions hnodup (by simp [members, settings])
  case action =>
    exact .optional ActionSpec.toJson hnodup (by simp [members, settings]) (fun a _ => a.decode_toJson rfl)
      fun _ => Json.toDatum_record_ne_null _
  case fieldPermission =>
    refine .optional FieldPermissionSpec.toJson hnodup (by simp [members, settings])
      (fun p _ => p.decode_toJson rfl) fun p => ?_
    exact Json.toDatum_record_ne_null [("editable", some (.strings p.editable)),
      ("readonly", some (.strings p.readonly)), ("hidden", some (.strings p.hidden)),
      ("required", some (.strings p.required))]

theorem decode_toJson (t : Template) (hv : v.datum = t.toJson.toDatum) :
    (decode v).result = .ok t := by
  have hnodup : (t.members.map Prod.fst).Nodup := by
    show ["code", "priority", "conditions", "action", "field_permission"].Nodup
    decide
  rw [toJson_eq_record] at hv
  have hdraft : (Draft.record.read "RawTemplate" true v).result = .ok t.draft :=
    t.reads_draft.read hv "RawTemplate" hnodup fun _ m hm => List.mem_map_of_mem (f := Prod.fst) hm
  rw [decode, Decoded.result_bind, hdraft]
  show (t.draft.settle.mapError DecodeError.ofFault) = _
  rw [settle_draft]
  rfl

theorem fits_toJson (t : Template) : t.toJson.Fits 3 := by
  rw [toJson_eq_record]
  refine .record ?_
  simp only [members, settings, List.cons_append, List.nil_append, List.forall_mem_cons,
    List.not_mem_nil, IsEmpty.forall_iff, implies_true, and_true]
  refine ⟨.of_mem_some (.string _), .of_mem_map .nat, ?_, .of_mem_map ActionSpec.fits_toJson,
    .of_mem_map FieldPermissionSpec.fits_toJson⟩
  split
  · nofun
  · exact .of_mem_some t.conditions.fits_toJson

end Template

/-! ### Requests and outcomes -/

theorem ActionOutcome.decode_toJson (o : ActionOutcome) (hv : v.datum = o.toJson.toDatum) :
    (decode v).result = .ok o := by
  obtain ⟨code, target, message⟩ := o
  have hnodup : ["code", "target", "message"].Nodup := by decide
  have hreads : record.Reads v [("code", some (.string code)),
      ("target", target.map ResolvedTarget.toJson), ("message", message.map .string)]
      ⟨code, target, message⟩ := by
    refine .seq (.seq (.map ActionOutcome.mk ?code) ?target) ?message
    case code => exact .text hnodup (by simp)
    case target =>
      refine .optional ResolvedTarget.toJson hnodup (by simp) (fun t _ => t.decode_toJson rfl)
        fun t => ?_
      exact Json.toDatum_record_ne_null [("kind", some (Named.toJson t.kind)),
        ("id", some (.string t.id))]
    case message => exact .optionalText hnodup (by simp)
  exact hreads.read hv "ActionOutcome" hnodup nofun

theorem ActionOutcome.fits_toJson (o : ActionOutcome) : o.toJson.Fits 2 := by
  refine .record ?_
  simp only [List.forall_mem_cons, List.not_mem_nil, IsEmpty.forall_iff, implies_true, and_true]
  exact ⟨.of_mem_some (.string _), .of_mem_map ResolvedTarget.fits_toJson, .of_mem_map .string⟩

namespace Json

theorem depth_lt_of_mem {members : List (String × Json)} {m : String × Json} (hm : m ∈ members) :
    m.2.toDatum.depth < (Json.object members).toDatum.depth := by
  rw [toDatum, Datum.depth, Nat.lt_succ_iff]
  induction members with
  | nil => contradiction
  | cons n members ih =>
    rw [membersToData, Datum.entriesDepth]
    rcases List.mem_cons.mp hm with rfl | hm
    · omega
    · have hrest := ih hm
      omega

theorem Exact.record {members : List (String × Option Json)}
    (h : ∀ m ∈ members, ∀ j ∈ m.2, j.Exact) : (Json.record members).Exact :=
  .object fun m hm => h (m.1, some m.2) (mem_present.mp hm) m.2 rfl

end Json

/-- The members of an ordered object are read as they are, if a text may nest containers so
deeply. -/
theorem View.result_members {members : List (String × Json)}
    (hv : v.datum = (Json.object members).toDatum) (hordered : (Json.object members).Ordered)
    (hexact : (Json.object members).Exact)
    (hlevel : v.flavour = .text → v.level + (Json.object members).toDatum.depth ≤ nestingLimit) :
    (Source.members v).result = .ok members := by
  have hkeepable : v.keepable = true := by
    have hdeep : v.flavour ≠ .text ∨ v.level + v.datum.depth ≤ nestingLimit := by
      by_cases hflavour : v.flavour = .text
      · exact Or.inr (hv ▸ hlevel hflavour)
      · exact Or.inl hflavour
    rw [keepable, hv, Json.keepable_toDatum, Bool.true_and, Bool.or_eq_true, ← hv]
    exact hdeep.imp decide_eq_true decide_eq_true
  have hkept : Datum.entriesToJson? [] (Json.membersToData members) = some members := by
    cases hordered with
    | object names h =>
      cases hexact with
      | object hexact =>
        exact Json.entriesToJson?_toData [] names fun m hm =>
          (h m hm).toJson?_toDatum (hexact m hm)
  show v.members = _
  rw [View.members, hv, Json.toDatum]
  simp only [hkeepable, if_true, hkept]

theorem View.level_le_of_members {members : List (String × Json)}
    (h : (Source.members v).result = .ok members) (htext : v.flavour = .text) :
    v.level + v.datum.depth ≤ nestingLimit := by
  have hmembers : v.members = .ok members := h
  have hkeepable : v.keepable = true := by
    by_contra hnot
    unfold View.members at hmembers
    split at hmembers
    · rw [if_neg hnot] at hmembers
      contradiction
    · contradiction
  rw [keepable, Bool.and_eq_true, Bool.or_eq_true] at hkeepable
  rcases hkeepable.2 with hother | hbound
  · exact absurd htext (of_decide_eq_true hother)
  · exact of_decide_eq_true hbound

namespace ActionRequest

/-- The values that come with a request are those that a text can hold: ordered by name, with
integers of 64 bits as their only numbers. -/
structure Plain (r : ActionRequest) : Prop where
  ordered : (Json.object r.values).Ordered
  exact : (Json.object r.values).Exact

theorem Plain.empty : empty.Plain :=
  ⟨.object .nil (fun _ hm => absurd hm List.not_mem_nil),
    .object fun _ hm => absurd hm List.not_mem_nil⟩

/-- A request stays plain when a plain value is added to it. -/
theorem Plain.withVariable {r : ActionRequest} (h : r.Plain) {j : Json} (hordered : j.Ordered)
    (hexact : j.Exact) (name : String) : (r.withVariable name j).Plain := by
  refine ⟨h.ordered.put hordered name, .object fun m hm => ?_⟩
  rcases Json.eq_or_mem_of_mem_put hm with rfl | hm
  · exact hexact
  · cases h.exact with
    | object hvalues => exact hvalues m hm

theorem exact_toJson {r : ActionRequest} (h : r.Plain) : r.toJson.Exact := by
  refine .record ?_
  simp only [List.forall_mem_cons, List.not_mem_nil, IsEmpty.forall_iff, implies_true, and_true]
  refine ⟨fun j hj => ?_, fun j hj => ?_, fun j hj => ?_⟩
  · exact (Json.Fits.of_mem_map (n := 0) .string j hj).exact
  · exact (Json.Fits.of_mem_map (n := 0) .string j hj).exact
  · split at hj
    · contradiction
    · exact Option.mem_some.mp hj ▸ h.exact

/-- The members of a request. -/
def members (r : ActionRequest) : List (String × Option Json) :=
  [("comment", r.comment.map .string), ("assignee", r.assignee.map .string),
    ("variables", if r.values.isEmpty then none else some (.object r.values))]

theorem nodup_names (r : ActionRequest) : (r.members.map Prod.fst).Nodup := by
  show ["comment", "assignee", "variables"].Nodup
  decide

theorem values_mem_members {r : ActionRequest} (hne : r.values ≠ []) :
    ("variables", some (Json.object r.values)) ∈ r.members := by
  simp [members, hne]

theorem depth_values_lt {r : ActionRequest} (hne : r.values ≠ []) :
    (Json.object r.values).toDatum.depth < r.toJson.toDatum.depth :=
  Json.depth_lt_of_mem (Json.mem_present.mpr (values_mem_members hne))

theorem depth_toJson_le {r : ActionRequest} {n : Nat}
    (h : r.values ≠ [] → (Json.object r.values).toDatum.depth ≤ n) :
    r.toJson.toDatum.depth ≤ n + 1 := by
  have hmembers : ∀ m ∈ Json.present r.members, m.2.toDatum.depth ≤ n := by
    intro m hm
    have hmem : (m.1, some m.2) ∈ r.members := Json.mem_present.mp hm
    simp only [members, List.mem_cons, Prod.mk.injEq, List.not_mem_nil, or_false] at hmem
    rcases hmem with ⟨-, hj⟩ | ⟨-, hj⟩ | ⟨-, hj⟩
    · exact (Json.Fits.of_mem_map .string m.2 hj.symm).depth
    · exact (Json.Fits.of_mem_map .string m.2 hj.symm).depth
    · split at hj
      · contradiction
      · rename_i hvalues
        rw [Option.some.inj hj]
        exact h fun hnil => hvalues (List.isEmpty_iff.mpr hnil)
  exact Nat.succ_le_succ (Json.entriesDepth_le hmembers)

/-- A plain request is read back, if a text may nest containers so deeply. -/
theorem decode_toJson {r : ActionRequest} (hplain : r.Plain) (hv : v.datum = r.toJson.toDatum)
    (hlevel : v.flavour = .text → v.level + r.toJson.toDatum.depth ≤ nestingLimit) :
    (decode v).result = .ok r := by
  have hreads : record.Reads v r.members r := by
    refine .seq (.seq (.map ActionRequest.mk ?comment) ?assignee) ?values
    case comment => exact .optionalText r.nodup_names (by simp [members])
    case assignee => exact .optionalText r.nodup_names (by simp [members])
    case values =>
      by_cases hne : r.values = []
      · rw [hne]
        exact .field_of_none r.nodup_names (by simp [members, hne])
      · refine .field_of_some r.nodup_names (values_mem_members hne) ?_
        refine View.result_members rfl hplain.ordered hplain.exact fun hflavour => ?_
        show v.level + 1 + _ ≤ nestingLimit
        rw [Nat.add_right_comm]
        exact Nat.le_trans (Nat.add_le_add_left (depth_values_lt hne) v.level) (hlevel hflavour)
  exact hreads.read hv "ActionRequest" r.nodup_names nofun

/-- Nothing is read of a request that nests containers more deeply than a text may. -/
theorem depth_le_of_decode {r r' : ActionRequest} (hv : v.datum = r.toJson.toDatum)
    (htext : v.flavour = .text) (hlevel : v.level < nestingLimit)
    (h : (decode v).result = .ok r') : v.level + r.toJson.toDatum.depth ≤ nestingLimit := by
  obtain ⟨layout, hlayout, -, hholds⟩ := Record.read_iff.mp h
  obtain rfl := Except.ok.inj ((View.layout_object hv "ActionRequest").symm.trans hlayout)
  obtain ⟨_, values, -, hvalues, -⟩ := Record.holds_seq.mp hholds
  obtain ⟨n, hn⟩ := Nat.exists_eq_add_of_lt hlevel
  have hdepth : r.toJson.toDatum.depth ≤ n + 1 := by
    refine depth_toJson_le fun hne => ?_
    -- The values are read from their member, as a default stands for missing ones only.
    have hpart := Record.part?_present_of_some (v := v) (0 + 2) r.nodup_names
      (values_mem_members hne)
    rcases Record.holds_field.mp hvalues with ⟨part, hfound, hread⟩ | ⟨hmissing, -⟩
    · obtain rfl := Option.some.inj (hpart.symm.trans hfound)
      have hbound : v.level + 1 + (Json.object r.values).toDatum.depth ≤ nestingLimit :=
        View.level_le_of_members hread htext
      omega
    · exact absurd (hpart.symm.trans hmissing) (Option.some_ne_none _)
  omega

end ActionRequest

/-! ### Texts -/

/-- Every type that is written as compact JSON and read again comes back as it was. A request with
plain values does so as long as a text may nest containers so deeply, and is not read beyond. -/
theorem Document.readJson_toJson :
    (∀ t : Template, readJson Template.decode t.toJson.compact = .ok t) ∧
      (∀ c : Context, readJson Context.decode c.toJson.compact = .ok c) ∧
      (∀ c : Conditions, readJson Conditions.decode c.toJson.compact = .ok c) ∧
      (∀ a : ActionSpec, readJson ActionSpec.decode a.toJson.compact = .ok a) ∧
      (∀ k : CacheKey, readJson CacheKey.decode k.toJson.compact = .ok k) ∧
      (∀ a : FieldAccess, readJson FieldAccess.decode a.toJson.compact = .ok a) ∧
      (∀ o : ActionOutcome, readJson ActionOutcome.decode o.toJson.compact = .ok o) ∧
      ∀ r : ActionRequest, r.Plain →
        (readJson ActionRequest.decode r.toJson.compact = .ok r ↔
          r.toJson.toDatum.depth ≤ nestingLimit) := by
  refine ⟨fun t => ?_, fun c => ?_, fun c => ?_, fun a => ?_, fun k => ?_, fun a => ?_, fun o => ?_,
    fun r hplain => ⟨fun hread => ?_, fun hdepth => ?_⟩⟩
  · exact (readJson_compact t.fits_toJson.exact).mpr (t.decode_toJson rfl)
  · exact (readJson_compact c.fits_toJson.exact).mpr (c.decode_toJson rfl)
  · exact (readJson_compact c.fits_toJson.exact).mpr (c.decode_toJson rfl)
  · exact (readJson_compact a.fits_toJson.exact).mpr (a.decode_toJson rfl)
  · exact (readJson_compact k.fits_toJson.exact).mpr (k.decode_toJson rfl)
  · exact (readJson_compact a.fits_toJson.exact).mpr (a.decode_toJson rfl)
  · exact (readJson_compact o.fits_toJson.exact).mpr (o.decode_toJson rfl)
  · have hdecoded := (readJson_compact (ActionRequest.exact_toJson hplain)).mp hread
    have hroot : 0 < nestingLimit := by decide
    have hbound := ActionRequest.depth_le_of_decode rfl rfl hroot hdecoded
    exact Nat.le_trans (Nat.le_of_eq (Nat.zero_add _).symm) hbound
  · refine (readJson_compact (ActionRequest.exact_toJson hplain)).mpr ?_
    exact ActionRequest.decode_toJson hplain rfl fun _ => (Nat.zero_add _).symm ▸ hdepth

/-- A request with the least and the greatest number, and with values within values. -/
def widestRequest : ActionRequest :=
  (ActionRequest.empty.withVariable "range"
    (.array [.int (-9223372036854775808), .int 18446744073709551615])).withVariable "note"
      (.object [("author", .null), ("text", .string "in order")])

theorem Document.readJson_toJson_widestRequest :
    widestRequest.Plain ∧ widestRequest.toJson.toDatum.depth ≤ nestingLimit ∧
      readJson ActionRequest.decode widestRequest.toJson.compact = .ok widestRequest := by
  have hplain : widestRequest.Plain := by
    refine (ActionRequest.Plain.empty.withVariable (.array ?_) (.array ?_) "range").withVariable
      (.object (by decide) ?_) (.object ?_) "note"
    all_goals simp only [List.forall_mem_cons, List.not_mem_nil, IsEmpty.forall_iff, implies_true,
      and_true]
    · exact ⟨.int _, .int _⟩
    · exact ⟨.int (by decide), .int (by decide)⟩
    · exact ⟨.null, .string _⟩
    · exact ⟨.null, .string _⟩
  have hdepth : widestRequest.toJson.toDatum.depth ≤ nestingLimit := by decide
  obtain ⟨-, -, -, -, -, -, -, hrequest⟩ := readJson_toJson
  exact ⟨hplain, hdepth, (hrequest widestRequest hplain).mpr hdepth⟩

end ActionPolicy
