import ActionPolicy.Cache.Codec
import ActionPolicy.Proofs.Document.Records

/-!
# Reading written decisions

A decision is read back from what it is written as, and so the codec of decisions loses nothing.

## Main statements

* `Confirm.decode_toJson`, `ResolvedTarget.decode_toJson` – the parts of an action.
* `ActionItem.decode_members`, `FieldPermission.decode_members`, `DecisionItem.decode_toJson` – the
  items of a decision.
* `Decision.decode_toJson` – a decision.
* `Document.readJson_compact`, `Document.readJson_pretty`, `Codec.json_decode_encode` – values as
  JSON, if they can be read back.
* `Codec.decisions_decode_encode` – decisions as compact JSON.
* `Codec.decisions_faithful` – each decision has bytes of its own, which are read back.
-/

namespace ActionPolicy

theorem Target.ofName?_name (t : Target) : Named.ofName? (Named.name t) = some t := by
  cases t <;> decide

theorem ButtonStyle.ofName?_name (s : ButtonStyle) : Named.ofName? (Named.name s) = some s := by
  cases s <;> decide

theorem Json.toDatum_record_ne_null (members : List (String × Option Json)) :
    (Json.record members).toDatum ≠ .scalar .null := by
  rw [Json.record_eq, Json.toDatum]
  simp

variable {v : View}

theorem Confirm.decode_toJson (c : Confirm) (hv : v.datum = c.toJson.toDatum) :
    (decode v).result = .ok c := by
  obtain ⟨title, okText, cancelText⟩ := c
  have hnodup : ["title", "ok_text", "cancel_text"].Nodup := by decide
  have hreads : record.Reads v [("title", some (.string title)), ("ok_text", okText.map .string),
      ("cancel_text", cancelText.map .string)] ⟨title, okText, cancelText⟩ :=
    .seq (.seq (.map Confirm.mk (.text hnodup (by simp))) (.optionalText hnodup (by simp)))
      (.optionalText hnodup (by simp))
  exact hreads.read hv "Confirm" hnodup nofun

theorem ResolvedTarget.decode_toJson (t : ResolvedTarget) (hv : v.datum = t.toJson.toDatum) :
    (decode v).result = .ok t := by
  obtain ⟨kind, id⟩ := t
  have hnodup : ["kind", "id"].Nodup := by decide
  have hreads : record.Reads v [("kind", some (Named.toJson kind)), ("id", some (.string id))]
      ⟨kind, id⟩ :=
    .seq (.map ResolvedTarget.mk (.named hnodup (by simp) kind.ofName?_name))
      (.text hnodup (by simp))
  exact hreads.read hv "ResolvedTarget" hnodup nofun

/-! ### Items -/

theorem ActionItem.names_members (a : ActionItem) :
    a.members.map Prod.fst = ["code", "priority", "label", "style", "icon", "auth",
      "require_comment", "confirm", "class_name", "target", "enabled", "visible"] := rfl

theorem ActionItem.decode_members (a : ActionItem)
    (hv : v.datum = (Json.record a.members).toDatum) : (decode v).result = .ok a := by
  have hnodup : (a.members.map Prod.fst).Nodup := by
    rw [names_members]
    decide
  have hreads : record.Reads v a.members a := by
    obtain ⟨code, priority, label, style, icon, auth, requireComment, confirm, className, target,
      enabled, visible⟩ := a
    refine .seq (.seq (.seq (.seq (.seq (.seq (.seq (.seq (.seq (.seq (.seq (.map ActionItem.mk
      ?code) ?priority) ?label) ?style) ?icon) ?auth) ?requireComment) ?confirm) ?className)
      ?target) ?enabled) ?visible
    case code => exact .text hnodup (by simp [members])
    case priority => exact .word32 hnodup (by simp [members])
    case label => exact .text hnodup (by simp [members])
    case style => exact .named hnodup (by simp [members]) style.ofName?_name
    case icon => exact .optionalText hnodup (by simp [members])
    case auth => exact .nonemptyTexts hnodup (by simp [members])
    case requireComment => exact .bool hnodup (by simp [members])
    case confirm =>
      exact .optional Confirm.toJson hnodup (by simp [members]) (fun c _ => c.decode_toJson rfl)
        fun _ => Json.toDatum_record_ne_null _
    case className => exact .optionalText hnodup (by simp [members])
    case target =>
      refine .optional ResolvedTarget.toJson hnodup (by simp [members])
        (fun t _ => t.decode_toJson rfl) fun t => ?_
      exact Json.toDatum_record_ne_null [("kind", some (Named.toJson t.kind)),
        ("id", some (.string t.id))]
    case enabled => exact .bool hnodup (by simp [members])
    case visible => exact .bool hnodup (by simp [members])
  exact hreads.read hv "ActionItem" hnodup nofun

theorem FieldPermission.names_members (p : FieldPermission) :
    p.members.map Prod.fst = ["code", "priority", "editable", "readonly", "hidden", "required"] :=
  rfl

theorem FieldPermission.decode_members (p : FieldPermission)
    (hv : v.datum = (Json.record p.members).toDatum) : (decode v).result = .ok p := by
  have hnodup : (p.members.map Prod.fst).Nodup := by
    rw [names_members]
    decide
  have hreads : record.Reads v p.members p := by
    obtain ⟨code, priority, editable, readonly, hidden, required⟩ := p
    refine .seq (.seq (.seq (.seq (.seq (.map FieldPermission.mk ?code) ?priority) ?editable)
      ?readonly) ?hidden) ?required
    case code => exact .text hnodup (by simp [members])
    case priority => exact .word32 hnodup (by simp [members])
    case editable => exact .texts hnodup (by simp [members])
    case readonly => exact .texts hnodup (by simp [members])
    case hidden => exact .texts hnodup (by simp [members])
    case required => exact .texts hnodup (by simp [members])
  exact hreads.read hv "FieldPermissionItem" hnodup nofun

theorem Confirm.fits_toJson (c : Confirm) : c.toJson.Fits 1 := by
  refine .record ?_
  simp only [List.forall_mem_cons, List.not_mem_nil, IsEmpty.forall_iff, implies_true, and_true]
  exact ⟨.of_mem_some (.string _), .of_mem_map .string, .of_mem_map .string⟩

theorem ResolvedTarget.fits_toJson (t : ResolvedTarget) : t.toJson.Fits 1 := by
  show (Json.record [("kind", some (Named.toJson t.kind)), ("id", some (.string t.id))]).Fits 1
  refine .record ?_
  simp only [List.forall_mem_cons, List.not_mem_nil, IsEmpty.forall_iff, implies_true, and_true]
  exact ⟨.of_mem_some (.string _), .of_mem_some (.string _)⟩

theorem ActionItem.fits_members (a : ActionItem) : ∀ m ∈ a.members, ∀ j ∈ m.2, j.Fits 1 := by
  simp only [members, List.forall_mem_cons, List.not_mem_nil, IsEmpty.forall_iff, implies_true,
    and_true]
  refine ⟨?code, ?priority, ?label, ?style, ?icon, ?auth, ?requireComment, ?confirm, ?className,
    ?target, ?enabled, ?visible⟩
  case code => exact .of_mem_some (.string _)
  case priority => exact .of_mem_some (.nat _)
  case label => exact .of_mem_some (.string _)
  case style => exact .of_mem_some (.string _)
  case icon => exact .of_mem_map .string
  case auth => exact .of_mem_nonemptyStrings _
  case requireComment => exact .of_mem_some (.bool _)
  case confirm => exact .of_mem_map Confirm.fits_toJson
  case className => exact .of_mem_map .string
  case target => exact .of_mem_map ResolvedTarget.fits_toJson
  case enabled => exact .of_mem_some (.bool _)
  case visible => exact .of_mem_some (.bool _)

theorem FieldPermission.fits_members (p : FieldPermission) :
    ∀ m ∈ p.members, ∀ j ∈ m.2, j.Fits 1 := by
  simp only [members, List.forall_mem_cons, List.not_mem_nil, IsEmpty.forall_iff, implies_true,
    and_true]
  exact ⟨.of_mem_some (.string _), .of_mem_some (.nat _), .of_mem_some (.strings _),
    .of_mem_some (.strings _), .of_mem_some (.strings _), .of_mem_some (.strings _)⟩

namespace DecisionItem

theorem fits_toJson (i : DecisionItem) : i.toJson.Fits 2 := by
  cases i with
  | action a =>
    exact .record (List.forall_mem_cons.mpr ⟨.of_mem_some (.string _), a.fits_members⟩)
  | fieldPermission p =>
    exact .record (List.forall_mem_cons.mpr ⟨.of_mem_some (.string _), p.fits_members⟩)

/-- The members of a record are set aside if its values may stand so deep. -/
theorem result_tagged {tag : String} {members : List (String × Option Json)}
    (hv : v.datum = (Json.record (("kind", some (.string tag)) :: members)).toDatum)
    (htag : tag ∈ ["action", "field_permission"]) (hnames : "kind" ∉ members.map Prod.fst)
    (hfits : ∀ m ∈ members, ∀ j ∈ m.2, j.Fits 1)
    (hlevel : v.flavour = .text → v.level + 2 ≤ nestingLimit) :
    (Source.tagged "DecisionItem" "kind" ["action", "field_permission"] v).result =
      .ok (tag, ⟨.kept, v.level, (Json.record members).toDatum⟩) := by
  refine View.result_tagged hv htag ?_ ?_
  · intro m hm hkind
    exact hnames (hkind ▸ List.mem_map_of_mem hm)
  · intro hflavour m hm j hj
    have hdepth := (hfits m hm j hj).depth
    have hbound := hlevel hflavour
    omega

theorem result_decode_of_tagged {tag : String} {rest : View}
    (h : (Source.tagged "DecisionItem" "kind" ["action", "field_permission"] v).result =
      .ok (tag, rest)) :
    (decode v).result =
      if tag = "action" then action <$> (ActionItem.decode rest).result
      else fieldPermission <$> (FieldPermission.decode rest).result := by
  rw [decode, Decoded.result_bind, h]
  by_cases htag : tag = "action"
  · subst tag
    rw [if_pos rfl, ← Decoded.result_map]
    rfl
  · rw [if_neg htag, ← Decoded.result_map]
    show Decoded.result (if tag = "action" then _ else _) = _
    rw [if_neg htag]
    rfl

/-- An item is told by its kind, if a text may nest containers so deeply. -/
theorem decode_toJson (i : DecisionItem) (hv : v.datum = i.toJson.toDatum)
    (hlevel : v.flavour = .text → v.level + 2 ≤ nestingLimit) : (decode v).result = .ok i := by
  cases i with
  | action a =>
    have hnames : "kind" ∉ a.members.map Prod.fst := by
      rw [ActionItem.names_members]
      decide
    have htagged := result_tagged hv (by decide) hnames a.fits_members hlevel
    rw [result_decode_of_tagged htagged, if_pos rfl, a.decode_members rfl]
    rfl
  | fieldPermission p =>
    have hnames : "kind" ∉ p.members.map Prod.fst := by
      rw [FieldPermission.names_members]
      decide
    have htagged := result_tagged hv (by decide) hnames p.fits_members hlevel
    rw [result_decode_of_tagged htagged, if_neg (by decide), p.decode_members rfl]
    rfl

end DecisionItem

/-! ### Decisions -/

namespace Decision

theorem fits_toJson (d : Decision) : d.toJson.Fits 4 := by
  show (Json.record [("items", some (.array (d.items.map DecisionItem.toJson)))]).Fits 4
  refine .record ?_
  simp only [List.forall_mem_cons, List.not_mem_nil, IsEmpty.forall_iff, implies_true, and_true]
  refine .of_mem_some (.array fun j hj => ?_)
  obtain ⟨i, -, rfl⟩ := List.mem_map.mp hj
  exact i.fits_toJson

/-- A decision is read back, if a text may nest containers so deeply. -/
theorem decode_toJson (d : Decision) (hv : v.datum = d.toJson.toDatum)
    (hlevel : v.flavour = .text → v.level + 4 ≤ nestingLimit) : (decode v).result = .ok d := by
  obtain ⟨items⟩ := d
  have hnodup : ["items"].Nodup := by decide
  have hitems : ∀ {w : View}, w.datum = (Json.array (items.map DecisionItem.toJson)).toDatum →
      (w.flavour = .text → w.level + 3 ≤ nestingLimit) →
      (Source.listOf DecisionItem.decode w).result = .ok items :=
    fun hw hlevel => View.result_listOf hw fun i _ => i.decode_toJson rfl hlevel
  have hreads : record.Reads v [("items", some (.array (items.map DecisionItem.toJson)))]
      ⟨items⟩ :=
    .map Decision.mk (.required hnodup List.mem_cons_self (hitems rfl hlevel))
  exact hreads.read hv "Decision" hnodup nofun

end Decision

/-! ### Codecs -/

/-- Compact JSON is read back exactly if the data that it holds are. -/
theorem Document.readJson_compact {α : Type} {write : α → Json} {read : View → Decoded α} {x : α}
    (hexact : (write x).Exact) :
    readJson read (write x).compact = .ok x ↔
      (read (.ofText (write x).toDatum)).result = .ok x := by
  rw [readJson, Json.read?_compact hexact, readDatum]
  exact mapError_eq_ok_iff

/-- So is JSON over several lines. -/
theorem Document.readJson_pretty {α : Type} {write : α → Json} {read : View → Decoded α} {x : α}
    (hexact : (write x).Exact) :
    readJson read ((write x).pretty ++ "\n") = .ok x ↔
      (read (.ofText (write x).toDatum)).result = .ok x := by
  rw [readJson, Json.read?_pretty hexact, readDatum]
  exact mapError_eq_ok_iff

/-- A decision is read back from JSON over several lines. -/
theorem Decision.readJson_pretty (d : Decision) :
    Document.readJson decode (d.toJson.pretty ++ "\n") = .ok d :=
  (Document.readJson_pretty d.fits_toJson.exact).mpr
    (d.decode_toJson rfl fun _ => Nat.le_of_ble_eq_true rfl)

theorem String.fromUTF8?_toUTF8 (s : String) : String.fromUTF8? s.toUTF8 = some s := by
  have hvalid : s.toUTF8.IsValidUTF8 := s.isValidUTF8
  rw [String.fromUTF8?, dif_pos hvalid]
  rfl

namespace Codec

/-- Compact JSON loses nothing of values that can be read back from their data. -/
theorem json_decode_encode {V : Type} {write : V → Json} {read : View → Decoded V} {x : V}
    (hexact : (write x).Exact) (hread : (read (.ofText (write x).toDatum)).result = .ok x) :
    ∃ bytes, (json write read).encode x = some bytes ∧ (json write read).decode bytes = some x := by
  refine ⟨_, rfl, ?_⟩
  show (Document.readJsonBytes read (write x).compact.toUTF8).toOption = some x
  rw [Document.readJsonBytes, String.fromUTF8?_toUTF8]
  show (Document.readJson read (write x).compact).toOption = some x
  rw [(Document.readJson_compact hexact).mpr hread]
  rfl

theorem decisions_decode_encode (d : Decision) :
    ∃ bytes, decisions.encode d = some bytes ∧ decisions.decode bytes = some d :=
  json_decode_encode d.fits_toJson.exact (d.decode_toJson rfl fun _ => Nat.le_of_ble_eq_true rfl)

/-- Every decision is encoded, its bytes are those of no other decision, and they are read back. -/
theorem decisions_faithful (d : Decision) :
    ∃ bytes, decisions.encode d = some bytes ∧ decisions.decode bytes = some d ∧
      ∀ d', decisions.encode d' = some bytes → d' = d := by
  obtain ⟨bytes, hencode, hdecode⟩ := decisions_decode_encode d
  refine ⟨bytes, hencode, hdecode, fun d' hencode' => ?_⟩
  obtain ⟨bytes', hbytes', hdecode'⟩ := decisions_decode_encode d'
  obtain rfl : bytes = bytes' := Option.some.inj (hencode'.symm.trans hbytes')
  exact Option.some.inj (hdecode'.symm.trans hdecode)

end Codec

end ActionPolicy
