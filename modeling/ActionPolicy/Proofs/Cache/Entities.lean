import ActionPolicy.Proofs.Cache.Provenance

/-!
# Values of entities

Values belong to entities: a task, a form at a node, a record of a form. The key of a pair is its
two names with a dash between them, and a name may hold dashes itself. So two pairs have one key if
they are one text that is cut at different dashes, and only then. Apart from these, what is found
for an entity was stored for it.

## Main definitions

* `CacheKey.CutLater` – a pair of names is the text of another one, cut at a later dash.
* `Entity`, `Entity.key`, `Entity.Clashes` – what values belong to, its key, and which share theirs.
* `EntityCall` – a call that asks for no key but that of an entity.
* `Cache.deposits`, `Cache.storedFor` – what calls store, and for which entities.

## Main statements

* `CacheKey.dashed_eq_iff`, `Entity.key_eq_iff` – when keys are equal.
* `Cache.gains_run` – a run adds what its calls store.
* `Cache.exists_storedFor_of_get` – what is found for an entity was stored last for it, or for one
  with which it clashes.
* `Entity.keys_and_values` – when pairs have one key, and what is found under it.
-/

namespace ActionPolicy

variable {V : Type}

/-! ### Keys -/

namespace CacheKey

/-- The second pair of names is the text of the first one, cut at a later dash. -/
def CutLater (a b a' b' : String) : Prop :=
  ∃ middle, a' = a ++ "-" ++ middle ∧ b = middle ++ "-" ++ b'

variable {a b a' b' : String}

theorem toList_dashed (a b : String) : (a ++ "-" ++ b).toList = a.toList ++ '-' :: b.toList := by
  simp

theorem eq_or_cutLater {l : List Char} (ha : a'.toList = a.toList ++ l)
    (hb : '-' :: b.toList = l ++ '-' :: b'.toList) : a = a' ∧ b = b' ∨ CutLater a b a' b' := by
  cases l with
  | nil =>
    have ha' : a' = a := String.toList_inj.mp (ha.trans (List.append_nil _))
    exact Or.inl ⟨ha'.symm, String.toList_inj.mp (List.cons.inj hb).2⟩
  | cons c l =>
    obtain ⟨rfl, hrest⟩ := List.cons.inj hb
    refine Or.inr ⟨String.ofList l, String.toList_inj.mp ?_, String.toList_inj.mp ?_⟩
    · rw [toList_dashed, String.toList_ofList, ha]
    · rw [toList_dashed, String.toList_ofList]
      exact hrest

/-- Two pairs of names are one text exactly if they are the same, or cut at different dashes. -/
theorem dashed_eq_iff : a ++ "-" ++ b = a' ++ "-" ++ b' ↔
    a = a' ∧ b = b' ∨ CutLater a b a' b' ∨ CutLater a' b' a b := by
  constructor
  · intro h
    rw [← String.toList_inj, toList_dashed, toList_dashed] at h
    rcases List.append_eq_append_iff.mp h with ⟨l, ha, hb⟩ | ⟨l, ha, hb⟩
    · rcases eq_or_cutLater ha hb with heq | hcut
      · exact Or.inl heq
      · exact Or.inr (Or.inl hcut)
    · rcases eq_or_cutLater ha hb with ⟨ha, hb⟩ | hcut
      · exact Or.inl ⟨ha.symm, hb.symm⟩
      · exact Or.inr (Or.inr hcut)
  · rintro (⟨rfl, rfl⟩ | ⟨middle, rfl, rfl⟩ | ⟨middle, rfl, rfl⟩)
    · rfl
    · simp only [String.append_assoc]
    · simp only [String.append_assoc]

theorem mk_dashed_eq_iff {ns : Namespace} :
    (⟨ns, a ++ "-" ++ b⟩ : CacheKey) = ⟨ns, a' ++ "-" ++ b'⟩ ↔
      a = a' ∧ b = b' ∨ CutLater a b a' b' ∨ CutLater a' b' a b := by
  rw [mk.injEq, dashed_eq_iff]
  exact and_iff_right rfl

theorem permissions_eq_iff : permissions a b = permissions a' b' ↔
    a = a' ∧ b = b' ∨ CutLater a b a' b' ∨ CutLater a' b' a b :=
  mk_dashed_eq_iff

theorem formData_eq_iff : formData a b = formData a' b' ↔
    a = a' ∧ b = b' ∨ CutLater a b a' b' ∨ CutLater a' b' a b :=
  mk_dashed_eq_iff

end CacheKey

/-- What a value belongs to. -/
inductive Entity where
  /-- The actions of a task. -/
  | actions (taskId : String)
  /-- The field permissions of a form at a node. -/
  | permissions (nodeId formId : String)
  /-- One record of a form. -/
  | record (formId dataId : String)
  deriving DecidableEq, Repr

namespace Entity

/-- The key of an entity. -/
def key : Entity → CacheKey
  | actions taskId => .buttons taskId
  | permissions nodeId formId => .permissions nodeId formId
  | record formId dataId => .formData formId dataId

/-- Two entities are pairs of names that are one text, cut at different dashes. -/
inductive Clashes : Entity → Entity → Prop where
  | permissions {nodeId formId nodeId' formId' : String}
    (cut : CacheKey.CutLater nodeId formId nodeId' formId' ∨
      CacheKey.CutLater nodeId' formId' nodeId formId) :
    Clashes (permissions nodeId formId) (permissions nodeId' formId')
  | record {formId dataId formId' dataId' : String}
    (cut : CacheKey.CutLater formId dataId formId' dataId' ∨
      CacheKey.CutLater formId' dataId' formId dataId) :
    Clashes (record formId dataId) (record formId' dataId')

/-- Only entities that clash share a key. -/
theorem key_eq_iff {e e' : Entity} : e.key = e'.key ↔ e = e' ∨ e.Clashes e' := by
  constructor
  · intro h
    cases e <;> cases e'
    case actions.actions => exact Or.inl (congrArg actions (CacheKey.mk.inj h).2)
    case permissions.permissions =>
      rcases CacheKey.permissions_eq_iff.mp h with ⟨rfl, rfl⟩ | hcut
      · exact Or.inl rfl
      · exact Or.inr (.permissions hcut)
    case record.record =>
      rcases CacheKey.formData_eq_iff.mp h with ⟨rfl, rfl⟩ | hcut
      · exact Or.inl rfl
      · exact Or.inr (.record hcut)
    -- The others differ in the namespace.
    all_goals exact nomatch congrArg CacheKey.ns h
  · rintro (rfl | hclash)
    · rfl
    · cases hclash with
      | permissions hcut => exact CacheKey.permissions_eq_iff.mpr (Or.inr hcut)
      | record hcut => exact CacheKey.formData_eq_iff.mpr (Or.inr hcut)

end Entity

/-! ### Calls about entities -/

/-- The key that is asked for. -/
def CacheOp.key? : CacheOp V → Option CacheKey
  | set k _ _ _ => some k
  | get k _ => some k
  | tryGet k _ => some k
  | has k _ => some k
  | delete k => some k
  | info k => some k
  | getOrInsert k _ _ _ _ _ => some k
  | complete k _ _ _ _ => some k
  | _ => none

/-- A call that asks for no key but that of an entity. -/
structure EntityCall (V : Type) where
  call : CacheCall V
  /-- The entity it is about, if it is about one. -/
  entity : Option Entity
  addressed : call.op.key? = entity.map Entity.key

namespace Cache

theorem key?_of_deposit? {c : Cache V} {call : CacheCall V} {d : Deposit V}
    (h : c.deposit? call = some d) : call.op.key? = some d.key := by
  have hstored := stored?_of_deposit? h
  obtain ⟨now, op⟩ := call
  cases op with
  | set k value ttl version => exact congrArg (Option.map Prod.fst) hstored
  | getOrInsert k ttl version derived later micros => exact congrArg (Option.map Prod.fst) hstored
  | complete k derived ttl version micros => exact congrArg (Option.map Prod.fst) hstored
  | _ => contradiction

/-- What a sequence of calls stores. -/
def deposits (c : Cache V) : List (CacheCall V) → List (Deposit V)
  | [] => []
  | call :: rest => (c.deposit? call).toList ++ (c.step call).1.deposits rest

/-- A run adds what its calls store. -/
theorem gains_run (c : Cache V) (calls : List (CacheCall V)) :
    c.Gains (c.deposits calls) (c.run calls) := by
  induction calls generalizing c with
  | nil => exact (Thins.refl c).gains
  | cons call rest ih => exact (c.gains_step call).trans (ih (c.step call).1)

/-- What a sequence of calls stores, with the entities for which it is stored. -/
def storedFor (c : Cache V) : List (EntityCall V) → List (Entity × Deposit V)
  | [] => []
  | call :: rest =>
    (call.entity.bind fun e => (c.deposit? call.call).map (e, ·)).toList ++
      (c.step call.call).1.storedFor rest

theorem map_storedFor (c : Cache V) (calls : List (EntityCall V)) :
    (c.storedFor calls).map Prod.snd = c.deposits (calls.map EntityCall.call) := by
  induction calls generalizing c with
  | nil => rfl
  | cons call rest ih =>
    rw [storedFor, List.map_append, ih, List.map_cons, deposits]
    congr 1
    cases hd : c.deposit? call.call with
    | none => cases call.entity <;> rfl
    | some d =>
      have hkey := (key?_of_deposit? hd).symm.trans call.addressed
      cases he : call.entity with
      | none => simp [he] at hkey
      | some e => rfl

theorem key_of_mem_storedFor {c : Cache V} {calls : List (EntityCall V)} {e : Entity}
    {d : Deposit V} (h : (e, d) ∈ c.storedFor calls) : d.key = e.key := by
  induction calls generalizing c with
  | nil => contradiction
  | cons call rest ih =>
    rcases List.mem_append.mp h with h | h
    · obtain ⟨e', he, d', hd, heq⟩ : ∃ e', call.entity = some e' ∧
          ∃ d', c.deposit? call.call = some d' ∧ (e', d') = (e, d) := by
        simpa [Option.bind_eq_some_iff] using h
      obtain ⟨rfl, rfl⟩ := Prod.mk.inj heq
      have hkey := (key?_of_deposit? hd).symm.trans call.addressed
      rw [he] at hkey
      exact Option.some.inj hkey
    · exact ih h

/-- What is found for an entity is had again of what was stored last under its key, which was stored
for it or for an entity with which it clashes. -/
theorem exists_storedFor_of_get (config : CacheConfig) (codec : Option (Codec V))
    (calls : List (EntityCall V)) {e : Entity} {now : Instant} {wanted : Option String} {v : V}
    (h : (((Cache.new config codec).run (calls.map EntityCall.call)).get now e.key wanted).2 =
      some v) :
    ∃ earlier since e' d, (Cache.new config codec).storedFor calls = earlier ++ (e', d) :: since ∧
      (∀ x ∈ since, x.1.key ≠ e.key) ∧ Codec.Restores codec d.value v ∧
        (e' = e ∨ e'.Clashes e) := by
  have hgains := (Cache.new config codec).gains_run (calls.map EntityCall.call)
  obtain ⟨d, ⟨hkey, front, back, hsplit, hback⟩, -, hrestores⟩ := hgains.exists_of_get rfl h
  rw [← map_storedFor] at hsplit
  obtain ⟨earlier, rest, hstored, -, hrest⟩ := List.map_eq_append_iff.mp hsplit
  obtain ⟨⟨e', d'⟩, since, rfl, rfl, rfl⟩ := List.map_eq_cons_iff.mp hrest
  have hkeys : ∀ x ∈ (Cache.new config codec).storedFor calls, x.2.key = x.1.key :=
    fun x hx => key_of_mem_storedFor hx
  rw [hstored] at hkeys
  refine ⟨earlier, since, e', d', hstored, fun x hx => ?_, hrestores, ?_⟩
  · rw [← hkeys x (by simp [hx])]
    exact hback _ (List.mem_map_of_mem hx)
  · have hshared : d'.key = e'.key := hkeys (e', d') (by simp)
    exact Entity.key_eq_iff.mp (hshared.symm.trans hkey)

end Cache

namespace Entity

/-- Two pairs have one key exactly if they are the same, or one text that is cut at different
dashes. Whatever is found for an entity was stored last under its key, and it was stored for the
entity itself, or for one with which it clashes in this way. -/
theorem keys_and_values :
    (∀ nodeId formId nodeId' formId',
        CacheKey.permissions nodeId formId = CacheKey.permissions nodeId' formId' ↔
          nodeId = nodeId' ∧ formId = formId' ∨
            CacheKey.CutLater nodeId formId nodeId' formId' ∨
              CacheKey.CutLater nodeId' formId' nodeId formId) ∧
      (∀ formId dataId formId' dataId',
        CacheKey.formData formId dataId = CacheKey.formData formId' dataId' ↔
          formId = formId' ∧ dataId = dataId' ∨
            CacheKey.CutLater formId dataId formId' dataId' ∨
              CacheKey.CutLater formId' dataId' formId dataId) ∧
      ∀ (config : CacheConfig) (codec : Option (Codec V)) (calls : List (EntityCall V))
        (e : Entity) (now : Instant) (wanted : Option String) (v : V),
        (((Cache.new config codec).run (calls.map EntityCall.call)).get now e.key wanted).2 =
            some v →
          ∃ earlier since e' d,
            (Cache.new config codec).storedFor calls = earlier ++ (e', d) :: since ∧
              (∀ x ∈ since, x.1.key ≠ e.key) ∧ Codec.Restores codec d.value v ∧
                (e' = e ∨ e'.Clashes e) :=
  ⟨fun _ _ _ _ => CacheKey.permissions_eq_iff, fun _ _ _ _ => CacheKey.formData_eq_iff,
    fun config codec calls _ _ _ _ h => Cache.exists_storedFor_of_get config codec calls h⟩

/-- A value is stored for an entity. -/
def storing (e : Entity) (value : String) : EntityCall String :=
  ⟨⟨.epoch, .set e.key value none none⟩, some e, rfl⟩

/-- The permissions of two forms at two nodes are stored, the first ones twice. -/
def twoForms : List (EntityCall String) :=
  [(permissions "review" "leave").storing "old", (permissions "approve" "leave").storing "other",
    (permissions "review" "leave").storing "new"]

theorem keys_and_values_twoForms :
    (((Cache.new .usual none).run (twoForms.map EntityCall.call)).get .epoch
        (permissions "review" "leave").key none).2 = some "new" ∧
      ∃ earlier since e' d,
        (Cache.new .usual none).storedFor twoForms = earlier ++ (e', d) :: since ∧
          (∀ x ∈ since, x.1.key ≠ (permissions "review" "leave").key) ∧
            Codec.Restores none d.value "new" ∧
              (e' = permissions "review" "leave" ∨ e'.Clashes (permissions "review" "leave")) := by
  have hfound : (((Cache.new .usual none).run (twoForms.map EntityCall.call)).get .epoch
      (permissions "review" "leave").key none).2 = some "new" := by rfl
  exact ⟨hfound, keys_and_values.2.2 .usual none twoForms _ _ _ _ hfound⟩

/-- A form at one node is answered with what was stored for another form at another node. -/
theorem clash_found :
    CacheKey.permissions "a-b" "c" = CacheKey.permissions "a" "b-c" ∧
      CacheKey.formData "a-b" "c" = CacheKey.formData "a" "b-c" ∧
      permissions "a-b" "c" ≠ permissions "a" "b-c" ∧ record "a-b" "c" ≠ record "a" "b-c" ∧
      (((Cache.new .usual none).run [((permissions "a-b" "c").storing "c at a-b").call]).get .epoch
        (permissions "a" "b-c").key none).2 = some "c at a-b" := by
  refine ⟨by decide, by decide, by decide, by decide, ?_⟩
  rfl

end Entity

end ActionPolicy
