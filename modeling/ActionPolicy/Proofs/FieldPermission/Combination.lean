import ActionPolicy.Decision
import Mathlib.Data.List.Induction

/-!
# Two ways to combine grants

A decision applies its grants to a field one after another; `FieldPermission.merge?` makes one grant
of them, which is applied once. Both demand the same fields. They differ where a later grant takes
back what an earlier one gave: the merged grant knows nothing of the order.

## Main definitions

* `FieldPermission.Settles` – a grant says whether a field may be edited.
* `FieldPermission.LastSettling` – the last grant that does, and those before it.
* `FieldPermission.Withdrawn`, `FieldPermission.Unhidden` – what a later grant takes back.

## Main statements

* `FieldPermission.editable_accessAfter_iff`, `FieldPermission.visible_accessAfter_iff`,
  `FieldPermission.required_accessAfter_iff` – the access after several grants.
* `FieldPermission.mem_foldl_join` – the fields of a merged grant.
* `Decision.fieldAccess_and_merged_access` – both accesses, and where they differ.
-/

namespace ActionPolicy

namespace FieldPermission

variable {field : String} {p q : FieldPermission} {ps earlier : List FieldPermission}

/-- The grant says whether the field may be edited. -/
def Settles (p : FieldPermission) (field : String) : Prop :=
  field ∈ p.editable ∨ field ∈ p.readonly

/-- Of the grants this is the last that settles the field; `earlier` ones stand before it. -/
def LastSettling (field : String) (ps earlier : List FieldPermission) (p : FieldPermission) : Prop :=
  ∃ later, ps = earlier ++ p :: later ∧ p.Settles field ∧ ∀ q ∈ later, ¬q.Settles field

/-- An earlier grant lets the field be edited; the last one that settles it does not. -/
def Withdrawn (field : String) (ps : List FieldPermission) : Prop :=
  ∃ earlier p, LastSettling field ps earlier p ∧ field ∉ p.editable ∧
    ∃ q ∈ earlier, field ∈ q.editable

/-- An earlier grant hides the field; the last one does not. -/
def Unhidden (field : String) (ps : List FieldPermission) : Prop :=
  ∃ earlier p, ps = earlier ++ [p] ∧ field ∉ p.hidden ∧ ∃ q ∈ earlier, field ∈ q.hidden

/-! ### One grant after another -/

/-- The access to a field after several grants. -/
def accessAfter (ps : List FieldPermission) (field : String) : FieldAccess :=
  ps.foldl (fun access p => p.apply field access) .unrestricted

theorem accessAfter_concat (ps : List FieldPermission) (p : FieldPermission) (field : String) :
    accessAfter (ps ++ [p]) field = p.apply field (accessAfter ps field) := by
  simp [accessAfter]

theorem editable_apply_of_settles (h : p.Settles field) (base : FieldAccess) :
    (p.apply field base).editable = true ↔ field ∈ p.editable := by
  by_cases he : field ∈ p.editable
  · simp [apply, he]
  · have hr : field ∈ p.readonly := h.resolve_left he
    simp [apply, he, hr]

theorem editable_apply_of_not_settles (h : ¬p.Settles field) (base : FieldAccess) :
    (p.apply field base).editable = base.editable := by
  obtain ⟨he, hr⟩ := not_or.mp h
  simp [apply, he, hr]

theorem lastSettling_concat_of_settles (h : p.Settles field) :
    LastSettling field (ps ++ [p]) earlier q ↔ earlier = ps ∧ q = p := by
  constructor
  · rintro ⟨later, hps, -, hlater⟩
    rcases List.eq_nil_or_concat later with rfl | ⟨front, r, rfl⟩
    · obtain ⟨rfl, hpq⟩ := List.append_inj' hps rfl
      exact ⟨rfl, (List.singleton_inj.mp hpq).symm⟩
    · -- The last grant would be among those that do not settle the field.
      have hends : ps ++ [p] = (earlier ++ q :: front) ++ [r] := by simpa using hps
      obtain rfl : p = r := List.singleton_inj.mp (List.append_inj' hends rfl).2
      exact absurd h (hlater p (by simp))
  · rintro ⟨rfl, rfl⟩
    exact ⟨[], rfl, h, by simp⟩

theorem lastSettling_concat_of_not_settles (h : ¬p.Settles field) :
    LastSettling field (ps ++ [p]) earlier q ↔ LastSettling field ps earlier q := by
  constructor
  · rintro ⟨later, hps, hq, hlater⟩
    rcases List.eq_nil_or_concat later with rfl | ⟨front, r, rfl⟩
    · obtain rfl : p = q := List.singleton_inj.mp (List.append_inj' hps rfl).2
      exact absurd hq h
    · have hends : ps ++ [p] = (earlier ++ q :: front) ++ [r] := by simpa using hps
      refine ⟨front, (List.append_inj' hends rfl).1, hq, ?_⟩
      intro s hs
      exact hlater s (by simp [hs])
  · rintro ⟨later, rfl, hq, hlater⟩
    refine ⟨later ++ [p], by simp, hq, ?_⟩
    intro s hs
    rcases List.mem_append.mp hs with hs | hs
    · exact hlater s hs
    · rwa [List.mem_singleton.mp hs]

theorem exists_lastSettling (h : ∃ p ∈ ps, p.Settles field) :
    ∃ earlier p, LastSettling field ps earlier p := by
  induction ps using List.reverseRecOn with
  | nil => simp at h
  | append_singleton ps p ih =>
    by_cases hp : p.Settles field
    · exact ⟨ps, p, (lastSettling_concat_of_settles hp).mpr ⟨rfl, rfl⟩⟩
    · have hps : ∃ q ∈ ps, q.Settles field := by
        obtain ⟨q, hq, hsettles⟩ := h
        rcases List.mem_append.mp hq with hq | hq
        · exact ⟨q, hq, hsettles⟩
        · exact absurd (List.mem_singleton.mp hq ▸ hsettles) hp
      obtain ⟨earlier, q, hlast⟩ := ih hps
      exact ⟨earlier, q, (lastSettling_concat_of_not_settles hp).mpr hlast⟩

theorem LastSettling.settles (h : LastSettling field ps earlier p) : p.Settles field := by
  obtain ⟨_, _, hp, _⟩ := h
  exact hp

theorem LastSettling.mem (h : LastSettling field ps earlier p) : p ∈ ps := by
  obtain ⟨later, rfl, _, _⟩ := h
  simp

theorem LastSettling.eq_or_mem (h : LastSettling field ps earlier p) (hq : q ∈ ps)
    (hsettles : q.Settles field) : q = p ∨ q ∈ earlier := by
  obtain ⟨later, rfl, -, hlater⟩ := h
  rcases List.mem_append.mp hq with hq | hq
  · exact Or.inr hq
  rcases List.mem_cons.mp hq with rfl | hq
  · exact Or.inl rfl
  · exact absurd hsettles (hlater q hq)

theorem LastSettling.unique {earlier' : List FieldPermission} {p' : FieldPermission}
    (h : LastSettling field ps earlier p) (h' : LastSettling field ps earlier' p') :
    earlier = earlier' ∧ p = p' := by
  induction ps using List.reverseRecOn with
  | nil => simpa using h.mem
  | append_singleton ps r ih =>
    by_cases hr : r.Settles field
    · obtain ⟨rfl, rfl⟩ := (lastSettling_concat_of_settles hr).mp h
      obtain ⟨rfl, rfl⟩ := (lastSettling_concat_of_settles hr).mp h'
      exact ⟨rfl, rfl⟩
    · exact ih ((lastSettling_concat_of_not_settles hr).mp h)
        ((lastSettling_concat_of_not_settles hr).mp h')

/-- A field may be edited if no grant settles it, or if the last one that does allows it. -/
theorem editable_accessAfter_iff :
    (accessAfter ps field).editable = true ↔
      (∀ p ∈ ps, ¬p.Settles field) ∨
        ∃ earlier p, LastSettling field ps earlier p ∧ field ∈ p.editable := by
  induction ps using List.reverseRecOn with
  | nil => simp [accessAfter, FieldAccess.unrestricted]
  | append_singleton ps p ih =>
    rw [accessAfter_concat]
    by_cases hp : p.Settles field
    · have hsome : ¬∀ q ∈ ps ++ [p], ¬q.Settles field := fun hnone => hnone p (by simp) hp
      rw [editable_apply_of_settles hp, or_iff_right hsome]
      simp [lastSettling_concat_of_settles hp]
    · have hall : (∀ q ∈ ps ++ [p], ¬q.Settles field) ↔ ∀ q ∈ ps, ¬q.Settles field := by
        simp [or_imp, forall_and, hp]
      simp only [editable_apply_of_not_settles hp, lastSettling_concat_of_not_settles hp, hall, ih]

/-- The last grant alone decides whether a field is shown. -/
theorem visible_accessAfter_iff :
    (accessAfter ps field).visible = true ↔ ∀ p, ps.getLast? = some p → field ∉ p.hidden := by
  rcases List.eq_nil_or_concat ps with rfl | ⟨front, p, rfl⟩
  · simp [accessAfter, FieldAccess.unrestricted]
  · rw [List.concat_eq_append, accessAfter_concat]
    simp [apply]

/-- A field has to be filled in if some grant asks for it. -/
theorem required_accessAfter_iff :
    (accessAfter ps field).required = true ↔ ∃ p ∈ ps, field ∈ p.required := by
  induction ps using List.reverseRecOn with
  | nil => simp [accessAfter, FieldAccess.unrestricted]
  | append_singleton ps p ih =>
    rw [accessAfter_concat]
    simp [apply, ih, or_and_right, exists_or]

/-! ### One grant of several -/

theorem mem_extend {f : String} {fields more : List String} :
    f ∈ extend fields more ↔ f ∈ fields ∨ f ∈ more := by
  induction more generalizing fields with
  | nil => simp [extend]
  | cons g more ih =>
    have hstep : extend fields (g :: more) =
        extend (if fields.contains g then fields else fields ++ [g]) more := rfl
    rw [hstep, ih]
    by_cases hg : g ∈ fields
    · have hf : f = g → f ∈ fields := fun h => h ▸ hg
      simp only [List.contains_iff_mem, hg, if_true, List.mem_cons]
      tauto
    · simp only [List.contains_iff_mem, hg, if_false, List.mem_append, List.mem_cons,
        List.not_mem_nil, or_false]
      tauto

theorem mem_foldl_join {fields : FieldPermission → List String}
    (hjoin : ∀ p q, fields (p.join q) = extend (fields p) (fields q)) :
    field ∈ fields (ps.foldl join p) ↔ ∃ q ∈ p :: ps, field ∈ fields q := by
  induction ps generalizing p with
  | nil => simp
  | cons q ps ih =>
    rw [List.foldl_cons, ih]
    simp [hjoin, mem_extend, or_assoc]

theorem merge?_eq_none_iff : merge? ps = none ↔ ps = [] := by
  cases ps <;> simp [merge?]

variable {m : FieldPermission}

theorem mem_merge?_iff (fields : FieldPermission → List String)
    (hjoin : ∀ p q, fields (p.join q) = extend (fields p) (fields q)) (h : merge? ps = some m) :
    field ∈ fields m ↔ ∃ q ∈ ps, field ∈ fields q := by
  cases ps with
  | nil => simp [merge?] at h
  | cons p ps =>
    obtain rfl : ps.foldl join p = m := Option.some.inj h
    exact mem_foldl_join hjoin

theorem editable_access_merge?_iff (h : merge? ps = some m) :
    (m.access field).editable = true ↔
      (∃ p ∈ ps, field ∈ p.editable) ∨ ∀ p ∈ ps, field ∉ p.readonly := by
  have he : field ∈ m.editable ↔ ∃ p ∈ ps, field ∈ p.editable :=
    mem_merge?_iff editable (fun _ _ => rfl) h
  have hr : field ∈ m.readonly ↔ ∃ p ∈ ps, field ∈ p.readonly :=
    mem_merge?_iff readonly (fun _ _ => rfl) h
  have hnone : field ∉ m.readonly ↔ ∀ p ∈ ps, field ∉ p.readonly := by simp [hr]
  rw [← he, ← hnone]
  by_cases hm : field ∈ m.editable
  · simp [access, apply, hm]
  · simp [access, apply, hm, FieldAccess.unrestricted]

theorem visible_access_merge?_iff (h : merge? ps = some m) :
    (m.access field).visible = true ↔ ∀ p ∈ ps, field ∉ p.hidden := by
  have hh : field ∈ m.hidden ↔ ∃ p ∈ ps, field ∈ p.hidden :=
    mem_merge?_iff hidden (fun _ _ => rfl) h
  simp [access, apply, hh]

theorem required_access_merge?_iff (h : merge? ps = some m) :
    (m.access field).required = true ↔ ∃ p ∈ ps, field ∈ p.required := by
  have hq : field ∈ m.required ↔ ∃ p ∈ ps, field ∈ p.required :=
    mem_merge?_iff required (fun _ _ => rfl) h
  simp [access, apply, hq, FieldAccess.unrestricted]

/-! ### Where they differ -/

theorem editable_access_of_accessAfter (h : merge? ps = some m)
    (hedit : (accessAfter ps field).editable = true) : (m.access field).editable = true := by
  rw [editable_access_merge?_iff h]
  rcases editable_accessAfter_iff.mp hedit with hnone | ⟨earlier, p, hlast, hp⟩
  · exact Or.inr fun p hp hr => hnone p hp (Or.inr hr)
  · exact Or.inl ⟨p, hlast.mem, hp⟩

/-- The merged grant alone lets a field be edited where a later grant has withdrawn it. -/
theorem editable_differs_iff (h : merge? ps = some m) :
    (m.access field).editable = true ∧ (accessAfter ps field).editable = false ↔
      Withdrawn field ps := by
  rw [editable_access_merge?_iff h, ← Bool.not_eq_true, editable_accessAfter_iff]
  constructor
  · rintro ⟨hmerged, hafter⟩
    obtain ⟨hsettled, hlast⟩ := not_or.mp hafter
    obtain ⟨earlier, p, hp⟩ := exists_lastSettling (by simpa using hsettled)
    have hnot : field ∉ p.editable := fun hedit => hlast ⟨earlier, p, hp, hedit⟩
    rcases hmerged with ⟨q, hq, hedit⟩ | hnone
    · refine ⟨earlier, p, hp, hnot, q, ?_, hedit⟩
      rcases hp.eq_or_mem hq (Or.inl hedit) with rfl | hmem
      · exact absurd hedit hnot
      · exact hmem
    · exact absurd (hp.settles.resolve_left hnot) (hnone p hp.mem)
  · rintro ⟨earlier, p, hp, hnot, q, hq, hedit⟩
    constructor
    · obtain ⟨later, rfl, -, -⟩ := hp
      exact Or.inl ⟨q, by simp [hq], hedit⟩
    · rintro (hnone | ⟨earlier', p', hp', hedit'⟩)
      · exact hnone p hp.mem hp.settles
      · obtain ⟨-, rfl⟩ := hp.unique hp'
        exact hnot hedit'

theorem visible_accessAfter_of_access (h : merge? ps = some m)
    (hshown : (m.access field).visible = true) : (accessAfter ps field).visible = true := by
  rw [visible_accessAfter_iff]
  intro p hp
  exact (visible_access_merge?_iff h).mp hshown p (List.mem_of_getLast? hp)

/-- The merged grant alone hides a field that the last grant no longer hides. -/
theorem visible_differs_iff (h : merge? ps = some m) :
    (m.access field).visible = false ∧ (accessAfter ps field).visible = true ↔
      Unhidden field ps := by
  rw [← Bool.not_eq_true, visible_access_merge?_iff h, visible_accessAfter_iff]
  rcases List.eq_nil_or_concat ps with rfl | ⟨front, p, rfl⟩
  · simp [Unhidden]
  constructor
  · rintro ⟨hhidden, hlast⟩
    have hp : field ∉ p.hidden := hlast p (by simp)
    have hsome : ∃ q ∈ front, field ∈ q.hidden := by
      simpa [or_imp, forall_and, hp] using hhidden
    exact ⟨front, p, by simp, hp, hsome⟩
  · rintro ⟨earlier, q, hends, hq, r, hr, hhidden⟩
    obtain ⟨rfl, rfl⟩ : front = earlier ∧ p = q := by simpa using hends
    refine ⟨fun hnone => hnone r (by simp [hr]) hhidden, ?_⟩
    intro s hs
    obtain rfl : p = s := by simpa using hs
    exact hq

theorem required_accessAfter_eq_access (h : merge? ps = some m) :
    (accessAfter ps field).required = (m.access field).required := by
  rw [Bool.eq_iff_iff, required_accessAfter_iff, required_access_merge?_iff h]

/-- Applied in order or merged, grants give the same access unless a later one takes back the
right or the hiding that an earlier one gave. -/
theorem accessAfter_eq_access_iff (h : merge? ps = some m) :
    accessAfter ps field = m.access field ↔ ¬Withdrawn field ps ∧ ¬Unhidden field ps := by
  rw [← editable_differs_iff h, ← visible_differs_iff h]
  have hedit : (accessAfter ps field).editable = true → (m.access field).editable = true :=
    editable_access_of_accessAfter h
  have hshow : (m.access field).visible = true → (accessAfter ps field).visible = true :=
    visible_accessAfter_of_access h
  have hreq : (accessAfter ps field).required = (m.access field).required :=
    required_accessAfter_eq_access h
  generalize accessAfter ps field = after at *
  generalize m.access field = merged at *
  obtain ⟨e, v, r⟩ := after
  obtain ⟨e', v', r'⟩ := merged
  simp only at hedit hshow hreq
  subst hreq
  cases e <;> cases e' <;> cases v <;> cases v' <;> simp_all

end FieldPermission

namespace Decision

open FieldPermission

/-- The access that a decision gives to a field, the access under the merged grant, and where the
two part. -/
theorem fieldAccess_and_merged_access (d : Decision) (field : String) (m : FieldPermission) :
    ((d.fieldAccess field).editable = true ↔
        (∀ p ∈ d.fieldPermissions, ¬p.Settles field) ∨
          ∃ earlier p, LastSettling field d.fieldPermissions earlier p ∧ field ∈ p.editable) ∧
      ((d.fieldAccess field).visible = true ↔
        ∀ p, d.fieldPermissions.getLast? = some p → field ∉ p.hidden) ∧
      ((d.fieldAccess field).required = true ↔ ∃ p ∈ d.fieldPermissions, field ∈ p.required) ∧
      (merge? d.fieldPermissions = none ↔ d.fieldPermissions = []) ∧
      (merge? d.fieldPermissions = some m →
        ((m.access field).editable = true ↔
            (∃ p ∈ d.fieldPermissions, field ∈ p.editable) ∨
              ∀ p ∈ d.fieldPermissions, field ∉ p.readonly) ∧
          ((m.access field).visible = true ↔ ∀ p ∈ d.fieldPermissions, field ∉ p.hidden) ∧
          ((m.access field).required = true ↔ ∃ p ∈ d.fieldPermissions, field ∈ p.required) ∧
          (d.fieldAccess field).required = (m.access field).required ∧
          ((d.fieldAccess field).editable = true → (m.access field).editable = true) ∧
          ((m.access field).visible = true → (d.fieldAccess field).visible = true) ∧
          (d.fieldAccess field = m.access field ↔
            ¬Withdrawn field d.fieldPermissions ∧ ¬Unhidden field d.fieldPermissions)) := by
  have heq : d.fieldAccess field = accessAfter d.fieldPermissions field := rfl
  rw [heq]
  refine ⟨editable_accessAfter_iff, visible_accessAfter_iff, required_accessAfter_iff,
    merge?_eq_none_iff, fun h => ⟨editable_access_merge?_iff h, visible_access_merge?_iff h,
      required_access_merge?_iff h, required_accessAfter_eq_access h,
      editable_access_of_accessAfter h, visible_accessAfter_of_access h,
      accessAfter_eq_access_iff h⟩⟩

/-- The first grant lets the amount be edited and hides the salary; the second takes both back. -/
def twoGrants : Decision :=
  ⟨[.fieldPermission ⟨"form", 1, ["amount"], [], ["salary"], []⟩,
    .fieldPermission ⟨"archive", 2, [], ["amount"], [], ["amount"]⟩]⟩

theorem twoGrants_accesses_differ :
    ∃ m, merge? twoGrants.fieldPermissions = some m ∧
      twoGrants.fieldAccess "amount" ≠ m.access "amount" ∧
      twoGrants.fieldAccess "salary" ≠ m.access "salary" ∧
      twoGrants.fieldAccess "note" = m.access "note" := by
  have hgrants : twoGrants.fieldPermissions = [_, _] := rfl
  have hmerged : merge? twoGrants.fieldPermissions = some _ := rfl
  have hdiffers (field : String) :=
    ((fieldAccess_and_merged_access twoGrants field _).2.2.2.2 hmerged).2.2.2.2.2.2
  refine ⟨_, hmerged, ?_, ?_, ?_⟩
  · rw [ne_eq, hdiffers, hgrants]
    refine fun h => h.1 ⟨[_], _, ⟨[], rfl, ?_, ?_⟩, ?_, ?_⟩ <;> simp [Settles]
  · rw [ne_eq, hdiffers, hgrants]
    refine fun h => h.2 ⟨[_], _, rfl, ?_, ?_⟩ <;> simp
  · decide

end Decision

end ActionPolicy
