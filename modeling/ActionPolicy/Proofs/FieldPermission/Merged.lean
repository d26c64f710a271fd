import ActionPolicy.Proofs.FieldPermission.Combination
import Mathlib.Data.List.Nodup

/-!
# Merged grants

Merging puts the fields of later grants behind those of the first one, each where it first comes up,
unless it is there already. This is associative, so grants may be merged in groups, and a grant that
has been merged adds nothing when it comes again.

The fields of the first grant are taken as they are. What it lists twice stays there twice, and only
where it lists nothing twice are the merged lists free of repetitions.

## Main definitions

* `FieldPermission.fieldLists` – the four lists of a grant.
* `FieldPermission.OrderedUnion` – fields without repetition, in the order in which they first come
  up.

## Main statements

* `FieldPermission.extend_extend`, `FieldPermission.join_assoc` – extending a list, and joining
  grants, are associative.
* `FieldPermission.extend_eq_append`, `FieldPermission.orderedUnion_extend_iff` – what is put behind
  a list, and when the whole is without repetition.
* `FieldPermission.fields_foldl_join` – the lists of a merged grant.
* `FieldPermission.merge?_filterMap` – groups may be merged first.
* `FieldPermission.merge?_groups_and_repeats`, `FieldPermission.merge?_lists` – what merging does
  with groups, and what it makes of the lists.
-/

namespace ActionPolicy

namespace FieldPermission

/-! ### Extending a list -/

section Extend

variable {f : String} {fields more others all : List String}

theorem extend_append : extend fields (more ++ others) = extend (extend fields more) others :=
  List.foldl_append

theorem extend_concat_of_mem (h : f ∈ extend fields more) :
    extend fields (more ++ [f]) = extend fields more := by
  rw [extend_append]
  exact if_pos (List.contains_iff_mem.mpr h)

theorem extend_concat_of_not_mem (h : f ∉ extend fields more) :
    extend fields (more ++ [f]) = extend fields more ++ [f] := by
  rw [extend_append]
  exact if_neg fun hcontains => h (List.contains_iff_mem.mp hcontains)

/-- Fields that are there already are left out. -/
theorem extend_eq_self (h : ∀ f ∈ more, f ∈ fields) : extend fields more = fields := by
  induction more using List.reverseRecOn with
  | nil => rfl
  | append_singleton more f ih =>
    have hfields : extend fields more = fields := ih fun g hg => h g (by simp [hg])
    have hf : f ∈ extend fields more := mem_extend.mpr (Or.inl (h f (by simp)))
    rw [extend_concat_of_mem hf, hfields]

theorem extend_extend :
    extend fields (extend more others) = extend (extend fields more) others := by
  induction others using List.reverseRecOn with
  | nil => rfl
  | append_singleton others f ih =>
    by_cases hf : f ∈ extend more others
    · have hthere : f ∈ extend (extend fields more) others := by
        rw [← ih]
        exact mem_extend.mpr (Or.inr hf)
      rw [extend_concat_of_mem hf, extend_concat_of_mem hthere, ih]
    · -- It comes last on both sides, if it is put there at all.
      rw [extend_concat_of_not_mem hf, extend_append, ih, extend_append]

/-- What is put behind a list is what is put together of the fields that are not in it. -/
theorem extend_eq_append :
    extend fields more = fields ++ extend [] (more.filter fun f => f ∉ fields) := by
  induction more using List.reverseRecOn with
  | nil => exact (List.append_nil fields).symm
  | append_singleton more f ih =>
    rw [List.filter_append]
    by_cases hfields : f ∈ fields
    · have hold : [f].filter (fun f => f ∉ fields) = [] := by simp [hfields]
      rw [extend_concat_of_mem (mem_extend.mpr (Or.inl hfields)), hold, List.append_nil, ih]
    · have hnew : [f].filter (fun f => f ∉ fields) = [f] := by simp [hfields]
      rw [hnew]
      by_cases hf : f ∈ more
      · have hkept : f ∈ more.filter fun f => f ∉ fields := by simp [hf, hfields]
        rw [extend_concat_of_mem (mem_extend.mpr (Or.inr hf)),
          extend_concat_of_mem (mem_extend.mpr (Or.inr hkept)), ih]
      · have hout : f ∉ extend fields more := by simp [mem_extend, hf, hfields]
        have hout' : f ∉ extend [] (more.filter fun f => f ∉ fields) := by simp [mem_extend, hf]
        rw [extend_concat_of_not_mem hout, extend_concat_of_not_mem hout', ih, List.append_assoc]

/-- The fields are those of all, each once, the one that comes up earlier before the other. -/
structure OrderedUnion (fields all : List String) : Prop where
  mem_iff : ∀ f, f ∈ fields ↔ f ∈ all
  order : fields.Pairwise fun f g => all.idxOf f < all.idxOf g

namespace OrderedUnion

theorem nodup (h : OrderedUnion fields all) : fields.Nodup :=
  h.order.imp fun hlt heq => by simp [heq] at hlt

/-- One more field comes behind all others, unless it has come up before. -/
theorem concat (h : OrderedUnion fields all) (f : String) :
    OrderedUnion (extend fields [f]) (all ++ [f]) := by
  have hold : ∀ g ∈ fields, (all ++ [f]).idxOf g = all.idxOf g := fun g hg =>
    List.idxOf_append_of_mem ((h.mem_iff g).mp hg)
  have horder : fields.Pairwise fun g g' => (all ++ [f]).idxOf g < (all ++ [f]).idxOf g' := by
    refine h.order.imp_of_mem fun hg hg' hlt => ?_
    rw [hold _ hg, hold _ hg']
    exact hlt
  refine ⟨fun g => by simp [mem_extend, h.mem_iff], ?_⟩
  by_cases hf : f ∈ fields
  · rw [extend_eq_self fun g hg => List.mem_singleton.mp hg ▸ hf]
    exact horder
  · have hnew : f ∉ all := mt (h.mem_iff f).mpr hf
    have hlast : extend fields [f] = fields ++ [f] :=
      if_neg fun hcontains => hf (List.contains_iff_mem.mp hcontains)
    rw [hlast]
    refine List.pairwise_append.mpr ⟨horder, List.pairwise_singleton _ _, fun g hg g' hg' => ?_⟩
    rw [List.mem_singleton.mp hg', hold g hg, List.idxOf_append_of_notMem hnew]
    exact Nat.lt_add_right _ (List.idxOf_lt_length_of_mem ((h.mem_iff g).mp hg))

end OrderedUnion

theorem orderedUnion_extend_nil (all : List String) : OrderedUnion (extend [] all) all := by
  induction all using List.reverseRecOn with
  | nil => exact ⟨fun f => Iff.rfl, List.Pairwise.nil⟩
  | append_singleton all f ih =>
    rw [extend_append]
    exact ih.concat f

theorem extend_nil_of_nodup (h : fields.Nodup) : extend [] fields = fields := by
  induction fields using List.reverseRecOn with
  | nil => rfl
  | append_singleton fields f ih =>
    rw [← List.concat_eq_append, List.nodup_concat] at h
    obtain ⟨hf, hfields⟩ := h
    rw [extend_append, ih hfields]
    exact if_neg fun hcontains => hf (List.contains_iff_mem.mp hcontains)

/-- An extended list is without repetition exactly if the list was. -/
theorem orderedUnion_extend_iff :
    OrderedUnion (extend fields more) (fields ++ more) ↔ fields.Nodup := by
  constructor
  · intro h
    have hnodup := h.nodup
    rw [extend_eq_append] at hnodup
    exact (List.nodup_append.mp hnodup).1
  · intro h
    have hunion := orderedUnion_extend_nil (fields ++ more)
    rwa [extend_append, extend_nil_of_nodup h] at hunion

end Extend

/-! ### Joining grants -/

variable {p q r : FieldPermission} {ps : List FieldPermission}

/-- The four lists of a grant. -/
def fieldLists : List (FieldPermission → List String) := [editable, readonly, hidden, required]

section Lists

variable {fields : FieldPermission → List String}

theorem fields_join (h : fields ∈ fieldLists) (p q : FieldPermission) :
    fields (p.join q) = extend (fields p) (fields q) := by
  simp only [fieldLists, List.mem_cons, List.not_mem_nil, or_false] at h
  rcases h with rfl | rfl | rfl | rfl <;> rfl

theorem fields_foldl_join (h : fields ∈ fieldLists) :
    fields (ps.foldl join p) = extend (fields p) (ps.flatMap fields) := by
  induction ps generalizing p with
  | nil => rfl
  | cons q ps ih => rw [List.foldl_cons, ih, fields_join h, List.flatMap_cons, extend_append]

end Lists

theorem eq_of_fieldLists (hcode : p.code = q.code) (hpriority : p.priority = q.priority)
    (hfields : ∀ fields ∈ fieldLists, fields p = fields q) : p = q := by
  obtain ⟨code, priority, editable, readonly, hidden, required⟩ := p
  obtain ⟨he, hr, hh, hq⟩ : editable = q.editable ∧ readonly = q.readonly ∧ hidden = q.hidden ∧
      required = q.required := by
    simpa [fieldLists] using hfields
  subst hcode hpriority he hr hh hq
  rfl

theorem join_assoc (p q r : FieldPermission) : (p.join q).join r = p.join (q.join r) := by
  refine eq_of_fieldLists rfl ?_ fun fields h => ?_
  · have hmin : Std.Associative (min : Priority → Priority → Priority) := inferInstance
    exact hmin.assoc p.priority q.priority r.priority
  · rw [fields_join h, fields_join h, fields_join h, fields_join h, extend_extend]

instance : Std.Associative join := ⟨join_assoc⟩

theorem code_foldl_join : (ps.foldl join p).code = p.code := by
  induction ps generalizing p with
  | nil => rfl
  | cons q ps ih => rw [List.foldl_cons, ih, join]

theorem priority_foldl_join :
    (ps.foldl join p).priority = (ps.map priority).foldl min p.priority := by
  induction ps generalizing p with
  | nil => rfl
  | cons q ps ih => rw [List.foldl_cons, ih, List.map_cons, List.foldl_cons, join]

/-- The priority of a merged grant is the least. -/
theorem priority_foldl_join_eq_min? (p : FieldPermission) (ps : List FieldPermission) :
    ((p :: ps).map priority).min? = some (ps.foldl join p).priority := by
  rw [List.map_cons, List.min?_cons', priority_foldl_join]

theorem priority_foldl_join_le (hq : q ∈ p :: ps) : (ps.foldl join p).priority ≤ q.priority :=
  (List.min?_eq_some_iff.mp (priority_foldl_join_eq_min? p ps)).2 _ (List.mem_map_of_mem hq)

theorem exists_priority_foldl_join :
    ∃ q ∈ p :: ps, (ps.foldl join p).priority = q.priority := by
  obtain ⟨q, hq, hpriority⟩ :=
    List.mem_map.mp (List.min?_eq_some_iff.mp (priority_foldl_join_eq_min? p ps)).1
  exact ⟨q, hq, hpriority.symm⟩

/-- A grant that has been merged adds nothing. -/
theorem foldl_join_join_of_mem (hq : q ∈ p :: ps) :
    (ps.foldl join p).join q = ps.foldl join p := by
  refine eq_of_fieldLists rfl ?_ fun fields h => ?_
  · exact Std.LawfulOrderLeftLeaningMin.min_eq_left _ _ (priority_foldl_join_le hq)
  · rw [fields_join h]
    exact extend_eq_self fun f hf => (mem_foldl_join (fields_join h)).mpr ⟨q, hq, hf⟩

/-! ### Merging -/

theorem merge?_cons (p : FieldPermission) (ps : List FieldPermission) :
    merge? (p :: ps) = some (ps.foldl join p) := rfl

/-- Groups that are merged first are joined to a grant as their members are. -/
theorem foldl_join_filterMap (groups : List (List FieldPermission)) (p : FieldPermission) :
    (groups.filterMap merge?).foldl join p = groups.flatten.foldl join p := by
  induction groups generalizing p with
  | nil => rfl
  | cons group groups ih =>
    cases group with
    | nil => exact ih p
    | cons q qs =>
      have hgroup : qs.foldl join (p.join q) = p.join (qs.foldl join q) := List.foldl_assoc
      rw [List.filterMap_cons_some (merge?_cons q qs), List.foldl_cons, ih, List.flatten_cons,
        List.foldl_append, List.foldl_cons, hgroup]

/-- Groups may be merged first; one without grants adds nothing. -/
theorem merge?_filterMap (groups : List (List FieldPermission)) :
    merge? (groups.filterMap merge?) = merge? groups.flatten := by
  induction groups with
  | nil => rfl
  | cons group groups ih =>
    cases group with
    | nil => exact ih
    | cons p ps =>
      rw [List.filterMap_cons_some (merge?_cons p ps), List.flatten_cons, List.cons_append,
        merge?_cons, merge?_cons, foldl_join_filterMap, List.foldl_append]

theorem map_merge?_eq {groups : List (List FieldPermission)} (h : ∀ group ∈ groups, group ≠ []) :
    groups.map merge? = (groups.filterMap merge?).map some := by
  induction groups with
  | nil => rfl
  | cons group groups ih =>
    obtain ⟨hgroup, hgroups⟩ := List.forall_mem_cons.mp h
    cases group with
    | nil => contradiction
    | cons p ps =>
      rw [List.map_cons, ih hgroups, List.filterMap_cons_some (merge?_cons p ps), List.map_cons,
        merge?_cons]

theorem merge?_concat_of_mem (hp : p ∈ ps) : merge? (ps ++ [p]) = merge? ps := by
  cases ps with
  | nil => contradiction
  | cons q ps =>
    rw [List.cons_append, merge?_cons, merge?_cons, List.foldl_append]
    exact congrArg some (foldl_join_join_of_mem hp)

/-- Grants that are merged in groups, and then again, give what they give at once. A grant that has
been merged changes nothing when it is put behind the others once more. -/
theorem merge?_groups_and_repeats :
    (∀ groups : List (List FieldPermission), groups ≠ [] → (∀ group ∈ groups, group ≠ []) →
        ∃ grants m, groups.map merge? = grants.map some ∧ merge? grants = some m ∧
          merge? groups.flatten = some m) ∧
      ∀ (ps : List FieldPermission) (p : FieldPermission), p ∈ ps →
        merge? (ps ++ [p]) = merge? ps := by
  refine ⟨fun groups hgroups hgroup => ?_, fun ps p hp => merge?_concat_of_mem hp⟩
  have hflatten : groups.flatten ≠ [] := by
    obtain ⟨group, rest, rfl⟩ := List.exists_cons_of_ne_nil hgroups
    have hfirst : group ≠ [] := hgroup group List.mem_cons_self
    simp [hfirst]
  obtain ⟨m, hm⟩ := Option.ne_none_iff_exists'.mp (mt merge?_eq_none_iff.mp hflatten)
  exact ⟨groups.filterMap merge?, m, map_merge?_eq hgroup, (merge?_filterMap groups).trans hm, hm⟩

/-- A grant that lists a field twice. -/
def doubled : FieldPermission := ⟨"form", 4, ["amount", "amount"], [], ["salary"], []⟩

/-- A grant that comes before it and shares fields with it. -/
def shared : FieldPermission := ⟨"archive", 1, ["note", "amount"], ["amount"], ["salary"], ["note"]⟩

theorem merge?_groups_and_repeats_doubled :
    let groups := [[shared, doubled], [doubled, shared]]
    groups ≠ [] ∧ (∀ group ∈ groups, group ≠ []) ∧
      (∃ grants m, groups.map merge? = grants.map some ∧ merge? grants = some m ∧
        merge? groups.flatten = some m) ∧
      shared ∈ [doubled, shared] ∧
      merge? ([doubled, shared] ++ [shared]) = merge? [doubled, shared] := by
  intro groups
  have hgroups : groups ≠ [] := by simp [groups]
  have hgroup : ∀ group ∈ groups, group ≠ [] := by simp [groups]
  have hshared : shared ∈ [doubled, shared] := by simp
  exact ⟨hgroups, hgroup, merge?_groups_and_repeats.1 groups hgroups hgroup, hshared,
    merge?_groups_and_repeats.2 _ _ hshared⟩

/-- Merging takes the code of the first grant and the least priority. Each list has the fields that
some grant lists. Those of the first grant stand there as they are, and those of the others are put
behind them, each once, where it first comes up. So the whole list is without repetition exactly if
the first grant lists nothing twice. -/
theorem merge?_lists (p : FieldPermission) (ps : List FieldPermission) :
    ∃ m, merge? (p :: ps) = some m ∧ m.code = p.code ∧
      (∀ q ∈ p :: ps, m.priority ≤ q.priority) ∧ (∃ q ∈ p :: ps, m.priority = q.priority) ∧
      ∀ fields ∈ fieldLists,
        (∀ f, f ∈ fields m ↔ ∃ q ∈ p :: ps, f ∈ fields q) ∧
        (∃ added, fields m = fields p ++ added ∧
          OrderedUnion added ((ps.flatMap fields).filter fun f => f ∉ fields p)) ∧
        (OrderedUnion (fields m) ((p :: ps).flatMap fields) ↔ (fields p).Nodup) := by
  refine ⟨ps.foldl join p, rfl, code_foldl_join, fun q hq => priority_foldl_join_le hq,
    exists_priority_foldl_join, fun fields h => ⟨fun f => mem_foldl_join (fields_join h), ?_, ?_⟩⟩
  · exact ⟨_, (fields_foldl_join h).trans extend_eq_append, orderedUnion_extend_nil _⟩
  · rw [fields_foldl_join h, List.flatMap_cons]
    exact orderedUnion_extend_iff

/-- What the first grant lists twice is there twice in the merged one. -/
theorem merge?_doubled :
    ∃ m, merge? [doubled] = some m ∧ m.editable.count "amount" = 2 ∧
      ¬OrderedUnion m.editable ([doubled].flatMap editable) := by
  refine ⟨doubled, rfl, by decide, fun h => ?_⟩
  have hnodup : doubled.editable.Nodup := h.nodup
  simp [doubled] at hnodup

end FieldPermission

end ActionPolicy
