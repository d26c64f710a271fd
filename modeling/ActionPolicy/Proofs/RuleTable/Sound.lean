import ActionPolicy.RuleTable.Basic
import Mathlib.Data.List.Nodup

/-!
# Tables with which nothing is wrong

What it says of templates that no fault is found in them.

## Main definitions

* `Template.WellFormed` – what is asked of a template by itself.

## Main statements

* `templatesFault?_eq_none_iff` – no fault is found exactly if all templates are well formed and
  their codes differ.
* `RuleTable.codes_nodup`, `RuleTable.wellFormed` – so it is in every table.
-/

namespace ActionPolicy

namespace Template

/-- A template has a code that is not blank, restricts no dimension to no values, and does not claim
the priority of unranked templates. -/
structure WellFormed (t : Template) : Prop where
  code : isBlankText t.code = false
  dimensions : ∀ d ∈ t.conditions.dimensions, d.2 ≠ []
  /-- The explicit priority, if there is one, comes before that of unranked templates. -/
  priority : t.priority ≠ some unranked

theorem emptyDimension?_eq_none_iff {t : Template} :
    t.emptyDimension? = none ↔ ∀ d ∈ t.conditions.dimensions, d.2 ≠ [] := by
  rw [emptyDimension?, Option.map_eq_none_iff, List.find?_eq_none]
  exact forall₂_congr fun d _ => by rw [List.isEmpty_iff]

theorem fault?_eq_none_iff {seen : List String} {index : Nat} {t : Template} :
    t.fault? seen index = none ↔ t.WellFormed ∧ t.code ∉ seen := by
  unfold fault?
  by_cases hcode : isBlankText t.code
  · rw [if_pos hcode]
    exact iff_of_false nofun fun h => by simp [h.1.code] at hcode
  rw [if_neg hcode]
  by_cases hseen : seen.contains t.code
  · rw [if_pos hseen]
    exact iff_of_false nofun fun h => h.2 (List.contains_iff_mem.1 hseen)
  rw [if_neg hseen]
  have hnew : t.code ∉ seen := fun hm => hseen (List.contains_iff_mem.2 hm)
  cases hdim : t.emptyDimension? with
  | some dimension =>
    refine iff_of_false nofun fun h => ?_
    rw [emptyDimension?_eq_none_iff.2 h.1.dimensions] at hdim
    cases hdim
  | none =>
    dsimp only
    by_cases hpriority : t.priority = some unranked
    · rw [if_pos hpriority]
      exact iff_of_false nofun fun h => h.1.priority hpriority
    · rw [if_neg hpriority]
      exact iff_of_true rfl
        ⟨⟨Bool.eq_false_iff.2 hcode, emptyDimension?_eq_none_iff.1 hdim, hpriority⟩, hnew⟩

end Template

/-- No fault is found in templates behind others with the codes `seen` exactly if each is well
formed and no code repeats one before it. -/
theorem templatesFault?_eq_none_iff {templates : List Template} {seen : List String}
    {index : Nat} :
    templatesFault? seen index templates = none ↔
      (∀ t ∈ templates, t.WellFormed ∧ t.code ∉ seen) ∧ (templates.map Template.code).Nodup := by
  induction templates generalizing seen index with
  | nil => simp [templatesFault?]
  | cons t rest ih =>
    have hfirst : t.fault? seen index = none ↔ t.WellFormed ∧ t.code ∉ seen :=
      Template.fault?_eq_none_iff
    rw [templatesFault?, List.forall_mem_cons, List.map_cons, List.nodup_cons, ← hfirst]
    cases hfault : t.fault? seen index with
    | some e => exact iff_of_false nofun fun h => by cases h.1.1
    | none =>
      rw [ih]
      constructor
      · rintro ⟨hrest, hnodup⟩
        refine ⟨⟨rfl, fun u hu => ⟨(hrest u hu).1, ?_⟩⟩, ?_, hnodup⟩
        · exact fun hm => (hrest u hu).2 (List.mem_cons_of_mem _ hm)
        · intro hm
          obtain ⟨u, hu, hcode⟩ := List.mem_map.1 hm
          exact (hrest u hu).2 (hcode ▸ List.mem_cons_self)
      · rintro ⟨⟨-, hrest⟩, hnew, hnodup⟩
        refine ⟨fun u hu => ⟨(hrest u hu).1, ?_⟩, hnodup⟩
        intro hm
        rcases List.mem_cons.1 hm with hcode | hm
        · exact hnew (List.mem_map.2 ⟨u, hu, hcode⟩)
        · exact (hrest u hu).2 hm

namespace RuleTable

theorem templatesFault?_eq_none (table : RuleTable) :
    templatesFault? [] 0 table.templates = none := by
  have hsound := table.sound
  unfold tableFault? at hsound
  split at hsound
  · cases hsound
  · exact hsound

theorem wellFormed (table : RuleTable) {t : Template} (ht : t ∈ table.templates) : t.WellFormed :=
  ((templatesFault?_eq_none_iff.1 table.templatesFault?_eq_none).1 t ht).1

theorem codes_nodup (table : RuleTable) : table.codes.Nodup :=
  (templatesFault?_eq_none_iff.1 table.templatesFault?_eq_none).2

/-- A code stands for one template of a table at most. -/
theorem eq_of_code_eq (table : RuleTable) {t u : Template} (ht : t ∈ table.templates)
    (hu : u ∈ table.templates) (hcode : t.code = u.code) : t = u :=
  List.inj_on_of_nodup_map table.codes_nodup ht hu hcode

end RuleTable

end ActionPolicy
