import ActionPolicy.Proofs.RuleTable.Sound

/-!
# Which tables are accepted, and which fault is reported

A version and templates are a table exactly if nothing is wrong with them. If something is, the
fault that is reported is the one of the first template that has one, given the templates before it.

## Main definitions

* `Conditions.restrictions` – the four dimensions in their order, restricted or not.
* `WellFormedTable` – nothing is wrong with a version and templates.
* `Template.FaultBehind`, `FaultAt` – what is wrong with a template behind others, and with the one
  at a position.
* `FirstFault` – what is wrong with a version and templates first.

## Main statements

* `Template.fault?_eq_some_iff`, `templatesFault?_eq_some_iff` – one template, and all templates
  behind others in which nothing is wrong.
* `tableFault?_eq_some_iff`, `tableFault?_eq_none_iff` – what is wrong first, and when nothing is.
* `RuleTable.ofTemplates_iff` – what is accepted, what is reported, and what holds of every table.
-/

namespace ActionPolicy

/-- The dimensions with their names, in the order in which they are checked. -/
def Conditions.restrictions (c : Conditions) : List (String × Option (List String)) :=
  [("status", c.status), ("node_types", c.nodeTypes), ("roles", c.roles),
    ("form_types", c.formTypes)]

/-- Nothing is wrong with a version and templates. -/
structure WellFormedTable (version : String) (templates : List Template) : Prop where
  version : version ≠ ""
  codes : ∀ t ∈ templates, ∃ c ∈ t.code.toList, isBlank c = false
  distinct : (templates.map Template.code).Nodup
  restrictions : ∀ t ∈ templates, ∀ p ∈ t.conditions.restrictions, p.2 ≠ some []
  priorities : ∀ t ∈ templates, t.priority ≠ some unranked

/-- What is wrong with a template behind others, the earlier causes first. -/
inductive Template.FaultBehind (earlier : List Template) (t : Template) :
    ConfigurationError → Prop where
  | emptyCode (blank : ∀ c ∈ t.code.toList, isBlank c = true) :
    t.FaultBehind earlier (.emptyCode earlier.length)
  | duplicateCode (code : ∃ c ∈ t.code.toList, isBlank c = false)
    (seen : ∃ u ∈ earlier, u.code = t.code) : t.FaultBehind earlier (.duplicateCode t.code)
  | emptyCondition (code : ∃ c ∈ t.code.toList, isBlank c = false)
    (new : ∀ u ∈ earlier, u.code ≠ t.code) {name : String}
    {before after : List (String × Option (List String))}
    (split : t.conditions.restrictions = before ++ (name, some []) :: after)
    (first : ∀ p ∈ before, p.2 ≠ some []) : t.FaultBehind earlier (.emptyCondition t.code name)
  | reservedPriority (code : ∃ c ∈ t.code.toList, isBlank c = false)
    (new : ∀ u ∈ earlier, u.code ≠ t.code)
    (restrictions : ∀ p ∈ t.conditions.restrictions, p.2 ≠ some [])
    (priority : t.priority = some unranked) :
    t.FaultBehind earlier (.reservedPriority t.code unranked)

/-- What is wrong with the template at a position, given those before it. -/
def FaultAt (templates : List Template) (i : Nat) (e : ConfigurationError) : Prop :=
  ∃ t, templates[i]? = some t ∧ t.FaultBehind (templates.take i) e

/-- What is wrong first: the version is empty, or else there is a fault at a position, and at none
before it. -/
inductive FirstFault (version : String) (templates : List Template) : ConfigurationError → Prop where
  | version (empty : version = "") : FirstFault version templates .emptyVersion
  | template (version_ne : version ≠ "") {i : Nat} {e : ConfigurationError}
    (fault : FaultAt templates i e) (least : ∀ j < i, ∀ e', ¬FaultAt templates j e') :
    FirstFault version templates e

/-! ### One template -/

namespace Template

theorem isBlankText_eq_true_iff {s : String} :
    isBlankText s = true ↔ ∀ c ∈ s.toList, isBlank c = true := List.all_eq_true

theorem isBlankText_eq_false_iff {s : String} :
    isBlankText s = false ↔ ∃ c ∈ s.toList, isBlank c = false := by
  simp [isBlankText]

theorem emptyDimension?_eq (t : Template) :
    t.emptyDimension? = (t.conditions.restrictions.find? fun p => p.2 == some []).map Prod.fst := by
  have hdimensions : t.conditions.dimensions =
      t.conditions.restrictions.filterMap fun p => p.2.map (p.1, ·) := rfl
  rw [emptyDimension?, hdimensions]
  induction t.conditions.restrictions with
  | nil => rfl
  | cons p rest ih =>
    obtain ⟨name, values⟩ := p
    cases values with
    | none => simpa using ih
    | some values =>
      cases values with
      | nil => rfl
      | cons value values => simpa using ih

theorem emptyDimension?_eq_some_iff {t : Template} {name : String} :
    t.emptyDimension? = some name ↔
      ∃ before after, t.conditions.restrictions = before ++ (name, some []) :: after ∧
        ∀ p ∈ before, p.2 ≠ some [] := by
  rw [emptyDimension?_eq, Option.map_eq_some_iff]
  constructor
  · rintro ⟨⟨name', values⟩, hfind, rfl⟩
    obtain ⟨hempty, before, after, hsplit, hbefore⟩ := List.find?_eq_some_iff_append.mp hfind
    obtain rfl : values = some [] := beq_iff_eq.mp hempty
    exact ⟨before, after, hsplit, fun p hp => by simpa using hbefore p hp⟩
  · rintro ⟨before, after, hsplit, hbefore⟩
    refine ⟨(name, some []), List.find?_eq_some_iff_append.mpr ⟨rfl, before, after, hsplit, ?_⟩, rfl⟩
    intro p hp
    simpa using hbefore p hp

theorem forall_mem_dimensions_iff {t : Template} :
    (∀ d ∈ t.conditions.dimensions, d.2 ≠ []) ↔
      ∀ p ∈ t.conditions.restrictions, p.2 ≠ some [] := by
  rw [← emptyDimension?_eq_none_iff, emptyDimension?_eq, Option.map_eq_none_iff,
    List.find?_eq_none]
  exact forall₂_congr fun p _ => by rw [beq_iff_eq]

section Seen

variable {earlier : List Template} {seen : List String} {t : Template} {e : ConfigurationError}

theorem fault?_of_faultBehind (hseen : ∀ code, code ∈ seen ↔ ∃ u ∈ earlier, u.code = code)
    (h : t.FaultBehind earlier e) : t.fault? seen earlier.length = some e := by
  have hpresent : (∃ c ∈ t.code.toList, isBlank c = false) → ¬isBlankText t.code = true := by
    intro hcode
    rw [isBlankText_eq_false_iff.mpr hcode]
    exact Bool.false_ne_true
  have hnew : (∀ u ∈ earlier, u.code ≠ t.code) → ¬seen.contains t.code = true := by
    intro hne hcontains
    obtain ⟨u, hu, hsame⟩ := (hseen t.code).mp (List.contains_iff_mem.mp hcontains)
    exact hne u hu hsame
  unfold fault?
  cases h with
  | emptyCode blank => rw [if_pos (isBlankText_eq_true_iff.mpr blank)]
  | duplicateCode code old =>
    rw [if_neg (hpresent code), if_pos (List.contains_iff_mem.mpr ((hseen t.code).mpr old))]
  | emptyCondition code new split first =>
    rw [if_neg (hpresent code), if_neg (hnew new),
      emptyDimension?_eq_some_iff.mpr ⟨_, _, split, first⟩]
  | reservedPriority code new restrictions priority =>
    rw [if_neg (hpresent code), if_neg (hnew new),
      emptyDimension?_eq_none_iff.mpr (forall_mem_dimensions_iff.mpr restrictions)]
    exact if_pos priority

theorem faultBehind_of_fault? (hseen : ∀ code, code ∈ seen ↔ ∃ u ∈ earlier, u.code = code)
    (h : t.fault? seen earlier.length = some e) : t.FaultBehind earlier e := by
  unfold fault? at h
  by_cases hblank : isBlankText t.code = true
  · rw [if_pos hblank] at h
    obtain rfl := Option.some.inj h
    exact .emptyCode (isBlankText_eq_true_iff.mp hblank)
  rw [if_neg hblank] at h
  have hcode := isBlankText_eq_false_iff.mp (Bool.eq_false_iff.mpr hblank)
  by_cases hold : seen.contains t.code = true
  · rw [if_pos hold] at h
    obtain rfl := Option.some.inj h
    exact .duplicateCode hcode ((hseen t.code).mp (List.contains_iff_mem.mp hold))
  rw [if_neg hold] at h
  have hnew : ∀ u ∈ earlier, u.code ≠ t.code := fun u hu hsame =>
    hold (List.contains_iff_mem.mpr ((hseen t.code).mpr ⟨u, hu, hsame⟩))
  cases hdimension : t.emptyDimension? with
  | some name =>
    rw [hdimension] at h
    obtain rfl := Option.some.inj h
    obtain ⟨before, after, hsplit, hbefore⟩ := emptyDimension?_eq_some_iff.mp hdimension
    exact .emptyCondition hcode hnew hsplit hbefore
  | none =>
    rw [hdimension] at h
    by_cases hpriority : t.priority = some unranked
    · obtain rfl := Option.some.inj ((if_pos hpriority).symm.trans h)
      have hall := emptyDimension?_eq_none_iff.mp hdimension
      exact .reservedPriority hcode hnew (forall_mem_dimensions_iff.mp hall) hpriority
    · exact absurd ((if_neg hpriority).symm.trans h) (by simp)

/-- The fault that is found in a template is the first of those it has. -/
theorem fault?_eq_some_iff (hseen : ∀ code, code ∈ seen ↔ ∃ u ∈ earlier, u.code = code) :
    t.fault? seen earlier.length = some e ↔ t.FaultBehind earlier e :=
  ⟨faultBehind_of_fault? hseen, fault?_of_faultBehind hseen⟩

end Seen

end Template

/-! ### All templates -/

theorem faultAt_length_iff {earlier rest : List Template} {t : Template} {e : ConfigurationError} :
    FaultAt (earlier ++ t :: rest) earlier.length e ↔ t.FaultBehind earlier e := by
  simp [FaultAt]

/-- The codes that have been seen behind one more template. -/
theorem mem_seen_concat {earlier : List Template} {seen : List String} (t : Template)
    (hseen : ∀ code, code ∈ seen ↔ ∃ u ∈ earlier, u.code = code) (code : String) :
    code ∈ t.code :: seen ↔ ∃ u ∈ earlier ++ [t], u.code = code := by
  rw [List.mem_cons, hseen]
  constructor
  · rintro (rfl | ⟨u, hu, hcode⟩)
    · exact ⟨t, List.mem_append_right _ List.mem_cons_self, rfl⟩
    · exact ⟨u, List.mem_append_left _ hu, hcode⟩
  · rintro ⟨u, hu, hcode⟩
    rcases List.mem_append.mp hu with hu | hu
    · exact Or.inr ⟨u, hu, hcode⟩
    · rw [List.mem_singleton.mp hu] at hcode
      exact Or.inl hcode.symm

/-- The fault that is found in templates behind others, in which nothing is wrong, is the one at the
least position that has one. -/
theorem templatesFault?_eq_some_iff {earlier rest : List Template} {seen : List String}
    (hseen : ∀ code, code ∈ seen ↔ ∃ u ∈ earlier, u.code = code)
    (hearlier : ∀ j < earlier.length, ∀ e', ¬FaultAt (earlier ++ rest) j e')
    {e : ConfigurationError} :
    templatesFault? seen earlier.length rest = some e ↔
      ∃ i, FaultAt (earlier ++ rest) i e ∧ ∀ j < i, ∀ e', ¬FaultAt (earlier ++ rest) j e' := by
  induction rest generalizing earlier seen with
  | nil =>
    rw [templatesFault?, List.append_nil]
    refine iff_of_false (by simp) ?_
    rintro ⟨i, ⟨t, ht, hfault⟩, -⟩
    obtain ⟨hi, -⟩ := List.getElem?_eq_some_iff.mp ht
    exact hearlier i hi e (by rw [List.append_nil]; exact ⟨t, ht, hfault⟩)
  | cons t rest ih =>
    have hhere : ∀ e', FaultAt (earlier ++ t :: rest) earlier.length e' ↔
        t.fault? seen earlier.length = some e' := fun e' =>
      faultAt_length_iff.trans (Template.fault?_eq_some_iff hseen).symm
    rw [templatesFault?]
    cases hfault : t.fault? seen earlier.length with
    | some e' =>
      have hat := (hhere e').mpr hfault
      constructor
      · intro h
        obtain rfl := Option.some.inj h
        exact ⟨earlier.length, hat, hearlier⟩
      · rintro ⟨i, hi, hleast⟩
        -- The position is neither before this one nor behind it.
        have hle : earlier.length ≤ i := Nat.le_of_not_lt fun hlt => hearlier i hlt e hi
        have hge : i ≤ earlier.length := Nat.le_of_not_lt fun hlt => hleast _ hlt e' hat
        obtain rfl := Nat.le_antisymm hge hle
        exact hfault.symm.trans ((hhere e).mp hi)
    | none =>
      have hfree : ∀ e', ¬FaultAt (earlier ++ t :: rest) earlier.length e' := by
        intro e' hat
        rw [(hhere e').mp hat] at hfault
        contradiction
      have hnext : earlier ++ t :: rest = earlier ++ [t] ++ rest := by simp
      have hlength : (earlier ++ [t]).length = earlier.length + 1 := by simp
      rw [hnext] at hearlier hfree ⊢
      rw [← hlength]
      refine ih (mem_seen_concat t hseen) fun j hj e' => ?_
      rw [hlength] at hj
      rcases Nat.lt_succ_iff_lt_or_eq.mp hj with hlt | rfl
      · exact hearlier j hlt e'
      · exact hfree e'

theorem tableFault?_eq_some_iff {version : String} {templates : List Template}
    {e : ConfigurationError} :
    tableFault? version templates = some e ↔ FirstFault version templates e := by
  unfold tableFault?
  by_cases hversion : version = ""
  · rw [if_pos (by simpa using hversion)]
    constructor
    · intro h
      rw [← Option.some.inj h]
      exact .version hversion
    · intro h
      cases h with
      | version => rfl
      | template version_ne => exact absurd hversion version_ne
  · have hseen : ∀ code, code ∈ ([] : List String) ↔ ∃ u ∈ ([] : List Template), u.code = code := by
      simp
    have hearlier : ∀ j < ([] : List Template).length, ∀ e', ¬FaultAt ([] ++ templates) j e' :=
      fun j hj => absurd hj (Nat.not_lt_zero j)
    rw [if_neg (by simpa using hversion)]
    refine (templatesFault?_eq_some_iff hseen hearlier).trans ⟨?_, fun h => ?_⟩
    · rintro ⟨i, hat, hleast⟩
      exact .template hversion hat hleast
    · cases h with
      | version empty => exact absurd empty hversion
      | template _ fault least => exact ⟨_, fault, least⟩

/-- Nothing is wrong exactly if the table is well formed. -/
theorem tableFault?_eq_none_iff {version : String} {templates : List Template} :
    tableFault? version templates = none ↔ WellFormedTable version templates := by
  unfold tableFault?
  by_cases hversion : version = ""
  · rw [if_pos (by simpa using hversion)]
    exact iff_of_false nofun fun h => h.version hversion
  rw [if_neg (by simpa using hversion), templatesFault?_eq_none_iff]
  constructor
  · rintro ⟨hall, hdistinct⟩
    exact
      { version := hversion
        codes := fun t ht => Template.isBlankText_eq_false_iff.mp (hall t ht).1.code
        distinct := hdistinct
        restrictions := fun t ht => Template.forall_mem_dimensions_iff.mp (hall t ht).1.dimensions
        priorities := fun t ht => (hall t ht).1.priority }
  · intro h
    refine ⟨fun t ht => ⟨⟨?_, ?_, h.priorities t ht⟩, List.not_mem_nil⟩, h.distinct⟩
    · exact Template.isBlankText_eq_false_iff.mpr (h.codes t ht)
    · exact Template.forall_mem_dimensions_iff.mpr (h.restrictions t ht)

namespace RuleTable

/-- A version and templates are accepted exactly if nothing is wrong with them, and they are the
table then. Otherwise what is wrong first is reported. So nothing is wrong with any table. -/
theorem ofTemplates_iff (version : String) (templates : List Template) :
    ((∃ table, ofTemplates version templates = .ok table) ↔ WellFormedTable version templates) ∧
      (∀ table, ofTemplates version templates = .ok table →
        table.version = version ∧ table.templates = templates) ∧
      (∀ e, ofTemplates version templates = .error e ↔ FirstFault version templates e) ∧
      ∀ table : RuleTable, WellFormedTable table.version table.templates := by
  refine ⟨?_, fun table h => ?_, fun e => ?_, fun table => tableFault?_eq_none_iff.mp table.sound⟩
  · rw [← tableFault?_eq_none_iff]
    unfold ofTemplates
    split
    · rename_i e he
      simp [he]
    · rename_i hnone
      simp [hnone]
  · unfold ofTemplates at h
    split at h
    · contradiction
    · exact Except.ok.inj h ▸ ⟨rfl, rfl⟩
  · rw [← tableFault?_eq_some_iff]
    unfold ofTemplates
    split
    · rename_i e' he
      simp [he]
    · rename_i hnone
      simp [hnone]

end RuleTable

end ActionPolicy
