import ActionPolicy.Proofs.CommandLine.Reading
import ActionPolicy.Proofs.Json.Scalars
import Mathlib.Data.List.Induction

/-!
# What is given

Which arguments are accepted, and what values the options have then: those that are stated, and for
an option without one that of its variable.

## Main definitions

* `statedFor` – the values that are stated for an option.
* `saidFor`, `OptionDecl.said` – these, or else the value of the option's variable.
* `Grammar.Admits` – what is stated may be said.

## Main statements

* `ValueKind.check_number` – options that take numbers take all of 64 bits.
* `Given.addAll_none_eq_ok_iff`, `Given.foldlM_addVariable_eq_ok_iff` – which values can be added.
* `Given.all_ofUses` – each option has the values that are said.
* `Given.read_eq_ok_iff` – which arguments are accepted, and what is given then.
-/

namespace ActionPolicy

/-! ### Values that options take -/

namespace ValueKind

theorem number?_toString {n : Nat} (h : n ≤ maxNumber) : number? (toString n) = some n := by
  have hdigit : ∀ c ∈ Nat.toDigits 10 n, c.isDigit = true := fun c hc =>
    Nat.isDigit_of_mem_toDigits (by decide) (by decide) hc
  have htext : (toString n).toList = Nat.toDigits 10 n := by simp
  have hfold : (Nat.toDigits 10 n).foldl (fun n c => n * 10 + (c.toNat - '0'.toNat)) 0 = n := by
    have hdigits := Json.Numeral.ofDigits_toDigits n
    rwa [Json.Numeral.ofDigits, List.foldl_map] at hdigits
  have hall : (Nat.toDigits 10 n).all Char.isDigit = true := List.all_eq_true.mpr hdigit
  unfold number?
  rw [htext]
  cases hcs : Nat.toDigits 10 n with
  | nil => exact absurd hcs Nat.toDigits_ne_nil
  | cons c cs =>
    have hsign : c ≠ '+' := by
      rintro rfl
      rw [hcs] at hdigit
      exact absurd (hdigit '+' List.mem_cons_self) (by decide)
    rw [hcs] at hfold hall
    split
    next heq => exact absurd (List.cons.inj heq).1 hsign
    next =>
      simp only [List.isEmpty_cons, hall, Bool.not_true, Bool.or_self, Bool.false_eq_true, if_false,
        hfold, if_pos h]

/-- Options that take numbers take all that 64 bits hold. -/
theorem check_number {n : Nat} (h : n ≤ maxNumber) : number.check (toString n) = .ok () := by
  rw [check, number?_toString h]
  rfl

theorem mem_of_check {words : List String} {value : String}
    (h : (word words).check value = .ok ()) : value ∈ words := by
  by_contra hne
  have hcontains : words.contains value = false := by simpa using hne
  rw [check, hcontains] at h
  contradiction

end ValueKind

/-! ### Values that are said -/

/-- The values that are stated for an option. -/
def statedFor (name : String) (uses : List (OptionDecl × String)) : List String :=
  uses.filterMap fun u => if u.1.name = name then some u.2 else none

theorem statedFor_concat (name : String) (uses : List (OptionDecl × String))
    (u : OptionDecl × String) : statedFor name (uses ++ [u]) =
      statedFor name uses ++ if u.1.name = name then [u.2] else [] := by
  unfold statedFor
  rw [List.filterMap_append]
  by_cases h : u.1.name = name <;> simp [h]

theorem mem_statedFor_iff {name value : String} {uses : List (OptionDecl × String)} :
    value ∈ statedFor name uses ↔ ∃ u ∈ uses, u.1.name = name ∧ u.2 = value := by
  simp [statedFor, List.mem_filterMap]

/-- The values that are said for an option: those stated, or else that of its variable. -/
def saidFor (environment : String → Option String) (uses : List (OptionDecl × String))
    (name : String) (variableName : Option String) : List String :=
  if statedFor name uses = [] then (variableName.bind environment).toList else statedFor name uses

namespace OptionDecl

variable (environment : String → Option String) (uses : List (OptionDecl × String))

/-- The value that the option's variable has. -/
def variableValue (d : OptionDecl) : List String := (d.envName.bind environment).toList

/-- The values that are said for the option. -/
def said (d : OptionDecl) : List String := saidFor environment uses d.name d.envName

variable {environment uses}

theorem said_of_envName {d : OptionDecl} (h : d.envName = none) :
    d.said environment uses = statedFor d.name uses := by
  rw [said, saidFor, h]
  split
  next hnil => rw [hnil]; rfl
  next => rfl

theorem length_said_le {d : OptionDecl} (h : (statedFor d.name uses).length ≤ 1) :
    (d.said environment uses).length ≤ 1 := by
  rw [said, saidFor]
  split
  next => exact Option.length_toList_le
  next => exact h

end OptionDecl

/-- What is stated may be said: every option takes its values, only those that repeat have several,
and none is missing. -/
structure Grammar.Admits (G : Grammar) (environment : String → Option String)
    (uses : List (OptionDecl × String)) : Prop where
  once : ∀ d ∈ G.options, d.repeats = false → (statedFor d.name uses).length ≤ 1
  taken : ∀ d ∈ G.options, ∀ value ∈ d.said environment uses, d.kind.check value = .ok ()
  complete : ∀ d ∈ G.options, d.required = true → d.said environment uses ≠ []

namespace Given

variable {G : Grammar} {g g' : Given} {environment : String → Option String}
  {uses : List (OptionDecl × String)}

theorem has_eq_true_iff {name : String} : g.has name = true ↔ g.all name ≠ [] := by
  unfold has all
  rw [List.any_eq_true, ne_eq, List.filterMap_eq_nil_iff]
  simp

/-- What is stated, and no more. -/
def ofStated (uses : List (OptionDecl × String)) : Given :=
  ⟨uses.map fun u => (u.1.name, u.2)⟩

theorem all_ofStated (name : String) : (ofStated uses).all name = statedFor name uses := by
  rw [all, ofStated, List.filterMap_map]
  rfl

/-- One more value keeps to what may be given once if its option repeats or had none before. -/
theorem once_concat_iff (hG : G.Proper) {u : OptionDecl × String} (hu : u.1 ∈ G.options) :
    (∀ d ∈ G.options, d.repeats = false → (statedFor d.name (uses ++ [u])).length ≤ 1) ↔
      (∀ d ∈ G.options, d.repeats = false → (statedFor d.name uses).length ≤ 1) ∧
        ((ofStated uses).has u.1.name = true → u.1.repeats = true) := by
  simp only [statedFor_concat, List.length_append, has_eq_true_iff, all_ofStated]
  constructor
  · intro honce
    refine ⟨fun d hd hrepeats => ?_, fun hstated => ?_⟩
    · have hlength := honce d hd hrepeats
      omega
    · by_contra hrepeats
      have hlength := honce u.1 hu (by simpa using hrepeats)
      have hpositive := List.length_pos_iff.mpr hstated
      rw [if_pos rfl, List.length_singleton] at hlength
      omega
  · rintro ⟨honce, hstated⟩ d hd hrepeats
    by_cases hname : u.1.name = d.name
    · obtain rfl : u.1 = d := hG.eq_of_name hu hd hname
      have hnil : statedFor u.1.name uses = [] := by
        by_contra hne
        rw [hstated hne] at hrepeats
        contradiction
      simp [hnil]
    · simpa [hname] using honce d hd hrepeats

/-- Values can be added one after another if options take them and only those that repeat have
several. -/
theorem addAll_none_eq_ok_iff (hG : G.Proper) (hknown : ∀ u ∈ uses, u.1 ∈ G.options) :
    Given.none.addAll uses = .ok g ↔ (∀ u ∈ uses, u.1.kind.check u.2 = .ok ()) ∧
      (∀ d ∈ G.options, d.repeats = false → (statedFor d.name uses).length ≤ 1) ∧
        g = ofStated uses := by
  induction uses using List.reverseRecOn generalizing g with
  | nil =>
    have hnone : Given.none.addAll [] = .ok g ↔ g = ofStated [] :=
      ⟨fun h => (Except.ok.inj h).symm, fun h => h ▸ rfl⟩
    simp [hnone, statedFor]
  | append_singleton uses u ih =>
    obtain ⟨hknown, hu⟩ := List.forall_mem_append.mp hknown
    rw [List.forall_mem_singleton] at hu
    have hsnoc : Given.none.addAll (uses ++ [u]) = .ok g ↔
        ∃ m, Given.none.addAll uses = .ok m ∧ m.add u.1 u.2 = .ok g := by
      rw [addAll, List.foldlM_append, except_bind_eq_ok_iff]
      simp [addAll]
    have hstated : ofStated (uses ++ [u]) =
        ⟨(ofStated uses).values ++ [(u.1.name, u.2)]⟩ := by
      simp [ofStated]
    rw [hsnoc, once_concat_iff hG hu, List.forall_mem_append, List.forall_mem_singleton, hstated]
    constructor
    · rintro ⟨m, hm, hadd⟩
      obtain ⟨hchecks, honce, rfl⟩ := (ih hknown).mp hm
      obtain ⟨hrepeats, hcheck, rfl⟩ := add_eq_ok_iff.mp hadd
      exact ⟨⟨hchecks, hcheck⟩, ⟨honce, hrepeats⟩, rfl⟩
    · rintro ⟨⟨hchecks, hcheck⟩, ⟨honce, hrepeats⟩, rfl⟩
      exact ⟨ofStated uses, (ih hknown).mpr ⟨hchecks, honce, rfl⟩,
        add_eq_ok_iff.mpr ⟨hrepeats, hcheck, rfl⟩⟩

/-! ### Variables -/

/-- An option without a value has that of its variable. -/
def withVariable (environment : String → Option String) (g : Given) (d : OptionDecl) : Given :=
  if g.has d.name then g else ⟨g.values ++ (d.variableValue environment).map (d.name, ·)⟩

theorem addVariable_eq_ok_iff {d : OptionDecl} : addVariable environment g d = .ok g' ↔
    (g.all d.name = [] → ∀ value ∈ d.variableValue environment, d.kind.check value = .ok ()) ∧
      g' = g.withVariable environment d := by
  have hnot : g.has d.name = false ↔ g.all d.name = [] := by
    rw [← Bool.not_eq_true, has_eq_true_iff, not_not]
  unfold addVariable withVariable OptionDecl.variableValue
  rw [← hnot]
  cases d.envName.bind environment with
  | none => simp [eq_comm (a := g)]
  | some value =>
    cases hhas : g.has d.name with
    | true => simp [eq_comm (a := g)]
    | false => simp [add_eq_ok_iff, hhas]

theorem all_withVariable (d : OptionDecl) (name : String) :
    (g.withVariable environment d).all name =
      if d.name = name ∧ g.all name = [] then d.variableValue environment else g.all name := by
  unfold withVariable
  cases hhas : g.has d.name with
  | true =>
    have hne : ¬(d.name = name ∧ g.all name = []) := by
      rintro ⟨rfl, hnil⟩
      exact has_eq_true_iff.mp hhas hnil
    rw [if_neg hne, if_pos rfl]
  | false =>
    have hnil : g.all d.name = [] := by
      rw [← Bool.not_eq_true, has_eq_true_iff, not_not] at hhas
      exact hhas
    have hvalues : ∀ values : List String, (values.map (d.name, ·)).filterMap
        (fun p => if p.1 = name then some p.2 else Option.none) =
          if d.name = name then values else [] := by
      intro values
      by_cases h : d.name = name <;> simp [h]
    rw [if_neg Bool.false_ne_true]
    show List.filterMap _ (g.values ++ _) = _
    rw [List.filterMap_append, hvalues]
    show g.all name ++ _ = _
    by_cases h : d.name = name
    · subst h
      simp [hnil]
    · simp [h]

section Variables

variable {ds : List OptionDecl}

theorem all_foldl_withVariable_of_not_mem {name : String} (h : name ∉ ds.map OptionDecl.name) :
    (ds.foldl (withVariable environment) g).all name = g.all name := by
  induction ds generalizing g with
  | nil => rfl
  | cons d ds ih =>
    obtain ⟨hd, hds⟩ := not_or.mp (List.mem_cons.not.mp h)
    rw [List.foldl_cons, ih hds, all_withVariable, if_neg fun hname => hd hname.1.symm]

theorem all_foldl_withVariable (hdistinct : (ds.map OptionDecl.name).Nodup) {d : OptionDecl}
    (hd : d ∈ ds) : (ds.foldl (withVariable environment) g).all d.name =
      if g.all d.name = [] then d.variableValue environment else g.all d.name := by
  induction ds generalizing g with
  | nil => exact absurd hd List.not_mem_nil
  | cons d' ds ih =>
    obtain ⟨hfresh, hdistinct⟩ := List.nodup_cons.mp hdistinct
    rw [List.foldl_cons]
    rcases List.mem_cons.mp hd with rfl | hd
    · rw [all_foldl_withVariable_of_not_mem hfresh, all_withVariable]
      simp only [true_and]
    · -- The variables of other options have nothing to say here.
      have hne : d'.name ≠ d.name := fun hname => hfresh (hname ▸ List.mem_map_of_mem hd)
      have hrest : (g.withVariable environment d').all d.name = g.all d.name := by
        rw [all_withVariable, if_neg fun hname => hne hname.1]
      rw [ih hdistinct hd, hrest]

theorem foldlM_addVariable_eq_ok_iff (hdistinct : (ds.map OptionDecl.name).Nodup) :
    ds.foldlM (addVariable environment) g = .ok g' ↔
      (∀ d ∈ ds, g.all d.name = [] → ∀ value ∈ d.variableValue environment,
        d.kind.check value = .ok ()) ∧ g' = ds.foldl (withVariable environment) g := by
  induction ds generalizing g with
  | nil =>
    exact ⟨fun h => ⟨fun _ hd => absurd hd List.not_mem_nil, (Except.ok.inj h).symm⟩,
      fun h => congrArg Except.ok h.2.symm⟩
  | cons d ds ih =>
    obtain ⟨hfresh, hdistinct⟩ := List.nodup_cons.mp hdistinct
    have hrest : ∀ d' ∈ ds, (g.withVariable environment d).all d'.name = g.all d'.name := by
      intro d' hd'
      have hne : d.name ≠ d'.name := fun hname => hfresh (hname ▸ List.mem_map_of_mem hd')
      rw [all_withVariable, if_neg fun hname => hne hname.1]
    rw [List.foldlM_cons, except_bind_eq_ok_iff, List.forall_mem_cons, List.foldl_cons]
    constructor
    · rintro ⟨m, hstep, hrun⟩
      obtain ⟨hd, rfl⟩ := addVariable_eq_ok_iff.mp hstep
      obtain ⟨hds, rfl⟩ := (ih hdistinct).mp hrun
      exact ⟨⟨hd, fun d' hd' hnil => hds d' hd' (by rw [hrest d' hd', hnil])⟩, rfl⟩
    · rintro ⟨⟨hd, hds⟩, rfl⟩
      refine ⟨_, addVariable_eq_ok_iff.mpr ⟨hd, rfl⟩, (ih hdistinct).mpr ⟨?_, rfl⟩⟩
      exact fun d' hd' hnil => hds d' hd' (by rw [← hrest d' hd', hnil])

end Variables

/-! ### What is given -/

/-- What is stated, and the variables of options for which nothing is stated. -/
def ofUses (G : Grammar) (environment : String → Option String)
    (uses : List (OptionDecl × String)) : Given :=
  G.options.foldl (withVariable environment) (ofStated uses)

/-- Each option has the values that are said. -/
theorem all_ofUses (hG : G.Proper) {d : OptionDecl} (hd : d ∈ G.options) :
    (ofUses G environment uses).all d.name = d.said environment uses := by
  rw [ofUses, all_foldl_withVariable hG.distinct hd, all_ofStated]
  rfl

/-- Stated values are taken, and so are those of variables that count, if all that is said is. -/
theorem forall_taken_iff (hG : G.Proper) (hknown : ∀ u ∈ uses, u.1 ∈ G.options) :
    (∀ d ∈ G.options, ∀ value ∈ d.said environment uses, d.kind.check value = .ok ()) ↔
      (∀ u ∈ uses, u.1.kind.check u.2 = .ok ()) ∧
        ∀ d ∈ G.options, statedFor d.name uses = [] → ∀ value ∈ d.variableValue environment,
          d.kind.check value = .ok () := by
  unfold OptionDecl.said saidFor
  constructor
  · intro h
    refine ⟨fun u hu => h u.1 (hknown u hu) u.2 ?_, fun d hd hnil value hvalue => h d hd value ?_⟩
    · have hmem : u.2 ∈ statedFor u.1.name uses := mem_statedFor_iff.mpr ⟨u, hu, rfl, rfl⟩
      rwa [if_neg (List.ne_nil_of_mem hmem)]
    · rwa [if_pos hnil]
  · rintro ⟨hstated, hvariables⟩ d hd value hvalue
    split at hvalue
    next hnil => exact hvariables d hd hnil value hvalue
    next =>
      obtain ⟨u, hu, hname, rfl⟩ := mem_statedFor_iff.mp hvalue
      rw [← hG.eq_of_name (hknown u hu) hd hname]
      exact hstated u hu

theorem any_missing_eq_false_iff (hG : G.Proper) :
    (G.options.any fun d => d.required && !(ofUses G environment uses).has d.name) = false ↔
      ∀ d ∈ G.options, d.required = true → d.said environment uses ≠ [] := by
  rw [List.any_eq_false]
  refine forall₂_congr fun d hd => ?_
  rw [← all_ofUses hG hd, ← has_eq_true_iff]
  simp

/-- Arguments are accepted if they state what may be said, and only then; that is what is given. -/
theorem read_eq_ok_iff (hG : G.Proper) {arguments : List String} :
    read G arguments environment = .ok g ↔
      ∃ uses, G.States arguments uses ∧ G.Admits environment uses ∧
        g = ofUses G environment uses := by
  have hread : read G arguments environment = ArgumentReader.readOn G .start arguments >>=
      fun stated => G.options.foldlM (addVariable environment) stated >>= fun given =>
        if G.options.any fun d => d.required && !given.has d.name then .error .missingOption
        else .ok given := by
    simp only [read, ArgumentReader.readOn, bind_assoc, pure_bind]
    rfl
  rw [hread, except_bind_eq_ok_iff]
  constructor
  · rintro ⟨stated, hstated, hvariables⟩
    obtain ⟨given, hgiven, hcomplete⟩ := except_bind_eq_ok_iff.mp hvariables
    obtain ⟨uses, hstates, hadd⟩ := (ArgumentReader.readOn_start_eq_ok_iff hG).mp hstated
    obtain ⟨hchecks, honce, rfl⟩ := (addAll_none_eq_ok_iff hG hstates.known).mp hadd
    obtain ⟨hvalues, rfl⟩ := (foldlM_addVariable_eq_ok_iff hG.distinct).mp hgiven
    simp only [all_ofStated] at hvalues
    split at hcomplete
    next => contradiction
    next hany =>
      exact ⟨uses, hstates, ⟨honce, (forall_taken_iff hG hstates.known).mpr ⟨hchecks, hvalues⟩,
        (any_missing_eq_false_iff hG).mp (Bool.eq_false_iff.mpr hany)⟩,
        (Except.ok.inj hcomplete).symm⟩
  · rintro ⟨uses, hstates, hadmits, rfl⟩
    obtain ⟨hchecks, hvalues⟩ := (forall_taken_iff hG hstates.known).mp hadmits.taken
    refine ⟨ofStated uses, (ArgumentReader.readOn_start_eq_ok_iff hG).mpr ⟨uses, hstates,
      (addAll_none_eq_ok_iff hG hstates.known).mpr ⟨hchecks, hadmits.once, rfl⟩⟩, ?_⟩
    refine except_bind_eq_ok_iff.mpr ⟨ofUses G environment uses, ?_, ?_⟩
    · refine (foldlM_addVariable_eq_ok_iff hG.distinct).mpr ⟨?_, rfl⟩
      simpa only [all_ofStated] using hvalues
    · rw [(any_missing_eq_false_iff hG).mpr hadmits.complete]
      rfl

end Given

end ActionPolicy
