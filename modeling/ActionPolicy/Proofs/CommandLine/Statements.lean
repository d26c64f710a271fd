import ActionPolicy.CommandLine.Option
import Mathlib.Data.List.Nodup

/-!
# What arguments state

Arguments in proper form state options with a value each, and there is one way only to understand
them.

## Main definitions

* `StandsAlone` – an argument that may be a value by itself.
* `Grammar.Proper` – options are told apart by their names.
* `Grammar.States` – the options and values that arguments state.

## Main statements

* `ArgumentReader.splitValue_dashed`, `ArgumentReader.splitValue_joined` – how an argument is taken
  apart that names an option, alone or with its value.
* `Grammar.States.unique` – arguments state one thing only.
-/

namespace ActionPolicy

/-- An argument that may be a value by itself: no hyphen is in front, or it is one. -/
def StandsAlone (argument : String) : Prop :=
  argument = "-" ∨ argument.toList.head? ≠ some '-'

instance (argument : String) : Decidable (StandsAlone argument) :=
  inferInstanceAs (Decidable (_ ∨ _))

namespace Grammar

/-- Options have names of their own, in which nothing looks like the end of one. -/
structure Proper (G : Grammar) : Prop where
  distinct : (G.options.map OptionDecl.name).Nodup
  plain : ∀ d ∈ G.options, d.name.toList ≠ [] ∧ '=' ∉ d.name.toList

/-- The options and values that arguments state, in their order. -/
inductive States (G : Grammar) : List String → List (OptionDecl × String) → Prop where
  | nothing : G.States [] []
  /-- Two hyphens by themselves end the options. -/
  | closed : G.States ["--"] []
  /-- The value is an argument by itself. -/
  | apart {d : OptionDecl} {value : String} {arguments : List String}
    {uses : List (OptionDecl × String)} (hd : d ∈ G.options) (hvalue : StandsAlone value)
    (h : G.States arguments uses) :
    G.States (("--" ++ d.name) :: value :: arguments) ((d, value) :: uses)
  /-- The value stands behind an equals sign. -/
  | joined {d : OptionDecl} (value : String) {arguments : List String}
    {uses : List (OptionDecl × String)} (hd : d ∈ G.options) (h : G.States arguments uses) :
    G.States (("--" ++ d.name ++ "=" ++ value) :: arguments) ((d, value) :: uses)

variable {G : Grammar}

theorem States.known {arguments : List String} {uses : List (OptionDecl × String)}
    (h : G.States arguments uses) : ∀ u ∈ uses, u.1 ∈ G.options := by
  induction h with
  | nothing | closed => exact fun _ hu => absurd hu List.not_mem_nil
  | apart hd _ _ ih | joined _ hd _ ih => exact List.forall_mem_cons.mpr ⟨hd, ih⟩

theorem Proper.eq_of_name (hG : G.Proper) {d d' : OptionDecl} (hd : d ∈ G.options)
    (hd' : d' ∈ G.options) (hname : d.name = d'.name) : d = d' :=
  List.inj_on_of_nodup_map hG.distinct hd hd' hname

theorem Proper.find?_name (hG : G.Proper) {d : OptionDecl} (hd : d ∈ G.options) :
    G.options.find? (fun d' => d'.name == d.name) = some d := by
  cases h : G.options.find? (fun d' => d'.name == d.name) with
  | none => exact absurd (beq_self_eq_true _) (List.find?_eq_none.mp h d hd)
  | some d' =>
    have hname : d'.name = d.name := by simpa using List.find?_some h
    rw [hG.eq_of_name (List.mem_of_find?_eq_some h) hd hname]

end Grammar

namespace ArgumentReader

section SplitValue

variable {name : List Char}

theorem takeWhile_dropWhile_name (h : '=' ∉ name) (cs : List Char) :
    (name ++ cs).takeWhile (· ≠ '=') = name ++ cs.takeWhile (· ≠ '=') ∧
      (name ++ cs).dropWhile (· ≠ '=') = cs.dropWhile (· ≠ '=') := by
  have hne : ∀ c ∈ name, decide (c ≠ '=') = true := fun c hc => by
    simpa using fun heq : c = '=' => h (heq ▸ hc)
  exact ⟨List.takeWhile_append_of_pos hne, List.dropWhile_append_of_pos hne⟩

theorem splitValue_of_not_mem (h : '=' ∉ name) :
    splitValue name = (String.ofList name, none) := by
  obtain ⟨htake, hdrop⟩ := takeWhile_dropWhile_name h []
  rw [List.append_nil] at htake hdrop
  rw [splitValue, htake, hdrop]
  simp

theorem splitValue_append (h : '=' ∉ name) (value : List Char) :
    splitValue (name ++ '=' :: value) = (String.ofList name, some (String.ofList value)) := by
  obtain ⟨htake, hdrop⟩ := takeWhile_dropWhile_name h ('=' :: value)
  rw [splitValue, htake, hdrop]
  simp

/-- A name and a value come from a text in which an equals sign stands between them. -/
theorem eq_of_splitValue (cs : List Char) :
    cs = (splitValue cs).1.toList ++
      ((splitValue cs).2.map fun value => '=' :: value.toList).getD [] := by
  have hparts : cs.takeWhile (· ≠ '=') ++ cs.dropWhile (· ≠ '=') = cs :=
    List.takeWhile_append_dropWhile
  unfold splitValue
  cases h : cs.dropWhile (· ≠ '=') with
  | nil =>
    rw [h] at hparts
    simpa using hparts.symm
  | cons c rest =>
    have hc := List.head?_dropWhile_not (· ≠ '=') cs
    rw [h] at hc hparts
    obtain rfl : c = '=' := by simpa using hc
    simpa using hparts.symm

end SplitValue

variable {G : Grammar} {d : OptionDecl}

theorem splitValue_dashed (hG : G.Proper) (hd : d ∈ G.options) :
    splitValue (("--" ++ d.name).toList.drop 2) = (d.name, none) := by
  have hcs : ("--" ++ d.name).toList.drop 2 = d.name.toList := by
    rw [String.toList_append]
    rfl
  rw [hcs, splitValue_of_not_mem (hG.plain d hd).2, String.ofList_toList]

theorem splitValue_joined (hG : G.Proper) (hd : d ∈ G.options) (value : String) :
    splitValue (("--" ++ d.name ++ "=" ++ value).toList.drop 2) = (d.name, some value) := by
  have hcs : ("--" ++ d.name ++ "=" ++ value).toList.drop 2 =
      d.name.toList ++ '=' :: value.toList := by
    simp only [String.toList_append, List.append_assoc]
    rfl
  rw [hcs, splitValue_append (hG.plain d hd).2, String.ofList_toList, String.ofList_toList]

end ArgumentReader

namespace Grammar

variable {G : Grammar} {arguments : List String} {uses uses' : List (OptionDecl × String)}

theorem States.of_cons {argument : String} (h : G.States (argument :: arguments) uses) :
    argument = "--" ∧ arguments = [] ∧ uses = [] ∨
    ∃ d ∈ G.options, ∃ value rest, uses = (d, value) :: rest ∧
      (argument = "--" ++ d.name ∧ (∃ more, arguments = value :: more ∧ G.States more rest) ∨
        argument = "--" ++ d.name ++ "=" ++ value ∧ G.States arguments rest) := by
  cases h with
  | closed => exact Or.inl ⟨rfl, rfl, rfl⟩
  | apart hd _ h => exact Or.inr ⟨_, hd, _, _, rfl, Or.inl ⟨rfl, _, rfl, h⟩⟩
  | joined value hd h => exact Or.inr ⟨_, hd, value, _, rfl, Or.inr ⟨rfl, h⟩⟩

theorem joined_ne_closed (name value : String) : "--" ++ name ++ "=" ++ value ≠ "--" := by
  intro heq
  have hlist := congrArg String.toList heq
  simp [String.toList_append] at hlist

section Distinct

variable (hG : G.Proper) {d d' : OptionDecl} (hd : d ∈ G.options) (hd' : d' ∈ G.options)
  {value value' : String}

include hG hd

theorem Proper.dashed_ne_closed : "--" ++ d.name ≠ "--" := by
  intro heq
  have hlist := congrArg (fun s => s.toList.drop 2) heq
  simp only [String.toList_append] at hlist
  exact (hG.plain d hd).1 hlist

include hd'

theorem Proper.dashed_inj (heq : "--" ++ d.name = "--" ++ d'.name) : d = d' := by
  have hsplit := ArgumentReader.splitValue_dashed hG hd
  rw [heq, ArgumentReader.splitValue_dashed hG hd'] at hsplit
  exact hG.eq_of_name hd hd' (congrArg Prod.fst hsplit).symm

theorem Proper.dashed_ne_joined : "--" ++ d.name ≠ "--" ++ d'.name ++ "=" ++ value := by
  intro heq
  have hsplit := ArgumentReader.splitValue_dashed hG hd
  rw [heq, ArgumentReader.splitValue_joined hG hd'] at hsplit
  exact Option.some_ne_none _ (congrArg Prod.snd hsplit)

theorem Proper.joined_inj
    (heq : "--" ++ d.name ++ "=" ++ value = "--" ++ d'.name ++ "=" ++ value') :
    d = d' ∧ value = value' := by
  have hsplit := ArgumentReader.splitValue_joined hG hd value
  rw [heq, ArgumentReader.splitValue_joined hG hd'] at hsplit
  exact ⟨hG.eq_of_name hd hd' (congrArg Prod.fst hsplit).symm,
    (Option.some.inj (congrArg Prod.snd hsplit)).symm⟩

end Distinct

/-- Arguments state one thing only. -/
theorem States.unique (hG : G.Proper) (h : G.States arguments uses)
    (h' : G.States arguments uses') : uses = uses' := by
  induction h generalizing uses' with
  | nothing => cases h'; rfl
  | closed =>
    rcases h'.of_cons with ⟨-, -, rfl⟩ | ⟨d, hd, value, rest, -, ⟨heq, -⟩ | ⟨heq, -⟩⟩
    · rfl
    · exact absurd heq.symm (hG.dashed_ne_closed hd)
    · exact absurd heq.symm (joined_ne_closed _ _)
  | apart hd _ _ ih =>
    rcases h'.of_cons with ⟨heq, -⟩ | ⟨d', hd', value', rest, rfl, ⟨heq, more, hmore, hrest⟩ |
      ⟨heq, -⟩⟩
    · exact absurd heq (hG.dashed_ne_closed hd)
    · obtain rfl := hG.dashed_inj hd hd' heq
      obtain ⟨rfl, rfl⟩ := List.cons.inj hmore
      rw [ih hrest]
    · exact absurd heq (hG.dashed_ne_joined hd hd')
  | joined value hd _ ih =>
    rcases h'.of_cons with ⟨heq, -⟩ | ⟨d', hd', value', rest, rfl, ⟨heq, -⟩ | ⟨heq, hrest⟩⟩
    · exact absurd heq (joined_ne_closed _ _)
    · exact absurd heq.symm (hG.dashed_ne_joined hd' hd)
    · obtain ⟨rfl, rfl⟩ := hG.joined_inj hd hd' heq
      rw [ih hrest]

end Grammar

end ActionPolicy
