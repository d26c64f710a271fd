import ActionPolicy.Proofs.CommandLine.Statements

/-!
# Reading arguments

Arguments are read to their end if they state options whose values can be added one after another,
and only then.

## Main definitions

* `Given.addAll` – options are given values one after another.
* `ArgumentReader.Holds` – what a reader holds once its last option is complete.
* `ArgumentReader.readOn` – a reader goes through arguments to their end.

## Main statements

* `ArgumentReader.step_cases` – what an argument does that is not refused.
* `ArgumentReader.readOn_of_states`, `ArgumentReader.exists_states` – the two directions.
* `ArgumentReader.readOn_start_eq_ok_iff` – which arguments are read to their end.

## Design notes

An option waits for its value, and a value for the next option, at which it is checked. A reader in
between is described by what it holds once it has settled, so that the two ways of writing a value
come to the same.
-/

namespace ActionPolicy

theorem except_bind_eq_ok_iff {ε α β : Type} {x : Except ε α} {f : α → Except ε β} {b : β} :
    x >>= f = .ok b ↔ ∃ a, x = .ok a ∧ f a = .ok b := by
  cases x <;> simp [bind, Except.bind]

/-! ### Adding values -/

namespace Given

variable {g g' : Given} {d : OptionDecl} {value : String}

theorem add_eq_ok_iff : g.add d value = .ok g' ↔
    (g.has d.name = true → d.repeats = true) ∧ d.kind.check value = .ok () ∧
      g' = ⟨g.values ++ [(d.name, value)]⟩ := by
  unfold add
  by_cases hrepeated : (g.has d.name && !d.repeats) = true
  · have hfalse : ¬(g.has d.name = true → d.repeats = true) := by simpa using hrepeated
    rw [if_pos hrepeated]
    exact iff_of_false nofun fun h => hfalse h.1
  · rw [if_neg hrepeated]
    have hallowed : g.has d.name = true → d.repeats = true := by simpa using hrepeated
    show (d.kind.check value >>= fun _ => pure _) = _ ↔ _
    rw [except_bind_eq_ok_iff]
    constructor
    · rintro ⟨⟨⟩, hcheck, hg⟩
      exact ⟨hallowed, hcheck, (Except.ok.inj hg).symm⟩
    · rintro ⟨-, hcheck, rfl⟩
      exact ⟨(), hcheck, rfl⟩

/-- The options are given their values one after another. -/
def addAll (g : Given) (uses : List (OptionDecl × String)) : Except Interruption Given :=
  uses.foldlM (fun g u => g.add u.1 u.2) g

theorem addAll_cons_eq_ok_iff {u : OptionDecl × String} {uses : List (OptionDecl × String)} :
    g.addAll (u :: uses) = .ok g' ↔ ∃ m, g.add u.1 u.2 = .ok m ∧ m.addAll uses = .ok g' := by
  rw [addAll, List.foldlM_cons]
  exact except_bind_eq_ok_iff

end Given

/-! ### Reading arguments -/

namespace ArgumentReader

variable {G : Grammar} {r r' : ArgumentReader} {g g' : Given} {d : OptionDecl}

/-- A reader that takes more arguments holds values, once its last option is complete. -/
structure Holds (r : ArgumentReader) (g : Given) : Prop where
  opened : r.closed = false
  settle : r.settle = .ok ⟨g, none, false⟩

theorem holds_settled (g : Given) : Holds ⟨g, none, false⟩ g := ⟨rfl, rfl⟩

theorem holds_value_iff {value : String} :
    Holds ⟨g, some (d, some value), false⟩ g' ↔ g.add d value = .ok g' := by
  constructor
  · intro h
    obtain ⟨m, hadd, hm⟩ := except_bind_eq_ok_iff.mp h.settle
    obtain rfl : m = g' := congrArg given (Except.ok.inj hm)
    exact hadd
  · intro h
    exact ⟨rfl, except_bind_eq_ok_iff.mpr ⟨g', h, rfl⟩⟩

theorem exists_holds_of_settle (hopened : r.closed = false) (h : r.settle = .ok r') :
    r.Holds r'.given ∧ r' = ⟨r'.given, none, false⟩ := by
  obtain ⟨given, pending, closed⟩ := r
  obtain rfl : closed = false := hopened
  rcases pending with _ | ⟨d, _ | value⟩
  · obtain rfl : (⟨given, none, false⟩ : ArgumentReader) = r' := Except.ok.inj h
    exact ⟨holds_settled given, rfl⟩
  · contradiction
  · obtain ⟨m, hadd, hr'⟩ := except_bind_eq_ok_iff.mp h
    obtain rfl := Except.ok.inj hr'
    exact ⟨holds_value_iff.mpr hadd, rfl⟩

theorem interrupt_ne_ok (i : Interruption) : r.interrupt i ≠ .ok r' := by
  intro h
  obtain ⟨-, -, hthrow⟩ := except_bind_eq_ok_iff.mp h
  contradiction

/-- An argument with two hyphens and more is a name, perhaps with a value. -/
theorem step_long (hopened : r.closed = false) {argument name : String} {value : Option String}
    {cs : List Char} (hcs : argument.toList = '-' :: '-' :: cs) (hne : cs ≠ [])
    (hsplit : splitValue (argument.toList.drop 2) = (name, value)) :
    r.step G argument = r.long G name value := by
  obtain ⟨c, rest, rfl⟩ := List.exists_cons_of_ne_nil hne
  rw [hcs] at hsplit
  have hsplit : splitValue (c :: rest) = (name, value) := hsplit
  simp only [step, hopened, hcs, hsplit, Bool.false_eq_true, if_false]

theorem long_of_holds (hG : G.Proper) (hd : d ∈ G.options) (h : r.Holds g)
    (value : Option String) : r.long G d.name value =
      if value.isSome then settle ⟨g, some (d, value), false⟩
      else .ok ⟨g, some (d, value), false⟩ := by
  unfold long
  rw [hG.find?_name hd, h.settle]
  rfl

theorem step_name (hG : G.Proper) (hd : d ∈ G.options) (h : r.Holds g) :
    r.step G ("--" ++ d.name) = .ok ⟨g, some (d, none), false⟩ := by
  rw [step_long h.opened (by rw [String.toList_append]; rfl) (hG.plain d hd).1
    (splitValue_dashed hG hd), long_of_holds hG hd h]
  rfl

theorem step_joined (hG : G.Proper) (hd : d ∈ G.options) (h : r.Holds g) {value : String}
    (hadd : g.add d value = .ok g') :
    r.step G ("--" ++ d.name ++ "=" ++ value) = .ok ⟨g', none, false⟩ := by
  have hcs : ("--" ++ d.name ++ "=" ++ value).toList =
      '-' :: '-' :: (d.name.toList ++ '=' :: value.toList) := by
    simp only [String.toList_append, List.append_assoc]
    rfl
  rw [step_long h.opened hcs (by simp) (splitValue_joined hG hd value), long_of_holds hG hd h]
  exact (holds_value_iff.mpr hadd).settle

theorem step_value {value : String} (hvalue : StandsAlone value) :
    step G ⟨g, some (d, none), false⟩ value = .ok ⟨g, some (d, some value), false⟩ := by
  rcases hvalue with rfl | hhead
  · rfl
  · cases hcs : value.toList with
    | nil => simp only [step, hcs]; rfl
    | cons c cs =>
      have hc : c ≠ '-' := by simpa [hcs] using hhead
      simp only [step, hcs]
      split
      · contradiction
      · split <;> first | rfl | simp_all

theorem long_eq_ok {name : String} {value : Option String} (h : r.long G name value = .ok r')
    (hopened : r.closed = false) :
    ∃ d ∈ G.options, d.name = name ∧ ∃ g, r.Holds g ∧
      (value = none ∧ r' = ⟨g, some (d, none), false⟩ ∨
        ∃ v g', value = some v ∧ g.add d v = .ok g' ∧ r' = ⟨g', none, false⟩) := by
  unfold long at h
  cases hfind : G.options.find? (fun d => d.name == name) with
  | none =>
    -- Help and the version are not read on either.
    rw [hfind] at h
    simp only at h
    split at h
    · contradiction
    · contradiction
    · exact absurd h (interrupt_ne_ok _)
  | some d =>
    rw [hfind] at h
    have hname : d.name = name := by simpa using List.find?_some hfind
    obtain ⟨m, hsettle, hrest⟩ := except_bind_eq_ok_iff.mp h
    obtain ⟨hholds, hm⟩ := exists_holds_of_settle hopened hsettle
    refine ⟨d, List.mem_of_find?_eq_some hfind, hname, m.given, hholds, ?_⟩
    rw [hm] at hrest
    cases value with
    | none => exact Or.inl ⟨rfl, (Except.ok.inj hrest).symm⟩
    | some v =>
      obtain ⟨hsettled, hr'⟩ :=
        exists_holds_of_settle (r := ⟨m.given, some (d, some v), false⟩) rfl hrest
      exact Or.inr ⟨v, r'.given, rfl, holds_value_iff.mp hsettled, hr'⟩

/-- An argument that is not refused ends the options, names an option, gives a value along with
the name, or is the value that an option waits for. -/
theorem step_cases (hopened : r.closed = false) {argument : String}
    (h : r.step G argument = .ok r') :
    argument = "--" ∧ r' = { r with closed := true } ∨
    (∃ d ∈ G.options, ∃ g, r.Holds g ∧
      (argument = "--" ++ d.name ∧ r' = ⟨g, some (d, none), false⟩ ∨
        ∃ value g', argument = "--" ++ d.name ++ "=" ++ value ∧ g.add d value = .ok g' ∧
          r' = ⟨g', none, false⟩)) ∨
    StandsAlone argument ∧ ∃ d, r.pending = some (d, none) ∧
      r' = ⟨r.given, some (d, some argument), false⟩ := by
  simp only [step, hopened, Bool.false_eq_true, if_false] at h
  split at h
  next hcs => exact Or.inl ⟨String.toList_inj.mp hcs, (Except.ok.inj h).symm⟩
  next cs _ hcs =>
    obtain ⟨d, hd, hname, g, hholds, hr'⟩ := long_eq_ok h hopened
    have hparts := eq_of_splitValue cs
    refine Or.inr (Or.inl ⟨d, hd, g, hholds, ?_⟩)
    rw [← hname] at hparts
    rcases hr' with ⟨hnone, hr'⟩ | ⟨v, g', hsome, hadd, hr'⟩
    · refine Or.inl ⟨String.toList_inj.mp ?_, hr'⟩
      rw [hcs, hparts, hnone, String.toList_append]
      simp
    · refine Or.inr ⟨v, g', String.toList_inj.mp ?_, hadd, hr'⟩
      rw [hcs, hparts, hsome, String.toList_append, String.toList_append, String.toList_append]
      simp
  next letter rest _ _ hcs =>
    -- An argument with one hyphen is never read over.
    exfalso
    unfold short at h
    split at h
    · exact interrupt_ne_ok _ h
    · split at h
      · exact interrupt_ne_ok _ h
      · contradiction
  next hclosed hlong hshort =>
    split at h
    next d hpending =>
      refine Or.inr (Or.inr ⟨?_, d, hpending, (Except.ok.inj h).symm⟩)
      by_contra halone
      obtain ⟨hne, hhead⟩ := not_or.mp halone
      cases hcs : argument.toList with
      | nil => simp [hcs] at hhead
      | cons c cs =>
        obtain rfl : c = '-' := by simpa [hcs] using hhead
        cases cs with
        | nil => exact hne (String.toList_inj.mp hcs)
        | cons letter rest => exact hshort letter rest hcs
    next => contradiction

/-- Arguments are read to their end. -/
def readOn (G : Grammar) (r : ArgumentReader) (arguments : List String) :
    Except Interruption Given := do
  return (← (← arguments.foldlM (step G) r).settle).given

theorem readOn_nil_eq_ok_iff : readOn G r [] = .ok g ↔ ∃ m, r.settle = .ok m ∧ m.given = g := by
  show r.settle >>= (fun m => Except.ok m.given) = .ok g ↔ _
  simp only [except_bind_eq_ok_iff, Except.ok.injEq]

theorem readOn_cons_eq_ok_iff {argument : String} {arguments : List String} :
    readOn G r (argument :: arguments) = .ok g ↔
      ∃ m, r.step G argument = .ok m ∧ readOn G m arguments = .ok g := by
  unfold readOn
  rw [List.foldlM_cons, bind_assoc]
  exact except_bind_eq_ok_iff

/-- Once the options have ended, nothing is read but the end. -/
theorem readOn_closed_eq_ok_iff {pending : Option (OptionDecl × Option String)}
    {arguments : List String} : readOn G ⟨g, pending, true⟩ arguments = .ok g' ↔
      arguments = [] ∧ readOn G ⟨g, pending, false⟩ [] = .ok g' := by
  cases arguments with
  | nil =>
    have hsettle : settle ⟨g, pending, true⟩ =
        (settle ⟨g, pending, false⟩).map fun m => { m with closed := true } := by
      rcases pending with _ | ⟨d, _ | value⟩
      · rfl
      · rfl
      · cases h : g.add d value <;> simp only [settle, h] <;> rfl
    simp only [readOn_nil_eq_ok_iff, hsettle, true_and]
    cases settle ⟨g, pending, false⟩ <;> simp [Except.map]
  | cons argument arguments =>
    refine iff_of_false ?_ nofun
    intro h
    obtain ⟨m, hstep, -⟩ := readOn_cons_eq_ok_iff.mp h
    contradiction

theorem Holds.readOn_nil (h : r.Holds g) : readOn G r [] = .ok g :=
  readOn_nil_eq_ok_iff.mpr ⟨_, h.settle, rfl⟩

/-- What arguments state is added to what a reader holds. -/
theorem readOn_of_states (hG : G.Proper) {arguments : List String}
    {uses : List (OptionDecl × String)} (h : G.States arguments uses) (hr : r.Holds g)
    (hadd : g.addAll uses = .ok g') : readOn G r arguments = .ok g' := by
  induction h generalizing r g with
  | nothing =>
    obtain rfl := Except.ok.inj hadd
    exact hr.readOn_nil
  | closed =>
    obtain rfl := Except.ok.inj hadd
    obtain ⟨given, pending, closed⟩ := r
    obtain rfl : closed = false := hr.opened
    exact readOn_cons_eq_ok_iff.mpr ⟨_, rfl, readOn_closed_eq_ok_iff.mpr ⟨rfl, hr.readOn_nil⟩⟩
  | apart hd hvalue _ ih =>
    obtain ⟨m, hm, hrest⟩ := Given.addAll_cons_eq_ok_iff.mp hadd
    exact readOn_cons_eq_ok_iff.mpr ⟨_, step_name hG hd hr, readOn_cons_eq_ok_iff.mpr
      ⟨_, step_value hvalue, ih (holds_value_iff.mpr hm) hrest⟩⟩
  | joined value hd _ ih =>
    obtain ⟨m, hm, hrest⟩ := Given.addAll_cons_eq_ok_iff.mp hadd
    exact readOn_cons_eq_ok_iff.mpr ⟨_, step_joined hG hd hr hm, ih (holds_settled m) hrest⟩

/-- Arguments that are read to their end state options: those behind an option that waits for its
value state it together with the name, the others add to what the reader holds. -/
theorem exists_states (arguments : List String) :
    (∀ g d, d ∈ G.options → readOn G ⟨g, some (d, none), false⟩ arguments = .ok g' →
      ∃ uses, G.States (("--" ++ d.name) :: arguments) uses ∧ g.addAll uses = .ok g') ∧
    ∀ r : ArgumentReader, r.closed = false → (∀ d, r.pending ≠ some (d, none)) →
      readOn G r arguments = .ok g' →
        ∃ g uses, r.Holds g ∧ G.States arguments uses ∧ g.addAll uses = .ok g' := by
  induction arguments with
  | nil =>
    constructor
    · intro g d _ h
      obtain ⟨m, hsettle, -⟩ := readOn_nil_eq_ok_iff.mp h
      contradiction
    · intro r hopened _ h
      obtain ⟨m, hsettle, rfl⟩ := readOn_nil_eq_ok_iff.mp h
      exact ⟨m.given, [], (exists_holds_of_settle hopened hsettle).1, .nothing, rfl⟩
  | cons argument arguments ih =>
    obtain ⟨ihwaits, ihopen⟩ := ih
    constructor
    · intro g d hd h
      obtain ⟨m, hstep, hrest⟩ := readOn_cons_eq_ok_iff.mp h
      rcases step_cases rfl hstep with ⟨-, rfl⟩ | ⟨_, -, _, hholds, -⟩ | ⟨halone, d', hd', rfl⟩
      · obtain ⟨-, hend⟩ := readOn_closed_eq_ok_iff.mp hrest
        obtain ⟨m, hsettle, -⟩ := readOn_nil_eq_ok_iff.mp hend
        contradiction
      · exact absurd hholds.settle nofun
      · obtain rfl : d = d' := congrArg Prod.fst (Option.some.inj hd')
        obtain ⟨m, uses, hholds, hstates, hadd⟩ := ihopen _ rfl (by simp) hrest
        exact ⟨(d, argument) :: uses, .apart hd halone hstates,
          Given.addAll_cons_eq_ok_iff.mpr ⟨m, holds_value_iff.mp hholds, hadd⟩⟩
    · intro r hopened hpending h
      obtain ⟨m, hstep, hrest⟩ := readOn_cons_eq_ok_iff.mp h
      rcases step_cases hopened hstep with ⟨rfl, rfl⟩ | ⟨d, hd, g, hholds, hnamed⟩ |
        ⟨-, d, hwaits, -⟩
      · obtain ⟨rfl, hend⟩ := readOn_closed_eq_ok_iff.mp hrest
        obtain ⟨m, hsettle, hm⟩ := readOn_nil_eq_ok_iff.mp hend
        rw [← hopened] at hsettle
        exact ⟨m.given, [], (exists_holds_of_settle hopened hsettle).1, .closed, hm ▸ rfl⟩
      · rcases hnamed with ⟨rfl, rfl⟩ | ⟨value, g₁, rfl, hadd, rfl⟩
        · obtain ⟨uses, hstates, hadd⟩ := ihwaits g d hd hrest
          exact ⟨g, uses, hholds, hstates, hadd⟩
        · obtain ⟨m, uses, hsettled, hstates, hrest⟩ := ihopen _ rfl (by simp) hrest
          obtain rfl : g₁ = m := congrArg given (Except.ok.inj hsettled.settle)
          exact ⟨g, (d, value) :: uses, hholds, .joined value hd hstates,
            Given.addAll_cons_eq_ok_iff.mpr ⟨g₁, hadd, hrest⟩⟩
      · exact absurd hwaits (hpending d)

/-- Arguments are read to their end if they state options whose values can be added one after
another, and only then. -/
theorem readOn_start_eq_ok_iff (hG : G.Proper) {arguments : List String} :
    readOn G .start arguments = .ok g ↔
      ∃ uses, G.States arguments uses ∧ Given.none.addAll uses = .ok g := by
  constructor
  · intro h
    obtain ⟨m, uses, hholds, hstates, hadd⟩ := (exists_states arguments).2 .start rfl nofun h
    obtain rfl : Given.none = m := congrArg given (Except.ok.inj hholds.settle)
    exact ⟨uses, hstates, hadd⟩
  · rintro ⟨uses, hstates, hadd⟩
    exact readOn_of_states hG hstates (holds_settled .none) hadd

end ArgumentReader

end ActionPolicy
