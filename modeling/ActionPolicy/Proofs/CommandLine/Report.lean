import ActionPolicy.CommandLine.Invocation
import ActionPolicy.Proofs.CommandLine.Given
import ActionPolicy.Proofs.Document.Decisions
import ActionPolicy.Proofs.Engine.Transparency
import ActionPolicy.Proofs.RuleTable.Composition

/-!
# What the program prints

The program asks an engine that holds nothing yet. So it prints the decision that its resolver makes
from the context and the table, and what it is told about its cache and its log leaves no trace in
that.

## Main definitions

* `Invocation.SaidBy` – the context and the table that are asked for.
* `Invocation.idleOptions` – the options about the cache and the log.
* `Report.ofTable` – the report on a table without any cache.

## Main statements

* `Engine.resolveCached_create` – a new engine resolves.
* `Invocation.exists_read_iff`, `Invocation.saidBy_ofGiven` – which arguments are accepted, and what
  is asked for then.
* `Invocation.SaidBy.unique` – what is said determines what is asked for.
* `report_of_read`, `report_uncached` – what is printed.
-/

namespace ActionPolicy

/-- A new engine holds nothing, so it resolves, whatever its settings. -/
theorem Engine.resolveCached_create (config : CacheConfig) (resolver : PriorityTable)
    (timer : Bool) (now : Instant) (k : CacheKey) (ctx : Context) (table : RuleTable)
    (ttl : Option Duration) (version : Option String) (micros : Nat) :
    ((create config resolver timer).resolveCached now k ctx table ttl version micros).2 =
      (resolver.resolve ctx table, true) := by
  have hcache : (create config resolver timer).cache = Cache.new config (codecFor config) :=
    SweptCache.cache_startSweeper _ timer
  rw [resolveCached, resolveWith, hcache]
  -- Nothing is found in an empty store, under whatever key and version.
  rfl

/-- A name is that of the member that is found for it. -/
theorem Named.exists_ofName? {α : Type} [Named α] {value : String} (h : value ∈ names α) :
    ∃ a : α, ofName? value = some a ∧ name a = value := by
  obtain ⟨a, ha, rfl⟩ := List.mem_map.mp h
  cases hfind : (ofName? (name a) : Option α) with
  | none => exact absurd (beq_self_eq_true _) (List.find?_eq_none.mp hfind a ha)
  | some b => exact ⟨b, rfl, by simpa using List.find?_some hfind⟩

theorem Profile.name_injective {p p' : Profile} (h : Named.name p = Named.name p') : p = p' := by
  have hread : (Named.ofName? (Named.name p) : Option Profile) = Named.ofName? (Named.name p') := by
    rw [h]
  cases p <;> cases p' <;> first | rfl | exact absurd hread (by decide)

theorem eq_of_toList_eq {α : Type} {o o' : Option α} (h : o.toList = o'.toList) : o = o' := by
  rw [← Option.head?_toList (o := o), h, Option.head?_toList]

attribute [ext] Context

namespace Invocation

/-! ### Options -/

/-- The option with the file of the table. -/
def tableOption : OptionDecl := .withVariable "table-path" "FLOWPOLICY_TABLE_PATH" .path

/-- The option with the kind of client. -/
def profileOption : OptionDecl :=
  .withVariable "profile" "FLOWPOLICY_PROFILE" (.word (Named.names Profile))

def statusOption : OptionDecl := { OptionDecl.once "status" .text with required := true }

def roleOption : OptionDecl := { OptionDecl.once "role" .text with repeats := true }

/-- The options about the cache and the log. -/
def idleOptions : List String :=
  ["log-level", "log-format", "cache-capacity", "default-ttl-secs", "sweep-interval-secs",
    "compress"]

theorem proper_grammar : grammar.Proper := ⟨by decide, by decide⟩

/-! ### What is asked for -/

theorem decide_eq (i : Invocation) (now : Instant) (table : RuleTable) :
    i.decide now table = i.settings.profile.priorities.resolve i.context table :=
  congrArg Prod.fst (Engine.resolveCached_create _ _ true now i.key i.context table none _ 0)

variable {arguments : List String} {environment environment' : String → Option String}
  {uses uses' : List (OptionDecl × String)} {i i' : Invocation}

/-- What given values make. -/
def ofGiven (g : Given) : Invocation := ⟨.ofGiven g, contextOf g⟩

theorem read_eq : read arguments environment =
    Given.read grammar arguments environment >>= fun g => .ok (ofGiven g) := rfl

/-- Arguments are accepted if they state what may be said, and only then. -/
theorem exists_read_iff : (∃ i, read arguments environment = .ok i) ↔
    ∃ uses, grammar.States arguments uses ∧ grammar.Admits environment uses := by
  simp only [read_eq, except_bind_eq_ok_iff, Given.read_eq_ok_iff proper_grammar]
  constructor
  · rintro ⟨i, g, ⟨uses, hstates, hadmits, -⟩, -⟩
    exact ⟨uses, hstates, hadmits⟩
  · rintro ⟨uses, hstates, hadmits⟩
    exact ⟨_, _, ⟨uses, hstates, hadmits, Eq.refl _⟩, Eq.refl _⟩

theorem exists_given_of_read (h : read arguments environment = .ok i) :
    ∃ g uses, grammar.States arguments uses ∧ grammar.Admits environment uses ∧
      (∀ d ∈ grammar.options, g.all d.name = d.said environment uses) ∧ i = ofGiven g := by
  rw [read_eq, except_bind_eq_ok_iff] at h
  obtain ⟨g, hg, hi⟩ := h
  obtain ⟨uses, hstates, hadmits, hgiven⟩ := (Given.read_eq_ok_iff proper_grammar).mp hg
  refine ⟨g, uses, hstates, hadmits, fun d hd => ?_, (Except.ok.inj hi).symm⟩
  rw [hgiven, Given.all_ofUses proper_grammar hd]

/-- The context and the table that are asked for: a status, what else is stated of the context, the
file and the client that are said, and the desktop client if none is. -/
structure SaidBy (environment : String → Option String) (uses : List (OptionDecl × String))
    (i : Invocation) : Prop where
  tablePath : saidFor environment uses "table-path" (some "FLOWPOLICY_TABLE_PATH") =
    i.settings.tablePath.toList
  profile : saidFor environment uses "profile" (some "FLOWPOLICY_PROFILE") =
      [Named.name i.settings.profile] ∨
    saidFor environment uses "profile" (some "FLOWPOLICY_PROFILE") = [] ∧
      i.settings.profile = .desktop
  status : statedFor "status" uses = [i.context.status]
  nodeType : statedFor "node-type" uses = i.context.nodeType.toList
  formType : statedFor "form-type" uses = i.context.formType.toList
  roles : i.context.roles =
    if statedFor "role" uses = [] then none else some (statedFor "role" uses)
  taskId : statedFor "task-id" uses = i.context.taskId.toList
  processInstanceId :
    statedFor "process-instance-id" uses = i.context.processInstanceId.toList

section Admitted

variable {g : Given} (hall : ∀ d ∈ grammar.options, g.all d.name = d.said environment uses)
  (hadmits : grammar.Admits environment uses)

include hall hadmits

/-- What is said for an option that does not repeat is one value or none. -/
theorem said_eq_toList_get? {d : OptionDecl} (hd : d ∈ grammar.options)
    (hrepeats : d.repeats = false) : d.said environment uses = (g.get? d.name).toList := by
  have hlength : (d.said environment uses).length ≤ 1 :=
    OptionDecl.length_said_le (hadmits.once d hd hrepeats)
  rw [Given.get?, hall d hd]
  cases h : d.said environment uses with
  | nil => rfl
  | cons value rest =>
    rw [h, List.length_cons] at hlength
    rw [List.eq_nil_of_length_eq_zero (by omega : rest.length = 0)]
    rfl

theorem statedFor_eq_toList_get? {d : OptionDecl} (hd : d ∈ grammar.options)
    (hrepeats : d.repeats = false) (hvariable : d.envName = none) :
    statedFor d.name uses = (g.get? d.name).toList := by
  have hsaid : d.said environment uses = statedFor d.name uses := d.said_of_envName hvariable
  rw [← hsaid, said_eq_toList_get? hall hadmits hd hrepeats]

theorem saidBy_ofGiven : (ofGiven g).SaidBy environment uses where
  tablePath := said_eq_toList_get? hall hadmits (d := tableOption) (by decide) rfl
  profile := by
    have hd : profileOption ∈ grammar.options := by decide
    have hsaid : saidFor environment uses "profile" (some "FLOWPOLICY_PROFILE") =
        (g.get? "profile").toList := said_eq_toList_get? hall hadmits hd rfl
    have hprofile : (ofGiven g).settings.profile =
        ((g.get? "profile").bind Named.ofName?).getD .desktop := rfl
    rw [hsaid, hprofile]
    cases h : g.get? "profile" with
    | none => exact Or.inr ⟨rfl, rfl⟩
    | some value =>
      have hvalue : value ∈ profileOption.said environment uses := by
        show value ∈ saidFor environment uses "profile" (some "FLOWPOLICY_PROFILE")
        rw [hsaid, h]
        exact List.mem_singleton_self value
      obtain ⟨p, hp, rfl⟩ :=
        Named.exists_ofName? (ValueKind.mem_of_check (hadmits.taken _ hd value hvalue))
      rw [Option.bind_some, hp]
      exact Or.inl rfl
  status := by
    have hd : statusOption ∈ grammar.options := by decide
    have hstated : statedFor "status" uses = (g.get? "status").toList :=
      statedFor_eq_toList_get? hall hadmits hd rfl rfl
    have hne := hadmits.complete statusOption hd rfl
    rw [statusOption.said_of_envName rfl] at hne
    have hstatus : (ofGiven g).context.status = (g.get? "status").getD "" := rfl
    rw [hstated, hstatus]
    cases h : g.get? "status" with
    | none => exact absurd (by rw [h] at hstated; exact hstated) hne
    | some value => rfl
  nodeType :=
    statedFor_eq_toList_get? hall hadmits (d := .once "node-type" .text) (by decide) rfl rfl
  formType :=
    statedFor_eq_toList_get? hall hadmits (d := .once "form-type" .text) (by decide) rfl rfl
  roles := by
    have hstated : g.all "role" = statedFor "role" uses :=
      (hall roleOption (by decide)).trans (roleOption.said_of_envName rfl)
    have hroles : (ofGiven g).context.roles =
        if (g.all "role").isEmpty then none else some (g.all "role") := rfl
    simp only [hroles, hstated, List.isEmpty_iff]
  taskId := statedFor_eq_toList_get? hall hadmits (d := .once "task-id" .text) (by decide) rfl rfl
  processInstanceId := statedFor_eq_toList_get? hall hadmits
    (d := .once "process-instance-id" .text) (by decide) rfl rfl

end Admitted

/-- What is said apart from the cache and the log determines what is asked for. -/
theorem SaidBy.unique (h : i.SaidBy environment uses) (h' : i'.SaidBy environment' uses')
    (hsame : ∀ d ∈ grammar.options, d.name ∉ idleOptions →
      d.said environment uses = d.said environment' uses') :
    i.settings.source = i'.settings.source ∧ i.settings.profile = i'.settings.profile ∧
      i.context = i'.context := by
  -- No variable gives a value of what is stated of the context.
  have hstated : ∀ d ∈ grammar.options, d.name ∉ idleOptions → d.envName = none →
      statedFor d.name uses = statedFor d.name uses' := by
    intro d hd hidle hvariable
    have hsaid : d.said environment uses = statedFor d.name uses := d.said_of_envName hvariable
    rw [← hsaid, hsame d hd hidle, d.said_of_envName hvariable]
  have htable : i.settings.tablePath = i'.settings.tablePath := by
    refine eq_of_toList_eq ?_
    rw [← h.tablePath, ← h'.tablePath]
    exact hsame tableOption (by decide) (by decide)
  have hprofile : i.settings.profile = i'.settings.profile := by
    have hsaid : saidFor environment uses "profile" (some "FLOWPOLICY_PROFILE") =
        saidFor environment' uses' "profile" (some "FLOWPOLICY_PROFILE") :=
      hsame profileOption (by decide) (by decide)
    rcases h.profile with hname | ⟨hnil, hdesktop⟩ <;>
      rcases h'.profile with hname' | ⟨hnil', hdesktop'⟩
    · rw [hname, hname'] at hsaid
      exact Profile.name_injective (List.singleton_inj.mp hsaid)
    · rw [hname, hnil'] at hsaid
      contradiction
    · rw [hnil, hname'] at hsaid
      contradiction
    · rw [hdesktop, hdesktop']
  refine ⟨by rw [Settings.source, Settings.source, htable, hprofile], hprofile, ?_⟩
  have hstatus := hstated statusOption (by decide) (by decide) rfl
  have hnodeType := hstated (.once "node-type" .text) (by decide) (by decide) rfl
  have hformType := hstated (.once "form-type" .text) (by decide) (by decide) rfl
  have hroles : statedFor "role" uses = statedFor "role" uses' :=
    hstated roleOption (by decide) (by decide) rfl
  have htask := hstated (.once "task-id" .text) (by decide) (by decide) rfl
  have hprocess := hstated (.once "process-instance-id" .text) (by decide) (by decide) rfl
  refine Context.ext ?_ ?_ ?_ ?_ ?_ ?_
  · exact List.singleton_inj.mp (h.status.symm.trans (hstatus.trans h'.status))
  · exact eq_of_toList_eq (h.nodeType.symm.trans (hnodeType.trans h'.nodeType))
  · exact eq_of_toList_eq (h.formType.symm.trans (hformType.trans h'.formType))
  · rw [h.roles, h'.roles, hroles]
  · exact eq_of_toList_eq (h.taskId.symm.trans (htask.trans h'.taskId))
  · exact eq_of_toList_eq (h.processInstanceId.symm.trans (hprocess.trans h'.processInstanceId))

end Invocation

/-- The report on a table, if it could be loaded: the decision that the resolver makes. -/
def Report.ofTable (resolver : PriorityTable) (ctx : Context) :
    Except TableError RuleTable → Report
  | .error e => ⟨1, "", some e.message⟩
  | .ok table => .ofDecision (resolver.resolve ctx table)

theorem report_of_read {arguments : List String} {environment : String → Option String}
    {i : Invocation} (h : Invocation.read arguments environment = .ok i)
    (contentOf : String → Except FileError ByteArray) (now : Instant) :
    report arguments environment contentOf now =
      .ofTable i.settings.profile.priorities i.context (i.settings.source.load contentOf) := by
  rw [report, h]
  show (match i.settings.source.load contentOf with
    | .error e => _
    | .ok table => Report.ofDecision (i.decide now table)) = _
  cases i.settings.source.load contentOf with
  | error e => rfl
  | ok table => exact congrArg Report.ofDecision (i.decide_eq now table)

/-- Accepted are arguments that state what may be said, with any numbers of 64 bits. If the table
can be loaded, the program then ends well, and what it prints is read as the decision of the
client's resolver for the context that is stated. What is said about the cache and the log does not
matter, nor does the time. -/
theorem report_uncached (arguments : List String) (environment : String → Option String) :
    ((∃ i, Invocation.read arguments environment = .ok i) ↔
      ∃ uses, Invocation.grammar.States arguments uses ∧
        Invocation.grammar.Admits environment uses) ∧
    (∀ n ≤ ValueKind.maxNumber, ValueKind.number.check (toString n) = .ok ()) ∧
    ∀ i, Invocation.read arguments environment = .ok i →
      ∃ uses, Invocation.grammar.States arguments uses ∧ i.SaidBy environment uses ∧
        (∀ contentOf table now, i.settings.source.load contentOf = .ok table →
          ∃ text, report arguments environment contentOf now = ⟨0, text, none⟩ ∧
            Document.readJson Decision.decode text =
              .ok (i.settings.profile.priorities.resolve i.context table)) ∧
        ∀ arguments' environment' i' uses',
          Invocation.read arguments' environment' = .ok i' →
          Invocation.grammar.States arguments' uses' →
          (∀ d ∈ Invocation.grammar.options, d.name ∉ Invocation.idleOptions →
            d.said environment uses = d.said environment' uses') →
          ∀ contentOf now now', report arguments' environment' contentOf now' =
            report arguments environment contentOf now := by
  refine ⟨Invocation.exists_read_iff, fun _ => ValueKind.check_number, fun i hi => ?_⟩
  obtain ⟨g, uses, hstates, hadmits, hall, rfl⟩ := Invocation.exists_given_of_read hi
  have hsaid := Invocation.saidBy_ofGiven hall hadmits
  refine ⟨uses, hstates, hsaid, ?_, ?_⟩
  · intro contentOf table now hload
    rw [report_of_read hi, hload]
    exact ⟨_, rfl, Decision.readJson_pretty _⟩
  · intro arguments' environment' i' uses' hi' hstates' hsame contentOf now now'
    obtain ⟨g', uses₁, hstates₁, hadmits', hall', rfl⟩ := Invocation.exists_given_of_read hi'
    obtain rfl := hstates₁.unique Invocation.proper_grammar hstates'
    obtain ⟨hsource, hprofile, hcontext⟩ :=
      hsaid.unique (Invocation.saidBy_ofGiven hall' hadmits') hsame
    rw [report_of_read hi, report_of_read hi', hsource, hprofile, hcontext]

/-- A cache without room for anything, with times past the end of the calendar, and one with room
for a single decision, by a variable, that is not encoded. -/
theorem report_uncached_twoCaches :
    let endless := ["--status", "PENDING", "--role", "reviewer", "--role=reviewer",
      "--cache-capacity=0", "--default-ttl-secs", "18446744073709551615"]
    let plain := ["--role", "reviewer", "--compress=false", "--status=PENDING", "--role",
      "reviewer", "--"]
    let single := fun name => if name = "FLOWPOLICY_CACHE_CAPACITY" then some "1" else none
    let ctx := { Context.ofStatus "PENDING" with roles := some ["reviewer", "reviewer"] }
    let missing := fun _ : String => Except.error FileError.missing
    ∃ table text, Profile.desktop.table = .ok table ∧
      report endless (fun _ => none) missing .epoch = ⟨0, text, none⟩ ∧
      Document.readJson Decision.decode text =
        .ok (Profile.desktop.priorities.resolve ctx table) ∧
      report plain single missing .calendarEnd = ⟨0, text, none⟩ := by
  intro endless plain single ctx missing
  obtain ⟨table, htable, -⟩ := Profile.desktop.exists_table
  have hload : TableSource.load missing (.builtin .desktop) = .ok table := by
    rw [TableSource.load, htable]
    rfl
  let capacity : OptionDecl := .withVariable "cache-capacity" "FLOWPOLICY_CACHE_CAPACITY" .number
  let ttl : OptionDecl := .withVariable "default-ttl-secs" "FLOWPOLICY_DEFAULT_TTL_SECS" .number
  let compress : OptionDecl :=
    .withVariable "compress" "FLOWPOLICY_COMPRESS" (.word ["true", "false"])
  have hstates : Invocation.grammar.States endless
      [(Invocation.statusOption, "PENDING"), (Invocation.roleOption, "reviewer"),
        (Invocation.roleOption, "reviewer"), (capacity, "0"), (ttl, "18446744073709551615")] := by
    refine .apart (d := Invocation.statusOption) (by decide) (by decide) ?_
    refine .apart (d := Invocation.roleOption) (by decide) (by decide) ?_
    refine .joined (d := Invocation.roleOption) "reviewer" (by decide) ?_
    refine .joined (d := capacity) "0" (by decide) ?_
    exact .apart (d := ttl) (by decide) (by decide) .nothing
  have hstates' : Invocation.grammar.States plain
      [(Invocation.roleOption, "reviewer"), (compress, "false"),
        (Invocation.statusOption, "PENDING"), (Invocation.roleOption, "reviewer")] := by
    refine .apart (d := Invocation.roleOption) (by decide) (by decide) ?_
    refine .joined (d := compress) "false" (by decide) ?_
    refine .joined (d := Invocation.statusOption) "PENDING" (by decide) ?_
    exact .apart (d := Invocation.roleOption) (by decide) (by decide) .closed
  obtain ⟨-, -, hreport⟩ := report_uncached endless fun _ => none
  obtain ⟨uses, huses, -, hprints, hsame⟩ := hreport
    ⟨{ Settings.usual with cacheCapacity := 0, defaultTtlSecs := 18446744073709551615 }, ctx⟩ rfl
  obtain rfl := huses.unique Invocation.proper_grammar hstates
  obtain ⟨text, htext, hread⟩ := hprints missing table .epoch hload
  refine ⟨table, text, htable, htext, hread, ?_⟩
  rw [← htext]
  exact hsame plain single
    ⟨{ Settings.usual with cacheCapacity := 1, compress := false }, ctx⟩ _ rfl hstates'
    (by decide) missing .epoch .calendarEnd

end ActionPolicy
