import ActionPolicy.Dispatcher
import ActionPolicy.Proofs.Engine.Operations
import ActionPolicy.Proofs.Resolve.StableOrder

/-!
# What is offered can be taken

The rules decide whether the entity of an action is known, the cache gives decisions back that it
has held as JSON, and a dispatcher checks once more what an action carries. They agree: an action
that a decision offers is taken by its handler, if it has one and a comment is not missing.

## Main definitions

* `Engine.Keeps` – an engine in use, in which the decision for a context and a table was the last
  that was stored under a key.
* `GivenFor` – a decision that is resolved for a context and a table, or found for them.
* `Dispatcher.Fits` – handlers ask for those entities only that the templates of a table declare.

## Main statements

* `GivenFor.eq_resolve` – however it is given, it is the decision that the rules make.
* `PriorityTable.permitted_resolve` – the first action with the code of an action is that action.
* `PriorityTable.exists_spec_of_mem_actions` – an action has the entity that its template declares,
  with the identifier that the context has.
* `Dispatcher.dispatchFrom_eq` – what becomes of an action that is offered.
* `Dispatcher.dispatchFrom_offered` – it is permitted, and its handler has what it needs.
-/

namespace ActionPolicy

/-! ### Decisions for a context and a table -/

namespace Engine

/-- An engine that has not been used. It may hold its decisions as JSON. -/
inductive New (p : PriorityTable) : Engine → Prop where
  | created (config : CacheConfig) (timer : Bool) : New p (.create config p timer)
  | around (config : CacheConfig) {codec : Option (Codec Decision)}
      (form : codec = none ∨ codec = some .decisions) : New p (.ofCache (.new config codec) p)

namespace New

variable {p : PriorityTable} {e : Engine}

theorem resolver (h : e.New p) : e.resolver = p := by
  cases h <;> rfl

theorem cache (h : e.New p) : ∃ config codec, e.cache = .new config codec ∧
    (codec = none ∨ codec = some .decisions) := by
  cases h with
  | created config timer =>
    refine ⟨config, codecFor config, SweptCache.cache_startSweeper _ timer, ?_⟩
    unfold codecFor
    split
    · exact Or.inr rfl
    · exact Or.inl rfl
  | around config form => exact ⟨config, _, rfl, form⟩

end New

/-- The engine has been in use since it was new. What was stored last under the key, if it agrees
with the wanted version, is the decision for the context and the table. -/
inductive Keeps (p : PriorityTable) (ctx : Context) (table : RuleTable) (k : CacheKey)
    (wanted : Option String) : Engine → Prop where
  | inUse {e : Engine} (new : e.New p) (interval : Duration) (first : Except TableError RuleTable)
      (ops : List EngineOp)
      (stored : ∀ d : Deposit Decision,
        d.LastUnder k ((WatchedEngine.start e interval first).deposits ops) →
          Cache.conflicting wanted d.version = false → d.value = p.resolve ctx table) :
      Keeps p ctx table k wanted ((WatchedEngine.start e interval first).after ops).engine

namespace Keeps

variable {p : PriorityTable} {ctx : Context} {table : RuleTable} {k : CacheKey}
  {wanted : Option String} {e : Engine}

theorem resolver (h : e.Keeps p ctx table k wanted) : e.resolver = p := by
  cases h with
  | inUse new interval first ops => exact (WatchedEngine.resolver_after _ ops).trans new.resolver

theorem of_first_call (new : e.New p) (interval : Duration) (first : Except TableError RuleTable)
    (now : Instant) (ttl : Option Duration) (version : Option String) (micros : Nat) :
    Keeps p ctx table k wanted ((WatchedEngine.start e interval first).after
      [.resolveCached now k ctx table ttl version micros]).engine := by
  refine .inUse new interval first _ fun d hlast _ => ?_
  have hmem := hlast.mem
  rw [WatchedEngine.deposits, WatchedEngine.deposits, List.append_nil, EngineOp.event,
    WatchedEngine.deposit?_call, Option.mem_toList] at hmem
  have hstored := Cache.stored?_of_deposit? hmem
  have hvalue : e.resolver.resolve ctx table = d.value :=
    (Prod.mk.inj (Option.some.inj hstored)).2
  rw [← hvalue, new.resolver]

/-- What is found is the decision for the context and the table. -/
theorem get (h : e.Keeps p ctx table k wanted) {now : Instant} {decision : Decision}
    (hfound : (e.cache.get now k wanted).2 = some decision) : decision = p.resolve ctx table := by
  cases h with
  | @inUse e new interval first ops stored =>
    obtain ⟨config, codec, hcache, hform⟩ := new.cache
    have hstart : (WatchedEngine.start e interval first).engine.cache = .new config codec := hcache
    have hgains := (WatchedEngine.start e interval first).gains_after ops
    rw [hstart] at hgains
    -- The cache was empty, so what is found has been stored since, and stored last.
    obtain ⟨d, hlast, hagrees, hrestores⟩ := hgains.exists_of_get rfl hfound
    have hlossless : ∀ c, codec = some c → c.Lossless := by
      intro c hc
      rcases hform with rfl | rfl
      · contradiction
      · exact Option.some.inj hc ▸ Codec.decisions_lossless
    rw [hrestores.eq_of_lossless hlossless, stored d hlast hagrees]

theorem resolveCached (h : e.Keeps p ctx table k wanted) (now : Instant) (ttl : Option Duration)
    (micros : Nat) :
    (e.resolveCached now k ctx table ttl wanted micros).2.1 = p.resolve ctx table := by
  simp only [Engine.resolveCached, resolveWith, Cache.getOrInsert, h.resolver]
  cases hget : e.cache.get now k wanted with
  | mk c found =>
    cases found with
    | none => rfl
    | some decision => exact h.get (congrArg Prod.snd hget)

end Keeps

end Engine

/-- A decision that is given for a context and a table. -/
inductive GivenFor (p : PriorityTable) (ctx : Context) (table : RuleTable) : Decision → Prop where
  | resolved : GivenFor p ctx table (p.resolve ctx table)
  | found {e : Engine} {k : CacheKey} {wanted : Option String} {now : Instant} {decision : Decision}
      (keeps : e.Keeps p ctx table k wanted)
      (get : (e.cache.get now k wanted).2 = some decision) : GivenFor p ctx table decision
  /-- An engine is called with the context and the table. -/
  | answered {e : Engine} {k : CacheKey} {version : Option String}
      (keeps : e.Keeps p ctx table k version) (now : Instant) (ttl : Option Duration)
      (micros : Nat) :
      GivenFor p ctx table (e.resolveCached now k ctx table ttl version micros).2.1

theorem GivenFor.eq_resolve {p : PriorityTable} {ctx : Context} {table : RuleTable}
    {decision : Decision} (h : GivenFor p ctx table decision) :
    decision = p.resolve ctx table := by
  cases h with
  | resolved => rfl
  | found keeps get => exact keeps.get get
  | answered keeps now ttl micros => exact keeps.resolveCached now ttl micros

/-! ### Actions that are offered -/

theorem Decision.mem_actions_iff {decision : Decision} {a : ActionItem} :
    a ∈ decision.actions ↔ .action a ∈ decision.items := by
  rw [actions, List.mem_filterMap]
  constructor
  · rintro ⟨item, hitem, ha⟩
    cases item with
    | action b =>
      obtain rfl : b = a := Option.some.inj ha
      exact hitem
    | fieldPermission b => contradiction
  · exact fun h => ⟨_, h, rfl⟩

theorem Dispatcher.permitted_of_nodup {decision : Decision}
    (hcodes : (decision.items.map DecisionItem.code).Nodup) {a : ActionItem}
    (ha : a ∈ decision.actions) : permitted decision a.code = .ok a := by
  -- Some action with the code is found first, and no other item has the code.
  have hsome : (decision.actions.find? fun b => b.code == a.code).isSome :=
    List.find?_isSome.mpr ⟨a, ha, beq_self_eq_true a.code⟩
  obtain ⟨b, hb⟩ := Option.isSome_iff_exists.mp hsome
  have hcode : b.code = a.code := by simpa using List.find?_some hb
  have hsame : DecisionItem.action b = .action a :=
    List.inj_on_of_nodup_map hcodes (Decision.mem_actions_iff.mp (List.mem_of_find?_eq_some hb))
      (Decision.mem_actions_iff.mp ha) hcode
  rw [permitted, hb, DecisionItem.action.inj hsame]

namespace PriorityTable

variable (p : PriorityTable) (ctx : Context) (table : RuleTable)

theorem permitted_resolve {a : ActionItem} (ha : a ∈ (p.resolve ctx table).actions) :
    Dispatcher.permitted (p.resolve ctx table) a.code = .ok a :=
  Dispatcher.permitted_of_nodup (p.nodup_codes_items ctx table) ha

/-- An action comes from a template with its code. It has the entity that the template declares,
with the identifier that the context has. -/
theorem exists_spec_of_mem_actions {a : ActionItem} (ha : a ∈ (p.resolve ctx table).actions) :
    ∃ t ∈ table.templates, ∃ spec, t.code = a.code ∧ t.payload = .action spec ∧
      ∀ kind, spec.target = some kind →
        ∃ id, a.target = some ⟨kind, id⟩ ∧ ctx.idOf kind = some id ∧ id ≠ "" := by
  obtain ⟨t, ht, -, hyields⟩ := (p.mem_items_iff ctx table).mp (Decision.mem_actions_iff.mp ha)
  cases hyields with
  | untargeted hpayload hnone =>
    refine ⟨t, ht, _, rfl, hpayload, fun kind hkind => ?_⟩
    rw [hnone] at hkind
    contradiction
  | targeted hpayload htarget hid hne =>
    refine ⟨t, ht, _, rfl, hpayload, fun kind hkind => ?_⟩
    obtain rfl := Option.some.inj (htarget.symm.trans hkind)
    exact ⟨_, rfl, hid, hne⟩

end PriorityTable

/-! ### Dispatch -/

namespace Dispatcher

/-- A handler that needs an entity is registered for a code whose template, if the table has one, is
an action that declares that kind of entity. -/
def Fits (d : Dispatcher) (table : RuleTable) : Prop :=
  ∀ code h kind, d.get? code = some h → h.requires = some kind →
    ∀ t ∈ table.templates, t.code = code →
      ∃ spec, t.payload = .action spec ∧ spec.target = some kind

variable {d : Dispatcher} {table : RuleTable} {p : PriorityTable} {ctx : Context}

/-- If the handler of an action has the entity that it needs, nothing but a comment can be
missing. -/
theorem accept_eq {item : ActionItem}
    (htarget : ∀ h kind, d.get? item.code = some h → h.requires = some kind →
      item.hasTarget kind = true) (request : ActionRequest) :
    d.accept item request = match d.get? item.code with
      | none => .error (.unknownAction item.code)
      | some h =>
        if item.requireComment && !request.hasComment then .error (.missingComment item.code)
        else .ok h := by
  unfold accept
  cases hget : d.get? item.code with
  | none => rfl
  | some h =>
    have hfound : (h.requires.filter fun kind => !item.hasTarget kind) = none := by
      rw [Option.filter_eq_none_iff]
      intro kind hkind
      simp [htarget h kind hget hkind]
    simp only [hfound]

theorem Fits.exists_target (hfits : d.Fits table) {a : ActionItem}
    (ha : a ∈ (p.resolve ctx table).actions) {h : Handler} {kind : Target}
    (hget : d.get? a.code = some h) (hkind : h.requires = some kind) :
    ∃ id, a.target = some ⟨kind, id⟩ ∧ ctx.idOf kind = some id ∧ id ≠ "" := by
  obtain ⟨t, ht, spec, hcode, hpayload, htarget⟩ := p.exists_spec_of_mem_actions ctx table ha
  -- The template is the only one with the code, so it is the one that the handler fits.
  obtain ⟨spec', hpayload', hdeclares⟩ := hfits a.code h kind hget hkind t ht hcode
  obtain rfl := Payload.action.inj (hpayload.symm.trans hpayload')
  exact htarget kind hdeclares

/-- An action that a decision offers is given to its handler, unless there is none or a comment is
missing. -/
theorem dispatchFrom_eq (hfits : d.Fits table) {decision : Decision}
    (hgiven : GivenFor p ctx table decision) {a : ActionItem} (ha : a ∈ decision.actions)
    (request : ActionRequest) :
    d.dispatchFrom decision a.code request = match d.get? a.code with
      | none => .error (.unknownAction a.code)
      | some h =>
        if a.requireComment && !request.hasComment then .error (.missingComment a.code)
        else (h.handle a request).mapError (.handlerFailed a.code) := by
  obtain rfl := hgiven.eq_resolve
  have htarget : ∀ h kind, d.get? a.code = some h → h.requires = some kind →
      a.hasTarget kind = true := by
    intro h kind hget hkind
    obtain ⟨id, hid, -, hne⟩ := hfits.exists_target ha hget hkind
    simp [ActionItem.hasTarget, hid, hne]
  rw [dispatchFrom, p.permitted_resolve ctx table ha]
  change d.dispatch a request = _
  rw [dispatch, accept_eq htarget request]
  cases d.get? a.code with
  | none => rfl
  | some h =>
    dsimp only
    split <;> rfl

theorem error_of_dispatchFrom (hfits : d.Fits table) {decision : Decision}
    (hgiven : GivenFor p ctx table decision) {a : ActionItem} (ha : a ∈ decision.actions)
    {request : ActionRequest} {e : DispatchError}
    (herror : d.dispatchFrom decision a.code request = .error e) :
    e = .unknownAction a.code ∨ e = .missingComment a.code ∨
      ∃ reason, e = .handlerFailed a.code reason := by
  rw [dispatchFrom_eq hfits hgiven ha request] at herror
  split at herror
  · exact Or.inl (Except.error.inj herror).symm
  · rename_i h _
    split at herror
    · exact Or.inr (Or.inl (Except.error.inj herror).symm)
    · cases hhandled : h.handle a request with
      | ok outcome =>
        rw [hhandled] at herror
        contradiction
      | error reason =>
        rw [hhandled] at herror
        exact Or.inr (Or.inr ⟨reason, (Except.error.inj herror).symm⟩)

/-- Whatever a decision offers can be taken. It is permitted, and no entity is missing. A handler
that is registered is given the action, if it has the comment that it needs, and the entity that the
handler needs is the one of the context. -/
theorem dispatchFrom_offered (hfits : d.Fits table) {decision : Decision}
    (hgiven : GivenFor p ctx table decision) {a : ActionItem} (ha : a ∈ decision.actions)
    (request : ActionRequest) :
    (∀ code, d.dispatchFrom decision a.code request ≠ .error (.notPermitted code)) ∧
      (∀ code kind,
        d.dispatchFrom decision a.code request ≠ .error (.unresolvedReference code kind)) ∧
      ∀ h, d.get? a.code = some h → (a.requireComment = true → request.hasComment = true) →
        d.dispatchFrom decision a.code request =
            (h.handle a request).mapError (.handlerFailed a.code) ∧
          ∀ kind, h.requires = some kind →
            ∃ id, a.target = some ⟨kind, id⟩ ∧ ctx.idOf kind = some id ∧ id ≠ "" := by
  refine ⟨fun code herror => ?_, fun code kind herror => ?_, fun h hget hcomment => ⟨?_, ?_⟩⟩
  · rcases error_of_dispatchFrom hfits hgiven ha herror with he | he | ⟨reason, he⟩ <;> contradiction
  · rcases error_of_dispatchFrom hfits hgiven ha herror with he | he | ⟨reason, he⟩ <;> contradiction
  · have hgranted : (a.requireComment && !request.hasComment) = false := by simpa using hcomment
    rw [dispatchFrom_eq hfits hgiven ha request, hget]
    simp only [hgranted, Bool.false_eq_true, if_false]
  · intro kind hkind
    obtain rfl := hgiven.eq_resolve
    exact hfits.exists_target ha hget hkind

/-- A pending task may be approved, with a comment. -/
def approvalTable : RuleTable :=
  ⟨"1", [Profile.offer "approve" (Profile.inStatus ["PENDING"])
    { ActionSpec.ofLabel "Approve" with target := some .task, requireComment := true }], by decide⟩

def pendingT1 : Context := { Context.ofStatus "PENDING" with taskId := some "T1" }

def approveT1 : ActionItem :=
  ActionSpec.on { ActionSpec.ofLabel "Approve" with target := some .task, requireComment := true }
    "approve" 1 (some ⟨.task, "T1"⟩)

/-- The handler of approvals needs a task. -/
def approvals : Dispatcher :=
  empty.register "approve" ⟨some .task, fun item _ => .ok ⟨item.code, item.target, none⟩⟩

/-- An engine that holds JSON has been called for the actions of the task. -/
def approvalEngine : Engine :=
  ((WatchedEngine.start (.create { CacheConfig.usual with compress := true } .desktop true) ⟨1⟩
    (.ok approvalTable)).after
      [.resolveCached .epoch (.buttons "T1") pendingT1 approvalTable none none 0]).engine

def approvalCall : Engine × Decision × Bool :=
  approvalEngine.resolveCached .epoch (.buttons "T1") pendingT1 approvalTable none none 0

def approval : ActionRequest := { ActionRequest.empty with comment := some "in order" }

theorem dispatchFrom_offered_approveT1 :
    approvals.Fits approvalTable ∧ GivenFor .desktop pendingT1 approvalTable approvalCall.2.1 ∧
      approveT1 ∈ approvalCall.2.1.actions ∧
      (∀ code,
        approvals.dispatchFrom approvalCall.2.1 "approve" approval ≠ .error (.notPermitted code)) ∧
      (∀ code kind, approvals.dispatchFrom approvalCall.2.1 "approve" approval ≠
        .error (.unresolvedReference code kind)) ∧
      ∀ h, approvals.get? "approve" = some h →
        (approveT1.requireComment = true → approval.hasComment = true) →
          approvals.dispatchFrom approvalCall.2.1 "approve" approval =
              (h.handle approveT1 approval).mapError (.handlerFailed "approve") ∧
            ∀ kind, h.requires = some kind → ∃ id, approveT1.target = some ⟨kind, id⟩ ∧
              pendingT1.idOf kind = some id ∧ id ≠ "" := by
  have hfits : approvals.Fits approvalTable := by
    intro code h kind hget hkind t ht hcode
    obtain rfl := List.mem_singleton.mp ht
    obtain rfl : "approve" = code := hcode
    obtain rfl := Option.some.inj hget
    obtain rfl := Option.some.inj hkind
    exact ⟨_, rfl, rfl⟩
  have hgiven : GivenFor .desktop pendingT1 approvalTable approvalCall.2.1 :=
    .answered (.of_first_call (.created _ true) ⟨1⟩ (.ok approvalTable) .epoch none none 0)
      .epoch none 0
  have hoffered : approveT1 ∈ approvalCall.2.1.actions := by
    rw [hgiven.eq_resolve]
    decide +kernel
  exact ⟨hfits, hgiven, hoffered, dispatchFrom_offered hfits hgiven hoffered approval⟩

end Dispatcher

end ActionPolicy
