import ActionPolicy.Proofs.Document.Decisions
import ActionPolicy.Proofs.Engine.Session
import ActionPolicy.RuleTable.Builtin

/-!
# Cached decisions are the resolved ones

If callers name the version of what they ask with, and a key with a version stands for one
situation and one table only, then every call is given the decision that it would be given without
a cache.

## Main definitions

* `Determined` – no key and version stand for two situations or two tables.
* `Engine.Thins` – an engine holds only what another one holds.
* `Engine.Faithful` – every entry is the decision of an inquiry with its key and version.

## Main statements

* `Engine.Faithful.thins`, `Engine.Faithful.complete` – entries stay faithful.
* `Engine.Faithful.get` – what is found is the decision asked for.
* `EngineSession.run_create_transparent` – every call of a session is given its own decision.

## Design notes

Nothing but the end of a derivation adds an entry. So all that is dropped, be it for want of room,
by age, by a sweep or by hand, comes down to one lemma, and so do the reloads of a watcher.
-/

namespace ActionPolicy

theorem Codec.decisions_lossless : decisions.Lossless := by
  intro d bytes hbytes
  obtain ⟨bytes', hencode, hdecode⟩ := decisions_decode_encode d
  have hsame : bytes' = bytes := Option.some.inj (hencode.symm.trans hbytes)
  rw [← hsame]
  exact hdecode

/-! ### What drops decisions -/

namespace Engine

/-- The second engine resolves as the first one does, and holds only what the first one holds. -/
structure Thins (e e' : Engine) : Prop where
  /-- The order of decisions is the same. -/
  resolver : e'.resolver = e.resolver
  cache : e.cache.Thins e'.cache

theorem Thins.refl (e : Engine) : e.Thins e := ⟨rfl, .refl e.cache⟩

theorem Thins.trans {e e' e'' : Engine} (h : e.Thins e') (h' : e'.Thins e'') : e.Thins e'' :=
  ⟨h'.resolver.trans h.resolver, h.cache.trans h'.cache⟩

variable (e : Engine)

theorem thins_withCache {c : Cache Decision} (h : e.cache.Thins c) : e.Thins (e.withCache c) :=
  ⟨rfl, h⟩

theorem thins_invalidate (k : CacheKey) : e.Thins (e.invalidate k).1 :=
  e.thins_withCache (e.cache.thins_delete k)

theorem thins_invalidateNamespace (ns : Namespace) : e.Thins (e.invalidateNamespace ns).1 :=
  e.thins_withCache (e.cache.thins_clearNamespace ns)

theorem thins_dropNamespaces (namespaces : List Namespace) :
    e.Thins (e.dropNamespaces namespaces) := by
  induction namespaces generalizing e with
  | nil => exact .refl e
  | cons ns rest ih => exact (e.thins_invalidateNamespace ns).trans (ih _)

theorem thins_clearTaskRelated (taskId : String) : e.Thins (e.clearTaskRelated taskId) :=
  (e.thins_invalidate (.buttons taskId)).trans (thins_dropNamespaces _ [.processInfo])

theorem thins_clearFormRelated : e.Thins e.clearFormRelated :=
  e.thins_dropNamespaces [.formConfig, .formData, .permissionConfig]

theorem thins_destroy : e.Thins e.destroy := ⟨rfl, e.cache.thins_destroy⟩

end Engine

namespace SweptCache

variable {V : Type} (s : SweptCache V)

theorem cache_startSweeper (timer : Bool) : (s.startSweeper timer).1.cache = s.cache := by
  unfold startSweeper
  split <;> rfl

theorem thins_sweepUntil (finish : Nat) (now : Instant) (fuel : Nat) :
    s.cache.Thins (sweepUntil finish now fuel s).cache := by
  induction fuel generalizing s with
  | zero => exact .refl s.cache
  | succ fuel ih =>
    unfold sweepUntil
    split
    · exact .refl s.cache
    split
    · exact .refl s.cache
    · rename_i t _ _
      exact (s.cache.thins_sweep now).trans
        (ih { s with cache := s.cache.sweep now, due := some (t + s.period) })

theorem thins_run (now : Instant) (d : Duration) : s.cache.Thins (s.run now d).cache :=
  s.thins_sweepUntil (s.elapsed + d.nanos) now (d.nanos / s.period + 1)

end SweptCache

namespace Engine

variable (e : Engine)

theorem thins_startSweeper (timer : Bool) :
    e.Thins { e with swept := (e.swept.startSweeper timer).1 } := by
  have hcache := e.swept.cache_startSweeper timer
  refine ⟨rfl, ?_⟩
  show e.swept.cache.Thins (e.swept.startSweeper timer).1.cache
  rw [hcache]
  exact .refl e.swept.cache

theorem thins_elapse (now : Instant) (d : Duration) :
    e.Thins { e with swept := e.swept.run now d } := ⟨rfl, e.swept.thins_run now d⟩

end Engine

namespace TableWatcher

theorem thins_check (w : TableWatcher) (e : Engine) (loaded : Except TableError RuleTable) :
    ∃ e', (w.check (some e) loaded).2 = some e' ∧ e.Thins e' := by
  unfold check
  split
  · exact ⟨e, rfl, .refl e⟩
  split
  · exact ⟨e, rfl, .refl e⟩
  · exact ⟨_, rfl, e.thins_dropNamespaces tableDerived⟩

theorem thins_checkUntil (w : TableWatcher) (e : Engine) (loaded : Except TableError RuleTable)
    (finish fuel : Nat) :
    ∃ e', (checkUntil finish loaded fuel w (some e)).2 = some e' ∧ e.Thins e' := by
  induction fuel generalizing w e with
  | zero => exact ⟨e, rfl, .refl e⟩
  | succ fuel ih =>
    unfold checkUntil
    split
    · exact ⟨e, rfl, .refl e⟩
    split
    · exact ⟨e, rfl, .refl e⟩
    · obtain ⟨e', he', hthins⟩ := w.thins_check e loaded
      cases hcheck : w.check (some e) loaded with
      | mk w' engine =>
        rw [hcheck] at he'
        subst he'
        obtain ⟨e'', he'', hthins'⟩ := ih _ e'
        exact ⟨e'', he'', hthins.trans hthins'⟩

theorem thins_run (w : TableWatcher) (e : Engine) (loaded : Except TableError RuleTable)
    (d : Duration) : e.Thins ((w.run (some e) loaded d).2.getD e) := by
  obtain ⟨e', he', hthins⟩ :=
    w.thins_checkUntil e loaded (w.elapsed + d.nanos) (d.nanos / w.period + 2)
  have hrun : (w.run (some e) loaded d).2 = some e' := he'
  rw [hrun, Option.getD_some]
  exact hthins

end TableWatcher

/-! ### Faithful entries -/

/-- No key and version stand for two situations or two tables. -/
def Determined (asked : List Inquiry) : Prop :=
  ∀ q ∈ asked, ∀ r ∈ asked, q.key = r.key → q.version = r.version →
    q.context = r.context ∧ q.table = r.table

theorem Determined.decision_eq {asked : List Inquiry} (h : Determined asked) {q r : Inquiry}
    (hq : q ∈ asked) (hr : r ∈ asked) (hkey : q.key = r.key) (hversion : q.version = r.version)
    (resolver : PriorityTable) : q.decision resolver = r.decision resolver := by
  obtain ⟨hcontext, htable⟩ := h q hq r hr hkey hversion
  rw [Inquiry.decision, Inquiry.decision, hcontext, htable]

namespace Engine

/-- Every entry is the decision of an inquiry with its key and version, at rest in a form that it
can be had from. -/
structure Faithful (resolver : PriorityTable) (asked : List Inquiry) (e : Engine) : Prop where
  /-- Decisions are resolved in the given order. -/
  order : e.resolver = resolver
  lossless : ∀ codec, e.cache.codec = some codec → codec.Lossless
  entries : ∀ p ∈ e.cache.store.entries, ∃ q ∈ asked, q.key = p.1 ∧ p.2.version = some q.version ∧
    e.cache.decode p.2.value = some (q.decision resolver)

variable {resolver : PriorityTable} {asked : List Inquiry} {e : Engine}

/-- A new engine holds nothing. -/
theorem faithful_create (config : CacheConfig) (resolver : PriorityTable) (timer : Bool)
    (asked : List Inquiry) : (create config resolver timer).Faithful resolver asked := by
  have hcache : (create config resolver timer).cache = Cache.new config (codecFor config) :=
    SweptCache.cache_startSweeper _ timer
  refine ⟨rfl, ?_, ?_⟩
  · intro codec hcodec
    rw [hcache] at hcodec
    have hdecisions : codec = .decisions := by
      have hsome : (if config.compress then some Codec.decisions else none) = some codec := hcodec
      split at hsome
      · exact (Option.some.inj hsome).symm
      · contradiction
    rw [hdecisions]
    exact Codec.decisions_lossless
  · intro p hp
    rw [hcache] at hp
    exact absurd hp List.not_mem_nil

/-- What drops decisions leaves the others as they are. -/
theorem Faithful.thins {e' : Engine} (h : e.Faithful resolver asked) (hthins : e.Thins e') :
    e'.Faithful resolver asked := by
  have hcodec := hthins.cache.codec
  refine ⟨hthins.resolver.trans h.order, fun codec hc => h.lossless codec (hcodec ▸ hc), ?_⟩
  intro p hp
  obtain ⟨entry, hmem, heq⟩ := hthins.cache.store p hp
  obtain ⟨q, hq, hkey, hversion, hdecode⟩ := h.entries (p.1, entry) hmem
  have hvalue : p.2.value = entry.value := by rw [heq]
  have hstamp : p.2.version = entry.version := by rw [heq]
  have hsame : e'.cache.decode p.2.value = e.cache.decode entry.value := by
    rw [hvalue]
    unfold Cache.decode
    rw [hcodec]
  exact ⟨q, hq, hkey, hstamp.trans hversion, hsame.trans hdecode⟩

/-- A derivation that ends adds the decision it was begun for. -/
theorem Faithful.complete (h : e.Faithful resolver asked) {q : Inquiry} (hq : q ∈ asked)
    (now : Instant) (ttl : Option Duration) (micros : Nat) :
    (e.complete now q.key (q.decision e.resolver) ttl (some q.version) micros).Faithful resolver
      asked := by
  refine ⟨h.order, h.lossless, fun p hp => ?_⟩
  -- An entry was there before, or it is the one of this derivation.
  rcases Cache.mem_set hp with hold | ⟨hkey, hvalue, hversion⟩
  · exact h.entries p hold
  · refine ⟨q, hq, hkey.symm, hversion, ?_⟩
    have hdecode := Cache.decode_encode h.lossless (q.decision e.resolver)
    rw [h.order] at hdecode hvalue
    rw [hvalue]
    exact hdecode

/-- What is found for an inquiry is its own decision. -/
theorem Faithful.get (h : e.Faithful resolver asked) (hdetermined : Determined asked) {q : Inquiry}
    (hq : q ∈ asked) {now : Instant} {d : Decision}
    (hget : (e.cache.get now q.key (some q.version)).2 = some d) : d = q.decision resolver := by
  obtain ⟨entry, hmem, hagree, hdecode⟩ := Cache.exists_of_get hget
  obtain ⟨r, hr, hkey, hversion, hdecision⟩ := h.entries (q.key, entry) hmem
  -- Both versions are given, so they agree only if they are equal.
  have hstamp : q.version = r.version := by
    have hversion' : entry.version = some r.version := hversion
    rw [hversion'] at hagree
    simpa [Cache.conflicting] using hagree
  have hd : d = r.decision resolver := Option.some.inj (hdecode.symm.trans hdecision)
  rw [hd, hdetermined.decision_eq hq hr hkey.symm hstamp resolver]

end Engine

namespace EngineSession

/-- The engine is faithful, and calls under way are among the inquiries. -/
structure Faithful (resolver : PriorityTable) (asked : List Inquiry) (s : EngineSession) :
    Prop where
  engine : s.engine.Faithful resolver asked
  pending : ∀ q ∈ s.pending, q ∈ asked

variable {resolver : PriorityTable} {asked : List Inquiry} {s : EngineSession}

theorem Faithful.withEngine (h : s.Faithful resolver asked) {e : Engine}
    (hthins : s.engine.Thins e) : (s.withEngine e).Faithful resolver asked :=
  ⟨h.engine.thins hthins, h.pending⟩

/-- An event that only drops decisions gives none. -/
theorem Faithful.of_thins (h : s.Faithful resolver asked) {event : EngineEvent} {e : Engine}
    (hthins : s.engine.Thins e) (hstep : s.step event = (s.withEngine e, none)) :
    (s.step event).1.Faithful resolver asked ∧
      ∀ a ∈ (s.step event).2, a.2 = a.1.decision resolver := by
  rw [hstep]
  exact ⟨h.withEngine hthins, fun a ha => absurd ha (Option.not_mem_none a)⟩

/-- A call begins: it is given its decision, or it is one more under way. -/
theorem Faithful.ask (h : s.Faithful resolver asked) (hdetermined : Determined asked)
    {q : Inquiry} (hq : q ∈ asked) (now : Instant) :
    (s.step (.ask now q)).1.Faithful resolver asked ∧
      ∀ a ∈ (s.step (.ask now q)).2, a.2 = a.1.decision resolver := by
  have hthins := s.engine.thins_withCache (s.engine.cache.thins_get now q.key (some q.version))
  cases hget : s.engine.cache.get now q.key (some q.version) with
  | mk c found =>
    rw [hget] at hthins
    cases found with
    | none =>
      simp only [step, hget]
      refine ⟨⟨h.engine.thins hthins, fun r hr => ?_⟩, fun a ha => ?_⟩
      · rcases List.mem_append.mp hr with hr | hr
        · exact h.pending r hr
        · exact List.mem_singleton.mp hr ▸ hq
      · exact absurd ha (Option.not_mem_none a)
    | some d =>
      simp only [step, hget]
      refine ⟨h.withEngine hthins, fun a ha => ?_⟩
      obtain rfl := Option.some.inj ha
      have hfound : (s.engine.cache.get now q.key (some q.version)).2 = some d := by rw [hget]
      exact h.engine.get hdetermined hq hfound

/-- A call ends: it is given the decision it has derived. -/
theorem Faithful.derived (h : s.Faithful resolver asked) (place : Nat) (now : Instant)
    (micros : Nat) :
    (s.step (.derived place now micros)).1.Faithful resolver asked ∧
      ∀ a ∈ (s.step (.derived place now micros)).2, a.2 = a.1.decision resolver := by
  cases hplace : s.pending[place]? with
  | none =>
    simp only [step, hplace]
    exact ⟨h, fun a ha => absurd ha (Option.not_mem_none a)⟩
  | some q =>
    simp only [step, hplace]
    have hq := h.pending q (List.mem_of_getElem? hplace)
    refine ⟨⟨h.engine.complete hq now q.ttl micros, fun r hr => ?_⟩, fun a ha => ?_⟩
    · exact h.pending r (List.mem_of_mem_eraseIdx hr)
    · obtain rfl := Option.some.inj ha
      rw [h.engine.order]

/-- Whatever happens, entries stay faithful, and a call is given its own decision. -/
theorem Faithful.step (h : s.Faithful resolver asked) (hdetermined : Determined asked)
    {event : EngineEvent} (hasked : ∀ q, event.inquiry? = some q → q ∈ asked) :
    (s.step event).1.Faithful resolver asked ∧
      ∀ a ∈ (s.step event).2, a.2 = a.1.decision resolver := by
  cases event with
  | call now q micros =>
    -- The call is a beginning and an end with nothing between them.
    obtain ⟨hask, hfound⟩ := h.ask hdetermined (hasked q rfl) now
    obtain ⟨hend, hderived⟩ := hask.derived s.pending.length now micros
    have hrun := s.run_ask_derived now q micros
    rw [run_cons, run_cons, run_nil] at hrun
    obtain ⟨hsession, hanswers⟩ := Prod.mk.inj hrun
    refine ⟨hsession ▸ hend, fun a ha => ?_⟩
    have hmem : a ∈ (s.step (.call now q micros)).2.toList := Option.mem_toList.mpr ha
    rw [← hanswers, List.append_nil] at hmem
    rcases List.mem_append.mp hmem with hmem | hmem
    · exact hfound a (Option.mem_toList.mp hmem)
    · exact hderived a (Option.mem_toList.mp hmem)
  | ask now q => exact h.ask hdetermined (hasked q rfl) now
  | derived place now micros => exact h.derived place now micros
  | cache now op quiet =>
    exact h.of_thins (s.engine.thins_withCache (s.engine.cache.thins_step quiet)) rfl
  | invalidate k => exact h.of_thins (s.engine.thins_invalidate k) rfl
  | invalidateNamespace ns => exact h.of_thins (s.engine.thins_invalidateNamespace ns) rfl
  | clearTaskRelated taskId => exact h.of_thins (s.engine.thins_clearTaskRelated taskId) rfl
  | clearFormRelated => exact h.of_thins s.engine.thins_clearFormRelated rfl
  | startSweeper timer => exact h.of_thins (s.engine.thins_startSweeper timer) rfl
  | elapse now d => exact h.of_thins (s.engine.thins_elapse now d) rfl
  | watch w loaded d => exact h.of_thins (w.thins_run s.engine loaded d) rfl
  | destroy => exact h.of_thins s.engine.thins_destroy rfl

/-- Over a whole session, every call is given its own decision. -/
theorem Faithful.run (h : s.Faithful resolver asked) (hdetermined : Determined asked)
    {events : List EngineEvent} (hasked : ∀ q ∈ inquiries events, q ∈ asked) :
    (s.run events).1.Faithful resolver asked ∧
      ∀ a ∈ (s.run events).2, a.2 = a.1.decision resolver := by
  induction events generalizing s with
  | nil => exact ⟨h, fun a ha => absurd ha List.not_mem_nil⟩
  | cons event events ih =>
    have hfirst : ∀ q, event.inquiry? = some q → q ∈ asked := fun q hq =>
      hasked q (List.mem_filterMap.mpr ⟨event, List.mem_cons_self, hq⟩)
    have hothers : ∀ q ∈ inquiries events, q ∈ asked := by
      intro q hq
      obtain ⟨event', hmem, hevent'⟩ := List.mem_filterMap.mp hq
      exact hasked q (List.mem_filterMap.mpr ⟨event', List.mem_cons_of_mem _ hmem, hevent'⟩)
    obtain ⟨hstep, hanswer⟩ := h.step hdetermined hfirst
    obtain ⟨hrun, hanswers⟩ := ih hstep hothers
    rw [run_cons]
    refine ⟨hrun, fun a ha => ?_⟩
    rcases List.mem_append.mp ha with ha | ha
    · exact hanswer a (Option.mem_toList.mp ha)
    · exact hanswers a ha

/-- If key and version determine what is asked, every call of a session of a new engine is given
the decision it would be given without a cache, or is still deriving it. -/
theorem run_create_transparent (config : CacheConfig) (resolver : PriorityTable) (timer : Bool)
    (events : List EngineEvent) (h : Determined (inquiries events)) :
    (((start (Engine.create config resolver timer)).run events).2.map Prod.fst ++
        ((start (Engine.create config resolver timer)).run events).1.pending).Perm
          (inquiries events) ∧
      ∀ q d, (q, d) ∈ ((start (Engine.create config resolver timer)).run events).2 →
        d = resolver.resolve q.context q.table := by
  have hstart : (start (Engine.create config resolver timer)).Faithful resolver
      (inquiries events) :=
    ⟨Engine.faithful_create config resolver timer _, fun q hq => absurd hq List.not_mem_nil⟩
  obtain ⟨-, hanswers⟩ := hstart.run h fun _ hq => hq
  exact ⟨inquiries_run _ events, fun q d hqd => hanswers (q, d) hqd⟩

/-- The actions of a task, made from a table of the given version. -/
def pendingTask (table : RuleTable) : Inquiry :=
  ⟨.buttons "T1", table.version, .ofStatus "PENDING", table, none⟩

/-- A table with one action. -/
def claimTable : RuleTable :=
  ⟨"2", [Profile.offer "claim" (Profile.inStatus ["PENDING"]) (.ofLabel "Claim")], by decide⟩

/-- A newer table is asked for while the decision of an older one is derived, and once more after
that has been stored. -/
def twoVersions : List EngineEvent :=
  [.ask .epoch (pendingTask .empty), .call .epoch (pendingTask claimTable) 0, .derived 0 .epoch 0,
    .call .epoch (pendingTask claimTable) 0]

theorem determined_twoVersions : Determined (inquiries twoVersions) := by
  have hversions : (pendingTask .empty).version ≠ (pendingTask claimTable).version := by decide
  have hall : ∀ q ∈ inquiries twoVersions, q = pendingTask .empty ∨ q = pendingTask claimTable := by
    intro q hq
    have hmem : q ∈ [pendingTask .empty, pendingTask claimTable, pendingTask claimTable] := hq
    simpa using hmem
  intro q hq r hr hkey hversion
  rcases hall q hq with rfl | rfl <;> rcases hall r hr with rfl | rfl
  · exact ⟨rfl, rfl⟩
  · exact absurd hversion hversions
  · exact absurd hversion.symm hversions
  · exact ⟨rfl, rfl⟩

/-- Neither version is given the decision of the other one. -/
theorem run_twoVersions_transparent :
    Determined (inquiries twoVersions) ∧
      (((start (Engine.create { CacheConfig.usual with compress := true } .desktop true)).run
        twoVersions).2.map Prod.fst ++
          ((start (Engine.create { CacheConfig.usual with compress := true } .desktop true)).run
            twoVersions).1.pending).Perm (inquiries twoVersions) ∧
        ∀ q d, (q, d) ∈ ((start (Engine.create { CacheConfig.usual with compress := true }
            .desktop true)).run twoVersions).2 →
          d = PriorityTable.desktop.resolve q.context q.table :=
  ⟨determined_twoVersions,
    run_create_transparent { CacheConfig.usual with compress := true } .desktop true twoVersions
      determined_twoVersions⟩

end EngineSession

end ActionPolicy
