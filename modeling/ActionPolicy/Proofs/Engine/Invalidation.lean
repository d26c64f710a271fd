import ActionPolicy.Proofs.Cache.Provenance
import ActionPolicy.Proofs.Engine.Publication
import ActionPolicy.Proofs.Engine.Transparency

/-!
# What an invalidation reaches

When a decision is dropped, or all decisions of its namespace are because a new table is published,
it is not held any more. Calls that are under way then are not told. Whatever is found later was
derived from beginning to end after that, unless such a call has ended in between.

## Main definitions

* `WatchedEngine.drops` – an event drops what is held under a key.
* `BegunIn` – a decision was derived from beginning to end within a sequence of events.
* `WatchedEvent.endsLate` – a derivation for a key ends that had begun before.

## Main statements

* `WatchedEngine.forall_ne_of_drops` – after the event nothing is held under the key.
* `WatchedEngine.holdsOnly_run` – what is held later has begun later.
* `WatchedEngine.found_begunIn` – what is found later has begun later, if no derivation ends late.
* `WatchedEngine.reload_found_outdated` – a late one is found, although it is from the old table.

## Design notes

A call that is under way has looked its decision up, and stores it when it ends. In between nothing
marks the key, so neither the removal of an entry nor the new table can reach the decision.
-/

namespace ActionPolicy

/-- The call is the end of one that began before. -/
def CacheOp.endsCall {V : Type} : CacheOp V → Bool
  | .complete _ _ _ _ _ => true
  | .abandon _ => true
  | _ => false

/-- A decision for the key is stored by a call that begins and ends within the events. -/
inductive BegunIn (k : CacheKey) (d : Decision) (events : List WatchedEvent) : Prop
  /-- The call is in one piece. -/
  | whole {call : CacheCall Decision} (mem : .use (.call call) ∈ events)
      (stored : call.op.stored? = some (k, d)) (whole : call.op.endsCall = false)
  | asked {before after : List WatchedEvent} {began ended : Instant} {id : CallId} {micros : Nat}
      {ttl : Option Duration} {version : Option String} (key : id.key = k)
      (split : events = before ++ .use (.derived ended id d micros) :: after)
      (ask : .use (.ask began id ttl version) ∈ before)

theorem BegunIn.append {k : CacheKey} {d : Decision} {events : List WatchedEvent}
    (h : BegunIn k d events) (more : List WatchedEvent) : BegunIn k d (events ++ more) := by
  cases h with
  | whole mem stored whole => exact .whole (List.mem_append_left more mem) stored whole
  | @asked before after began ended id micros ttl version key split ask =>
    exact .asked key (by rw [split, List.append_assoc, List.cons_append]) ask

/-- A derivation for the key ends with a decision: one of those that were under way, or one whose
beginning is not known. -/
def WatchedEvent.endsLate (underWay : List UnderWay) (k : CacheKey) : WatchedEvent → Bool
  | .use (.derived _ id _ _) => id.key = k && underWay.any fun u => u.id = id
  | .use (.call ⟨_, .complete k' _ _ _ _⟩) => k' = k
  | _ => false

namespace WatchedEngine

/-- The event drops what is held under the key. -/
def drops (s : WatchedEngine) (k : CacheKey) : WatchedEvent → Bool
  | .invalidate k' => k' = k
  | .invalidateNamespace ns => ns = k.ns
  | .poll loaded => (s.watcher.publishes? loaded).isSome && tableDerived.contains k.ns
  | _ => false

variable {s : WatchedEngine}

/-! ### Calls under way -/

theorem underWay_step {event : WatchedEvent} (h : ∀ used, event ≠ .use used) :
    (s.step event).underWay = s.underWay := by
  cases event with
  | use event => exact absurd rfl (h event)
  | _ => rfl

theorem asked_of_underWay {events : List WatchedEvent} {u : UnderWay}
    (hu : u ∈ (s.run events).underWay) :
    u ∈ s.underWay ∨ ∃ now, .use (.ask now u.id u.ttl u.version) ∈ events := by
  induction events generalizing s with
  | nil => exact Or.inl hu
  | cons event events ih =>
    rcases ih hu with hu | ⟨now, hask⟩
    · cases event with
      | use event =>
        rcases CacheSession.mem_underWay_step (s := s.session) hu with hu | ⟨now, rfl⟩
        · exact Or.inl hu
        · exact Or.inr ⟨now, List.mem_cons_self⟩
      | _ => exact Or.inl hu
    · exact Or.inr ⟨now, List.mem_cons_of_mem _ hask⟩

/-! ### What is held -/

/-- Only the use of the cache adds to it. -/
theorem thins_step {event : WatchedEvent} (h : ∀ used, event ≠ .use used) :
    s.engine.Thins (s.step event).engine := by
  cases event with
  | use event => exact absurd rfl (h event)
  | invalidate k => exact s.engine.thins_invalidate k
  | invalidateNamespace ns => exact s.engine.thins_invalidateNamespace ns
  | clearTaskRelated taskId => exact s.engine.thins_clearTaskRelated taskId
  | clearFormRelated => exact s.engine.thins_clearFormRelated
  | startSweeper timer => exact s.engine.thins_startSweeper timer
  | elapse now d => exact s.engine.thins_elapse now d
  | destroy => exact s.engine.thins_destroy
  | seen => exact .refl s.engine
  | poll loaded =>
    obtain ⟨e, he, hthins⟩ := s.watcher.thins_check s.engine loaded
    simp only [step, he, Option.getD_some]
    exact hthins

/-- After an event that drops what is held under the key, nothing is held under it. -/
theorem forall_ne_of_drops {k : CacheKey} {event : WatchedEvent} (h : s.drops k event = true) :
    ∀ p ∈ (s.step event).engine.cache.store.entries, p.1 ≠ k := by
  intro p hp
  cases event with
  | invalidate k' =>
    obtain rfl : k' = k := by simpa [drops] using h
    exact Store.key_ne_of_mem_remove hp
  | invalidateNamespace ns =>
    obtain rfl : ns = k.ns := by simpa [drops] using h
    have hns : p.1.ns ≠ k.ns := by simpa using (List.mem_filter.mp hp).2
    exact fun hk => hns (hk ▸ rfl)
  | poll loaded =>
    cases hpublishes : s.watcher.publishes? loaded with
    | none => simp [drops, hpublishes] at h
    | some table =>
      have hderived : k.ns ∈ tableDerived := by simpa [drops, hpublishes] using h
      rw [s.step_poll_of_publishes hpublishes, entries_dropNamespaces] at hp
      have hns : p.1.ns ∉ tableDerived := by simpa using (List.mem_filter.mp hp).2
      exact fun hk => hns (hk ▸ hderived)
  | _ => contradiction

theorem record?_of_drops {k : CacheKey} {event : WatchedEvent} (h : s.drops k event = true) :
    (s.step event).engine.cache.record? k = none := by
  have hnone : (s.step event).engine.cache.store.get? k = none :=
    lookup_eq_none_iff_key.mpr (forall_ne_of_drops h)
  rw [Cache.record?, hnone, Option.map_none]

/-- Nothing but what has begun since is held after a while, if nothing was held at first and no
derivation ends late. -/
theorem holdsOnly_run {k : CacheKey} {codec : Option (Codec Decision)}
    (h : s.engine.cache.HoldsOnly codec k fun _ => False) {events : List WatchedEvent}
    (hlate : ∀ event ∈ events, event.endsLate s.underWay k = false) :
    (s.run events).engine.cache.HoldsOnly codec k fun d => BegunIn k d events := by
  -- From the end: the last event may store a decision that was asked for in those before it.
  induction events using List.reverseRecOn with
  | nil => exact h.mono fun _ hfalse => hfalse.elim
  | append_singleton earlier event ih =>
    have hearlier := ih fun e he => hlate e (List.mem_append_left _ he)
    have hlast := hlate event (List.mem_append_right _ List.mem_cons_self)
    have hgrown := hearlier.mono fun d (hd : BegunIn k d earlier) => hd.append [event]
    rw [run, List.foldl_append]
    change ((s.run earlier).step event).engine.cache.HoldsOnly codec k _
    by_cases huse : ∃ used, event = .use used
    · obtain ⟨used, rfl⟩ := huse
      refine CacheSession.holdsOnly_step (s := (s.run earlier).session) hgrown ?_
      intro call d hmade hstored
      cases used with
      | call c =>
        obtain rfl := Option.some.inj hmade
        refine .whole (List.mem_append_right _ List.mem_cons_self) hstored ?_
        obtain ⟨now, op⟩ := c
        cases op with
        | complete k' derived ttl version micros =>
          obtain ⟨rfl, -⟩ := Prod.mk.inj (Option.some.inj hstored)
          simp [WatchedEvent.endsLate] at hlast
        | abandon => contradiction
        | _ => rfl
      | ask now id ttl version =>
        obtain rfl := Option.some.inj hmade
        contradiction
      | derived now id value micros =>
        obtain ⟨u, hu, rfl⟩ := Option.map_eq_some_iff.mp hmade
        obtain ⟨rfl, rfl⟩ := Prod.mk.inj (Option.some.inj hstored)
        obtain rfl : u.id = id := by simpa using List.find?_some hu
        rcases asked_of_underWay (List.mem_of_find?_eq_some hu) with hold | ⟨began, hask⟩
        · have hany : s.underWay.any fun v => v.id = u.id :=
            List.any_eq_true.mpr ⟨u, hold, decide_eq_true rfl⟩
          simp [WatchedEvent.endsLate, hany] at hlast
        · exact .asked rfl rfl hask
      | abandoned now id micros =>
        obtain ⟨u, -, rfl⟩ := Option.map_eq_some_iff.mp hmade
        contradiction
    · have hquiet : ∀ used, event ≠ .use used := fun used hevent => huse ⟨used, hevent⟩
      exact hgrown.thins (thins_step hquiet).cache

/-- After an event that drops what is held under a key, only those decisions are found for it that
are derived from beginning to end since then, as long as no derivation ends that was under way. -/
theorem found_begunIn (s : WatchedEngine) {k : CacheKey} {event : WatchedEvent}
    (hdrops : s.drops k event = true) {after : List WatchedEvent}
    (hlate : ∀ later ∈ after, later.endsLate s.underWay k = false) :
    (s.step event).engine.cache.record? k = none ∧
      ∀ now wanted d, (((s.step event).run after).engine.cache.get now k wanted).2 = some d →
        ∃ d', BegunIn k d' after ∧ Codec.Restores s.engine.cache.codec d' d := by
  refine ⟨record?_of_drops hdrops, fun now wanted d hfound => ?_⟩
  have hquiet : ∀ used, event ≠ .use used := by
    rintro used rfl
    contradiction
  have hempty := Cache.HoldsOnly.of_forall_ne (forall_ne_of_drops hdrops)
  have hcodec : (s.step event).engine.cache.codec = s.engine.cache.codec :=
    (thins_step hquiet).cache.codec
  rw [hcodec] at hempty
  rw [← underWay_step hquiet] at hlate
  exact (holdsOnly_run hempty hlate).get hfound

/-- A task may be claimed while it is pending. -/
def claimingTable : RuleTable :=
  ⟨"1", [Profile.offer "claim" (Profile.inStatus ["PENDING"]) (.ofLabel "Claim")], by decide⟩

/-- Nothing may be done. -/
def lockedTable : RuleTable := ⟨"2", [], by decide⟩

def claimOffered : Decision := PriorityTable.desktop.resolve (.ofStatus "PENDING") claimingTable

def nothingOffered : Decision := PriorityTable.desktop.resolve (.ofStatus "PENDING") lockedTable

/-- A decision is being derived from the first table. -/
def claimUnderWay : WatchedEngine :=
  (start (.create .usual .desktop false) ⟨1⟩ (.ok claimingTable)).run
    [.use (.ask .epoch ⟨.buttons "T1", 0⟩ none none)]

/-- The derivation is given up after the reload, and another caller asks again. -/
def askedAgain : List WatchedEvent :=
  [.use (.abandoned .epoch ⟨.buttons "T1", 0⟩ 0),
    .use (.call ⟨.epoch, .getOrInsert (.buttons "T1") none none nothingOffered .epoch 0⟩)]

theorem found_begunIn_askedAgain :
    claimUnderWay.drops (.buttons "T1") (.poll (.ok lockedTable)) = true ∧
      (∀ later ∈ askedAgain, later.endsLate claimUnderWay.underWay (.buttons "T1") = false) ∧
      ∃ d', BegunIn (.buttons "T1") d' askedAgain ∧
        Codec.Restores claimUnderWay.engine.cache.codec d' nothingOffered := by
  have hdrops : claimUnderWay.drops (.buttons "T1") (.poll (.ok lockedTable)) = true := by rfl
  have hlate : ∀ later ∈ askedAgain,
      later.endsLate claimUnderWay.underWay (.buttons "T1") = false := by
    intro later hlater
    rcases List.mem_cons.mp hlater with rfl | hlater
    · rfl
    · rw [List.mem_singleton.mp hlater]
      rfl
  have hfound : (((claimUnderWay.step (.poll (.ok lockedTable))).run askedAgain).engine.cache.get
      .epoch (.buttons "T1") none).2 = some nothingOffered := by rfl
  exact ⟨hdrops, hlate, (found_begunIn claimUnderWay hdrops hlate).2 .epoch none _ hfound⟩

/-- The derivation from the first table ends after the reload. -/
def endsAfterReload : List WatchedEvent :=
  [.use (.derived .epoch ⟨.buttons "T1", 0⟩ claimOffered 0)]

/-- What is then found, without a version, began before the decisions of the first table were
dropped, and is not what the new table says. -/
theorem reload_found_outdated :
    (∀ event ∈ [.poll (.ok lockedTable), .invalidate (.buttons "T1"),
        .invalidateNamespace .workflowButtons],
      claimUnderWay.drops (.buttons "T1") event = true ∧
      (((claimUnderWay.step event).run endsAfterReload).engine.cache.get .epoch (.buttons "T1")
        none).2 = some claimOffered) ∧
    (∀ d', Codec.Restores claimUnderWay.engine.cache.codec d' claimOffered →
      ¬BegunIn (.buttons "T1") d' endsAfterReload) ∧
    claimOffered ≠ nothingOffered := by
  refine ⟨fun event hevent => ?_, fun d' _ hbegun => ?_, fun hsame => ?_⟩
  · rcases List.mem_cons.mp hevent with rfl | hevent
    · exact ⟨rfl, rfl⟩
    rcases List.mem_cons.mp hevent with rfl | hevent
    · exact ⟨rfl, rfl⟩
    · rw [List.mem_singleton.mp hevent]
      exact ⟨rfl, rfl⟩
  · -- The one event is an end, and nothing comes before it.
    cases hbegun with
    | whole mem stored whole => exact absurd (List.mem_singleton.mp mem) (by simp)
    | asked key split ask =>
      obtain ⟨rfl, -⟩ | ⟨-, hnil⟩ := List.singleton_eq_append_iff.mp split
      · contradiction
      · contradiction
  · have hone : claimOffered.items.length = 1 := by decide +kernel
    have hnone : nothingOffered.items.length = 0 := by decide +kernel
    rw [hsame, hnone] at hone
    contradiction

end WatchedEngine

end ActionPolicy
