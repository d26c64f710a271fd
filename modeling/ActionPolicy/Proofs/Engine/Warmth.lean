import ActionPolicy.Proofs.Cache.Warmth
import ActionPolicy.Proofs.Engine.Calls

/-!
# A decision is derived once while it is warm

A decision that has been derived and stored is given to all calls for its key until it expires, and
none of them derives one, as long as nobody removes or replaces it and not too many others come in
between. The first call after that derives one again.

## Main definitions

* `WatchedEngine.Derives` – an operation derives a decision for a key and stores it.
* `LaterCall` – a call for the key, and what happens before it.
* `WatchedEngine.Warm`, `WatchedEngine.AllWarm` – what happens before a call leaves the decision,
  and the call may have it; so it is for a series of calls.
* `WatchedEngine.outcomes` – what a series of calls is answered, and how many derivations it counts.

## Main statements

* `WatchedEngine.get_of_warm`, `WatchedEngine.outcomes_of_keeps` – a warm call, and a series of
  them, is given the decision.
* `WatchedEngine.outcomes_warm` – a decision is derived once while it is warm.

## Design notes

The decision is stored when its derivation ends, and it is then that its time begins. A derivation
may be in one piece or leave the engine open to others meanwhile.
-/

namespace ActionPolicy

/-- An operation derives a decision for a key and stores it. -/
inductive WatchedEngine.Derives (s : WatchedEngine) (k : CacheKey) (now : Instant)
    (ttl : Option Duration) (version : Option String) (d : Decision) : EngineOp → Prop where
  /-- The call finds nothing and derives the decision in one piece. -/
  | whole {micros : Nat}
    (fresh : (s.perform (.resolveWith now k ttl version d micros)).2 = .cache (.derived d true)) :
    s.Derives k now ttl version d (.resolveWith now k ttl version d micros)
  /-- The call has found nothing before, and the derivation ends now. -/
  | ended {id : CallId} {micros : Nat} (key : id.key = k)
    (underWay : s.session.find? id = some ⟨id, k.ns.ttlOr ttl, version⟩) :
    s.Derives k now ttl version d (.other (.use (.derived now id d micros)))

/-- A call for a key, and what happens before it. -/
structure LaterCall where
  traffic : List EngineOp
  now : Instant
  ttl : Option Duration
  version : Option String
  /-- What the call would derive. -/
  derived : Decision
  micros : Nat

namespace LaterCall

def op (call : LaterCall) (k : CacheKey) : EngineOp :=
  .resolveWith call.now k call.ttl call.version call.derived call.micros

def ops (call : LaterCall) (k : CacheKey) : List EngineOp := call.traffic ++ [call.op k]

end LaterCall

namespace WatchedEngine

/-- What happens before the call spares the decision and touches fewer other keys than there may be
entries; the call is made in time, and for no other version. -/
structure Warm (s : WatchedEngine) (k : CacheKey) (last : Instant) (version : Option String)
    (limit : Nat) (call : LaterCall) : Prop where
  spares : ∀ e ∈ s.history call.traffic, e.Spares k last
  few : ((touchedKeys (s.history call.traffic)).erase k).card < limit
  inTime : call.now ≤ last
  agrees : ∀ w v, call.version = some w → version = some v → w = v

def AllWarm (s : WatchedEngine) (k : CacheKey) (last : Instant) (version : Option String)
    (limit : Nat) : List LaterCall → Prop
  | [] => True
  | call :: rest =>
    s.Warm k last version limit call ∧ (s.after (call.ops k)).AllWarm k last version limit rest

def derivations (s : WatchedEngine) : Nat := s.engine.cache.metrics.counts.derivations

/-- What the call is answered, and how many derivations are counted with it. -/
def outcome (s : WatchedEngine) (k : CacheKey) (call : LaterCall) : EngineAnswer × Nat :=
  let before := s.after call.traffic
  let after := before.perform (call.op k)
  (after.2, after.1.derivations - before.derivations)

def outcomes (s : WatchedEngine) (k : CacheKey) : List LaterCall → List (EngineAnswer × Nat)
  | [] => []
  | call :: rest => s.outcome k call :: (s.after (call.ops k)).outcomes k rest

/-! ### Histories -/

variable {s : WatchedEngine} {config : CacheConfig} {codec : Option (Codec Decision)}
  {history : List (CacheEvent Decision)} {k : CacheKey}

/-- The engine has the history behind it. -/
def After (s : WatchedEngine) (config : CacheConfig) (codec : Option (Codec Decision))
    (history : List (CacheEvent Decision)) : Prop :=
  s.engine.cache.After config codec history

theorem After.start (config : CacheConfig) (codec : Option (Codec Decision))
    (resolver : PriorityTable) (interval : Duration) (first : Except TableError RuleTable) :
    (start (.ofCache (.new config codec) resolver) interval first).After config codec [] :=
  Cache.After.new config codec

theorem After.after (h : s.After config codec history) (ops : List EngineOp) :
    (s.after ops).After config codec (history ++ s.history ops) := by
  unfold After
  rw [cache_after]
  exact Cache.After.run h (s.callsOf ops)

/-- A call is answered with what is found, or else with what it derives, and that is counted. -/
theorem outcome_eq (s : WatchedEngine) (k : CacheKey) (call : LaterCall) :
    s.outcome k call =
      let found := ((s.after call.traffic).engine.cache.get call.now k call.version).2
      (.cache (.derived (found.getD call.derived) found.isNone), found.isNone.toNat) := by
  unfold outcome
  generalize s.after call.traffic = s'
  have hanswer := s'.engine.cache.snd_step_getOrInsert call.now call.now k (k.ns.ttlOr call.ttl)
    call.version call.derived call.micros
  have hcount := s'.engine.cache.derivations_step
    ⟨call.now, .getOrInsert k (k.ns.ttlOr call.ttl) call.version call.derived call.now call.micros⟩
  refine Prod.ext (congrArg EngineAnswer.cache hanswer) ?_
  exact (congrArg (· - s'.derivations) hcount).trans (Nat.add_sub_cancel_left _ _)

theorem history_of_get {call : LaterCall} {d : Decision}
    (h : (s.engine.cache.get call.now k call.version).2 = some d) :
    s.history [call.op k] = [.found call.now k call.version (some d)] := by
  have hanswer := s.engine.cache.snd_step_getOrInsert call.now call.now k (k.ns.ttlOr call.ttl)
    call.version call.derived call.micros
  rw [h] at hanswer
  show (CacheCall.events _ (s.engine.cache.step ⟨call.now, .getOrInsert k (k.ns.ttlOr call.ttl)
    call.version call.derived call.now call.micros⟩).2 ++ []) = _
  rw [hanswer]
  rfl

/-- A derivation that ends with a decision stores it, whether or not it was in one piece. -/
theorem Derives.history_eq {now : Instant} {ttl : Option Duration} {version : Option String}
    {d : Decision} {op : EngineOp} (h : s.Derives k now ttl version d op) :
    ∃ earlier, s.history [op] = earlier ++ [.stored now k d (k.ns.ttlOr ttl) version] := by
  cases h with
  | @whole micros fresh =>
    refine ⟨[.missed k], ?_⟩
    have hanswer : (s.engine.cache.step
        ⟨now, .getOrInsert k (k.ns.ttlOr ttl) version d now micros⟩).2 = .derived d true := by
      rw [perform_eq] at fresh
      exact EngineAnswer.cache.inj fresh
    show (CacheCall.events _ (s.engine.cache.step
      ⟨now, .getOrInsert k (k.ns.ttlOr ttl) version d now micros⟩).2 ++ []) = _
    rw [hanswer]
    rfl
  | @ended id micros key underWay =>
    obtain rfl := key
    refine ⟨[], ?_⟩
    have hmade : s.session.made? (.derived now id d micros) =
        some ⟨now, .complete id.key d (id.key.ns.ttlOr ttl) version micros⟩ := by
      rw [CacheSession.made?, underWay]
      rfl
    rw [WatchedEngine.history, callsOf, callsOf, EngineOp.event, calls, hmade]
    rfl

theorem Derives.after {now : Instant} {ttl : Option Duration} {version : Option String}
    {d : Decision} {op : EngineOp} (h : s.Derives k now ttl version d op)
    (hs : s.After config codec history) :
    ∃ history', (s.perform op).1.After config codec
      (history' ++ [.stored now k d (k.ns.ttlOr ttl) version]) := by
  obtain ⟨earlier, hhistory⟩ := h.history_eq
  have hafter := hs.after [op]
  rw [hhistory, ← List.append_assoc] at hafter
  exact ⟨_, hafter⟩

/-! ### Series of calls -/

section Series

variable {r : CacheRecord Decision} {d : Decision} {touch : CacheEvent Decision}

/-- As long as the record is kept, a call in time finds its decision. -/
theorem get_of_warm (h : s.After config codec (history ++ [touch]))
    (htouch : touch.touched? = some r.key)
    (hkeeps : PlainCache.Keeps config codec (history ++ [touch]) r)
    (hd : PlainCache.decode ⟨config, codec, [], .zero⟩ r.value = some d) {call : LaterCall}
    (hwarm : s.Warm r.key r.expiresAt r.version (max config.capacity 1) call) :
    PlainCache.Keeps config codec (history ++ [touch] ++ s.history call.traffic) r ∧
      ((s.after call.traffic).engine.cache.get call.now r.key call.version).2 = some d := by
  have hkept := hkeeps.append htouch hwarm.spares hwarm.few
  exact ⟨hkept, Cache.After.get_of_keeps (h.after call.traffic) hkept hd hwarm.inTime hwarm.agrees⟩

/-- Each call of a warm series is given the decision and derives nothing, and the record is kept
over the series. -/
theorem outcomes_of_keeps (h : s.After config codec (history ++ [touch]))
    (htouch : touch.touched? = some r.key)
    (hkeeps : PlainCache.Keeps config codec (history ++ [touch]) r)
    (hd : PlainCache.decode ⟨config, codec, [], .zero⟩ r.value = some d) {later : List LaterCall}
    (hwarm : s.AllWarm r.key r.expiresAt r.version (max config.capacity 1) later) :
    s.outcomes r.key later = later.map (fun _ => (.cache (.derived d false), 0)) ∧
      ∃ history', (s.after (later.flatMap fun call => call.ops r.key)).After config codec history' ∧
        PlainCache.Keeps config codec history' r := by
  induction later generalizing s history touch with
  | nil => exact ⟨rfl, _, h, hkeeps⟩
  | cons call rest ih =>
    obtain ⟨hcall, hrest⟩ := hwarm
    obtain ⟨hkept, hget⟩ := get_of_warm h htouch hkeeps hd hcall
    have hfound := history_of_get hget
    -- The lookup touches the record, so the series can go on from here.
    have hafter := (h.after call.traffic).after [call.op r.key]
    rw [hfound, ← after_append] at hafter
    have hkept' := hkept.concat (e := .found call.now r.key call.version (some d))
      ⟨id, fun _ hpurged => by contradiction⟩ fun _ hstores => hstores.elim
    obtain ⟨houtcomes, hlast⟩ := ih hafter rfl hkept' hrest
    refine ⟨?_, ?_⟩
    · rw [outcomes, outcome_eq, hget]
      exact congrArg (_ :: ·) houtcomes
    · rw [List.flatMap_cons, after_append]
      exact hlast

end Series

/-- A decision that a call has derived and stored is given to all calls for its key while it is
warm, and they derive nothing. The first one after its expiry derives a decision, once. -/
theorem outcomes_warm {config : CacheConfig} {codec : Option (Codec Decision)}
    (hcodec : ∀ c, codec = some c → c.Lossless) {resolver : PriorityTable} {interval : Duration}
    {first : Except TableError RuleTable} {before : List EngineOp} {op : EngineOp} {k : CacheKey}
    {now : Instant} {ttl : Option Duration} {version : Option String} {d : Decision}
    {later : List LaterCall} :
    let s := (start (.ofCache (.new config codec) resolver) interval first).after before
    let last := now.plus ((ttl <|> k.ns.recommendedTtl).getD config.defaultTtl)
    s.Derives k now ttl version d op →
    (s.perform op).1.AllWarm k last version (max config.capacity 1) later →
      let s' := (s.perform op).1.after (later.flatMap fun call => call.ops k)
      (s.perform op).1.outcomes k later = later.map (fun _ => (.cache (.derived d false), 0)) ∧
      ∀ call : LaterCall, (∀ e ∈ s'.history call.traffic, ¬e.Stores k) → last < call.now →
        s'.outcome k call = (.cache (.derived call.derived true), 1) := by
  intro s last hderives hwarm s'
  obtain ⟨history, hafter⟩ :=
    hderives.after ((After.start config codec resolver interval first).after before)
  have hd := Cache.decode_encode (c := .new config codec) hcodec d
  have hnew := Cache.Simulates.new config codec
  rw [hnew.encode_eq, hnew.decode_eq] at hd
  obtain ⟨houtcomes, history', hafter', hkeeps'⟩ :=
    outcomes_of_keeps hafter rfl (PlainCache.keeps_stored history now k d _ version) hd hwarm
  refine ⟨houtcomes, fun call hstores hlate => ?_⟩
  have hexpires := hkeeps'.expiresAt.append hstores
  have hget := Cache.After.get_of_expiresAt (hafter'.after call.traffic) hexpires hlate
    call.version
  rw [outcome_eq, hget]
  rfl

/-- Two entries fit, and a decision is being derived for the first task. -/
def claimAsked : WatchedEngine :=
  (start (.ofCache (.new { CacheConfig.usual with capacity := 2 } none) .desktop) ⟨1⟩
    (.ok claimingTable)).after [.ask .epoch ⟨.buttons "T1", 0⟩ none (some "1")]

def claimDerived : EngineOp := .other (.use (.derived .epoch ⟨.buttons "T1", 0⟩ claimOffered 0))

/-- Three minutes later the decision is valid for the last time. -/
def claimLast : Instant := Instant.epoch.plus (.ofSecs 180)

/-- Before the call a decision is derived for another task. -/
def claimStored : LaterCall :=
  ⟨[.resolveWith .epoch (.buttons "T2") none none nothingOffered 0], claimLast, none, none,
    nothingOffered, 0⟩

/-- Before the call the entries past their expiry are removed. It asks for the version of the
decision. -/
def claimSwept : LaterCall :=
  ⟨[.other (.use (.call ⟨claimLast, .purgeExpired⟩))], claimLast, none, some "1", nothingOffered, 0⟩

def claimExpired : LaterCall :=
  ⟨[], Instant.epoch.plus (.ofSecs 181), none, none, nothingOffered, 0⟩

theorem outcomes_warm_claim :
    claimAsked.Derives (.buttons "T1") .epoch none (some "1") claimOffered claimDerived ∧
      (claimAsked.perform claimDerived).1.AllWarm (.buttons "T1") claimLast (some "1") 2
        [claimStored, claimSwept] ∧
      (claimAsked.perform claimDerived).1.outcomes (.buttons "T1") [claimStored, claimSwept] =
        [(.cache (.derived claimOffered false), 0), (.cache (.derived claimOffered false), 0)] ∧
      (((claimAsked.perform claimDerived).1.after
        ([claimStored, claimSwept].flatMap fun call => call.ops (.buttons "T1"))).outcome
          (.buttons "T1") claimExpired) = (.cache (.derived nothingOffered true), 1) := by
  have hderives : claimAsked.Derives (.buttons "T1") .epoch none (some "1") claimOffered
      claimDerived := .ended rfl rfl
  -- The traffic shows a decision stored under another key, and a sweep in time.
  have hstored : (claimAsked.perform claimDerived).1.history claimStored.traffic =
      [.missed (.buttons "T2"),
        .stored .epoch (.buttons "T2") nothingOffered (some (.ofSecs 180)) none] := rfl
  have hswept : ((claimAsked.perform claimDerived).1.after
      (claimStored.ops (.buttons "T1"))).history claimSwept.traffic = [.purged claimLast] := rfl
  have hother : (CacheKey.buttons "T2") ≠ .buttons "T1" := by decide
  have hwarm : (claimAsked.perform claimDerived).1.AllWarm (.buttons "T1") claimLast (some "1") 2
      [claimStored, claimSwept] := by
    refine ⟨⟨fun e he => ?_, ?_, by decide, fun _ _ h => by contradiction⟩,
      ⟨fun e he => ?_, ?_, by decide, fun w v hw hv => ?_⟩, trivial⟩
    · rw [hstored] at he
      rcases List.mem_cons.mp he with rfl | he
      · exact ⟨hother, fun _ h => by contradiction⟩
      · rw [List.mem_singleton.mp he]
        exact ⟨hother, fun _ h => by contradiction⟩
    · rw [hstored]
      decide
    · rw [hswept] at he
      rw [List.mem_singleton.mp he]
      exact ⟨id, fun now h => by rw [← CacheEvent.purged.inj h]; decide⟩
    · rw [hswept]
      decide
    · exact Option.some.inj (hw.symm.trans hv)
  have hcalls := outcomes_warm (fun _ h => by contradiction) hderives hwarm
  exact ⟨hderives, hwarm, hcalls.1,
    hcalls.2 claimExpired (fun _ he => absurd he List.not_mem_nil) (by decide)⟩

end WatchedEngine

end ActionPolicy
