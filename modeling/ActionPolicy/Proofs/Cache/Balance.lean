import ActionPolicy.Proofs.Cache.Refinement
import ActionPolicy.Proofs.Cache.Session
import Mathlib.Algebra.BigOperators.Group.List.Basic
import Mathlib.Algebra.GroupWithZero.Nat
import Mathlib.Data.Finset.Card

/-!
# The counters balance

Somebody who watches a cache in use keeps a log book beside it: what was looked up, what was stored
and what was removed by whom, told from the store as it is before and after, from the codec and from
the answers, and never from the counters. The counters agree with the log book, and every entry that
has ever come into the store is still there or has gone for exactly one of the causes.

## Main definitions

* `Logbook` – what is noted.
* `Cache.log`, `CacheSession.log`, `CacheSession.logbook` – what is noted at a call, at an event of
  a session, and by the end of a session.
* `Balanced` – counters, number of entries and log book agree.

## Main statements

* `Cache.Simulates.balanced_step`, `CacheSession.balanced_step` – one call, and one event, keeps the
  balance.
* `CacheSession.begun_step` – a derivation that has begun is under way until it ends.
* `CacheSession.balanced_run`, `CacheSession.balanced_new` – the balance of a whole session.

## Design notes

The counter of swept entries has 64 bits and starts again behind the last number of them. The log
book does not, so it is the log book that the balance of entries is stated with. The two are the
same as long as fewer entries have come into the store than that.
-/

namespace ActionPolicy

variable {V : Type}

/-- What is noted of a cache in use. -/
structure Logbook where
  lookups : Nat
  /-- Lookups for a key that has no entry, valid or not. -/
  absent : Nat
  /-- Lookups that come to decode an entry and cannot. -/
  undecodable : Nat
  /-- Values that are stored and cannot be encoded. -/
  unencodable : Nat
  /-- Values that are stored under a key that has no entry. -/
  added : Nat
  /-- Deletions that find an entry. -/
  deleted : Nat
  /-- Entries that callers have been told they removed, of a namespace or past their expiry. -/
  reported : Nat
  /-- Entries that background sweeps removed. -/
  swept : Nat
  /-- Entries that were there when all were removed. -/
  wiped : Nat
  /-- Derivations that have begun. -/
  begun : Nat
  /-- Derivations that have ended, with a value or without. -/
  ended : Nat
  deriving DecidableEq, Repr

namespace Logbook

def blank : Logbook := ⟨0, 0, 0, 0, 0, 0, 0, 0, 0, 0, 0⟩

variable (t : Logbook)

def look (absent undecodable : Bool) : Logbook :=
  { t with
    lookups := t.lookups + 1
    absent := t.absent + absent.toNat
    undecodable := t.undecodable + undecodable.toNat }

def store (new unencodable : Bool) : Logbook :=
  { t with
    added := t.added + new.toNat
    unencodable := t.unencodable + unencodable.toNat }

theorem store_store (new unencodable : Bool) :
    (t.store false unencodable).store new false = t.store new unencodable := rfl

def delete (existed : Bool) : Logbook := { t with deleted := t.deleted + existed.toNat }

def report (n : Nat) : Logbook := { t with reported := t.reported + n }

def sweep (n : Nat) : Logbook := { t with swept := t.swept + n }

def wipe (n : Nat) : Logbook := { t with wiped := t.wiped + n }

def beginOf (begins : Bool) : Logbook := { t with begun := t.begun + begins.toNat }

def finish : Logbook := { t with ended := t.ended + 1 }

end Logbook

namespace Cache

/-- A lookup comes to decode the entry under a key, and cannot. -/
def unreadable (c : Cache V) (now : Instant) (k : CacheKey) (wanted : Option String) : Bool :=
  (c.store.get? k).any fun e =>
    !e.expiredAt now && !conflicting wanted e.version && (c.decode e.value).isNone

/-- The codec cannot encode a value. -/
def refuses (c : Cache V) (value : V) : Bool :=
  c.codec.any fun codec => (codec.encode value).isNone

def logLookup (c : Cache V) (t : Logbook) (now : Instant) (k : CacheKey)
    (wanted : Option String) : Logbook :=
  t.look (c.store.get? k).isNone (c.unreadable now k wanted)

def logStore (c : Cache V) (t : Logbook) (k : CacheKey) (value : V) : Logbook :=
  t.store (c.store.get? k).isNone (c.refuses value)

/-- What is noted at a call. Where a value is derived and stored, the store is looked into again
after the lookup. -/
def log (c : Cache V) (t : Logbook) (call : CacheCall V) : Logbook :=
  match call.op with
  | .set k value _ _ => c.logStore t k value
  | .get k wanted | .tryGet k wanted | .has k wanted => c.logLookup t call.now k wanted
  | .delete k => t.delete (c.store.get? k).isSome
  | .clearNamespace ns => t.report (c.clearNamespace ns).2
  | .purgeExpired => t.report (c.purgeExpired call.now).2
  | .sweep => t.sweep (c.store.size - (c.sweep call.now).store.size)
  | .clear | .destroy => t.wipe c.store.size
  | .stats | .info _ => t
  | .getOrInsert k _ wanted derived _ _ =>
    let looked := c.logLookup t call.now k wanted
    match c.get call.now k wanted with
    | (_, some _) => looked
    | (c', none) => c'.logStore looked.finish k derived
  | .complete k derived _ _ _ => c.logStore t.finish k derived
  | .abandon _ => t.finish

end Cache

/-- Counters, number of entries and log book agree. -/
structure Balanced (m : CacheMetrics) (size : Nat) (t : Logbook) : Prop where
  lookups : m.counts.hits + m.counts.misses = t.lookups
  misses : m.counts.misses =
    t.absent + m.counts.expirations + m.counts.versionMismatches + t.undecodable
  transformErrors : m.counts.transformErrors = t.unencodable + t.undecodable
  sweptEntries : m.counts.sweptEntries = t.swept % UInt64.size
  derivations : m.counts.derivations = t.ended
  latency : (m.latency.samples.map Prod.snd).sum = m.counts.derivations
  /-- What has come into the store is there or has gone for one cause. -/
  entries : t.added = size + m.counts.evictions + m.counts.expirations +
    m.counts.versionMismatches + t.undecodable + t.deleted + t.reported + t.swept + t.wiped

/-! ### Numbers of entries -/

namespace Store

variable {s : Store V} {records : List (CacheRecord V)} {k : CacheKey}

theorem size_touch (s : Store V) (k : CacheKey) (now : Instant) : (s.touch k now).size = s.size := by
  unfold touch
  split
  · exact List.length_map _
  · rfl

theorem size_retain (s : Store V) (keep : CacheKey → Entry V → Bool) :
    (s.retain keep).1.size + (s.retain keep).2 = s.size :=
  Nat.add_sub_cancel' (List.length_filter_le _ _)

theorem remove_of_get?_eq_none (h : s.get? k = none) : s.remove k = s := by
  rw [remove, h]

theorem size_insert (s : Store V) (k : CacheKey) (value : Stored V) (now expiresAt : Instant)
    (version : Option String) :
    (s.insert k value now expiresAt version).size = (s.remove k).size + 1 :=
  List.length_append

namespace Holds

theorem size_remove (h : s.Holds records) {e : Entry V} (he : s.get? k = some e) :
    (s.remove k).size + 1 = s.size := by
  obtain ⟨l, hl, -⟩ := h
  -- A touch puts the entry behind the ones that stay when it is removed.
  have htouch := (hl.touch he e.touchedAt).size_eq
  rw [size_touch, List.length_append, List.length_singleton] at htouch
  rw [htouch, (hl.remove k).size_eq]

theorem size_evictOldest (h : s.Holds records) {s' : Store V} (hs : s.evictOldest = some s') :
    s'.size + 1 = s.size := by
  have hne : records ≠ [] := by
    rintro rfl
    obtain ⟨l, hl, hnil⟩ := h
    have hindex := hl.index
    rw [List.map_eq_nil_iff.mp hnil.symm] at hindex
    rw [Store.evictOldest, hindex] at hs
    contradiction
  obtain ⟨s'', hs'', hholds⟩ := h.evictOldest hne
  obtain rfl := Option.some.inj (hs.symm.trans hs'')
  have hpos := List.length_pos_iff_ne_nil.mpr hne
  rw [h.size_eq, hholds.size_eq, List.length_tail]
  omega

end Holds

theorem get?_evictOldest {s' : Store V} (hs : s.evictOldest = some s') (hk : s.get? k = none) :
    s'.get? k = none := by
  unfold evictOldest at hs
  split at hs
  · contradiction
  · obtain rfl := Option.some.inj hs
    refine lookup_eq_none_iff_key.mpr fun p hp => ?_
    exact lookup_eq_none_iff_key.mp hk p (List.mem_filter.mp hp).1

end Store

theorem LatencyBuckets.sum_record (b : LatencyBuckets) (micros : Nat) :
    ((b.record micros).samples.map Prod.snd).sum = (b.samples.map Prod.snd).sum + 1 := by
  unfold record
  repeat' split
  all_goals
    simp only [samples, List.map_cons, List.map_nil, List.sum_cons, List.sum_nil]
    omega

/-! ### Counters -/

namespace Balanced

open CacheMetrics

variable {m : CacheMetrics} {n : Nat} {t : Logbook}

theorem zero : Balanced .zero 0 .blank := ⟨rfl, rfl, rfl, rfl, rfl, rfl, rfl⟩

theorem found (h : Balanced m n t) : Balanced (m.recordLookup true) n (t.look false false) :=
  { h with
    lookups := by
      show m.counts.hits + 1 + m.counts.misses = t.lookups + 1
      rw [← h.lookups]
      omega }

theorem lookups_missed (h : Balanced m n t) :
    m.counts.hits + (m.counts.misses + 1) = t.lookups + 1 := by
  rw [← h.lookups, Nat.add_assoc]

theorem absent (h : Balanced m n t) : Balanced (m.recordLookup false) n (t.look true false) :=
  { h with
    lookups := h.lookups_missed
    misses := by
      show m.counts.misses + 1 = t.absent + 1 + m.counts.expirations +
        m.counts.versionMismatches + t.undecodable
      have hmisses := h.misses
      omega }

/-! A lookup that removes an entry is a miss for the cause that the removal is counted under. -/

theorem expired (h : Balanced m (n + 1) t) :
    Balanced (m.recordExpiration.recordLookup false) n (t.look false false) :=
  { h with
    lookups := h.lookups_missed
    misses := by
      show m.counts.misses + 1 = t.absent + (m.counts.expirations + 1) +
        m.counts.versionMismatches + t.undecodable
      have hmisses := h.misses
      omega
    entries := by
      show t.added = n + m.counts.evictions + (m.counts.expirations + 1) +
        m.counts.versionMismatches + t.undecodable + t.deleted + t.reported + t.swept + t.wiped
      have hentries := h.entries
      omega }

theorem mismatched (h : Balanced m (n + 1) t) :
    Balanced (m.recordVersionMismatch.recordLookup false) n (t.look false false) :=
  { h with
    lookups := h.lookups_missed
    misses := by
      show m.counts.misses + 1 = t.absent + m.counts.expirations +
        (m.counts.versionMismatches + 1) + t.undecodable
      have hmisses := h.misses
      omega
    entries := by
      show t.added = n + m.counts.evictions + m.counts.expirations +
        (m.counts.versionMismatches + 1) + t.undecodable + t.deleted + t.reported + t.swept +
        t.wiped
      have hentries := h.entries
      omega }

theorem undecoded (h : Balanced m (n + 1) t) :
    Balanced (m.recordTransformError.recordLookup false) n (t.look false true) :=
  { h with
    lookups := h.lookups_missed
    misses := by
      show m.counts.misses + 1 = t.absent + m.counts.expirations + m.counts.versionMismatches +
        (t.undecodable + 1)
      rw [h.misses, Nat.add_assoc _ t.undecodable 1]
    transformErrors := by
      show m.counts.transformErrors + 1 = t.unencodable + (t.undecodable + 1)
      rw [h.transformErrors, Nat.add_assoc]
    entries := by
      show t.added = n + m.counts.evictions + m.counts.expirations + m.counts.versionMismatches +
        (t.undecodable + 1) + t.deleted + t.reported + t.swept + t.wiped
      have hentries := h.entries
      omega }

/-- A value that cannot be encoded counts as an error, and is stored all the same. -/
theorem encoded (h : Balanced m n t) (failed : Bool) :
    Balanced (if failed then m.recordTransformError else m) n (t.store false failed) := by
  cases failed with
  | false => exact h
  | true =>
    exact { h with
      transformErrors := by
        show m.counts.transformErrors + 1 = t.unencodable + 1 + t.undecodable
        have herrors := h.transformErrors
        omega }

theorem evicted (h : Balanced m (n + 1) t) : Balanced m.recordEviction n t :=
  { h with
    entries := by
      show t.added = n + (m.counts.evictions + 1) + m.counts.expirations +
        m.counts.versionMismatches + t.undecodable + t.deleted + t.reported + t.swept + t.wiped
      have hentries := h.entries
      omega }

theorem added (h : Balanced m n t) : Balanced m (n + 1) (t.store true false) :=
  { h with
    entries := by
      show t.added + 1 = n + 1 + m.counts.evictions + m.counts.expirations +
        m.counts.versionMismatches + t.undecodable + t.deleted + t.reported + t.swept + t.wiped
      have hentries := h.entries
      omega }

theorem deleted (h : Balanced m (n + 1) t) : Balanced m n (t.delete true) :=
  { h with
    entries := by
      show t.added = n + m.counts.evictions + m.counts.expirations + m.counts.versionMismatches +
        t.undecodable + (t.deleted + 1) + t.reported + t.swept + t.wiped
      have hentries := h.entries
      omega }

theorem reported {removed : Nat} (h : Balanced m (n + removed) t) :
    Balanced m n (t.report removed) :=
  { h with
    entries := by
      show t.added = n + m.counts.evictions + m.counts.expirations + m.counts.versionMismatches +
        t.undecodable + t.deleted + (t.reported + removed) + t.swept + t.wiped
      have hentries := h.entries
      omega }

theorem swept {removed : Nat} (h : Balanced m (n + removed) t) :
    Balanced (m.recordSweep removed) n (t.sweep removed) :=
  { h with
    sweptEntries := by
      show (m.counts.sweptEntries + removed) % UInt64.size = (t.swept + removed) % UInt64.size
      rw [h.sweptEntries, Nat.mod_add_mod]
    entries := by
      show t.added = n + m.counts.evictions + m.counts.expirations + m.counts.versionMismatches +
        t.undecodable + t.deleted + t.reported + (t.swept + removed) + t.wiped
      have hentries := h.entries
      omega }

theorem wiped (h : Balanced m n t) : Balanced m 0 (t.wipe n) :=
  { h with
    entries := by
      show t.added = 0 + m.counts.evictions + m.counts.expirations + m.counts.versionMismatches +
        t.undecodable + t.deleted + t.reported + t.swept + (t.wiped + n)
      have hentries := h.entries
      omega }

theorem finished (h : Balanced m n t) (micros : Nat) :
    Balanced (m.recordDerivation micros) n t.finish :=
  { h with
    derivations := congrArg (· + 1) h.derivations
    latency := by
      show ((m.latency.record micros).samples.map Prod.snd).sum = m.counts.derivations + 1
      rw [LatencyBuckets.sum_record, h.latency] }

/-- As long as fewer entries have come than the counter can count, it counts what was swept. -/
theorem sweptEntries_eq (h : Balanced m n t) (hadded : t.added < UInt64.size) :
    m.counts.sweptEntries = t.swept := by
  have hentries := h.entries
  rw [h.sweptEntries, Nat.mod_eq_of_lt (by omega)]

end Balanced

namespace Cache

namespace Simulates

variable {c : Cache V} {m : PlainCache V} {t : Logbook}

/-! ### Lookups -/

theorem balanced_tryGet (h : Simulates c m) (ht : Balanced c.metrics c.store.size t) (now : Instant)
    (k : CacheKey) (wanted : Option String) :
    Balanced (c.tryGet now k wanted).1.metrics (c.tryGet now k wanted).1.store.size
      (c.logLookup t now k wanted) := by
  unfold Cache.tryGet Cache.lookup logLookup unreadable
  cases he : c.store.get? k with
  | none => exact ht.absent
  | some e =>
    rw [← h.holds.size_remove he] at ht
    dsimp only
    by_cases hexpired : e.expiredAt now = true
    · simp only [hexpired, Option.any_some, Bool.not_true, Bool.false_and, if_true]
      exact ht.expired
    by_cases hother : conflicting wanted e.version = true
    · simp only [hexpired, hother, Option.any_some, Bool.not_true, Bool.and_false, Bool.false_and,
        if_true, Bool.false_eq_true, if_false]
      exact ht.mismatched
    cases hv : c.decode e.value with
    | none =>
      simp only [hexpired, hother, hv, Option.any_some, Bool.false_eq_true, if_false]
      exact ht.undecoded
    | some v =>
      rw [h.holds.size_remove he, ← c.store.size_touch k now] at ht
      simp only [hexpired, hother, hv, Option.any_some, Bool.false_eq_true, if_false]
      exact ht.found

/-! ### Storing -/

theorem snd_encode (c : Cache V) (value : V) : (c.encode value).2 = c.refuses value := by
  unfold Cache.encode refuses
  cases c.codec with
  | none => rfl
  | some codec =>
    simp only [Option.any_some]
    cases codec.encode value <;> rfl

theorem balanced_set (h : Simulates c m) (ht : Balanced c.metrics c.store.size t) (now : Instant)
    (k : CacheKey) (value : V) (ttl : Option Duration) (version : Option String) :
    Balanced (c.set now k value ttl version).metrics (c.set now k value ttl version).store.size
      (c.logStore t k value) := by
  have hencoded := ht.encoded (c.refuses value)
  unfold logStore
  simp only [Cache.set, snd_encode, Store.size_insert]
  cases hk : c.store.get? k with
  | some e =>
    -- The entry that is replaced makes the room.
    simpa [Cache.makeRoom, hk, h.holds.size_remove hk] using hencoded
  | none =>
    have hremove := Store.remove_of_get?_eq_none hk
    by_cases hfull : c.config.capacity ≤ c.store.size
    · cases hs : c.store.evictOldest with
      | none =>
        simpa [Cache.makeRoom, hk, hfull, hs, hremove, Logbook.store_store] using hencoded.added
      | some s =>
        have hremove' := Store.remove_of_get?_eq_none (Store.get?_evictOldest hs hk)
        rw [← h.holds.size_evictOldest hs] at hencoded
        simpa [Cache.makeRoom, hk, hfull, hs, hremove', Logbook.store_store] using
          hencoded.evicted.added
    · simpa [Cache.makeRoom, hk, hfull, hremove, Logbook.store_store] using hencoded.added

theorem balanced_complete (h : Simulates c m) (ht : Balanced c.metrics c.store.size t)
    (now : Instant) (k : CacheKey) (value : V) (ttl : Option Duration) (version : Option String)
    (micros : Nat) :
    Balanced (c.complete now k value ttl version micros).metrics
      (c.complete now k value ttl version micros).store.size (c.logStore t.finish k value) :=
  (h.abandon micros).balanced_set (ht.finished micros) now k value ttl version

/-! ### Removing -/

theorem balanced_delete (h : Simulates c m) (ht : Balanced c.metrics c.store.size t)
    (k : CacheKey) :
    Balanced (c.delete k).1.metrics (c.delete k).1.store.size
      (t.delete (c.store.get? k).isSome) := by
  cases hk : c.store.get? k with
  | none =>
    show Balanced c.metrics (c.store.remove k).size t
    rwa [Store.remove_of_get?_eq_none hk]
  | some e =>
    rw [← h.holds.size_remove hk] at ht
    exact ht.deleted

end Simulates

variable {c : Cache V} {m : PlainCache V} {t : Logbook}

theorem balanced_retain (ht : Balanced c.metrics c.store.size t)
    (keep : CacheKey → Entry V → Bool) :
    Balanced c.metrics (c.store.retain keep).1.size (t.report (c.store.retain keep).2) := by
  rw [← c.store.size_retain keep] at ht
  exact ht.reported

theorem balanced_sweep (ht : Balanced c.metrics c.store.size t) (now : Instant) :
    Balanced (c.sweep now).metrics (c.sweep now).store.size
      (t.sweep (c.store.size - (c.sweep now).store.size)) := by
  have hsize := c.store.size_retain fun _ e => !e.expiredAt now
  have hdrop : c.store.size - (c.sweep now).store.size = (c.purgeExpired now).2 :=
    Nat.sub_eq_of_eq_add (by rw [Nat.add_comm]; exact hsize.symm)
  rw [← hsize] at ht
  rw [hdrop]
  exact ht.swept

/-! ### Calls -/

/-- Whatever a call does to counters and entries goes into the log book. -/
theorem Simulates.balanced_step (h : Simulates c m) (ht : Balanced c.metrics c.store.size t)
    (call : CacheCall V) :
    Balanced (c.step call).1.metrics (c.step call).1.store.size (c.log t call) := by
  obtain ⟨now, op⟩ := call
  cases op with
  | set k value ttl version => exact h.balanced_set ht now k value ttl version
  | get k wanted | tryGet k wanted | has k wanted => exact h.balanced_tryGet ht now k wanted
  | delete k => exact h.balanced_delete ht k
  | clearNamespace ns => exact balanced_retain ht fun k _ => k.ns != ns
  | purgeExpired => exact balanced_retain ht fun _ e => !e.expiredAt now
  | sweep => exact balanced_sweep ht now
  | clear | destroy => exact ht.wiped
  | stats | info k => exact ht
  | complete k derived ttl version micros =>
    exact h.balanced_complete ht now k derived ttl version micros
  | abandon micros => exact ht.finished micros
  | getOrInsert k ttl wanted derived later micros =>
    have hlooked := h.balanced_tryGet ht now k wanted
    have hstate := (h.tryGet now k wanted).1
    simp only [Cache.step, Cache.log, Cache.getOrInsert, Cache.get]
    cases hr : c.tryGet now k wanted with
    | mk c' outcome =>
      rw [hr] at hlooked hstate
      cases outcome with
      | ok v => exact hlooked
      | error reason => exact hstate.balanced_complete hlooked later k derived ttl wanted micros

/-! ### Derivations -/

/-- A call comes with the end of a derivation. -/
def derivesAt (c : Cache V) (call : CacheCall V) : Bool :=
  match call.op with
  | .getOrInsert k _ wanted _ _ _ => (c.get call.now k wanted).2.isNone
  | .complete _ _ _ _ _ | .abandon _ => true
  | _ => false

theorem begun_log (c : Cache V) (t : Logbook) (call : CacheCall V) :
    (c.log t call).begun = t.begun := by
  obtain ⟨now, op⟩ := call
  cases op with
  | getOrInsert k ttl wanted derived later micros =>
    simp only [log]
    split <;> rfl
  | _ => rfl

theorem ended_log (c : Cache V) (t : Logbook) (call : CacheCall V) :
    (c.log t call).ended = t.ended + (c.derivesAt call).toNat := by
  obtain ⟨now, op⟩ := call
  cases op with
  | getOrInsert k ttl wanted derived later micros =>
    simp only [log, derivesAt]
    cases c.get now k wanted with
    | mk c' found => cases found <;> rfl
  | _ => rfl

end Cache

/-! ### Sessions -/

namespace CacheSession

/-- A derivation begins: a lookup finds nothing, and nothing is derived yet under the identity. A
call that comes with the end of a derivation has it begin there too. -/
def begins (s : CacheSession V) : SessionEvent V → Bool
  | .call call => s.cache.derivesAt call
  | .ask now id _ version => (s.cache.get now id.key version).2.isNone && (s.find? id).isNone
  | .derived _ _ _ _ | .abandoned _ _ _ => false

/-- What is noted at an event. -/
def log (s : CacheSession V) (t : Logbook) (event : SessionEvent V) : Logbook :=
  (((s.made? event).map fun call => s.cache.log t call).getD t).beginOf (s.begins event)

/-- What has been noted by the end of a session. -/
def logbook (s : CacheSession V) (t : Logbook) : List (SessionEvent V) → Logbook
  | [] => t
  | event :: events => (s.step event).1.logbook (s.log t event) events

/-- The identities that values are being derived under. -/
def ids (s : CacheSession V) : Finset CallId := (s.underWay.map UnderWay.id).toFinset

theorem mem_ids_iff {s : CacheSession V} {id : CallId} : id ∈ s.ids ↔ (s.find? id).isSome := by
  simp [ids, find?]

theorem ids_others (s : CacheSession V) (id : CallId) :
    ((s.others id).map UnderWay.id).toFinset = s.ids.erase id := by
  ext id'
  simp only [List.mem_toFinset, List.mem_map, others, List.mem_filter, decide_eq_true_eq, ids,
    Finset.mem_erase]
  constructor
  · rintro ⟨u, ⟨hu, hne⟩, rfl⟩
    exact ⟨hne, u, hu, rfl⟩
  · rintro ⟨hne, u, hu, rfl⟩
    exact ⟨u, ⟨hu, hne⟩, rfl⟩

theorem ids_ask (s : CacheSession V) (now : Instant) (id : CallId) (ttl : Option Duration)
    (version : Option String) :
    (s.step (.ask now id ttl version)).1.ids =
      if (s.cache.get now id.key version).2.isSome then s.ids else insert id s.ids := by
  rw [ids, underWay_ask]
  split
  · rfl
  · ext id'
    simp [ids]

theorem ids_derived (s : CacheSession V) (now : Instant) (id : CallId) (value : V)
    (micros : Nat) : (s.step (.derived now id value micros)).1.ids = s.ids.erase id := by
  rw [ids, underWay_derived, ids_others]

theorem ids_abandoned (s : CacheSession V) (now : Instant) (id : CallId) (micros : Nat) :
    (s.step (.abandoned now id micros)).1.ids = s.ids.erase id := by
  rw [ids, underWay_abandoned, ids_others]

theorem card_erase_ids (s : CacheSession V) (id : CallId) :
    (s.ids.erase id).card + (s.find? id).isSome.toNat = s.ids.card := by
  by_cases hid : (s.find? id).isSome
  · rw [hid]
    exact Finset.card_erase_add_one (mem_ids_iff.mpr hid)
  · rw [Finset.erase_eq_of_notMem (mem_ids_iff.not.mpr hid), Bool.eq_false_iff.mpr hid]
    rfl

theorem card_insert_ids (s : CacheSession V) (id : CallId) :
    (insert id s.ids).card = s.ids.card + (s.find? id).isNone.toNat := by
  by_cases hid : (s.find? id).isSome
  · rw [Finset.insert_eq_of_mem (mem_ids_iff.mpr hid), ← Option.not_isSome, hid]
    rfl
  · rw [Finset.card_insert_of_notMem (mem_ids_iff.not.mpr hid), ← Option.not_isSome,
      Bool.eq_false_iff.mpr hid]
    rfl

theorem begun_log (s : CacheSession V) (t : Logbook) (event : SessionEvent V) :
    (s.log t event).begun = t.begun + (s.begins event).toNat := by
  unfold log
  cases s.made? event with
  | none => rfl
  | some call => exact congrArg (· + (s.begins event).toNat) (Cache.begun_log s.cache t call)

theorem ended_log (s : CacheSession V) (t : Logbook) (event : SessionEvent V) :
    (s.log t event).ended = t.ended + ((s.made? event).any s.cache.derivesAt).toNat := by
  unfold log
  cases s.made? event with
  | none => rfl
  | some call => exact Cache.ended_log s.cache t call

/-- A derivation that has begun and has not ended is under way. -/
theorem begun_step {s : CacheSession V} {t : Logbook} (h : t.begun = t.ended + s.ids.card)
    (event : SessionEvent V) :
    (s.log t event).begun = (s.log t event).ended + (s.step event).1.ids.card := by
  rw [begun_log, ended_log, h]
  cases event with
  | call call =>
    show t.ended + s.ids.card + (s.cache.derivesAt call).toNat =
      t.ended + (s.cache.derivesAt call).toNat + s.ids.card
    omega
  | ask now id ttl version =>
    have hmade : (s.made? (.ask now id ttl version)).any s.cache.derivesAt = false := rfl
    rw [ids_ask, begins, hmade]
    cases (s.cache.get now id.key version).2 with
    | some v => rfl
    | none =>
      have hcard := s.card_insert_ids id
      simp only [Option.isNone_none, Bool.true_and, Option.isSome_none, Bool.false_eq_true,
        if_false, Bool.toNat_false]
      omega
  | derived now id value micros =>
    have hmade : (s.made? (.derived now id value micros)).any s.cache.derivesAt =
        (s.find? id).isSome := by
      rw [made?]
      cases s.find? id <;> rfl
    have hcard := s.card_erase_ids id
    rw [ids_derived, begins, hmade, Bool.toNat_false]
    omega
  | abandoned now id micros =>
    have hmade : (s.made? (.abandoned now id micros)).any s.cache.derivesAt =
        (s.find? id).isSome := by
      rw [made?]
      cases s.find? id <;> rfl
    have hcard := s.card_erase_ids id
    rw [ids_abandoned, begins, hmade, Bool.toNat_false]
    omega

theorem balanced_step {s : CacheSession V} {m : PlainCache V} {t : Logbook}
    (h : s.cache.Simulates m) (ht : Balanced s.cache.metrics s.cache.store.size t)
    (event : SessionEvent V) :
    (∃ m', (s.step event).1.cache.Simulates m') ∧
      Balanced (s.step event).1.cache.metrics (s.step event).1.cache.store.size
        (s.log t event) := by
  rw [cache_step, log]
  cases s.made? event with
  | none => exact ⟨⟨m, h⟩, { ht with }⟩
  | some call => exact ⟨⟨_, (h.step call).1⟩, { h.balanced_step ht call with }⟩

theorem balanced_run {s : CacheSession V} {m : PlainCache V} {t : Logbook}
    (h : s.cache.Simulates m) (ht : Balanced s.cache.metrics s.cache.store.size t)
    (hbegun : t.begun = t.ended + s.ids.card) (events : List (SessionEvent V)) :
    Balanced (s.run events).cache.metrics (s.run events).cache.store.size (s.logbook t events) ∧
      (s.logbook t events).begun = (s.logbook t events).ended + (s.run events).ids.card := by
  induction events generalizing s m t with
  | nil => exact ⟨ht, hbegun⟩
  | cons event events ih =>
    obtain ⟨⟨m', h'⟩, ht'⟩ := balanced_step h ht event
    exact ih h' ht' (begun_step hbegun event)

/-- Whatever happens to a new cache, its counters agree with what was noted: the number of lookups,
the causes of misses and of errors, the derivations and their times, and how each entry that ever
came into the store has gone, if it has. A derivation that has begun is counted or under way. -/
theorem balanced_new (config : CacheConfig) (codec : Option (Codec V))
    (events : List (SessionEvent V)) :
    let s := (start (Cache.new config codec)).run events
    let t := (start (Cache.new config codec)).logbook .blank events
    Balanced s.cache.metrics s.cache.stats.size t ∧
      (t.added < UInt64.size → s.cache.metrics.counts.sweptEntries = t.swept) ∧
      t.begun = s.cache.metrics.counts.derivations + s.ids.card := by
  intro s t
  obtain ⟨hbalanced, hbegun⟩ :=
    balanced_run (s := start (Cache.new config codec)) (.new config codec) .zero rfl events
  refine ⟨hbalanced, hbalanced.sweptEntries_eq, ?_⟩
  rw [hbalanced.derivations]
  exact hbegun

end CacheSession

end ActionPolicy
