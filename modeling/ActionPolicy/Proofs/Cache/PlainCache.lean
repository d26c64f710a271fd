import ActionPolicy.Cache.Calls
import ActionPolicy.Proofs.Cache.Records

/-!
# Plain caches

A cache as it is explained to somebody who uses it: one list of records, the one touched longest ago
first. There is no index and there are no ticks.

## Main definitions

* `PlainCache` – settings, codec, records and counters.
* `PlainCache.step`, `PlainCache.trace` – the answers to calls.

## Design notes

A value that is stored takes the place behind all others. If its key is new and the list is full,
the head of the list goes first. A lookup that succeeds moves its record behind all others, and one
that finds something unusable takes the record out.
-/

namespace ActionPolicy

open CacheRecord

/-- A cache that is one list of records. -/
structure PlainCache (V : Type) where
  config : CacheConfig
  /-- How values are held, if not as they are. -/
  codec : Option (Codec V)
  /-- What it holds, the record touched longest ago first. -/
  records : List (CacheRecord V)
  metrics : CacheMetrics

namespace PlainCache

variable {V : Type}

/-- A new cache. -/
def new (config : CacheConfig) (codec : Option (Codec V)) : PlainCache V :=
  ⟨config, codec, [], .zero⟩

/-- How many records there may be: one at least. -/
def limit (m : PlainCache V) : Nat := max m.config.capacity 1

/-- A value as it is held, and whether encoding it failed. -/
def encode (m : PlainCache V) (value : V) : Stored V × Bool :=
  match m.codec.map fun codec => codec.encode value with
  | none => (.raw value, false)
  | some none => (.raw value, true)
  | some (some bytes) => (.encoded bytes, false)

/-- The value that is held, if it can be decoded. -/
def decode (m : PlainCache V) (held : Stored V) : Option V :=
  match held, m.codec with
  | .raw value, _ => some value
  | .encoded bytes, some codec => codec.decode bytes
  | .encoded _, none => none

/-- A new record under a key needs the place of another one. -/
def evicts (m : PlainCache V) (k : CacheKey) : Bool :=
  (find? k m.records).isNone && m.records.length = m.limit

/-- The records that stay when one under a key is stored. -/
def staying (m : PlainCache V) (k : CacheKey) : List (CacheRecord V) :=
  if m.evicts k then m.records.tail else without k m.records

/-- Store a value. -/
def set (m : PlainCache V) (now : Instant) (k : CacheKey) (value : V) (ttl : Option Duration)
    (version : Option String) : PlainCache V :=
  let (held, failed) := m.encode value
  let expiresAt := now.plus (ttl.getD m.config.defaultTtl)
  let metrics := if failed then m.metrics.recordTransformError else m.metrics
  { m with
    records := m.staying k ++ [⟨k, held, now, now, expiresAt, version⟩]
    metrics := if m.evicts k then metrics.recordEviction else metrics }

/-- The cache without the record under a key, after counting why. -/
def drop (m : PlainCache V) (k : CacheKey) (count : CacheMetrics → CacheMetrics) : PlainCache V :=
  { m with records := without k m.records, metrics := count m.metrics }

/-- Look a value up, without counting the lookup itself. -/
def lookup (m : PlainCache V) (now : Instant) (k : CacheKey) (version : Option String) :
    PlainCache V × Except MissReason V :=
  match find? k m.records with
  | none => (m, .error .absent)
  | some r =>
    if r.expiresAt < now then (m.drop k .recordExpiration, .error .expired)
    else if version.isSome ∧ r.version.isSome ∧ version ≠ r.version then
      (m.drop k .recordVersionMismatch, .error .versionMismatch)
    else
      match m.decode r.value with
      | none => (m.drop k .recordTransformError, .error .undecodable)
      | some value =>
        ({ m with records := without k m.records ++ [{ r with touchedAt := now }] }, .ok value)

/-- Look a value up; if there is none that can be used, say why. -/
def tryGet (m : PlainCache V) (now : Instant) (k : CacheKey) (version : Option String) :
    PlainCache V × Except MissReason V :=
  let (m, outcome) := m.lookup now k version
  ({ m with metrics := m.metrics.recordLookup outcome.isOk }, outcome)

/-- Keep some records; tells how many go. -/
def keep (m : PlainCache V) (test : CacheRecord V → Bool) : PlainCache V × Nat :=
  ({ m with records := m.records.filter test }, m.records.countP fun r => !test r)

/-- Remove the record under a key; tells whether there was one. -/
def delete (m : PlainCache V) (k : CacheKey) : PlainCache V × Bool :=
  ({ m with records := without k m.records }, (find? k m.records).isSome)

/-- Remove the records of a namespace; tells how many there were. -/
def clearNamespace (m : PlainCache V) (ns : Namespace) : PlainCache V × Nat :=
  m.keep fun r => r.key.ns != ns

/-- Remove the records past their expiry; tells how many there were. -/
def purgeExpired (m : PlainCache V) (now : Instant) : PlainCache V × Nat :=
  m.keep fun r => !decide (r.expiresAt < now)

/-- The same in the background. -/
def sweep (m : PlainCache V) (now : Instant) : PlainCache V :=
  let (m, removed) := m.purgeExpired now
  { m with metrics := m.metrics.recordSweep removed }

/-- Remove all records. -/
def clear (m : PlainCache V) : PlainCache V := { m with records := [] }

/-- The numbers of records, in all and in each namespace that has some. -/
def stats (m : PlainCache V) : CacheStats where
  size := m.records.length
  capacity := m.limit
  byNamespace := (Named.all (α := Namespace)).filterMap fun ns =>
    let n := m.records.countP fun r => r.key.ns == ns
    if n = 0 then none else some (ns, n)

/-- What is known about a record apart from its value. -/
def info (m : PlainCache V) (k : CacheKey) : Option EntryInfo :=
  (find? k m.records).map fun r =>
    ⟨r.storedAt, r.touchedAt, r.expiresAt, r.version, r.value.isEncoded⟩

/-- A derivation ends without a value. -/
def abandon (m : PlainCache V) (micros : Nat) : PlainCache V :=
  { m with metrics := m.metrics.recordDerivation micros }

/-- A derivation ends with a value, which is stored. -/
def complete (m : PlainCache V) (now : Instant) (k : CacheKey) (value : V) (ttl : Option Duration)
    (version : Option String) (micros : Nat) : PlainCache V :=
  (m.abandon micros).set now k value ttl version

/-- One call: the state after it, and the answer. -/
def step (m : PlainCache V) (call : CacheCall V) : PlainCache V × CacheAnswer V :=
  match call.op with
  | .set k value ttl version => (m.set call.now k value ttl version, .done)
  | .get k version =>
    let (m, outcome) := m.tryGet call.now k version
    (m, .value outcome.toOption)
  | .tryGet k version =>
    let (m, outcome) := m.tryGet call.now k version
    (m, .outcome outcome)
  | .has k version =>
    let (m, outcome) := m.tryGet call.now k version
    (m, .existed outcome.isOk)
  | .delete k => (m.delete k).map id .existed
  | .clearNamespace ns => (m.clearNamespace ns).map id .removed
  | .clear => (m.clear, .done)
  | .purgeExpired => (m.purgeExpired call.now).map id .removed
  | .sweep => (m.sweep call.now, .done)
  | .stats => (m, .stats m.stats)
  | .info k => (m, .info (m.info k))
  | .getOrInsert k ttl version derived later micros =>
    match m.tryGet call.now k version with
    | (m, .ok value) => (m, .derived value false)
    | (m, .error _) => (m.complete later k derived ttl version micros, .derived derived true)
  | .complete k derived ttl version micros =>
    (m.complete call.now k derived ttl version micros, .done)
  | .abandon micros => (m.abandon micros, .done)
  | .destroy => (m.clear, .done)

/-- What can be seen of a sequence of calls: every answer, and the counters after it. -/
def trace (m : PlainCache V) : List (CacheCall V) → List (CacheAnswer V × CacheMetrics)
  | [] => []
  | call :: rest =>
    let (m, answer) := m.step call
    (answer, m.metrics) :: m.trace rest

/-- The state after a sequence of calls. -/
def run (m : PlainCache V) (calls : List (CacheCall V)) : PlainCache V :=
  calls.foldl (fun m call => (m.step call).1) m

/-! ### Making room -/

theorem limit_pos (m : PlainCache V) : 0 < m.limit :=
  Nat.lt_of_lt_of_le Nat.one_pos (Nat.le_max_right _ _)

theorem evicts_iff {m : PlainCache V} {k : CacheKey} :
    m.evicts k = true ↔ find? k m.records = none ∧ m.records.length = m.limit := by
  rw [evicts, Bool.and_eq_true, Option.isNone_iff_eq_none, decide_eq_true_iff]

/-- When a record is stored under a key, the records of the other keys stay but for the one that
makes room. -/
theorem without_staying (m : PlainCache V) (k : CacheKey) :
    without k (if m.evicts k then m.records.tail else m.records) = m.staying k := by
  unfold staying
  by_cases hev : m.evicts k
  · have hnone := (evicts_iff.1 hev).1
    have htail : find? k m.records.tail = none :=
      List.find?_eq_none.2 fun r hr => List.find?_eq_none.1 hnone r (List.mem_of_mem_tail hr)
    rw [if_pos hev, if_pos hev, without_eq_self htail]
  · rw [if_neg hev, if_neg hev]

theorem staying_sublist (m : PlainCache V) (k : CacheKey) : (m.staying k).Sublist m.records := by
  unfold staying
  split
  · exact List.tail_sublist _
  · exact List.filter_sublist

theorem mem_of_mem_staying {m : PlainCache V} {k : CacheKey} {r : CacheRecord V}
    (hr : r ∈ m.staying k) : r ∈ m.records ∧ k ≠ r.key := by
  refine ⟨(m.staying_sublist k).subset hr, ?_⟩
  rw [← without_staying] at hr
  exact (mem_of_mem_without hr).2

theorem length_staying_lt {m : PlainCache V} (hbounded : m.records.length ≤ m.limit)
    (k : CacheKey) : (m.staying k).length < m.limit := by
  have hpos := m.limit_pos
  unfold staying
  by_cases hev : m.evicts k = true
  · have hfull := (evicts_iff.1 hev).2
    rw [if_pos hev, List.length_tail]
    omega
  · rw [if_neg hev]
    cases hk : find? k m.records with
    | some r =>
      have hless := length_without_lt hk
      omega
    | none =>
      have hroom : m.records.length ≠ m.limit := fun hfull => hev (evicts_iff.2 ⟨hk, hfull⟩)
      rw [without_eq_self hk]
      omega

/-! ### Settings -/

theorem config_tryGet (m : PlainCache V) (now : Instant) (k : CacheKey) (version : Option String) :
    (m.tryGet now k version).1.config = m.config := by
  unfold tryGet lookup
  cases find? k m.records with
  | none => rfl
  | some r =>
    dsimp only
    split
    · rfl
    · split
      · rfl
      · split <;> rfl

theorem config_step (m : PlainCache V) (call : CacheCall V) : (m.step call).1.config = m.config := by
  obtain ⟨now, op⟩ := call
  cases op with
  | get k version => exact m.config_tryGet now k version
  | tryGet k version => exact m.config_tryGet now k version
  | has k version => exact m.config_tryGet now k version
  | getOrInsert k ttl version derived later micros =>
    have hconfig := m.config_tryGet now k version
    simp only [step]
    cases hr : m.tryGet now k version with
    | mk m' r =>
      rw [hr] at hconfig
      cases r <;> exact hconfig
  | _ => rfl

/-- Settings never change. -/
theorem config_run (m : PlainCache V) (calls : List (CacheCall V)) :
    (m.run calls).config = m.config := by
  induction calls generalizing m with
  | nil => rfl
  | cons call rest ih => exact (ih _).trans (m.config_step call)

theorem limit_run (m : PlainCache V) (calls : List (CacheCall V)) :
    (m.run calls).limit = m.limit := by
  rw [limit, limit, config_run]

end PlainCache

end ActionPolicy
