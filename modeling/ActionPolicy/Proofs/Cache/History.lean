import ActionPolicy.Proofs.Cache.Refinement

/-!
# Histories

What the callers of a cache see happen to its entries, one thing after another. A history is told
from the calls and their answers alone, so a cache and a plain cache that answer alike have the
same.

## Main definitions

* `CacheEvent` – what is seen to happen.
* `CacheCall.events` – what a call and its answer show.
* `Cache.history` – what a sequence of calls shows.
* `PlainCache.Undergoes` – what an event makes of the records of a plain cache.
* `PlainCache.Leads` – the records that a history ends with.

## Main statements

* `PlainCache.tryGet_cases` – the two ends of a lookup.
* `PlainCache.Leads.step`, `PlainCache.Leads.run` – the records after calls are those after their
  events.
* `Cache.leads_history` – a cache holds the records that its history ends with.

## Design notes

A call that derives what it does not find shows two events, a lookup and the storing of a value.
All others show one event or none. So what is to be said of a run is said of each event once, and
the calls need not be gone through again.
-/

namespace ActionPolicy

open CacheRecord

variable {V : Type}

/-- What is seen to happen to the entries of a cache. -/
inductive CacheEvent (V : Type) where
  | stored (now : Instant) (k : CacheKey) (value : V) (ttl : Option Duration)
    (version : Option String)
  /-- A lookup succeeds; the value is seen unless only its presence was asked for. -/
  | found (now : Instant) (k : CacheKey) (wanted : Option String) (seen : Option V)
  /-- A lookup returns nothing. -/
  | missed (k : CacheKey)
  | deleted (k : CacheKey)
  | namespaceCleared (ns : Namespace)
  /-- All entries are removed, for good or not. -/
  | cleared
  /-- The entries past their expiry are removed. -/
  | purged (now : Instant)

/-- What a call and its answer show. A lookup that is not answered with success is a miss. -/
def CacheCall.events (call : CacheCall V) (answer : CacheAnswer V) : List (CacheEvent V) :=
  match call.op, answer with
  | .set k value ttl version, _ => [.stored call.now k value ttl version]
  | .get k wanted, .value (some v) => [.found call.now k wanted (some v)]
  | .get k _, _ => [.missed k]
  | .tryGet k wanted, .outcome (.ok v) => [.found call.now k wanted (some v)]
  | .tryGet k _, _ => [.missed k]
  | .has k wanted, .existed true => [.found call.now k wanted none]
  | .has k _, _ => [.missed k]
  | .delete k, _ => [.deleted k]
  | .clearNamespace ns, _ => [.namespaceCleared ns]
  | .clear, _ => [.cleared]
  | .purgeExpired, _ => [.purged call.now]
  | .sweep, _ => [.purged call.now]
  | .stats, _ => []
  | .info _, _ => []
  | .getOrInsert k _ wanted _ _ _, .derived v false => [.found call.now k wanted (some v)]
  | .getOrInsert k ttl version derived later _, _ =>
    [.missed k, .stored later k derived ttl version]
  | .complete k derived ttl version _, _ => [.stored call.now k derived ttl version]
  | .abandon _, _ => []
  | .destroy, _ => [.cleared]

/-- What a sequence of calls and their answers show. -/
def eventsOf (calls : List (CacheCall V)) (answers : List (CacheAnswer V × CacheMetrics)) :
    List (CacheEvent V) :=
  (List.zipWith (fun call answer => call.events answer.1) calls answers).flatten

/-- What a sequence of calls shows. -/
def Cache.history (c : Cache V) (calls : List (CacheCall V)) : List (CacheEvent V) :=
  eventsOf calls (c.trace calls)

namespace PlainCache

/-! ### Lookups -/

/-- A lookup finds a usable record and moves it behind the others, or leaves none under its key. It
evicts nothing. -/
theorem tryGet_cases (m : PlainCache V) (now : Instant) (k : CacheKey) (wanted : Option String) :
    ∃ metrics : CacheMetrics, metrics.counts.evictions = m.metrics.counts.evictions ∧
      ((∃ r v, find? k m.records = some r ∧ now ≤ r.expiresAt ∧
        (∀ w s, wanted = some w → r.version = some s → w = s) ∧ m.decode r.value = some v ∧
        m.tryGet now k wanted = ({ m with
          records := without k m.records ++ [{ r with touchedAt := now }]
          metrics := metrics }, .ok v)) ∨
      ∃ reason, m.tryGet now k wanted =
        ({ m with records := without k m.records, metrics := metrics }, .error reason)) := by
  unfold tryGet lookup
  cases hr : find? k m.records with
  | none =>
    refine ⟨m.metrics.recordLookup false, rfl, Or.inr ⟨.absent, ?_⟩⟩
    rw [without_eq_self hr]
    rfl
  | some r =>
    dsimp only
    split
    · refine ⟨_, ?_, Or.inr ⟨.expired, rfl⟩⟩
      rfl
    rename_i hvalid
    split
    · refine ⟨_, ?_, Or.inr ⟨.versionMismatch, rfl⟩⟩
      rfl
    rename_i hversion
    cases hv : m.decode r.value with
    | none =>
      refine ⟨_, ?_, Or.inr ⟨.undecodable, rfl⟩⟩
      rfl
    | some v =>
      have hagree : ∀ w s, wanted = some w → r.version = some s → w = s := by
        intro w s hw hs
        by_contra hne
        exact hversion ⟨by simp [hw], by simp [hs], by simpa [hw, hs] using hne⟩
      refine ⟨_, ?_, Or.inl ⟨r, v, rfl, Instant.not_lt.mp hvalid, hagree, hv, rfl⟩⟩
      rfl

theorem codec_step (m : PlainCache V) (call : CacheCall V) : (m.step call).1.codec = m.codec := by
  have hlookup : ∀ now k wanted, (m.tryGet now k wanted).1.codec = m.codec := by
    intro now k wanted
    obtain ⟨_, -, ⟨_, _, -, -, -, -, h⟩ | ⟨_, h⟩⟩ := m.tryGet_cases now k wanted
    · rw [h]
    · rw [h]
  obtain ⟨now, op⟩ := call
  cases op with
  | get k wanted => exact hlookup now k wanted
  | tryGet k wanted => exact hlookup now k wanted
  | has k wanted => exact hlookup now k wanted
  | getOrInsert k ttl version derived later micros =>
    simp only [step]
    obtain ⟨_, -, ⟨_, _, -, -, -, -, h⟩ | ⟨_, h⟩⟩ := m.tryGet_cases now k version
    · rw [h]
    · rw [h]
      rfl
  | _ => rfl

/-! ### Events -/

/-- What an event makes of the records of a plain cache. -/
inductive Undergoes (m : PlainCache V) : CacheEvent V → List (CacheRecord V) → Prop where
  | stored (now : Instant) (k : CacheKey) (value : V) (ttl : Option Duration)
      (version : Option String) :
    Undergoes m (.stored now k value ttl version) (m.staying k ++
      [⟨k, (m.encode value).1, now, now, now.plus (ttl.getD m.config.defaultTtl), version⟩])
  | found {now : Instant} {k : CacheKey} {wanted : Option String} {seen : Option V}
      {r : CacheRecord V} (hr : find? k m.records = some r) (hvalid : now ≤ r.expiresAt)
      (hversion : ∀ w s, wanted = some w → r.version = some s → w = s)
      (hseen : ∀ v, seen = some v → m.decode r.value = some v) :
    Undergoes m (.found now k wanted seen) (without k m.records ++ [{ r with touchedAt := now }])
  | missed (k : CacheKey) : Undergoes m (.missed k) (without k m.records)
  | deleted (k : CacheKey) : Undergoes m (.deleted k) (without k m.records)
  | namespaceCleared (ns : Namespace) :
    Undergoes m (.namespaceCleared ns) (m.records.filter fun r => r.key.ns != ns)
  | cleared : Undergoes m .cleared []
  | purged (now : Instant) :
    Undergoes m (.purged now) (m.records.filter fun r => !decide (r.expiresAt < now))

/-- A new plain cache with the given settings has these records after the history. -/
inductive Leads (config : CacheConfig) (codec : Option (Codec V)) :
    List (CacheEvent V) → List (CacheRecord V) → Prop where
  | start : Leads config codec [] []
  | next {history : List (CacheEvent V)} {e : CacheEvent V} {records records' : List (CacheRecord V)}
      (h : Leads config codec history records)
      (he : Undergoes ⟨config, codec, records, .zero⟩ e records') :
    Leads config codec (history ++ [e]) records'

variable {config : CacheConfig} {codec : Option (Codec V)} {history : List (CacheEvent V)}

/-- Whatever happens in the course of a history happens to the records that led there. -/
theorem Leads.undergoes {before after : List (CacheEvent V)} {e : CacheEvent V}
    {records : List (CacheRecord V)} (h : Leads config codec (before ++ e :: after) records) :
    ∃ records₀ records₁, Leads config codec before records₀ ∧
      Undergoes ⟨config, codec, records₀, .zero⟩ e records₁ := by
  generalize hhistory : before ++ e :: after = history at h
  induction h generalizing after with
  | start => simp at hhistory
  | next h he ih =>
    rcases List.eq_nil_or_concat after with rfl | ⟨after', e', rfl⟩
    · obtain ⟨rfl, hlast⟩ := List.append_inj' hhistory rfl
      obtain rfl := List.singleton_inj.mp hlast
      exact ⟨_, _, h, he⟩
    · -- The last event is a later one.
      rw [List.concat_eq_append, ← List.cons_append, ← List.append_assoc] at hhistory
      exact ih (List.append_inj' hhistory rfl).1

/-- After a lookup there are the records after what is seen of it, whether or not the value is. -/
theorem Leads.tryGet {m : PlainCache V} (h : Leads m.config m.codec history m.records)
    (now : Instant) (k : CacheKey) (wanted : Option String) :
    (∃ m' v, m.tryGet now k wanted = (m', .ok v) ∧
      Leads m.config m.codec (history ++ [.found now k wanted (some v)]) m'.records ∧
      Leads m.config m.codec (history ++ [.found now k wanted none]) m'.records) ∨
    ∃ records metrics reason,
      m.tryGet now k wanted = ({ m with records := records, metrics := metrics }, .error reason) ∧
      Leads m.config m.codec (history ++ [.missed k]) records := by
  obtain ⟨_, -, ⟨r, v, hr, hvalid, hversion, hv, heq⟩ | ⟨reason, heq⟩⟩ :=
    m.tryGet_cases now k wanted
  · refine Or.inl ⟨_, v, heq, h.next (.found hr hvalid hversion fun w hw => ?_),
      h.next (.found hr hvalid hversion fun w hw => ?_)⟩
    · rw [← Option.some.inj hw]
      exact hv
    · contradiction
  · exact Or.inr ⟨_, _, reason, heq, h.next (.missed k)⟩

/-- After a call there are the records after its events. -/
theorem Leads.step {m : PlainCache V} (h : Leads m.config m.codec history m.records)
    (call : CacheCall V) :
    Leads m.config m.codec (history ++ call.events (m.step call).2) (m.step call).1.records := by
  have hone : ∀ {e records}, Undergoes ⟨m.config, m.codec, m.records, .zero⟩ e records →
      Leads m.config m.codec (history ++ [e]) records := h.next
  obtain ⟨now, op⟩ := call
  cases op with
  | set k value ttl version => exact hone (.stored now k value ttl version)
  | get k wanted =>
    simp only [PlainCache.step]
    rcases h.tryGet now k wanted with ⟨m', v, heq, hfound, -⟩ | ⟨_, _, reason, heq, hmissed⟩
    · rw [heq]
      exact hfound
    · rw [heq]
      exact hmissed
  | tryGet k wanted =>
    simp only [PlainCache.step]
    rcases h.tryGet now k wanted with ⟨m', v, heq, hfound, -⟩ | ⟨_, _, reason, heq, hmissed⟩
    · rw [heq]
      exact hfound
    · rw [heq]
      exact hmissed
  | has k wanted =>
    simp only [PlainCache.step]
    rcases h.tryGet now k wanted with ⟨m', v, heq, -, hpresent⟩ | ⟨_, _, reason, heq, hmissed⟩
    · rw [heq]
      exact hpresent
    · rw [heq]
      exact hmissed
  | getOrInsert k ttl version derived later micros =>
    simp only [PlainCache.step]
    rcases h.tryGet now k version with ⟨m', v, heq, hfound, -⟩ | ⟨_, _, reason, heq, hmissed⟩
    · rw [heq]
      exact hfound
    · rw [heq]
      have hstored := hmissed.next (.stored later k derived ttl version)
      rw [List.append_assoc] at hstored
      exact hstored
  | complete k derived ttl version micros => exact hone (.stored now k derived ttl version)
  | delete k => exact hone (.deleted k)
  | clearNamespace ns => exact hone (.namespaceCleared ns)
  | clear => exact hone .cleared
  | purgeExpired => exact hone (.purged now)
  | sweep => exact hone (.purged now)
  | destroy => exact hone .cleared
  | stats | info k | abandon micros =>
    show Leads m.config m.codec (history ++ []) m.records
    rwa [List.append_nil]

theorem Leads.run {m : PlainCache V} (h : Leads m.config m.codec history m.records)
    (calls : List (CacheCall V)) :
    Leads m.config m.codec (history ++ eventsOf calls (m.trace calls)) (m.run calls).records := by
  induction calls generalizing m history with
  | nil =>
    rw [trace, eventsOf, List.zipWith_nil_left, List.flatten_nil, List.append_nil]
    exact h
  | cons call rest ih =>
    have hstep := h.step call
    rw [← m.config_step call, ← m.codec_step call] at hstep ⊢
    have hrest := ih hstep
    rw [List.append_assoc] at hrest
    exact hrest

end PlainCache

namespace Cache

/-- After any calls a new cache holds the records that its history ends with. -/
theorem leads_history (config : CacheConfig) (codec : Option (Codec V))
    (calls : List (CacheCall V)) :
    PlainCache.Leads config codec ((Cache.new config codec).history calls)
      ((PlainCache.new config codec).run calls).records := by
  rw [history, (Simulates.new config codec).trace_eq calls]
  exact PlainCache.Leads.run (m := PlainCache.new config codec) .start calls

end Cache

end ActionPolicy
