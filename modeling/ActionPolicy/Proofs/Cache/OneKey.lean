import ActionPolicy.Proofs.Cache.Eviction
import ActionPolicy.Proofs.Cache.Inclusion

/-!
# One key of a cache

What a plain cache holds under one key, seen alone: how it answers lookups, what each call makes of
it, and that calls for other keys leave it as it is where there is room for all.

## Main definitions

* `CacheRecord.live` – a record that is still valid.
* `PlainCache.usable?` – the value of a record for a lookup that wants a version.
* `PlainCache.Confined` – the records of a plain cache have keys of a set for which there is room.

## Main statements

* `PlainCache.toOption_tryGet`, `PlainCache.find?_tryGet` – a lookup depends on the valid record of
  its key, and on no other.
* `PlainCache.find?_set`, `PlainCache.find?_set_of_ne` – what is found after a value is stored.
* `PlainCache.Confined.evicts_eq_false` – nothing is evicted where there is room for all keys.
-/

namespace ActionPolicy

open CacheRecord

variable {V : Type}

namespace CacheRecord

/-- A record that is valid at an instant. -/
def live (t : Instant) (r : Option (CacheRecord V)) : Option (CacheRecord V) :=
  r.filter fun r => t ≤ r.expiresAt

theorem live_some_of_le {t : Instant} {r : CacheRecord V} (h : t ≤ r.expiresAt) :
    live t (some r) = some r := Option.filter_some_pos (decide_eq_true h)

theorem live_some_of_lt {t : Instant} {r : CacheRecord V} (h : r.expiresAt < t) :
    live t (some r) = none := by
  have hnot : ¬t ≤ r.expiresAt := Instant.not_le.mpr h
  exact Option.filter_some_neg (decide_eq_false hnot)

/-- What is valid later is valid before. -/
theorem live_live {t t' : Instant} (h : t ≤ t') (r : Option (CacheRecord V)) :
    live t' (live t r) = live t' r := by
  cases r with
  | none => rfl
  | some r =>
    by_cases hr : t ≤ r.expiresAt
    · rw [live_some_of_le hr]
    · have hlt : r.expiresAt < t := Instant.not_le.mp hr
      have hlt' : r.expiresAt < t' := Instant.lt_of_lt_of_le hlt h
      rw [live_some_of_lt hlt, live_some_of_lt hlt']
      rfl

theorem find?_without (k : CacheKey) (records : List (CacheRecord V)) :
    find? k (without k records) = none := by
  refine List.find?_eq_none.mpr fun r hr hk => ?_
  exact (mem_of_mem_without hr).2 (eq_of_beq hk).symm

theorem find?_without_of_ne {k k' : CacheKey} (h : k' ≠ k) (records : List (CacheRecord V)) :
    find? k (without k' records) = find? k records := by
  rw [find?, without, List.find?_filter]
  congr 1
  funext r
  by_cases hr : r.key = k
  · simp [hr, h.symm]
  · simp [hr]

theorem find?_otherNamespaces (k : CacheKey) (records : List (CacheRecord V)) :
    find? k (records.filter fun r => r.key.ns != k.ns) = none := by
  refine List.find?_eq_none.mpr fun r hr hk => ?_
  have hns := bne_iff_ne.mp (List.mem_filter.mp hr).2
  exact hns (congrArg CacheKey.ns (eq_of_beq hk))

theorem find?_append_self {k : CacheKey} {records : List (CacheRecord V)}
    (h : ∀ r ∈ records, k ≠ r.key) {r : CacheRecord V} (hr : r.key = k) :
    find? k (records ++ [r]) = some r := by
  have hnone : records.find? (fun r => r.key == k) = none :=
    List.find?_eq_none.mpr fun r hr hk => h r hr (eq_of_beq hk).symm
  rw [find?, List.find?_append, hnone]
  simp [hr]

theorem find?_append_of_ne {k : CacheKey} {r : CacheRecord V} (hr : r.key ≠ k)
    (records : List (CacheRecord V)) : find? k (records ++ [r]) = find? k records := by
  rw [find?, List.find?_append]
  simp [hr, find?]

theorem find?_filter {records : List (CacheRecord V)} (hkeys : (records.map key).Nodup)
    (k : CacheKey) (p : CacheRecord V → Bool) :
    find? k (records.filter p) = (find? k records).filter p := by
  cases hp : find? k (records.filter p) with
  | some r =>
    have hr := find?_of_sublist hkeys List.filter_sublist hp
    have hpr : p r = true := (List.mem_filter.mp (List.mem_of_find?_eq_some hp)).2
    rw [hr, Option.filter_some_pos hpr]
  | none =>
    cases hr : find? k records with
    | none => rfl
    | some r =>
      -- A record that stays under the key would be found.
      by_cases hpr : p r = true
      · have hmem := List.mem_filter.mpr ⟨List.mem_of_find?_eq_some hr, hpr⟩
        exact absurd (beq_iff_eq.mpr (key_of_find? hr)) (List.find?_eq_none.mp hp r hmem)
      · rw [Option.filter_some_neg (by simpa using hpr)]

theorem find?_otherNamespaces_of_ne {k : CacheKey} {ns : Namespace} (h : ns ≠ k.ns)
    {records : List (CacheRecord V)} (hkeys : (records.map key).Nodup) :
    find? k (records.filter fun r => r.key.ns != ns) = find? k records := by
  rw [find?_filter hkeys]
  cases hr : find? k records with
  | none => rfl
  | some r =>
    have hkey : r.key = k := key_of_find? hr
    refine Option.filter_some_pos (bne_iff_ne.mpr ?_)
    rw [hkey]
    exact h.symm

theorem find?_purged {records : List (CacheRecord V)} (hkeys : (records.map key).Nodup)
    (k : CacheKey) (now : Instant) :
    find? k (records.filter fun r => !decide (r.expiresAt < now)) = live now (find? k records) := by
  have hvalid : (fun r : CacheRecord V => !decide (r.expiresAt < now)) =
      fun r => decide (now ≤ r.expiresAt) := by
    funext r
    rw [← decide_not]
    exact decide_eq_decide.mpr Instant.not_lt
  rw [hvalid, find?_filter hkeys, live]

end CacheRecord

namespace PlainCache

/-! ### Lookups -/

/-- The value of a valid record for a lookup that wants a version. -/
def usable? (m : PlainCache V) (wanted : Option String) (r : CacheRecord V) : Option V :=
  if wanted.isSome ∧ r.version.isSome ∧ wanted ≠ r.version then none else m.decode r.value

/-- A lookup and the record that it leaves depend on the valid record of the key. -/
theorem tryGet_live (m : PlainCache V) (now : Instant) (k : CacheKey) (wanted : Option String) :
    (m.tryGet now k wanted).2.toOption = (live now (find? k m.records)).bind (m.usable? wanted) ∧
      find? k (m.tryGet now k wanted).1.records = (live now (find? k m.records)).bind
        fun r => (m.usable? wanted r).map fun _ => { r with touchedAt := now } := by
  unfold tryGet lookup usable?
  cases hr : find? k m.records with
  | none => exact ⟨rfl, hr⟩
  | some r =>
    have hgone := find?_without k m.records
    dsimp only
    by_cases hexpired : r.expiresAt < now
    · rw [if_pos hexpired, live_some_of_lt hexpired]
      exact ⟨rfl, hgone⟩
    · have hvalid : now ≤ r.expiresAt := Instant.not_lt.mp hexpired
      rw [if_neg hexpired, live_some_of_le hvalid, Option.bind_some, Option.bind_some]
      split
      · exact ⟨rfl, hgone⟩
      cases hv : m.decode r.value with
      | none => exact ⟨rfl, hgone⟩
      | some v =>
        have hkey : r.key = k := key_of_find? hr
        exact ⟨rfl, find?_append_self (fun r hr => (mem_of_mem_without hr).2) hkey⟩

theorem toOption_tryGet (m : PlainCache V) (now : Instant) (k : CacheKey)
    (wanted : Option String) :
    (m.tryGet now k wanted).2.toOption = (live now (find? k m.records)).bind (m.usable? wanted) :=
  (m.tryGet_live now k wanted).1

theorem find?_tryGet (m : PlainCache V) (now : Instant) (k : CacheKey) (wanted : Option String) :
    find? k (m.tryGet now k wanted).1.records = (live now (find? k m.records)).bind
      fun r => (m.usable? wanted r).map fun _ => { r with touchedAt := now } :=
  (m.tryGet_live now k wanted).2

theorem find?_tryGet_of_ne {k k' : CacheKey} (h : k' ≠ k) (m : PlainCache V) (now : Instant)
    (wanted : Option String) :
    find? k (m.tryGet now k' wanted).1.records = find? k m.records := by
  obtain ⟨_, -, ⟨r, _, hr, -, -, -, heq⟩ | ⟨_, heq⟩⟩ := m.tryGet_cases now k' wanted
  · have hkey : r.key = k' := key_of_find? hr
    rw [heq, find?_append_of_ne (by rwa [hkey]), find?_without_of_ne h]
  · rw [heq, find?_without_of_ne h]

/-! ### Storing -/

section Set

variable (m : PlainCache V) (now : Instant) (k : CacheKey) (value : V) (ttl : Option Duration)
  (version : Option String)

theorem find?_set : find? k (m.set now k value ttl version).records =
    some ⟨k, (m.encode value).1, now, now, now.plus (ttl.getD m.config.defaultTtl), version⟩ :=
  find?_append_self (fun _ hr => (mem_of_mem_staying hr).2) rfl

theorem find?_set_of_ne {k k' : CacheKey} (h : k' ≠ k) (hroom : m.evicts k' = false) :
    find? k (m.set now k' value ttl version).records = find? k m.records := by
  have hrecords : (m.set now k' value ttl version).records = without k' m.records ++
      [⟨k', (m.encode value).1, now, now, now.plus (ttl.getD m.config.defaultTtl), version⟩] := by
    simp [set, staying, hroom]
  rw [hrecords, find?_append_of_ne h, find?_without_of_ne h]

end Set

/-! ### Room for all keys -/

/-- The keys are those of a set, and there is room for all of them. -/
structure Confined (m : PlainCache V) (keys : Finset CacheKey) : Prop where
  mem : ∀ r ∈ m.records, r.key ∈ keys
  room : keys.card ≤ m.limit

namespace Confined

variable {m : PlainCache V} {keys : Finset CacheKey}

theorem evicts_eq_false (h : m.Confined keys) (hnodup : (m.records.map key).Nodup) {k : CacheKey}
    (hk : k ∈ keys) : m.evicts k = false := by
  by_contra hev
  obtain ⟨hnone, hfull⟩ := evicts_iff.mp (by simpa using hev)
  have hnot : k ∉ m.records.map key := by
    intro hmem
    obtain ⟨r, hr, hrk⟩ := List.mem_map.mp hmem
    exact List.find?_eq_none.mp hnone r hr (beq_iff_eq.mpr hrk)
  have hsubset : (k :: m.records.map key).toFinset ⊆ keys := by
    intro x hx
    rcases List.mem_cons.mp (List.mem_toFinset.mp hx) with rfl | hx
    · exact hk
    · obtain ⟨r, hr, rfl⟩ := List.mem_map.mp hx
      exact h.mem r hr
  -- The key would be one more than there is room for.
  have hcard := Finset.card_le_card hsubset
  rw [List.toFinset_card_of_nodup (List.nodup_cons.mpr ⟨hnot, hnodup⟩), List.length_cons,
    List.length_map] at hcard
  have hroom := h.room
  omega

theorem of_subset (h : m.Confined keys) {records : List (CacheRecord V)} (metrics : CacheMetrics)
    (hsub : ∀ r ∈ records, r.key ∈ m.records.map key) :
    Confined { m with records := records, metrics := metrics } keys := by
  refine ⟨fun r hr => ?_, h.room⟩
  obtain ⟨r', hr', hkey⟩ := List.mem_map.mp (hsub r hr)
  exact hkey ▸ h.mem r' hr'

theorem filter (h : m.Confined keys) (p : CacheRecord V → Bool) (metrics : CacheMetrics) :
    Confined { m with records := m.records.filter p, metrics := metrics } keys :=
  h.of_subset metrics fun _ hr => List.mem_map_of_mem (List.mem_filter.mp hr).1

theorem tryGet (h : m.Confined keys) (now : Instant) (k : CacheKey) (wanted : Option String) :
    (m.tryGet now k wanted).1.Confined keys := by
  obtain ⟨_, -, ⟨r, _, hr, -, -, -, heq⟩ | ⟨_, heq⟩⟩ := m.tryGet_cases now k wanted
  · rw [heq]
    have hold : r.key ∈ m.records.map key := List.mem_map_of_mem (List.mem_of_find?_eq_some hr)
    refine h.of_subset _ fun r' hr' => ?_
    rcases List.mem_append.mp hr' with hr' | hr'
    · exact List.mem_map_of_mem (mem_of_mem_without hr').1
    · rwa [List.mem_singleton.mp hr']
  · rw [heq]
    exact h.filter _ _

theorem set (h : m.Confined keys) {k : CacheKey} (hk : k ∈ keys) (now : Instant) (value : V)
    (ttl : Option Duration) (version : Option String) :
    (m.set now k value ttl version).Confined keys := by
  refine ⟨fun r hr => ?_, h.room⟩
  rcases List.mem_append.mp hr with hr | hr
  · exact h.mem r (mem_of_mem_staying hr).1
  · rwa [List.mem_singleton.mp hr]

/-- Only what a call may store under has to be in the set. -/
theorem step (h : m.Confined keys) {call : CacheCall V}
    (hwrite : ∀ k, call.op.writtenKey? = some k → k ∈ keys) : (m.step call).1.Confined keys := by
  obtain ⟨now, op⟩ := call
  cases op with
  | set k value ttl version => exact h.set (hwrite k rfl) now value ttl version
  | complete k derived ttl version micros =>
    have habandon : (m.abandon micros).Confined keys := ⟨h.mem, h.room⟩
    exact habandon.set (hwrite k rfl) now derived ttl version
  | get k wanted | tryGet k wanted | has k wanted => exact h.tryGet now k wanted
  | delete k => exact h.filter _ _
  | clearNamespace ns => exact h.filter _ _
  | purgeExpired | sweep => exact h.filter _ _
  | clear | destroy => exact ⟨fun r hr => absurd hr List.not_mem_nil, h.room⟩
  | stats | info k => exact h
  | abandon micros => exact ⟨h.mem, h.room⟩
  | getOrInsert k ttl wanted derived later micros =>
    have hstate := h.tryGet now k wanted
    simp only [PlainCache.step]
    cases hget : m.tryGet now k wanted with
    | mk n r =>
      rw [hget] at hstate
      cases r with
      | ok v => exact hstate
      | error reason =>
        have habandon : (n.abandon micros).Confined keys := ⟨hstate.mem, hstate.room⟩
        exact habandon.set (hwrite k rfl) later derived ttl wanted

end Confined

end PlainCache

end ActionPolicy
