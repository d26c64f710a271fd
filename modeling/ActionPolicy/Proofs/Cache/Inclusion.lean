import ActionPolicy.Proofs.Cache.History

/-!
# Larger caches

Whatever a cache holds, a larger one that is used in the same way holds too. So it finds all that
the smaller one finds.

## Main definitions

* `CacheOp.derives` – the operation stores a value only if it finds none.
* `PlainCache.Within` – what one plain cache holds another one holds, in the same order.
* `Cache.record?` – what a cache holds under a key.

## Main statements

* `PlainCache.Within.staying` – what makes room in the larger cache makes room in the smaller one.
* `PlainCache.Within.step`, `Cache.Simulates.within_run` – the same calls keep plain caches related.
* `Cache.run_capacity_le` – the larger of two caches holds all that the smaller one holds.

## Design notes

A lookup that the larger cache alone answers with success touches a record there and none in the
smaller one. So the records of the two are not the last ones of one list. They keep their order, and
that is enough: a record goes from the larger cache only if it is the first one there, and if it is
in the smaller one too, it is the first one there.

If a value is derived only where none is found, the two caches need not hold the same value after
it, so such calls are left out.
-/

namespace ActionPolicy

open CacheRecord

variable {V : Type}

/-- A value is derived and stored if none is found, and not otherwise. -/
def CacheOp.derives : CacheOp V → Bool
  | getOrInsert _ _ _ _ _ _ => true
  | _ => false

/-- Of a part of a list not more is filtered out than of the whole. -/
theorem length_filter_add_le {α : Type} {l l' : List α} (h : l.Sublist l') (p : α → Bool) :
    (l'.filter p).length + l.length ≤ (l.filter p).length + l'.length := by
  have hout : l.countP (fun a => ¬p a) ≤ l'.countP fun a => ¬p a := h.countP_le
  have hl := List.length_eq_countP_add_countP p (l := l)
  have hl' := List.length_eq_countP_add_countP p (l := l')
  rw [← List.countP_eq_length_filter, ← List.countP_eq_length_filter]
  omega

namespace CacheRecord

/-- A record is found among more records if no two have the same key. -/
theorem find?_of_sublist {k : CacheKey} {records records' : List (CacheRecord V)}
    {r : CacheRecord V} (hkeys : (records'.map key).Nodup) (h : records.Sublist records')
    (hr : find? k records = some r) : find? k records' = some r := by
  have hkey : r.key = k := key_of_find? hr
  have hmem := h.subset (List.mem_of_find?_eq_some hr)
  cases hr' : find? k records' with
  | none => exact absurd (beq_iff_eq.mpr hkey) (List.find?_eq_none.mp hr' r hmem)
  | some r' =>
    have hkey' : r'.key = k := key_of_find? hr'
    exact congrArg some (List.inj_on_of_nodup_map hkeys (List.mem_of_find?_eq_some hr') hmem
      (hkey'.trans hkey.symm))

end CacheRecord

namespace PlainCache

/-- There are not more records than there may be, and no two have the same key. -/
structure Sound (m : PlainCache V) : Prop where
  bounded : m.records.length ≤ m.limit
  keys : (m.records.map key).Nodup

/-- What the first cache holds the second one holds, in the same order, and it does not hold more
besides than it has more room. It treats values in the same way. -/
structure Within (m m' : PlainCache V) : Prop where
  codec : m'.codec = m.codec
  defaultTtl : m'.config.defaultTtl = m.config.defaultTtl
  records : m.records.Sublist m'.records
  extra : m'.records.length + m.limit ≤ m.records.length + m'.limit

namespace Within

variable {m m' : PlainCache V}

theorem new {config : CacheConfig} {codec : Option (Codec V)} {small large : Nat}
    (hle : small ≤ large) :
    Within (PlainCache.new { config with capacity := small } codec)
      (PlainCache.new { config with capacity := large } codec) where
  codec := rfl
  defaultTtl := rfl
  records := .slnil
  extra := by
    have hlimit : max small 1 ≤ max large 1 := by omega
    exact Nat.add_le_add_left hlimit 0

theorem encode_eq (h : Within m m') (value : V) : m'.encode value = m.encode value := by
  rw [encode, encode, h.codec]

theorem decode_eq (h : Within m m') (held : Stored V) : m'.decode held = m.decode held := by
  unfold decode
  rw [h.codec]

theorem change (h : Within m m') {records records' : List (CacheRecord V)}
    (hrecords : records.Sublist records')
    (hextra : records'.length + m.limit ≤ records.length + m'.limit)
    (metrics metrics' : CacheMetrics) :
    Within { m with records := records, metrics := metrics }
      { m' with records := records', metrics := metrics' } :=
  ⟨h.codec, h.defaultTtl, hrecords, hextra⟩

/-! ### Removing -/

theorem extra_filter (h : Within m m') (p : CacheRecord V → Bool) :
    (m'.records.filter p).length + m.limit ≤ (m.records.filter p).length + m'.limit := by
  have hfilter := length_filter_add_le h.records p
  have hextra := h.extra
  omega

theorem filter (h : Within m m') (p : CacheRecord V → Bool) (metrics metrics' : CacheMetrics) :
    Within { m with records := m.records.filter p, metrics := metrics }
      { m' with records := m'.records.filter p, metrics := metrics' } :=
  h.change (h.records.filter p) (h.extra_filter p) metrics metrics'

theorem others (h : Within m m') (k : CacheKey) :
    (without k m.records).Sublist (without k m'.records) ∧
      (without k m'.records).length + m.limit ≤ (without k m.records).length + m'.limit :=
  ⟨h.records.filter _, h.extra_filter _⟩

theorem clear (h : Within m m') : Within m.clear m'.clear := by
  have hle : m.limit ≤ m'.limit := by
    have hlength := h.records.length_le
    have hextra := h.extra
    omega
  exact h.change .slnil (Nat.add_le_add_left hle 0) m.metrics m'.metrics

/-! ### Storing -/

/-- What makes room in the larger cache makes room in the smaller one. -/
theorem staying (h : Within m m') (hm : m.records.length ≤ m.limit)
    (hm' : m'.records.length ≤ m'.limit) (k : CacheKey) :
    (m.staying k).Sublist (m'.staying k) ∧
      (m'.staying k).length + m.limit ≤ (m.staying k).length + m'.limit := by
  have hextra := h.extra
  by_cases hev' : m'.evicts k = true
  · -- The larger cache is full, so the smaller one is.
    obtain ⟨hnone', hfull'⟩ := evicts_iff.mp hev'
    have hnone : find? k m.records = none :=
      List.find?_eq_none.mpr fun r hr => List.find?_eq_none.mp hnone' r (h.records.subset hr)
    have hfull : m.records.length = m.limit := by omega
    have hev : m.evicts k = true := evicts_iff.mpr ⟨hnone, hfull⟩
    have hpos := m'.limit_pos
    rw [PlainCache.staying, PlainCache.staying, if_pos hev', if_pos hev, List.length_tail,
      List.length_tail]
    exact ⟨h.records.tail, by omega⟩
  · by_cases hev : m.evicts k = true
    · obtain ⟨hnone, hfull⟩ := evicts_iff.mp hev
      have hroom := length_staying_lt hm' k
      have hsub := (h.others k).1
      rw [without_eq_self hnone] at hsub
      rw [PlainCache.staying, if_neg hev'] at hroom
      rw [PlainCache.staying, PlainCache.staying, if_neg hev', if_pos hev, List.length_tail]
      exact ⟨(List.tail_sublist _).trans hsub, by omega⟩
    · rw [PlainCache.staying, PlainCache.staying, if_neg hev', if_neg hev]
      exact h.others k

theorem set (h : Within m m') (hm : m.records.length ≤ m.limit)
    (hm' : m'.records.length ≤ m'.limit) (now : Instant) (k : CacheKey) (value : V)
    (ttl : Option Duration) (version : Option String) :
    Within (m.set now k value ttl version) (m'.set now k value ttl version) := by
  obtain ⟨hsub, hextra⟩ := h.staying hm hm' k
  rw [PlainCache.set, PlainCache.set, h.encode_eq, h.defaultTtl]
  refine h.change (hsub.append (.refl _)) ?_ _ _
  rw [List.length_append, List.length_append]
  omega

/-! ### Looking up -/

theorem touch (h : Within m m') (k : CacheKey) (r : CacheRecord V) (metrics metrics' : CacheMetrics) :
    Within { m with records := without k m.records ++ [r], metrics := metrics }
      { m' with records := without k m'.records ++ [r], metrics := metrics' } := by
  obtain ⟨hsub, hextra⟩ := h.others k
  refine h.change (hsub.append (.refl _)) ?_ metrics metrics'
  rw [List.length_append, List.length_append]
  omega

/-- If a lookup succeeds in the smaller cache, it succeeds in the larger one, with the same
value. -/
theorem tryGet (h : Within m m') (hm' : (m'.records.map key).Nodup) (now : Instant) (k : CacheKey)
    (wanted : Option String) :
    Within (m.tryGet now k wanted).1 (m'.tryGet now k wanted).1 ∧
      ∀ v, (m.tryGet now k wanted).2 = .ok v → (m'.tryGet now k wanted).2 = .ok v := by
  cases hr : find? k m.records with
  | none =>
    have hmiss : m.tryGet now k wanted =
        ({ m with metrics := m.metrics.recordLookup false }, .error .absent) := by
      simp only [PlainCache.tryGet, PlainCache.lookup, hr]
      rfl
    have hsub := (h.others k).1
    have hextra := h.extra
    rw [without_eq_self hr] at hsub
    rw [hmiss]
    refine ⟨?_, fun v hv => by contradiction⟩
    obtain ⟨metrics', -, ⟨r, v, hr', -, -, -, heq⟩ | ⟨reason, heq⟩⟩ := m'.tryGet_cases now k wanted
    · -- Only the larger cache has a record to touch.
      have hless := length_without_lt hr'
      rw [heq]
      refine h.change (hsub.trans (List.sublist_append_left _ _)) ?_ _ _
      rw [List.length_append, List.length_singleton]
      omega
    · have hle := length_without_le k m'.records
      rw [heq]
      exact h.change hsub (by omega) _ _
  | some r =>
    have hr' := find?_of_sublist hm' h.records hr
    simp only [PlainCache.tryGet, PlainCache.lookup, hr, hr', h.decode_eq]
    split
    · exact ⟨h.filter _ _ _, fun v hv => by contradiction⟩
    split
    · exact ⟨h.filter _ _ _, fun v hv => by contradiction⟩
    cases m.decode r.value with
    | none => exact ⟨h.filter _ _ _, fun v hv => by contradiction⟩
    | some v => exact ⟨h.touch k _ _ _, fun _ hv => hv⟩

/-! ### Calls -/

theorem step (h : Within m m') (hm : m.Sound) (hm' : m'.Sound) {call : CacheCall V}
    (hcall : call.op.derives = false) : Within (m.step call).1 (m'.step call).1 := by
  obtain ⟨now, op⟩ := call
  cases op with
  | set k value ttl version => exact h.set hm.bounded hm'.bounded now k value ttl version
  | complete k derived ttl version micros =>
    have habandon : Within (m.abandon micros) (m'.abandon micros) :=
      h.change h.records h.extra _ _
    exact habandon.set hm.bounded hm'.bounded now k derived ttl version
  | get k wanted | tryGet k wanted | has k wanted => exact (h.tryGet hm'.keys now k wanted).1
  | delete k => exact h.filter _ _ _
  | clearNamespace ns => exact h.filter _ _ _
  | purgeExpired | sweep => exact h.filter _ _ _
  | clear | destroy => exact h.clear
  | stats | info k => exact h
  | abandon micros => exact h.change h.records h.extra _ _
  | getOrInsert => contradiction

end Within

end PlainCache

namespace Cache

/-- What a cache holds under a key, valid or not. -/
def record? (c : Cache V) (k : CacheKey) : Option (CacheRecord V) :=
  (c.store.get? k).map fun e => ofEntry (k, e)

theorem Simulates.sound {c : Cache V} {m : PlainCache V} (h : Simulates c m) : m.Sound where
  bounded := h.bounded
  keys := by
    obtain ⟨l, hl, hrecords⟩ := h.holds
    rw [hrecords, List.map_map]
    exact hl.keys

theorem Simulates.within_run {c c' : Cache V} {m m' : PlainCache V} (h : Simulates c m)
    (h' : Simulates c' m') (hwithin : m.Within m') {calls : List (CacheCall V)}
    (hcalls : ∀ call ∈ calls, call.op.derives = false) : (m.run calls).Within (m'.run calls) := by
  -- That the two caches simulate plain ones carries what a step needs: bounds and distinct keys.
  induction calls generalizing c c' m m' with
  | nil => exact hwithin
  | cons call rest ih =>
    obtain ⟨hcall, hrest⟩ := List.forall_mem_cons.mp hcalls
    exact ih (h.step call).1 (h'.step call).1 (hwithin.step h.sound h'.sound hcall) hrest

/-- What is told of a lookup apart from its reason follows the lookup. -/
theorem hits_of_ok {x x' : Except MissReason V} (h : ∀ v, x = .ok v → x' = .ok v) :
    (∀ v, x.toOption = some v → x'.toOption = some v) ∧ (x.toBool = true → x'.toBool = true) := by
  cases x with
  | error reason => exact ⟨fun v hv => by contradiction, fun hv => by contradiction⟩
  | ok v =>
    rw [h v rfl]
    exact ⟨fun _ hv => hv, fun hv => hv⟩

/-- Of two caches that differ in their capacity alone and that are used in the same way, the larger
one holds all that the smaller one holds, and every lookup that succeeds in the smaller one succeeds
in the larger one, with the same value. -/
theorem run_capacity_le (config : CacheConfig) (codec : Option (Codec V)) {small large : Nat}
    (hle : small ≤ large) {calls : List (CacheCall V)}
    (hcalls : ∀ call ∈ calls, call.op.derives = false) :
    let c := (Cache.new { config with capacity := small } codec).run calls
    let c' := (Cache.new { config with capacity := large } codec).run calls
    (∀ k r, c.record? k = some r → c'.record? k = some r) ∧
    ∀ now k wanted,
      (∀ v, (c.tryGet now k wanted).2 = .ok v → (c'.tryGet now k wanted).2 = .ok v) ∧
      (∀ v, (c.get now k wanted).2 = some v → (c'.get now k wanted).2 = some v) ∧
      ((c.has now k wanted).2 = true → (c'.has now k wanted).2 = true) := by
  intro c c'
  have hnew := Simulates.new { config with capacity := small } codec
  have hnew' := Simulates.new { config with capacity := large } codec
  have hsim := hnew.run calls
  have hsim' := hnew'.run calls
  have hwithin := hnew.within_run hnew' (.new hle) hcalls
  refine ⟨fun k r hr => ?_, fun now k wanted => ?_⟩
  · have hfind : CacheRecord.find? k _ = c.record? k := hsim.holds.find? k
    have hfind' : CacheRecord.find? k _ = c'.record? k := hsim'.holds.find? k
    rw [← hfind] at hr
    rw [← hfind']
    exact find?_of_sublist hsim'.sound.keys hwithin.records hr
  · have hfound : ∀ v, (c.tryGet now k wanted).2 = .ok v → (c'.tryGet now k wanted).2 = .ok v := by
      rw [(hsim.tryGet now k wanted).2, (hsim'.tryGet now k wanted).2]
      exact (hwithin.tryGet hsim'.sound.keys now k wanted).2
    exact ⟨hfound, hits_of_ok hfound⟩

/-- Four values are stored, and the first is looked up before the last comes. -/
def lookedUpBeforeLast : List (CacheCall String) :=
  [⟨.epoch, .set (.buttons "T1") "a" none none⟩, ⟨.epoch, .set (.buttons "T2") "b" none none⟩,
    ⟨.epoch, .set (.buttons "T3") "c" none none⟩, ⟨.epoch, .get (.buttons "T1") none⟩,
    ⟨.epoch, .set (.buttons "T4") "d" none none⟩]

/-- The smaller cache has lost the first two, the larger one only the second. Both have the
third. -/
theorem run_capacity_two_le_three :
    let c := (Cache.new { CacheConfig.usual with capacity := 2 } none).run lookedUpBeforeLast
    let c' := (Cache.new { CacheConfig.usual with capacity := 3 } none).run lookedUpBeforeLast
    (∀ call ∈ lookedUpBeforeLast, call.op.derives = false) ∧
      c.record? (.buttons "T1") = none ∧ (c'.record? (.buttons "T1")).isSome ∧
      c'.record? (.buttons "T2") = none ∧
      (c.get .epoch (.buttons "T3") none).2 = some "c" ∧
      (c'.get .epoch (.buttons "T3") none).2 = some "c" := by
  intro c c'
  have hcalls : ∀ call ∈ lookedUpBeforeLast, call.op.derives = false := by decide
  have hfound : (c.get .epoch (.buttons "T3") none).2 = some "c" := by rfl
  have hle := run_capacity_le CacheConfig.usual none (Nat.le_succ 2) hcalls
  exact ⟨hcalls, by rfl, by rfl, by rfl, hfound,
    (hle.2 .epoch (.buttons "T3") none).2.1 "c" hfound⟩

end Cache

end ActionPolicy
