import ActionPolicy.Proofs.Cache.History
import Mathlib.Data.Finset.Card
import Mathlib.Data.List.DropRight

/-!
# Evictions

An entry makes room for a new one only if enough others have been stored or found since it was last
touched itself. The keys of a cache stand in the order of their last touches, so the one that goes
was touched before all others.

## Main definitions

* `CacheEvent.touched?` – the key that an event touches.
* `touchedKeys`, `sinceTouched` – the keys touched in a history, and what follows the last touch of
  one of them.
* `InTouchOrder` – keys in the order in which a history touched them last.
* `Cache.lost` – the keys that a call makes room with.

## Main statements

* `PlainCache.Leads.inTouchOrder` – the records of a plain cache are in touch order.
* `PlainCache.admits_step` – a call that may store a value keeps all keys or evicts one.
* `Cache.lost_run_new` – what is evicted from a cache is cold.
-/

namespace ActionPolicy

open CacheRecord

variable {V : Type}

/-- The key that is touched by an event: a value is stored or found under it. -/
def CacheEvent.touched? : CacheEvent V → Option CacheKey
  | stored _ k _ _ _ => some k
  | found _ k _ _ => some k
  | _ => none

/-- The keys that are touched in a history. -/
def touchedKeys (history : List (CacheEvent V)) : Finset CacheKey :=
  (history.filterMap CacheEvent.touched?).toFinset

/-- What a history shows after the last touch of a key. -/
def sinceTouched (k : CacheKey) (history : List (CacheEvent V)) : List (CacheEvent V) :=
  history.rtakeWhile fun e => e.touched? != some k

section Touches

variable {history : List (CacheEvent V)} {k : CacheKey} {e : CacheEvent V}

theorem mem_touchedKeys : k ∈ touchedKeys history ↔ ∃ e ∈ history, e.touched? = some k := by
  rw [touchedKeys, List.mem_toFinset, List.mem_filterMap]

theorem touchedKeys_mono {since : List (CacheEvent V)} (h : ∀ e ∈ since, e ∈ history) :
    touchedKeys since ⊆ touchedKeys history := by
  intro k hk
  obtain ⟨e, he, hek⟩ := mem_touchedKeys.mp hk
  exact mem_touchedKeys.mpr ⟨e, h e he, hek⟩

theorem sinceTouched_concat_self (h : e.touched? = some k) :
    sinceTouched k (history ++ [e]) = [] :=
  List.rtakeWhile_concat_neg _ _ _ (by simp [h])

theorem sinceTouched_concat (h : e.touched? ≠ some k) :
    sinceTouched k (history ++ [e]) = sinceTouched k history ++ [e] :=
  List.rtakeWhile_concat_pos _ _ _ (by simpa using h)

theorem notMem_touchedKeys_sinceTouched : k ∉ touchedKeys (sinceTouched k history) := by
  intro hk
  obtain ⟨e, he, hek⟩ := mem_touchedKeys.mp hk
  have hne := List.mem_rtakeWhile_imp (p := fun e : CacheEvent V => e.touched? != some k) he
  exact bne_iff_ne.mp hne hek

theorem exists_last_touch (h : k ∈ touchedKeys history) :
    ∃ earlier touch, touch.touched? = some k ∧
      history = earlier ++ touch :: sinceTouched k history := by
  induction history using List.reverseRecOn with
  | nil => simp [touchedKeys] at h
  | append_singleton history e ih =>
    by_cases hek : e.touched? = some k
    · exact ⟨history, e, hek, by rw [sinceTouched_concat_self hek]⟩
    · have hold : k ∈ touchedKeys history := by
        obtain ⟨e', he', hek'⟩ := mem_touchedKeys.mp h
        rcases List.mem_append.mp he' with he' | he'
        · exact mem_touchedKeys.mpr ⟨e', he', hek'⟩
        · exact absurd (List.mem_singleton.mp he' ▸ hek') hek
      obtain ⟨earlier, touch, htouch, hsplit⟩ := ih hold
      refine ⟨earlier, touch, htouch, ?_⟩
      rw [sinceTouched_concat hek, ← List.cons_append, ← List.append_assoc, ← hsplit]

/-- What follows the last touch of a key follows every touch of it. -/
theorem sinceTouched_suffix (earlier since : List (CacheEvent V)) (h : e.touched? = some k) :
    sinceTouched k (earlier ++ e :: since) <:+ since := by
  have hnot : e ∉ sinceTouched k (earlier ++ e :: since) := fun he =>
    notMem_touchedKeys_sinceTouched (mem_touchedKeys.mpr ⟨e, he, h⟩)
  have hsuffix : sinceTouched k (earlier ++ e :: since) <:+ earlier ++ e :: since :=
    List.rtakeWhile_suffix _ _
  rcases List.suffix_or_suffix_of_suffix hsuffix (List.suffix_append earlier (e :: since)) with
    hshort | hlong
  · rcases List.suffix_cons_iff.mp hshort with hall | hshort
    · rw [hall] at hnot
      exact absurd List.mem_cons_self hnot
    · exact hshort
  · exact absurd (hlong.subset List.mem_cons_self) hnot

end Touches

/-! ### The order of touches -/

/-- All keys have been touched, and each after the last touch of those before it. -/
structure InTouchOrder (history : List (CacheEvent V)) (keys : List CacheKey) : Prop where
  touched : ∀ k ∈ keys, k ∈ touchedKeys history
  later : keys.Pairwise fun k k' => k' ∈ touchedKeys (sinceTouched k history)

namespace InTouchOrder

variable {history : List (CacheEvent V)} {keys : List CacheKey}

theorem nodup (h : InTouchOrder history keys) : keys.Nodup := by
  refine h.later.imp fun {k k'} hlater => ?_
  rintro rfl
  exact notMem_touchedKeys_sinceTouched hlater

theorem sublist (h : InTouchOrder history keys) {keys' : List CacheKey}
    (hkeys : keys'.Sublist keys) : InTouchOrder history keys' :=
  ⟨fun k hk => h.touched k (hkeys.subset hk), h.later.sublist hkeys⟩

theorem concat (h : InTouchOrder history keys) {e : CacheEvent V}
    (he : ∀ k ∈ keys, e.touched? ≠ some k) : InTouchOrder (history ++ [e]) keys := by
  refine ⟨fun k hk => ?_, h.later.imp_of_mem fun {k k'} hk _ hlater => ?_⟩
  · exact touchedKeys_mono (fun _ => List.mem_append_left _) (h.touched k hk)
  · rw [sinceTouched_concat (he k hk)]
    exact touchedKeys_mono (fun _ => List.mem_append_left _) hlater

/-- The key that is touched goes behind the others. -/
theorem concat_touched (h : InTouchOrder history keys) {e : CacheEvent V} {k : CacheKey}
    (he : e.touched? = some k) (hk : k ∉ keys) : InTouchOrder (history ++ [e]) (keys ++ [k]) := by
  have hne : ∀ k' ∈ keys, e.touched? ≠ some k' := by
    intro k' hk' hek
    rw [he, Option.some.injEq] at hek
    exact hk (hek ▸ hk')
  have hkeys := h.concat hne
  refine ⟨fun k' hk' => ?_, List.pairwise_append.mpr ⟨hkeys.later, List.pairwise_singleton _ _, ?_⟩⟩
  · rcases List.mem_append.mp hk' with hk' | hk'
    · exact hkeys.touched k' hk'
    · rw [List.mem_singleton.mp hk']
      exact mem_touchedKeys.mpr ⟨e, by simp, he⟩
  · intro k' hk' k'' hk''
    rw [List.mem_singleton.mp hk'', sinceTouched_concat (hne k' hk')]
    exact mem_touchedKeys.mpr ⟨e, by simp, he⟩

/-- Since the last touch of the first key, all others have been touched. With one more key there
are as many as there are keys in all. -/
theorem length_le_card {victim k : CacheKey} {rest : List CacheKey}
    (h : InTouchOrder history (victim :: rest)) (hk : k ∉ rest) :
    rest.length + 1 ≤ (insert k (touchedKeys (sinceTouched victim history))).card := by
  have hsubset : rest.toFinset ⊆ touchedKeys (sinceTouched victim history) := fun k' hk' =>
    (List.pairwise_cons.mp h.later).1 k' (List.mem_toFinset.mp hk')
  calc rest.length + 1
      = (insert k rest.toFinset).card := by
        rw [Finset.card_insert_of_notMem (by simpa using hk),
          List.toFinset_card_of_nodup h.nodup.of_cons]
    _ ≤ (insert k (touchedKeys (sinceTouched victim history))).card :=
        Finset.card_le_card (Finset.insert_subset_insert k hsubset)

end InTouchOrder

namespace PlainCache

theorem Undergoes.keys_of_untouched {m : PlainCache V} {e : CacheEvent V}
    {records : List (CacheRecord V)} (h : m.Undergoes e records) (he : e.touched? = none) :
    (records.map key).Sublist (m.records.map key) := by
  cases h with
  | stored | found => contradiction
  | missed k | deleted k => exact List.filter_sublist.map key
  | namespaceCleared ns => exact List.filter_sublist.map key
  | cleared => exact List.nil_sublist _
  | purged now => exact List.filter_sublist.map key

/-- An event that touches a key puts its record behind some of the others in their order. -/
theorem Undergoes.keys_of_touched {m : PlainCache V} {e : CacheEvent V}
    {records : List (CacheRecord V)} (h : m.Undergoes e records) {k : CacheKey}
    (he : e.touched? = some k) :
    ∃ keys, keys.Sublist (m.records.map key) ∧ k ∉ keys ∧ records.map key = keys ++ [k] := by
  have hnot : ∀ {staying : List (CacheRecord V)}, (∀ r ∈ staying, k ≠ r.key) →
      k ∉ staying.map key := by
    intro staying hstaying hk
    obtain ⟨r, hr, hrk⟩ := List.mem_map.mp hk
    exact hstaying r hr hrk.symm
  cases h with
  | stored now k' value ttl version =>
    obtain rfl : k' = k := Option.some.inj he
    exact ⟨(m.staying k').map key, (m.staying_sublist k').map key,
      hnot fun r hr => (mem_of_mem_staying hr).2, by simp⟩
  | @found _ k' _ _ r hr =>
    obtain rfl : k' = k := Option.some.inj he
    have hkey : r.key = k' := key_of_find? hr
    exact ⟨(without k' m.records).map key, List.filter_sublist.map key,
      hnot fun r hr => (mem_of_mem_without hr).2, by simp [hkey]⟩
  | missed | deleted | namespaceCleared | cleared | purged => contradiction

/-- The records that a history leads to are in the order of their last touches. -/
theorem Leads.inTouchOrder {config : CacheConfig} {codec : Option (Codec V)}
    {history : List (CacheEvent V)} {records : List (CacheRecord V)}
    (h : Leads config codec history records) : InTouchOrder history (records.map key) := by
  induction h with
  | start => exact ⟨fun k hk => absurd hk List.not_mem_nil, .nil⟩
  | @next _ e _ _ _ he ih =>
    cases htouched : e.touched? with
    | none =>
      refine (ih.sublist (he.keys_of_untouched htouched)).concat fun k _ => ?_
      rw [htouched]
      exact Option.some_ne_none k |>.symm
    | some k =>
      obtain ⟨keys, hkeys, hk, heq⟩ := he.keys_of_touched htouched
      rw [heq]
      exact (ih.sublist hkeys).concat_touched htouched hk

end PlainCache

/-! ### Calls that store a value -/

/-- The key under which a value may be stored. -/
def CacheOp.writtenKey? : CacheOp V → Option CacheKey
  | set k _ _ _ => some k
  | getOrInsert k _ _ _ _ _ => some k
  | complete k _ _ _ _ => some k
  | _ => none

namespace PlainCache

/-- The keys of a plain cache all stay, or the first one makes room for another key. -/
inductive Admits (m : PlainCache V) (k : CacheKey) (m' : PlainCache V) : Prop where
  | kept (hkeys : m.records.map key ⊆ m'.records.map key)
    (hcount : m'.metrics.counts.evictions = m.metrics.counts.evictions)
  | evicted (victim : CacheKey) (rest : List CacheKey) (hev : m.evicts k = true)
    (hkeys : m.records.map key = victim :: rest) (hafter : m'.records.map key = rest ++ [k])
    (hcount : m'.metrics.counts.evictions = m.metrics.counts.evictions + 1)

theorem keys_subset_without (k : CacheKey) (records : List (CacheRecord V)) :
    records.map key ⊆ (without k records).map key ++ [k] := by
  intro k' hk'
  obtain ⟨r, hr, rfl⟩ := List.mem_map.mp hk'
  by_cases hkey : r.key = k
  · exact List.mem_append_right _ (List.mem_singleton.mpr hkey)
  · have hkept : r ∈ without k records := List.mem_filter.mpr ⟨hr, bne_iff_ne.mpr hkey⟩
    exact List.mem_append_left _ (List.mem_map_of_mem hkept)

section Set

variable (m : PlainCache V) (now : Instant) (k : CacheKey) (value : V) (ttl : Option Duration)
  (version : Option String)

theorem keys_set : (m.set now k value ttl version).records.map key =
    (m.staying k).map key ++ [k] := by
  simp [set]

theorem evictions_set : (m.set now k value ttl version).metrics.counts.evictions =
    if m.evicts k then m.metrics.counts.evictions + 1 else m.metrics.counts.evictions := by
  simp only [set]
  cases m.evicts k <;> cases (m.encode value).2 <;> rfl

theorem admits_set : m.Admits k (m.set now k value ttl version) := by
  have hcount := m.evictions_set now k value ttl version
  by_cases hev : m.evicts k = true
  · rw [if_pos hev] at hcount
    have hlength := (evicts_iff.mp hev).2
    cases hrecords : m.records with
    | nil =>
      have hpos := m.limit_pos
      rw [hrecords, List.length_nil] at hlength
      omega
    | cons r rest =>
      refine .evicted r.key (rest.map key) hev (by rw [hrecords, List.map_cons]) ?_ hcount
      rw [keys_set, staying, if_pos hev, hrecords, List.tail_cons]
  · rw [if_neg hev] at hcount
    refine .kept ?_ hcount
    rw [keys_set, staying, if_neg hev]
    exact keys_subset_without k m.records

variable {m} {k}

/-- The same if the record under the key goes before, as after a lookup that returns nothing. -/
theorem admits_set_without (hbounded : m.records.length ≤ m.limit) {m' : PlainCache V}
    (hconfig : m'.config = m.config) (hrecords : m'.records = without k m.records)
    (hmetrics : m'.metrics.counts.evictions = m.metrics.counts.evictions) :
    m.Admits k (m'.set now k value ttl version) := by
  have hlimit : m'.limit = m.limit := by rw [limit, limit, hconfig]
  cases m'.admits_set now k value ttl version with
  | kept hkeys hcount =>
    refine .kept (List.Subset.trans (keys_subset_without k m.records) ?_) (hcount.trans hmetrics)
    rw [← hrecords]
    refine List.append_subset.mpr ⟨hkeys, ?_⟩
    rw [keys_set]
    exact List.subset_append_right _ _
  | evicted victim rest hev hkeys hafter hcount =>
    -- The others fill the cache, so there was no record under the key that could go before.
    obtain ⟨-, hlength⟩ := evicts_iff.mp hev
    rw [hlimit, hrecords] at hlength
    have hnone : find? k m.records = none := by
      rw [Option.eq_none_iff_forall_not_mem]
      intro r hr
      have hless := length_without_lt hr
      omega
    rw [without_eq_self hnone] at hrecords hlength
    rw [hrecords] at hkeys
    rw [hmetrics] at hcount
    exact .evicted victim rest (evicts_iff.mpr ⟨hnone, hlength⟩) hkeys hafter hcount

end Set

/-- A call that may store a value leaves all keys, or the first one makes room for a new one. -/
theorem admits_step {m : PlainCache V} (hbounded : m.records.length ≤ m.limit)
    {call : CacheCall V} {k : CacheKey} (hk : call.op.writtenKey? = some k) :
    m.Admits k (m.step call).1 := by
  obtain ⟨now, op⟩ := call
  cases op with
  | set k' value ttl version =>
    obtain rfl : k' = k := Option.some.inj hk
    exact m.admits_set now k' value ttl version
  | complete k' derived ttl version micros =>
    obtain rfl : k' = k := Option.some.inj hk
    obtain ⟨hkeys, hcount⟩ | ⟨victim, rest, hev, hkeys, hafter, hcount⟩ :=
      (m.abandon micros).admits_set now k' derived ttl version
    · exact .kept hkeys hcount
    · exact .evicted victim rest hev hkeys hafter hcount
  | getOrInsert k' ttl version derived later micros =>
    obtain rfl : k' = k := Option.some.inj hk
    simp only [step]
    obtain ⟨metrics, hmetrics, ⟨r, v, hr, -, -, -, heq⟩ | ⟨_, heq⟩⟩ :=
      m.tryGet_cases now k' version
    · rw [heq]
      have hkey : r.key = k' := key_of_find? hr
      refine .kept ?_ hmetrics
      simpa [hkey] using keys_subset_without k' m.records
    · rw [heq]
      exact admits_set_without later derived ttl version hbounded rfl rfl hmetrics
  | _ => contradiction

end PlainCache

namespace Cache

/-- The keys that have an entry. -/
def keys (c : Cache V) : Finset CacheKey := (c.store.entries.map Prod.fst).toFinset

/-- The keys that have an entry before a call and none after it. -/
def lost (c : Cache V) (call : CacheCall V) : Finset CacheKey := c.keys \ (c.step call).1.keys

theorem Simulates.keys_eq {c : Cache V} {m : PlainCache V} (h : Simulates c m) :
    c.keys = (m.records.map key).toFinset := by
  obtain ⟨l, hl, hrecords⟩ := h.holds
  rw [keys, hrecords, List.map_map]
  exact (List.toFinset_eq_of_perm _ _ (hl.perm.map Prod.fst)).symm

/-- A call that may store a value loses no key, or it loses one that is cold. -/
theorem lost_cases (config : CacheConfig) (codec : Option (Codec V)) (calls : List (CacheCall V))
    {call : CacheCall V} {k : CacheKey} (hk : call.op.writtenKey? = some k) :
    let c := (Cache.new config codec).run calls
    let history := (Cache.new config codec).history calls
    let count := fun c : Cache V => c.metrics.counts.evictions
    (c.lost call = ∅ ∧ count (c.step call).1 = count c) ∨
    ∃ victim, c.lost call = {victim} ∧ count (c.step call).1 = count c + 1 ∧ k ∉ c.keys ∧
      c.keys.card = max config.capacity 1 ∧ victim ∈ touchedKeys history ∧ victim ≠ k ∧
      max config.capacity 1 ≤ (insert k (touchedKeys (sinceTouched victim history))).card := by
  intro c history count
  have hsim := (Simulates.new config codec).run calls
  have hafter := (hsim.step call).1
  have horder := (leads_history config codec calls).inTouchOrder
  have hlimit : ((PlainCache.new config codec).run calls).limit = max config.capacity 1 :=
    PlainCache.limit_run _ calls
  have hlost : c.lost call = c.keys \ (c.step call).1.keys := rfl
  rw [hsim.keys_eq, hafter.keys_eq] at hlost
  cases PlainCache.admits_step hsim.bounded hk with
  | kept hkeys hcount =>
    refine Or.inl ⟨?_, ?_⟩
    · rw [hlost, Finset.sdiff_eq_empty_iff_subset]
      exact fun x hx => List.mem_toFinset.mpr (hkeys (List.mem_toFinset.mp hx))
    · show (c.step call).1.metrics.counts.evictions = c.metrics.counts.evictions
      rw [hafter.metrics, hsim.metrics, hcount]
  | evicted victim rest hev hkeys hgone hcount =>
    obtain ⟨hnone, hlength⟩ := PlainCache.evicts_iff.mp hev
    rw [hkeys] at horder
    have hnew : k ∉ victim :: rest := by
      rw [← hkeys]
      intro hmem
      obtain ⟨r, hr, hrk⟩ := List.mem_map.mp hmem
      exact List.find?_eq_none.mp hnone r hr (beq_iff_eq.mpr hrk)
    obtain ⟨hne, hrest⟩ := not_or.mp (List.mem_cons.not.mp hnew)
    have hvictim := (List.nodup_cons.mp horder.nodup).1
    have hcard : (victim :: rest).length = max config.capacity 1 := by
      rw [← hkeys, List.length_map, hlength, hlimit]
    refine Or.inr ⟨victim, ?_, ?_, ?_, ?_, horder.touched _ List.mem_cons_self, Ne.symm hne, ?_⟩
    · rw [hlost, hkeys, hgone]
      ext x
      rw [Finset.mem_sdiff, List.mem_toFinset, List.mem_toFinset, List.mem_cons, List.mem_append,
        List.mem_singleton, Finset.mem_singleton]
      constructor
      · rintro ⟨hx | hx, hkept⟩
        · exact hx
        · exact absurd (Or.inl hx) hkept
      · rintro rfl
        exact ⟨Or.inl rfl, not_or.mpr ⟨hvictim, Ne.symm hne⟩⟩
    · show (c.step call).1.metrics.counts.evictions = c.metrics.counts.evictions + 1
      rw [hafter.metrics, hsim.metrics, hcount]
    · rwa [hsim.keys_eq, hkeys, List.mem_toFinset]
    · rw [hsim.keys_eq, hkeys, List.toFinset_card_of_nodup horder.nodup, hcard]
    · rw [← hcard, List.length_cons]
      exact horder.length_le_card hrest

/-- A call that stores a value under a key evicts another key only if its own has no entry and the
cache is full. It evicts one key then, and that one is cold: since its last touch as many others
have been touched, with the new one, as there may be entries. So no key is evicted before that many
others are touched, and none where an entry is replaced. -/
theorem lost_run_new (config : CacheConfig) (codec : Option (Codec V))
    (calls : List (CacheCall V)) {call : CacheCall V} {k : CacheKey}
    (hk : call.op.writtenKey? = some k) :
    let c := (Cache.new config codec).run calls
    let history := (Cache.new config codec).history calls
    let limit := max config.capacity 1
    (∀ victim ∈ c.lost call, c.lost call = {victim} ∧ k ∉ c.keys ∧ c.keys.card = limit ∧
      ∃ earlier touch since, history = earlier ++ touch :: since ∧
        touch.touched? = some victim ∧ victim ∉ insert k (touchedKeys since) ∧
        limit ≤ (insert k (touchedKeys since)).card) ∧
    (∀ x earlier touch since, history = earlier ++ touch :: since → touch.touched? = some x →
      ((insert k (touchedKeys since)).erase x).card < limit → x ∉ c.lost call) ∧
    (k ∈ c.keys → c.lost call = ∅) ∧
    (c.step call).1.metrics.counts.evictions =
      c.metrics.counts.evictions + (c.lost call).card := by
  intro c history limit
  rcases lost_cases config codec calls hk with ⟨hlost, hcount⟩ |
    ⟨victim, hlost, hcount, hnew, hfull, htouched, hne, hcold⟩
  · have hnone : ∀ x, x ∉ c.lost call := fun x hx => by
      rw [hlost] at hx
      exact absurd hx (Finset.notMem_empty x)
    refine ⟨fun x hx => absurd hx (hnone x), fun x _ _ _ _ _ _ => hnone x, fun _ => hlost, ?_⟩
    rw [hlost]
    exact hcount
  · have hnot : victim ∉ insert k (touchedKeys (sinceTouched victim history)) := by
      rw [Finset.mem_insert, not_or]
      exact ⟨hne, notMem_touchedKeys_sinceTouched⟩
    refine ⟨fun x hx => ?_, fun x earlier touch since hsplit htouch hfew hx => ?_, ?_, ?_⟩
    · rw [hlost, Finset.mem_singleton] at hx
      subst hx
      obtain ⟨earlier, touch, htouch, hsplit⟩ := exists_last_touch htouched
      exact ⟨hlost, hnew, hfull, earlier, touch, _, hsplit, htouch, hnot, hcold⟩
    · rw [hlost, Finset.mem_singleton] at hx
      subst hx
      -- What follows the last touch follows this one too.
      have hsuffix := sinceTouched_suffix earlier since htouch
      rw [← hsplit] at hsuffix
      have hsubset := Finset.insert_subset_insert k (touchedKeys_mono fun _ he => hsuffix.subset he)
      have hless := Finset.card_le_card (Finset.subset_erase.mpr ⟨hsubset, hnot⟩)
      exact absurd (Nat.le_trans hcold hless) (Nat.not_le.mpr hfew)
    · exact fun hmem => absurd hmem hnew
    · rw [hlost, Finset.card_singleton]
      exact hcount

/-- Of two entries the one stored first is found. -/
def firstFound : List (CacheCall String) :=
  [⟨.epoch, .set (.buttons "T1") "a" none none⟩, ⟨.epoch, .set (.buttons "T2") "b" none none⟩,
    ⟨.epoch, .get (.buttons "T1") none⟩]

/-- A third entry is stored. -/
def thirdStored : CacheCall String := ⟨.epoch, .set (.buttons "T3") "c" none none⟩

/-- The entry that was stored second makes room. -/
theorem lost_firstFound :
    let c := (Cache.new { CacheConfig.usual with capacity := 2 } none).run firstFound
    let history := (Cache.new { CacheConfig.usual with capacity := 2 } none).history firstFound
    thirdStored.op.writtenKey? = some (.buttons "T3") ∧ .buttons "T2" ∈ c.lost thirdStored ∧
      c.lost thirdStored = {.buttons "T2"} ∧ .buttons "T3" ∉ c.keys ∧ c.keys.card = max 2 1 ∧
      ∃ earlier touch since, history = earlier ++ touch :: since ∧
        touch.touched? = some (.buttons "T2") ∧
        .buttons "T2" ∉ insert (.buttons "T3") (touchedKeys since) ∧
        max 2 1 ≤ (insert (.buttons "T3") (touchedKeys since)).card := by
  intro c history
  have hlost : .buttons "T2" ∈ c.lost thirdStored := by decide
  have hkey : thirdStored.op.writtenKey? = some (.buttons "T3") := rfl
  have hcold := (lost_run_new { CacheConfig.usual with capacity := 2 } none firstFound hkey).1
  exact ⟨hkey, hlost, hcold _ hlost⟩

end Cache

end ActionPolicy
