import ActionPolicy.Proofs.Cache.Balance
import ActionPolicy.Proofs.Cache.Freshness
import ActionPolicy.Proofs.Cache.OneKey

/-!
# Warm entries

An entry stays where it is until it is past its expiry, as long as nobody removes or replaces it and
not too many others are touched between two touches of it. All that while its value is found, and
after its expiry it is not.

## Main definitions

* `CacheEvent.Spares` – an event neither removes nor replaces what is held under a key.
* `PlainCache.Keeps` – whatever a history leads to holds a record.
* `PlainCache.ExpiresAt` – whatever it leads to holds nothing under a key that is valid for longer.
* `Cache.After` – a cache has a history behind it.

## Main statements

* `PlainCache.Undergoes.find?_of_spares` – an event that spares a key leaves its record, unless that
  is the first one and makes room.
* `PlainCache.Keeps.concat`, `PlainCache.Keeps.append` – a record stays while few others are
  touched.
* `Cache.After.get_of_keeps`, `Cache.After.get_of_expiresAt` – a lookup finds the value of a record
  that is kept, and nothing after it has expired.
-/

namespace ActionPolicy

open CacheRecord

variable {V : Type}

namespace CacheEvent

/-- The event neither removes nor replaces what is held under a key and valid up to an instant. -/
def Spares (k : CacheKey) (last : Instant) (e : CacheEvent V) : Prop :=
  ¬e.Ends k ∧ ∀ now, e = .purged now → now ≤ last

/-- The event stores a value under a key. -/
def Stores (k : CacheKey) : CacheEvent V → Prop
  | stored _ k' _ _ _ => k' = k
  | _ => False

theorem Spares.not_stores {k : CacheKey} {last : Instant} {e : CacheEvent V}
    (h : e.Spares k last) : ¬e.Stores k := by
  cases e with
  | stored now k' value ttl version => exact h.1
  | _ => exact id

end CacheEvent

namespace PlainCache

variable {config : CacheConfig} {codec : Option (Codec V)} {history : List (CacheEvent V)}

theorem Leads.last {e : CacheEvent V} {records : List (CacheRecord V)}
    (h : Leads config codec (history ++ [e]) records) :
    ∃ records₀, Leads config codec history records₀ ∧
      Undergoes ⟨config, codec, records₀, .zero⟩ e records := by
  generalize hhistory : history ++ [e] = whole at h
  cases h with
  | start => simp at hhistory
  | next hbefore he =>
    obtain ⟨rfl, hlast⟩ := List.append_inj' hhistory rfl
    obtain rfl := List.singleton_inj.mp hlast
    exact ⟨_, hbefore, he⟩

/-! ### One event -/

/-- An event that spares a key leaves the record under it, which it may touch. Only the first record
can go otherwise, to make room for another one. -/
theorem Undergoes.find?_of_spares {m : PlainCache V} {e : CacheEvent V}
    {records : List (CacheRecord V)} (h : m.Undergoes e records)
    (hkeys : (m.records.map key).Nodup) {k : CacheKey} {r : CacheRecord V}
    (hr : find? k m.records = some r) (hspares : e.Spares k r.expiresAt)
    (hroom : ∀ k', e.Stores k' → m.evicts k' = true → ∀ first ∈ m.records.head?, first.key ≠ k) :
    ∃ t, find? k records = some { r with touchedAt := t } := by
  obtain ⟨hends, hpurged⟩ := hspares
  cases h with
  | stored now k' value ttl version =>
    have hne : k' ≠ k := hends
    refine ⟨r.touchedAt, ?_⟩
    rw [find?_append_of_ne hne]
    unfold staying
    by_cases hev : m.evicts k' = true
    · rw [if_pos hev]
      have hfirst := hroom k' rfl hev
      cases hrecords : m.records with
      | nil => rw [hrecords] at hr; contradiction
      | cons first rest =>
        rw [hrecords] at hr hfirst
        have hother : (first.key == k) = false := beq_false_of_ne (hfirst first rfl)
        rwa [find?, List.find?_cons, hother] at hr
    · rw [if_neg hev, find?_without_of_ne hne]
      exact hr
  | @found now k' wanted seen r' hr' _ _ _ =>
    by_cases hk : k' = k
    · subst hk
      obtain rfl : r' = r := Option.some.inj (hr'.symm.trans hr)
      have hkey : r'.key = k' := key_of_find? hr
      exact ⟨now, find?_append_self (fun r hr => (mem_of_mem_without hr).2) hkey⟩
    · have hkey : r'.key = k' := key_of_find? hr'
      refine ⟨r.touchedAt, ?_⟩
      rw [find?_append_of_ne (by rwa [hkey]), find?_without_of_ne hk]
      exact hr
  | missed k' | deleted k' =>
    have hne : k' ≠ k := hends
    refine ⟨r.touchedAt, ?_⟩
    rw [find?_without_of_ne hne]
    exact hr
  | namespaceCleared ns =>
    have hne : ns ≠ k.ns := fun h => hends h.symm
    refine ⟨r.touchedAt, ?_⟩
    rw [find?_otherNamespaces_of_ne hne hkeys]
    exact hr
  | cleared => exact absurd trivial hends
  | purged now =>
    refine ⟨r.touchedAt, ?_⟩
    rw [find?_purged hkeys, hr]
    exact live_some_of_le (hpurged now rfl)

/-! ### Records that stay -/

/-- Whatever the history leads to holds the record, whenever it was touched last. -/
def Keeps (config : CacheConfig) (codec : Option (Codec V)) (history : List (CacheEvent V))
    (r : CacheRecord V) : Prop :=
  ∀ records, Leads config codec history records →
    ∃ t, find? r.key records = some { r with touchedAt := t }

/-- Whatever the history leads to, a record under the key is valid up to the instant. -/
def ExpiresAt (config : CacheConfig) (codec : Option (Codec V)) (history : List (CacheEvent V))
    (k : CacheKey) (last : Instant) : Prop :=
  ∀ records, Leads config codec history records → ∀ r ∈ records, r.key = k → r.expiresAt = last

theorem keeps_stored (history : List (CacheEvent V)) (now : Instant) (k : CacheKey) (value : V)
    (ttl : Option Duration) (version : Option String) :
    Keeps config codec (history ++ [.stored now k value ttl version])
      ⟨k, (encode ⟨config, codec, [], .zero⟩ value).1, now, now,
        now.plus (ttl.getD config.defaultTtl), version⟩ := by
  intro records hleads
  obtain ⟨_, -, he⟩ := hleads.last
  cases he with
  | stored => exact ⟨now, find?_append_self (fun _ hr => (mem_of_mem_staying hr).2) rfl⟩

/-- A record stays if the event spares it and, with the key that the event stores, fewer others have
been touched since it was touched itself than there may be. -/
theorem Keeps.concat {r : CacheRecord V} (h : Keeps config codec history r) {e : CacheEvent V}
    (hspares : e.Spares r.key r.expiresAt)
    (hfew : ∀ k, e.Stores k →
      (insert k (touchedKeys (sinceTouched r.key history))).card < max config.capacity 1) :
    Keeps config codec (history ++ [e]) r := by
  intro records hleads
  obtain ⟨before, hbefore, he⟩ := hleads.last
  obtain ⟨t, hr⟩ := h before hbefore
  have horder := hbefore.inTouchOrder
  obtain ⟨t', hr'⟩ := he.find?_of_spares horder.nodup hr hspares
    fun k hstores hev first hfirst hkey => by
      -- If it were the first record, all others would have been touched since.
      obtain ⟨rest, rfl⟩ : ∃ rest, before = first :: rest := List.head?_eq_some_iff.mp hfirst
      obtain ⟨hnone, hfull⟩ := evicts_iff.mp hev
      have hk : k ∉ rest.map key := by
        intro hmem
        obtain ⟨r', hr', hkey'⟩ := List.mem_map.mp hmem
        exact List.find?_eq_none.mp hnone r' (List.mem_cons_of_mem _ hr') (beq_iff_eq.mpr hkey')
      have hall := InTouchOrder.length_le_card horder hk
      have hlimit : rest.length + 1 = max config.capacity 1 := hfull
      have hless := hfew k hstores
      rw [List.length_map, hkey] at hall
      omega
  exact ⟨t', hr'⟩

/-- A record stays from a touch of it on, for as long as no event removes or replaces it and fewer
other keys are touched than there may be entries. -/
theorem Keeps.append {r : CacheRecord V} {touch : CacheEvent V}
    (h : Keeps config codec (history ++ [touch]) r) (htouch : touch.touched? = some r.key)
    {since : List (CacheEvent V)} (hspares : ∀ e ∈ since, e.Spares r.key r.expiresAt)
    (hfew : ((touchedKeys since).erase r.key).card < max config.capacity 1) :
    Keeps config codec (history ++ [touch] ++ since) r := by
  induction since using List.reverseRecOn with
  | nil => rwa [List.append_nil]
  | append_singleton since e ih =>
    have hmono : touchedKeys since ⊆ touchedKeys (since ++ [e]) :=
      touchedKeys_mono fun _ => List.mem_append_left [e]
    have hless := Finset.card_le_card (Finset.erase_subset_erase r.key hmono)
    have hkeeps := ih (fun e he => hspares e (List.mem_append_left _ he))
      (Nat.lt_of_le_of_lt hless hfew)
    have hlast := hspares e (List.mem_append_right _ List.mem_cons_self)
    rw [← List.append_assoc]
    refine hkeeps.concat hlast fun k hstores => Nat.lt_of_le_of_lt (Finset.card_le_card ?_) hfew
    -- The keys touched since the last touch are touched in the part, and so is the new key.
    have hsuffix := sinceTouched_suffix history since htouch
    have hne : k ≠ r.key := by
      rintro rfl
      exact hlast.not_stores hstores
    rw [List.append_assoc, List.singleton_append]
    refine Finset.insert_subset (Finset.mem_erase.mpr ⟨hne, ?_⟩) fun k' hk' =>
      Finset.mem_erase.mpr ⟨?_, hmono (touchedKeys_mono (fun _ he => hsuffix.subset he) hk')⟩
    · refine mem_touchedKeys.mpr ⟨e, List.mem_append_right _ List.mem_cons_self, ?_⟩
      cases e with
      | stored now k' value ttl version => exact congrArg some hstores
      | _ => exact hstores.elim
    · rintro rfl
      exact notMem_touchedKeys_sinceTouched hk'

theorem Keeps.expiresAt {r : CacheRecord V} (h : Keeps config codec history r) :
    ExpiresAt config codec history r.key r.expiresAt := by
  intro records hleads r' hr' hkey
  obtain ⟨t, hfind⟩ := h records hleads
  have hsame : r' = { r with touchedAt := t } :=
    List.inj_on_of_nodup_map hleads.inTouchOrder.nodup hr' (List.mem_of_find?_eq_some hfind) hkey
  rw [hsame]

theorem ExpiresAt.append {k : CacheKey} {last : Instant} (h : ExpiresAt config codec history k last)
    {since : List (CacheEvent V)} (hstores : ∀ e ∈ since, ¬e.Stores k) :
    ExpiresAt config codec (history ++ since) k last := by
  induction since using List.reverseRecOn with
  | nil => rwa [List.append_nil]
  | append_singleton since e ih =>
    rw [← List.append_assoc]
    intro records hleads r hr hkey
    obtain ⟨before, hbefore, he⟩ := hleads.last
    rcases he.mem hr with ⟨now, value, ttl, rfl, -⟩ | ⟨-, r₀, hr₀, htouched⟩
    · exact absurd hkey (hstores _ (List.mem_append_right _ List.mem_cons_self))
    · rw [htouched] at hkey ⊢
      exact ih (fun e he => hstores e (List.mem_append_left _ he)) before hbefore r₀ hr₀ hkey

theorem codec_run (m : PlainCache V) (calls : List (CacheCall V)) :
    (m.run calls).codec = m.codec := by
  induction calls generalizing m with
  | nil => rfl
  | cons call rest ih => exact (ih _).trans (m.codec_step call)

theorem toOption_tryGet_of_find? {m : PlainCache V} {now : Instant} {k : CacheKey}
    {wanted : Option String} {r : CacheRecord V} {v : V} (hr : find? k m.records = some r)
    (hvalid : now ≤ r.expiresAt) (hversion : ∀ w s, wanted = some w → r.version = some s → w = s)
    (hv : m.decode r.value = some v) : (m.tryGet now k wanted).2.toOption = some v := by
  have hagree : ¬(wanted.isSome ∧ r.version.isSome ∧ wanted ≠ r.version) := by
    rintro ⟨hwanted, hstored, hne⟩
    obtain ⟨w, rfl⟩ := Option.isSome_iff_exists.mp hwanted
    obtain ⟨s, hs⟩ := Option.isSome_iff_exists.mp hstored
    exact hne (by rw [hs, hversion w s rfl hs])
  rw [toOption_tryGet, hr, live_some_of_le hvalid, Option.bind_some, usable?, if_neg hagree, hv]

theorem toOption_tryGet_of_lt {m : PlainCache V} {now : Instant} {k : CacheKey}
    (hlate : ∀ r ∈ m.records, r.key = k → r.expiresAt < now) (wanted : Option String) :
    (m.tryGet now k wanted).2.toOption = none := by
  rw [toOption_tryGet]
  cases hr : find? k m.records with
  | none => rfl
  | some r =>
    rw [live_some_of_lt (hlate r (List.mem_of_find?_eq_some hr) (key_of_find? hr))]
    rfl

end PlainCache

namespace Cache

variable {c : Cache V} {config : CacheConfig} {codec : Option (Codec V)}
  {history : List (CacheEvent V)}

/-! ### Derivations are counted -/

theorem derivations_tryGet (c : Cache V) (now : Instant) (k : CacheKey) (wanted : Option String) :
    (c.tryGet now k wanted).1.metrics.counts.derivations = c.metrics.counts.derivations := by
  unfold tryGet lookup
  cases c.store.get? k with
  | none => rfl
  | some e =>
    dsimp only
    split
    · rfl
    · split
      · rfl
      · split <;> rfl

theorem derivations_set (c : Cache V) (now : Instant) (k : CacheKey) (value : V)
    (ttl : Option Duration) (version : Option String) :
    (c.set now k value ttl version).metrics.counts.derivations =
      c.metrics.counts.derivations := by
  simp only [set]
  cases (c.makeRoom k).2 <;> cases (c.encode value).2 <;> rfl

/-- A derivation is counted with the call that it ends in. -/
theorem derivations_step (c : Cache V) (call : CacheCall V) :
    (c.step call).1.metrics.counts.derivations =
      c.metrics.counts.derivations + (c.derivesAt call).toNat := by
  obtain ⟨now, op⟩ := call
  cases op with
  | set k value ttl version => exact c.derivations_set now k value ttl version
  | get k wanted | tryGet k wanted | has k wanted => exact c.derivations_tryGet now k wanted
  | complete k derived ttl version micros =>
    exact (c.abandon micros).derivations_set now k derived ttl version
  | getOrInsert k ttl wanted derived later micros =>
    have hlookup := c.derivations_tryGet now k wanted
    simp only [step, getOrInsert, derivesAt, get]
    cases hr : c.tryGet now k wanted with
    | mk c' outcome =>
      rw [hr] at hlookup
      cases outcome with
      | ok v => exact hlookup
      | error reason =>
        have hset := (c'.abandon micros).derivations_set later k derived ttl wanted
        exact hset.trans (congrArg (· + 1) hlookup)
  | _ => rfl

/-! ### Calls that find or derive a value -/

/-- A cache that was made with the settings has the history behind it. -/
def After (c : Cache V) (config : CacheConfig) (codec : Option (Codec V))
    (history : List (CacheEvent V)) : Prop :=
  ∃ m : PlainCache V, Simulates c m ∧ m.config = config ∧ m.codec = codec ∧
    PlainCache.Leads config codec history m.records

theorem After.new (config : CacheConfig) (codec : Option (Codec V)) :
    (Cache.new config codec).After config codec [] :=
  ⟨_, .new config codec, rfl, rfl, .start⟩

theorem After.run (h : c.After config codec history) (calls : List (CacheCall V)) :
    (c.run calls).After config codec (history ++ c.history calls) := by
  obtain ⟨m, hsim, rfl, rfl, hleads⟩ := h
  refine ⟨m.run calls, hsim.run calls, m.config_run calls, m.codec_run calls, ?_⟩
  rw [Cache.history, hsim.trace_eq]
  exact hleads.run calls

theorem snd_step_getOrInsert (c : Cache V) (now later : Instant) (k : CacheKey)
    (ttl : Option Duration) (wanted : Option String) (derived : V) (micros : Nat) :
    (c.step ⟨now, .getOrInsert k ttl wanted derived later micros⟩).2 =
      .derived ((c.get now k wanted).2.getD derived) (c.get now k wanted).2.isNone := by
  simp only [step, getOrInsert]
  cases c.get now k wanted with
  | mk c' found => cases found <;> rfl

theorem After.get_of_keeps (h : c.After config codec history) {r : CacheRecord V} {v : V}
    (hkeeps : PlainCache.Keeps config codec history r)
    (hv : PlainCache.decode ⟨config, codec, [], .zero⟩ r.value = some v) {now : Instant}
    (hvalid : now ≤ r.expiresAt) {wanted : Option String}
    (hversion : ∀ w s, wanted = some w → r.version = some s → w = s) :
    (c.get now r.key wanted).2 = some v := by
  obtain ⟨m, hsim, rfl, rfl, hleads⟩ := h
  obtain ⟨t, hr⟩ := hkeeps m.records hleads
  show (c.tryGet now r.key wanted).2.toOption = some v
  rw [(hsim.tryGet now r.key wanted).2]
  exact PlainCache.toOption_tryGet_of_find? hr hvalid hversion hv

theorem After.get_of_expiresAt (h : c.After config codec history) {k : CacheKey} {last : Instant}
    (hexpires : PlainCache.ExpiresAt config codec history k last) {now : Instant}
    (hlate : last < now) (wanted : Option String) : (c.get now k wanted).2 = none := by
  obtain ⟨m, hsim, rfl, rfl, hleads⟩ := h
  show (c.tryGet now k wanted).2.toOption = none
  rw [(hsim.tryGet now k wanted).2]
  refine PlainCache.toOption_tryGet_of_lt (fun r hr hkey => ?_) wanted
  rwa [hexpires m.records hleads r hr hkey]

end Cache

end ActionPolicy
