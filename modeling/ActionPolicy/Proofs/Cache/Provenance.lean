import ActionPolicy.Proofs.Cache.Contents
import ActionPolicy.Proofs.Cache.Freshness
import ActionPolicy.Proofs.Cache.Session

/-!
# Where values come from

What is found under a key is among the values that were stored under it. So if nothing is held
under a key, only what is stored from then on can be found.

## Main definitions

* `CacheOp.stored?` – the value that a call may store, with its key.
* `Deposit`, `Cache.deposit?` – what a call stores, in the state it is made in.
* `Deposit.LastUnder` – what is stored last under a key.
* `Cache.Gains` – a cache holds only what another one holds, and what has been stored last.
* `Cache.HoldsOnly` – all values held under a key have a property.

## Main statements

* `Cache.gains_step`, `Cache.Gains.trans` – a call adds what it stores, and so do several.
* `Cache.Gains.exists_of_get` – what is found is had again of what was stored last.
* `Cache.HoldsOnly.step`, `CacheSession.holdsOnly_step` – the values under a key keep a property if
  those that are stored under it have it.
* `Cache.HoldsOnly.get` – what is found has the property, as far as the codec gives it back.
-/

namespace ActionPolicy

variable {V : Type}

/-- A value that is stored under a key, in a version. -/
structure Deposit (V : Type) where
  key : CacheKey
  version : Option String
  value : V

namespace Deposit

variable {d : Deposit V} {k : CacheKey} {deposits : List (Deposit V)}

/-- Of what is stored under the key, this comes last. -/
def LastUnder (d : Deposit V) (k : CacheKey) (deposits : List (Deposit V)) : Prop :=
  d.key = k ∧ ∃ earlier since, deposits = earlier ++ d :: since ∧ ∀ d' ∈ since, d'.key ≠ k

namespace LastUnder

theorem mem (h : d.LastUnder k deposits) : d ∈ deposits := by
  obtain ⟨-, earlier, since, rfl, -⟩ := h
  exact List.mem_append_right _ List.mem_cons_self

theorem singleton (h : d.key = k) : d.LastUnder k [d] :=
  ⟨h, [], [], rfl, fun _ hd => absurd hd List.not_mem_nil⟩

theorem append_left (h : d.LastUnder k deposits) (before : List (Deposit V)) :
    d.LastUnder k (before ++ deposits) := by
  obtain ⟨hkey, earlier, since, rfl, hsince⟩ := h
  exact ⟨hkey, before ++ earlier, since, (List.append_assoc _ _ _).symm, hsince⟩

theorem append_of_ne (h : d.LastUnder k deposits) {later : List (Deposit V)}
    (hlater : ∀ d' ∈ later, d'.key ≠ k) : d.LastUnder k (deposits ++ later) := by
  obtain ⟨hkey, earlier, since, rfl, hsince⟩ := h
  refine ⟨hkey, earlier, since ++ later, by rw [List.append_assoc, List.cons_append], ?_⟩
  intro d' hd'
  rcases List.mem_append.mp hd' with hd' | hd'
  · exact hsince d' hd'
  · exact hlater d' hd'

end LastUnder

end Deposit

/-- The value that may be stored, with its key. -/
def CacheOp.stored? : CacheOp V → Option (CacheKey × V)
  | .set k value _ _ => some (k, value)
  | .getOrInsert k _ _ derived _ _ => some (k, derived)
  | .complete k derived _ _ _ => some (k, derived)
  | _ => none

theorem Codec.Restores.eq_of_lossless {codec : Option (Codec V)}
    (hcodec : ∀ c, codec = some c → c.Lossless) {value v : V} (h : Restores codec value v) :
    v = value := by
  unfold Restores at h
  split at h
  · exact h
  · rename_i c
    split at h
    · rename_i bytes hbytes
      exact Option.some.inj (h.symm.trans (hcodec c rfl value bytes hbytes))
    · exact h

theorem Store.key_ne_of_mem_remove {s : Store V} {k : CacheKey} {p : CacheKey × Entry V}
    (hp : p ∈ (s.remove k).entries) : p.1 ≠ k := by
  unfold Store.remove at hp
  split at hp
  · exact bne_iff_ne.mp (List.mem_filter.mp hp).2
  · rename_i hnone
    exact lookup_eq_none_iff_key.mp hnone p hp

namespace Cache

theorem restores_of_decode_encode {c : Cache V} {value v : V}
    (h : c.decode (c.encode value).1 = some v) : Codec.Restores c.codec value v := by
  -- The form of a value depends on the codec alone, so a new cache will do.
  have hnew := Simulates.new c.config c.codec
  have hencode : c.encode value = (PlainCache.new c.config c.codec).encode value :=
    hnew.encode_eq value
  have hdecode : c.decode (c.encode value).1 =
      (PlainCache.new c.config c.codec).decode (c.encode value).1 := hnew.decode_eq _
  refine PlainCache.restores_of_decode_encode (m := PlainCache.new c.config c.codec) ?_
  rw [← hencode, ← hdecode, h]

/-- What a call stores. A value that is derived in one piece is stored only if none is found. -/
def deposit? (c : Cache V) (call : CacheCall V) : Option (Deposit V) :=
  match call.op with
  | .set k value _ version => some ⟨k, version, value⟩
  | .getOrInsert k _ version derived _ _ =>
    if (c.get call.now k version).2.isSome then none else some ⟨k, version, derived⟩
  | .complete k derived _ version _ => some ⟨k, version, derived⟩
  | _ => none

theorem stored?_of_deposit? {c : Cache V} {call : CacheCall V} {d : Deposit V}
    (h : c.deposit? call = some d) : call.op.stored? = some (d.key, d.value) := by
  obtain ⟨now, op⟩ := call
  cases op with
  | set k value ttl version =>
    obtain rfl := Option.some.inj h
    rfl
  | getOrInsert k ttl version derived later micros =>
    obtain ⟨-, rfl⟩ : _ ∧ (⟨k, version, derived⟩ : Deposit V) = d := by
      simpa [deposit?] using h
    rfl
  | complete k derived ttl version micros =>
    obtain rfl := Option.some.inj h
    rfl
  | _ => contradiction

/-- The second cache holds only what the first one holds, and what has been stored. Under each key
that is what was stored last. -/
structure Gains (c : Cache V) (deposits : List (Deposit V)) (c' : Cache V) : Prop where
  /-- Values are held in the same form. -/
  codec : c'.codec = c.codec
  entries : ∀ p ∈ c'.store.entries,
    (∀ d ∈ deposits, d.key ≠ p.1) ∧
        (∃ e, (p.1, e) ∈ c.store.entries ∧ p.2.version = e.version ∧ p.2.value = e.value) ∨
      ∃ d : Deposit V, d.LastUnder p.1 deposits ∧ p.2.version = d.version ∧
        p.2.value = (c.encode d.value).1

theorem Thins.gains {c c' : Cache V} (h : c.Thins c') : c.Gains [] c' := by
  refine ⟨h.codec, fun p hp => Or.inl ⟨fun d hd => absurd hd List.not_mem_nil, ?_⟩⟩
  obtain ⟨e, he, hpe⟩ := h.store p hp
  exact ⟨e, he, by rw [hpe], by rw [hpe]⟩

theorem gains_set (c : Cache V) (now : Instant) (k : CacheKey) (value : V) (ttl : Option Duration)
    (version : Option String) :
    c.Gains [⟨k, version, value⟩] (c.set now k value ttl version) := by
  refine ⟨rfl, fun p hp => ?_⟩
  rcases List.mem_append.mp hp with hold | hnew
  · refine Or.inl ⟨fun d hd => ?_, p.2, ?_, rfl, rfl⟩
    · rw [List.mem_singleton.mp hd]
      exact (Store.key_ne_of_mem_remove hold).symm
    · exact mem_of_mem_makeRoom (Store.mem_of_mem_remove _ hold)
  · rw [List.mem_singleton.mp hnew]
    exact Or.inr ⟨_, .singleton rfl, rfl, rfl⟩

namespace Gains

variable {c c' c'' : Cache V} {deposits later : List (Deposit V)}

theorem encode_eq (h : c.Gains deposits c') (value : V) : c'.encode value = c.encode value := by
  rw [encode, encode, h.codec]

theorem trans (h : c.Gains deposits c') (h' : c'.Gains later c'') :
    c.Gains (deposits ++ later) c'' := by
  refine ⟨h'.codec.trans h.codec, fun p hp => ?_⟩
  rcases h'.entries p hp with ⟨hlater, e, he, hversion, hvalue⟩ | ⟨d, hd, hversion, hvalue⟩
  · rcases h.entries (p.1, e) he with
      ⟨hnone, e', he', hversion', hvalue'⟩ | ⟨d, hd, hversion', hvalue'⟩
    · refine Or.inl ⟨fun d hd => ?_, e', he', hversion.trans hversion', hvalue.trans hvalue'⟩
      rcases List.mem_append.mp hd with hd | hd
      · exact hnone d hd
      · exact hlater d hd
    · exact Or.inr ⟨d, hd.append_of_ne hlater, hversion.trans hversion', hvalue.trans hvalue'⟩
  · rw [h.encode_eq] at hvalue
    exact Or.inr ⟨d, hd.append_left deposits, hversion, hvalue⟩

/-- What is found in a cache that was empty is had again of the value that was last stored under the
key, in a version that agrees with the wanted one. -/
theorem exists_of_get (h : c.Gains deposits c') (hempty : c.store.entries = []) {now : Instant}
    {k : CacheKey} {wanted : Option String} {v : V} (hfound : (c'.get now k wanted).2 = some v) :
    ∃ d : Deposit V, d.LastUnder k deposits ∧ conflicting wanted d.version = false ∧
      Codec.Restores c.codec d.value v := by
  obtain ⟨e, he, hagrees, hdecode⟩ := Cache.exists_of_get hfound
  rcases h.entries (k, e) he with ⟨-, old, hold, -⟩ | ⟨d, hd, hversion, hvalue⟩
  · rw [hempty] at hold
    contradiction
  · have hversion' : e.version = d.version := hversion
    have hvalue' : e.value = (c.encode d.value).1 := hvalue
    rw [hvalue', ← h.encode_eq] at hdecode
    exact ⟨d, hd, hversion' ▸ hagrees, h.codec ▸ restores_of_decode_encode hdecode⟩

end Gains

theorem gains_step (c : Cache V) (call : CacheCall V) :
    c.Gains (c.deposit? call).toList (c.step call).1 := by
  obtain ⟨now, op⟩ := call
  by_cases hwrites : op.writes = true
  · cases op with
    | set k value ttl version => exact c.gains_set now k value ttl version
    | complete k derived ttl version micros =>
      exact (c.thins_abandon micros).gains.trans (gains_set _ now k derived ttl version)
    | getOrInsert k ttl version derived later micros =>
      have hlooked := c.thins_get now k version
      simp only [Cache.step, Cache.getOrInsert, deposit?]
      cases hget : c.get now k version with
      | mk d found =>
        rw [hget] at hlooked
        cases found with
        | some v => exact hlooked.gains
        | none =>
          exact (hlooked.trans (d.thins_abandon micros)).gains.trans
            (gains_set _ later k derived ttl version)
    | _ => contradiction
  · have hquiet : op.writes = false := by simpa using hwrites
    have hnone : c.deposit? ⟨now, op⟩ = none := by
      cases op <;> first | rfl | contradiction
    rw [hnone]
    exact (c.thins_step hquiet).gains

/-- All values held under the key have the property. -/
structure HoldsOnly (codec : Option (Codec V)) (k : CacheKey) (P : V → Prop) (c : Cache V) :
    Prop where
  codec : c.codec = codec
  entries : ∀ p ∈ c.store.entries, p.1 = k → ∃ v, P v ∧ p.2.value = (c.encode v).1

namespace HoldsOnly

variable {codec : Option (Codec V)} {k : CacheKey} {P Q : V → Prop} {c c' : Cache V}

theorem mono (h : c.HoldsOnly codec k P) (hPQ : ∀ v, P v → Q v) : c.HoldsOnly codec k Q := by
  refine ⟨h.codec, fun p hp hk => ?_⟩
  obtain ⟨v, hv, hvalue⟩ := h.entries p hp hk
  exact ⟨v, hPQ v hv, hvalue⟩

theorem gains (h : c.HoldsOnly codec k P) {deposits : List (Deposit V)}
    (hgains : c.Gains deposits c') (hdeposits : ∀ d ∈ deposits, d.key = k → P d.value) :
    c'.HoldsOnly codec k P := by
  refine ⟨hgains.codec.trans h.codec, fun p hp hk => ?_⟩
  rcases hgains.entries p hp with ⟨-, e, he, -, hsame⟩ | ⟨d, hd, -, hvalue⟩
  · obtain ⟨v, hv, hheld⟩ := h.entries (p.1, e) he hk
    exact ⟨v, hv, by rw [hsame, hgains.encode_eq, hheld]⟩
  · exact ⟨d.value, hdeposits d hd.mem (hd.1.trans hk), by rw [hvalue, hgains.encode_eq]⟩

theorem thins (h : c.HoldsOnly codec k P) (hthins : c.Thins c') : c'.HoldsOnly codec k P :=
  h.gains hthins.gains fun _ hd => absurd hd List.not_mem_nil

theorem step (h : c.HoldsOnly codec k P) {call : CacheCall V}
    (hstored : ∀ v, call.op.stored? = some (k, v) → P v) :
    (c.step call).1.HoldsOnly codec k P := by
  refine h.gains (c.gains_step call) fun d hd hk => hstored d.value ?_
  rw [stored?_of_deposit? (Option.mem_toList.mp hd), hk]

/-- What is found is had again of a value that has the property. -/
theorem get (h : c.HoldsOnly codec k P) {now : Instant} {wanted : Option String} {v : V}
    (hfound : (c.get now k wanted).2 = some v) :
    ∃ value, P value ∧ Codec.Restores codec value v := by
  obtain ⟨e, he, -, hdecode⟩ := exists_of_get hfound
  obtain ⟨value, hvalue, hheld⟩ := h.entries (k, e) he rfl
  have hheld' : e.value = (c.encode value).1 := hheld
  rw [hheld'] at hdecode
  exact ⟨value, hvalue, h.codec ▸ restores_of_decode_encode hdecode⟩

/-- Nothing is held under the key. -/
theorem of_forall_ne (h : ∀ p ∈ c.store.entries, p.1 ≠ k) : c.HoldsOnly c.codec k fun _ => False :=
  ⟨rfl, fun p hp hk => absurd hk (h p hp)⟩

end HoldsOnly

end Cache

namespace CacheSession

/-- What an event stores. -/
def deposit? (s : CacheSession V) (event : SessionEvent V) : Option (Deposit V) :=
  (s.made? event).bind s.cache.deposit?

theorem gains_step (s : CacheSession V) (event : SessionEvent V) :
    s.cache.Gains (s.deposit? event).toList (s.step event).1.cache := by
  rw [cache_step, deposit?]
  cases s.made? event with
  | none => exact (Cache.Thins.refl s.cache).gains
  | some call => exact s.cache.gains_step call

theorem holdsOnly_step {s : CacheSession V} {codec : Option (Codec V)} {k : CacheKey}
    {P : V → Prop} (h : s.cache.HoldsOnly codec k P) {event : SessionEvent V}
    (hstored : ∀ call v, s.made? event = some call → call.op.stored? = some (k, v) → P v) :
    (s.step event).1.cache.HoldsOnly codec k P := by
  rw [cache_step]
  cases hmade : s.made? event with
  | none => exact h
  | some call => exact h.step fun v hv => hstored call v hmade hv

end CacheSession

end ActionPolicy
