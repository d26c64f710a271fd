import ActionPolicy.Proofs.Cache.History

/-!
# No stale values

What a lookup returns was stored under its key, is the last that was, and is still valid. Nothing
has ended it since: neither a removal nor a lookup that returned nothing.

## Main definitions

* `CacheEvent.Ends` – an event after which nothing that was stored under a key before is found.
* `Codec.Restores` – what is had again of a stored value.
* `CacheEvent.LastStored` – what was last stored under a key, if nothing has ended it.

## Main statements

* `PlainCache.Undergoes.mem` – a record is a new one, or an old one that the event does not end.
* `PlainCache.Leads.lastStored` – every record is that of a value last stored.
* `Cache.exists_stored_of_found` – so is every value that a lookup returns, and it is valid.
-/

namespace ActionPolicy

open CacheRecord

variable {V : Type}

namespace CacheEvent

/-- Nothing that was stored under a key before the event is found after it. -/
def Ends (k : CacheKey) : CacheEvent V → Prop
  | stored _ k' _ _ _ => k' = k
  | found _ _ _ _ => False
  | missed k' => k' = k
  | deleted k' => k' = k
  | namespaceCleared ns => k.ns = ns
  | cleared => True
  | purged _ => False

/-- In a history this was stored last under a key, and nothing has ended it since. -/
def LastStored (history : List (CacheEvent V)) (k : CacheKey) (now : Instant) (value : V)
    (ttl : Option Duration) (version : Option String) : Prop :=
  ∃ earlier since, history = earlier ++ .stored now k value ttl version :: since ∧
    ∀ e ∈ since, ¬e.Ends k

namespace LastStored

variable {history : List (CacheEvent V)} {k : CacheKey} {now : Instant} {value : V}
  {ttl : Option Duration} {version : Option String}

theorem concat_stored (history : List (CacheEvent V)) (k : CacheKey) (now : Instant) (value : V)
    (ttl : Option Duration) (version : Option String) :
    LastStored (history ++ [.stored now k value ttl version]) k now value ttl version :=
  ⟨history, [], rfl, fun _ h => absurd h List.not_mem_nil⟩

theorem concat (h : LastStored history k now value ttl version) {e : CacheEvent V}
    (he : ¬e.Ends k) : LastStored (history ++ [e]) k now value ttl version := by
  obtain ⟨earlier, since, rfl, hsince⟩ := h
  refine ⟨earlier, since ++ [e], by simp, fun e' he' => ?_⟩
  rcases List.mem_append.mp he' with he' | he'
  · exact hsince e' he'
  · rwa [List.mem_singleton.mp he']

end LastStored

end CacheEvent

/-- What is had again of a stored value: what the codec makes of its stored form, and the value
itself if nothing encodes it. -/
def Codec.Restores (codec : Option (Codec V)) (value v : V) : Prop :=
  match codec with
  | none => v = value
  | some codec =>
    match codec.encode value with
    | some bytes => codec.decode bytes = some v
    | none => v = value

namespace PlainCache

theorem restores_of_decode_encode {m : PlainCache V} {value v : V}
    (h : m.decode (m.encode value).1 = some v) : Codec.Restores m.codec value v := by
  unfold encode at h
  unfold Codec.Restores
  cases hcodec : m.codec with
  | none =>
    simp only [hcodec, Option.map_none, decode, Option.some.injEq] at h
    exact h.symm
  | some codec =>
    simp only [hcodec, Option.map_some] at h
    cases hbytes : codec.encode value with
    | none =>
      simp only [hbytes, decode, Option.some.injEq] at h
      simpa only [hbytes] using h.symm
    | some bytes => simpa only [hbytes, decode, hcodec] using h

/-! ### Records -/

/-- A record after an event is the one that the event stores, or it is one from before, which may
have been touched, and which the event does not end. -/
theorem Undergoes.mem {m : PlainCache V} {e : CacheEvent V} {records : List (CacheRecord V)}
    (h : m.Undergoes e records) {r : CacheRecord V} (hr : r ∈ records) :
    (∃ now value ttl, e = .stored now r.key value ttl r.version ∧ r.value = (m.encode value).1 ∧
      r.expiresAt = now.plus (ttl.getD m.config.defaultTtl)) ∨
    ¬e.Ends r.key ∧ ∃ r₀ ∈ m.records, r = { r₀ with touchedAt := r.touchedAt } := by
  cases h with
  | stored now k value ttl version =>
    rcases List.mem_append.mp hr with hr | hr
    · obtain ⟨hmem, hkey⟩ := mem_of_mem_staying hr
      exact Or.inr ⟨hkey, r, hmem, rfl⟩
    · obtain rfl := List.mem_singleton.mp hr
      exact Or.inl ⟨now, value, ttl, rfl, rfl, rfl⟩
  | found hfind _ _ _ =>
    rcases List.mem_append.mp hr with hr | hr
    · exact Or.inr ⟨id, r, (mem_of_mem_without hr).1, rfl⟩
    · obtain rfl := List.mem_singleton.mp hr
      exact Or.inr ⟨id, _, List.mem_of_find?_eq_some hfind, rfl⟩
  | missed k =>
    obtain ⟨hmem, hkey⟩ := mem_of_mem_without hr
    exact Or.inr ⟨hkey, r, hmem, rfl⟩
  | deleted k =>
    obtain ⟨hmem, hkey⟩ := mem_of_mem_without hr
    exact Or.inr ⟨hkey, r, hmem, rfl⟩
  | namespaceCleared ns =>
    obtain ⟨hmem, hns⟩ := List.mem_filter.mp hr
    exact Or.inr ⟨bne_iff_ne.mp hns, r, hmem, rfl⟩
  | cleared => exact absurd hr List.not_mem_nil
  | purged now => exact Or.inr ⟨id, r, List.mem_of_mem_filter hr, rfl⟩

/-- Every record is that of the value last stored under its key. -/
theorem Leads.lastStored {config : CacheConfig} {codec : Option (Codec V)}
    {history : List (CacheEvent V)} {records : List (CacheRecord V)}
    (h : Leads config codec history records) :
    ∀ r ∈ records, ∃ now value ttl,
      CacheEvent.LastStored history r.key now value ttl r.version ∧
        r.value = (encode ⟨config, codec, [], .zero⟩ value).1 ∧
        r.expiresAt = now.plus (ttl.getD config.defaultTtl) := by
  induction h with
  | start => exact fun r hr => absurd hr List.not_mem_nil
  | next _ he ih =>
    intro r hr
    rcases he.mem hr with ⟨now, value, ttl, rfl, hvalue, hexpires⟩ | ⟨hends, r₀, hr₀, htouched⟩
    · exact ⟨now, value, ttl, .concat_stored _ _ _ _ _ _, hvalue, hexpires⟩
    · obtain ⟨now, value, ttl, hlast, hvalue, hexpires⟩ := ih r₀ hr₀
      rw [htouched] at hends ⊢
      exact ⟨now, value, ttl, hlast.concat hends, hvalue, hexpires⟩

end PlainCache

namespace Cache

/-- If a lookup succeeds, the value that was last stored under its key is still valid, in a version
that does not differ from the wanted one, and nothing has ended it. It is the one that is returned,
as far as the codec gives it back. -/
theorem exists_stored_of_found (config : CacheConfig) (codec : Option (Codec V))
    (calls : List (CacheCall V)) {before after : List (CacheEvent V)} {now : Instant}
    {k : CacheKey} {wanted : Option String} {seen : Option V}
    (h : (Cache.new config codec).history calls = before ++ .found now k wanted seen :: after) :
    ∃ earlier since at' value ttl version,
      before = earlier ++ .stored at' k value ttl version :: since ∧ (∀ e ∈ since, ¬e.Ends k) ∧
        (∀ v, seen = some v → Codec.Restores codec value v) ∧
        now ≤ at'.plus (ttl.getD config.defaultTtl) ∧
        ∀ w s, wanted = some w → version = some s → w = s := by
  have hleads := leads_history config codec calls
  rw [h] at hleads
  obtain ⟨records, _, hbefore, hfound⟩ := hleads.undergoes
  cases hfound with
  | @found _ _ _ _ r hr hvalid hversion hseen =>
    have hkey : r.key = k := key_of_find? hr
    obtain ⟨at', value, ttl, ⟨earlier, since, hsplit, hsince⟩, hvalue, hexpires⟩ :=
      hbefore.lastStored r (List.mem_of_find?_eq_some hr)
    rw [hkey] at hsplit hsince
    rw [hexpires] at hvalid
    refine ⟨earlier, since, at', value, ttl, r.version, hsplit, hsince, fun v hv => ?_, hvalid,
      hversion⟩
    have hdecode := hseen v hv
    rw [hvalue] at hdecode
    exact PlainCache.restores_of_decode_encode hdecode

/-- A value is replaced after the clock was set back, and found at the last instant at which it is
valid. -/
def replacedAtEarlierTime : List (CacheCall String) :=
  [⟨Instant.epoch.plus ⟨5⟩, .set (.buttons "T1") "old" none (some "1")⟩,
    ⟨Instant.epoch.plus ⟨3⟩, .set (.buttons "T1") "new" (some ⟨1⟩) (some "2")⟩,
    ⟨Instant.epoch.plus ⟨4⟩, .sweep⟩,
    ⟨Instant.epoch.plus ⟨4⟩, .get (.buttons "T1") none⟩]

/-- What is seen until it is found. -/
def seenUntilFound : List (CacheEvent String) :=
  [.stored (Instant.epoch.plus ⟨5⟩) (.buttons "T1") "old" none (some "1"),
    .stored (Instant.epoch.plus ⟨3⟩) (.buttons "T1") "new" (some ⟨1⟩) (some "2"),
    .purged (Instant.epoch.plus ⟨4⟩)]

theorem exists_stored_of_found_replaced :
    (Cache.new .usual none).history replacedAtEarlierTime =
        seenUntilFound ++ [.found (Instant.epoch.plus ⟨4⟩) (.buttons "T1") none (some "new")] ∧
      ∃ earlier since at' value ttl version,
        seenUntilFound = earlier ++ .stored at' (.buttons "T1") value ttl version :: since ∧
          (∀ e ∈ since, ¬e.Ends (.buttons "T1")) ∧
          (∀ v, some "new" = some v → Codec.Restores none value v) ∧
          Instant.epoch.plus ⟨4⟩ ≤ at'.plus (ttl.getD CacheConfig.usual.defaultTtl) ∧
          ∀ w s, none = some w → version = some s → w = s := by
  have h : (Cache.new .usual none).history replacedAtEarlierTime = seenUntilFound ++
      [.found (Instant.epoch.plus ⟨4⟩) (.buttons "T1") none (some "new")] := by rfl
  exact ⟨h, exists_stored_of_found .usual none replacedAtEarlierTime h⟩

end Cache

end ActionPolicy
