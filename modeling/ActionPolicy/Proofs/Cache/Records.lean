import ActionPolicy.Proofs.Cache.Order

/-!
# Records

What a store holds without its ticks: a list of records, of which the first was touched longest
ago. The order of the list says all that the ticks say.

## Main definitions

* `CacheRecord` – a stored value under its key, with what is known about it.
* `Store.Holds` – a store holds the records of a list, in the order of their touches.

## Main statements

* `Store.Holds.find?`, `Store.Holds.size_eq`, `Store.Holds.countByNamespace_eq` – what is seen of a
  store is seen of its records.
* `Store.Holds.remove`, `Store.Holds.touch`, `Store.Holds.insert`, `Store.Holds.evictOldest`,
  `Store.Holds.retain` – the records after each change.
-/

namespace ActionPolicy

/-- A stored value under its key, with what is known about it. -/
structure CacheRecord (V : Type) where
  /-- The key. -/
  key : CacheKey
  value : Stored V
  storedAt : Instant
  /-- When it was last stored or found. -/
  touchedAt : Instant
  /-- The last instant at which it is valid. -/
  expiresAt : Instant
  /-- What it was made from. -/
  version : Option String

namespace CacheRecord

variable {V : Type}

/-- The record of an entry under a key. -/
def ofEntry (p : CacheKey × Entry V) : CacheRecord V :=
  ⟨p.1, p.2.value, p.2.storedAt, p.2.touchedAt, p.2.expiresAt, p.2.version⟩

/-- The records of all keys but one. -/
def without (k : CacheKey) (records : List (CacheRecord V)) : List (CacheRecord V) :=
  records.filter fun r => r.key != k

/-- The record of a key. -/
def find? (k : CacheKey) (records : List (CacheRecord V)) : Option (CacheRecord V) :=
  records.find? fun r => r.key == k

theorem without_map_ofEntry (k : CacheKey) (l : List (CacheKey × Entry V)) :
    without k (l.map ofEntry) = (l.filter fun p => p.1 != k).map ofEntry :=
  List.filter_map

theorem without_eq_self {k : CacheKey} {records : List (CacheRecord V)}
    (h : find? k records = none) : without k records = records := by
  refine List.filter_eq_self.2 fun r hr => ?_
  have hne : ¬(r.key == k) = true := List.find?_eq_none.1 h r hr
  rwa [bne, Bool.not_eq_true', ← Bool.not_eq_true]

theorem key_of_find? {k : CacheKey} {records : List (CacheRecord V)} {r : CacheRecord V}
    (h : find? k records = some r) : r.key = k := by
  simpa using List.find?_some h

theorem mem_of_mem_without {k : CacheKey} {records : List (CacheRecord V)} {r : CacheRecord V}
    (hr : r ∈ without k records) : r ∈ records ∧ k ≠ r.key := by
  obtain ⟨hmem, hkey⟩ := List.mem_filter.mp hr
  exact ⟨hmem, (bne_iff_ne.mp hkey).symm⟩

theorem length_without_le (k : CacheKey) (records : List (CacheRecord V)) :
    (without k records).length ≤ records.length := List.length_filter_le _ _

theorem length_without_lt {k : CacheKey} {records : List (CacheRecord V)} {r : CacheRecord V}
    (h : find? k records = some r) : (without k records).length < records.length := by
  have hkey : r.key = k := key_of_find? h
  exact List.length_filter_lt_length_iff_exists.2
    ⟨r, List.mem_of_find?_eq_some h, by simp [hkey]⟩

end CacheRecord

namespace Store

open CacheRecord

variable {V : Type}

/-- The store holds these records, the one touched longest ago first. -/
def Holds (s : Store V) (records : List (CacheRecord V)) : Prop :=
  ∃ l, s.InOrder l ∧ records = l.map ofEntry

namespace Holds

variable {s : Store V} {records : List (CacheRecord V)}

theorem empty : (Store.empty : Store V).Holds [] := ⟨[], .empty, rfl⟩

theorem clear (s : Store V) : s.clear.Holds [] := ⟨[], .clear s, rfl⟩

theorem find? (h : s.Holds records) (k : CacheKey) :
    CacheRecord.find? k records = (s.get? k).map fun e => ofEntry (k, e) := by
  obtain ⟨l, hl, rfl⟩ := h
  rw [CacheRecord.find?, List.find?_map]
  cases he : s.get? k with
  | none =>
    have hnone : l.find? ((fun r => r.key == k) ∘ ofEntry) = none :=
      List.find?_eq_none.2 fun p hp => by
        simpa [ofEntry] using hl.get?_eq_none_iff.1 he p hp
    rw [hnone]
    rfl
  | some e =>
    have hm := hl.get?_eq_some_iff.1 he
    cases hf : l.find? ((fun r => r.key == k) ∘ ofEntry) with
    | none =>
      have hne := List.find?_eq_none.1 hf _ hm
      simp [ofEntry] at hne
    | some p =>
      have hk : p.1 = k := by simpa [ofEntry] using List.find?_some hf
      rw [hl.key_injective (List.mem_of_find?_eq_some hf) hm hk]
      rfl

theorem size_eq (h : s.Holds records) : s.size = records.length := by
  obtain ⟨l, hl, rfl⟩ := h
  rw [hl.size_eq, List.length_map]

theorem countByNamespace_eq (h : s.Holds records) :
    s.countByNamespace = (Named.all (α := Namespace)).filterMap fun ns =>
      let n := records.countP fun r => r.key.ns == ns
      if n = 0 then none else some (ns, n) := by
  obtain ⟨l, hl, rfl⟩ := h
  refine List.filterMap_congr fun ns _ => ?_
  rw [List.countP_map, hl.perm.countP_eq]
  rfl

theorem remove (h : s.Holds records) (k : CacheKey) : (s.remove k).Holds (without k records) := by
  obtain ⟨l, hl, rfl⟩ := h
  exact ⟨_, hl.remove k, without_map_ofEntry k l⟩

theorem touch (h : s.Holds records) {k : CacheKey} {r : CacheRecord V}
    (hr : CacheRecord.find? k records = some r) (now : Instant) :
    (s.touch k now).Holds (without k records ++ [{ r with touchedAt := now }]) := by
  rw [h.find? k, Option.map_eq_some_iff] at hr
  obtain ⟨e, he, rfl⟩ := hr
  obtain ⟨l, hl, rfl⟩ := h
  refine ⟨_, hl.touch he now, ?_⟩
  rw [List.map_append, without_map_ofEntry]
  rfl

theorem insert (h : s.Holds records) (k : CacheKey) (value : Stored V) (now expiresAt : Instant)
    (version : Option String) :
    (s.insert k value now expiresAt version).Holds
      (without k records ++ [⟨k, value, now, now, expiresAt, version⟩]) := by
  obtain ⟨l, hl, rfl⟩ := h
  refine ⟨_, hl.insert k value now expiresAt version, ?_⟩
  rw [List.map_append, without_map_ofEntry]
  rfl

theorem evictOldest (h : s.Holds records) (hr : records ≠ []) :
    ∃ s', s.evictOldest = some s' ∧ s'.Holds records.tail := by
  obtain ⟨l, hl, rfl⟩ := h
  obtain ⟨s', hs, hl'⟩ := hl.evictOldest (List.map_eq_nil_iff.not.1 hr)
  exact ⟨s', hs, _, hl', List.map_tail.symm⟩

/-- What is kept is told from the record alone; the others are counted. -/
theorem retain (h : s.Holds records) (keep : CacheRecord V → Bool) :
    (s.retain fun k e => keep (ofEntry (k, e))).1.Holds (records.filter keep) ∧
      (s.retain fun k e => keep (ofEntry (k, e))).2 = records.countP fun r => !keep r := by
  obtain ⟨l, hl, rfl⟩ := h
  obtain ⟨horder, hcount⟩ := hl.retain fun k e => keep (ofEntry (k, e))
  refine ⟨⟨_, horder, List.filter_map⟩, hcount.trans ?_⟩
  have hlength := List.length_eq_countP_add_countP (fun p => keep (ofEntry p)) (l := l)
  rw [← List.countP_eq_length_filter, List.countP_map, hlength, Nat.add_sub_cancel_left]
  exact List.countP_congr fun p _ => by simp

end Holds

end Store

end ActionPolicy
