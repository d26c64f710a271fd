import ActionPolicy.Proofs.Cache.Refinement
import Mathlib.Algebra.BigOperators.Group.List.Basic
import Mathlib.Algebra.GroupWithZero.Nat

/-!
# What holds of every cache

The entries of a cache and its index of touches are changed by different parts of every operation.
After each of them the two agree again, and the numbers that a cache gives of itself are right.

## Main definitions

* `Store.Consistent` – entries and index are inverse to each other.

## Main statements

* `Store.InOrder.consistent` – so they are if one list orders both.
* `Store.sum_countByNamespace` – the numbers of the namespaces add up to the number of entries.
* `Cache.run_new_sound` – the state after any calls to a new cache.
-/

namespace ActionPolicy

namespace Store

variable {V : Type}

/-- The entries and the index of a store agree: seen as maps, from keys to ticks and from ticks to
keys, they are inverse to each other. -/
structure Consistent (s : Store V) : Prop where
  /-- The index holds a tick with a key if the entry under the key has this tick, and only then. -/
  mem_recency_iff : ∀ t k, (t, k) ∈ s.recency ↔ ∃ e, s.get? k = some e ∧ e.tick = t
  /-- A tick leads to a key if the key leads to the tick, and only then. -/
  inverse : ∀ t k, s.recency.lookup t = some k ↔ (s.get? k).map Entry.tick = some t
  /-- No key has two entries. -/
  keys_nodup : (s.entries.map Prod.fst).Nodup
  /-- No key stands in the index twice. -/
  indexed_nodup : (s.recency.map Prod.snd).Nodup
  /-- The index lists ticks in ascending order, none of them twice. -/
  ticks_ascending : (s.recency.map Prod.fst).Pairwise (· < ·)
  tick_lt : ∀ k e, s.get? k = some e → e.tick < s.nextTick

theorem InOrder.mem_recency_iff {s : Store V} {l : List (CacheKey × Entry V)} (h : s.InOrder l)
    (t : Nat) (k : CacheKey) : (t, k) ∈ s.recency ↔ ∃ e, s.get? k = some e ∧ e.tick = t := by
  rw [h.index, List.mem_map]
  constructor
  · rintro ⟨⟨k', e⟩, hp, heq⟩
    obtain ⟨rfl, rfl⟩ := Prod.mk.inj heq
    exact ⟨e, h.get?_eq_some_iff.2 hp, rfl⟩
  · rintro ⟨e, he, rfl⟩
    exact ⟨(k, e), h.get?_eq_some_iff.1 he, rfl⟩

theorem InOrder.consistent {s : Store V} {l : List (CacheKey × Entry V)} (h : s.InOrder l) :
    s.Consistent := by
  have hticks : (s.recency.map Prod.fst).Pairwise (· < ·) := by
    rw [h.index, List.map_map, List.pairwise_map]
    exact h.ascending
  refine ⟨h.mem_recency_iff, fun t k => ?_, h.keys_entries, ?_, hticks, fun k e he => ?_⟩
  · rw [lookup_eq_some_iff_mem (hticks.imp Nat.ne_of_lt), h.mem_recency_iff, Option.map_eq_some_iff]
  · rw [h.index, List.map_map]
    exact h.keys
  · exact h.below _ (h.get?_eq_some_iff.1 he)

/-! ### Numbers of entries -/

/-- Numbers that are zero can be left out of a sum. -/
theorem sum_filterMap_pos {α : Type} (f : α → Nat) (l : List α) :
    ((l.filterMap fun a => if f a = 0 then none else some (a, f a)).map Prod.snd).sum =
      (l.map f).sum := by
  induction l with
  | nil => rfl
  | cons a l ih =>
    by_cases ha : f a = 0
    · simpa [List.filterMap_cons, ha] using ih
    · simpa [List.filterMap_cons, ha] using ih

/-- Every key is in one namespace, so counting by namespaces counts all. -/
theorem sum_countP_ns {α : Type} (key : α → CacheKey) (l : List α) :
    ((Named.all (α := Namespace)).map fun ns => l.countP fun a => (key a).ns == ns).sum =
      l.length := by
  induction l with
  | nil => rfl
  | cons a l ih =>
    have hone : ((Named.all (α := Namespace)).map fun ns =>
        if ((key a).ns == ns) = true then 1 else 0).sum = 1 := by
      cases (key a).ns <;> rfl
    simp only [List.countP_cons, List.sum_map_add, ih, hone, List.length_cons]

theorem sum_countByNamespace (s : Store V) : (s.countByNamespace.map Prod.snd).sum = s.size :=
  (sum_filterMap_pos _ _).trans (sum_countP_ns Prod.fst s.entries)

theorem pos_of_mem_countByNamespace {s : Store V} {p : Namespace × Nat}
    (hp : p ∈ s.countByNamespace) : 0 < p.2 := by
  obtain ⟨ns, _, hns⟩ := List.mem_filterMap.1 hp
  by_cases hzero : (s.entries.countP fun q => q.1.ns == ns) = 0
  · simp [hzero] at hns
  · simp only [if_neg hzero, Option.some.injEq] at hns
    rw [← hns]
    exact Nat.pos_of_ne_zero hzero

end Store

namespace Cache

variable {V : Type}

/-- Whatever has been asked of a new cache, its entries and its index agree, it holds no more than
it may, and the numbers it gives are those of its entries. -/
theorem run_new_sound (config : CacheConfig) (codec : Option (Codec V))
    (calls : List (CacheCall V)) :
    let c := (Cache.new config codec).run calls
    c.store.Consistent ∧
      c.store.entries.length ≤ max config.capacity 1 ∧
      c.stats.size = c.store.entries.length ∧
      c.stats.size = (c.stats.byNamespace.map Prod.snd).sum ∧
      ∀ p ∈ c.stats.byNamespace, 0 < p.2 := by
  intro c
  have h := (Simulates.new config codec).run calls
  obtain ⟨l, horder, -⟩ := h.holds
  refine ⟨horder.consistent, ?_, rfl, (Store.sum_countByNamespace _).symm,
    fun p hp => Store.pos_of_mem_countByNamespace hp⟩
  -- The plain cache has the settings as they were given, without the capacity raised.
  have hlimit : ((PlainCache.new config codec).run calls).limit = max config.capacity 1 := by
    rw [PlainCache.limit, PlainCache.config_run]
    rfl
  rw [← hlimit]
  exact Nat.le_trans (Nat.le_of_eq h.holds.size_eq) h.bounded

end Cache

end ActionPolicy
