import ActionPolicy.Cache.Store
import ActionPolicy.Proofs.KeyedList

/-!
# The order of touches

A store holds its entries in no particular order and the order of their touches in an index beside
them. Here both are seen as one list, from the entry touched longest ago to the one touched last,
and every change of a store is a change of that list.

## Main definitions

* `Store.InOrder` – the entries of a store are those of a list, and the index names them in the
  order of the list.

## Main statements

* `Store.InOrder.remove`, `Store.InOrder.touch`, `Store.InOrder.insert`,
  `Store.InOrder.evictOldest`, `Store.InOrder.retain`, `Store.InOrder.clear` – the list after each
  change.
* `Store.InOrder.get?_eq_some_iff`, `Store.InOrder.size_eq` – what is found is what the list holds.
-/

namespace ActionPolicy

namespace Store

variable {V : Type}

/-- The entries of a store are those of `l`, and the index names them in the order of `l`: their
ticks ascend, and all of them have been given out. -/
structure InOrder (s : Store V) (l : List (CacheKey × Entry V)) : Prop where
  perm : l.Perm s.entries
  /-- The index names them in the same order. -/
  index : s.recency = l.map fun p => (p.2.tick, p.1)
  /-- There is one entry under a key at most. -/
  keys : (l.map Prod.fst).Nodup
  /-- The later entry has the later tick. -/
  ascending : l.Pairwise fun p q => p.2.tick < q.2.tick
  /-- A tick not given out yet is later than all others. -/
  below : ∀ p ∈ l, p.2.tick < s.nextTick

namespace InOrder

variable {s : Store V} {l : List (CacheKey × Entry V)} {k : CacheKey} {e : Entry V}

theorem empty : (Store.empty : Store V).InOrder [] :=
  ⟨.refl _, rfl, List.nodup_nil, .nil, fun _ h => absurd h List.not_mem_nil⟩

/-! ### What is found -/

theorem keys_entries (h : s.InOrder l) : (s.entries.map Prod.fst).Nodup :=
  (h.perm.map Prod.fst).nodup h.keys

theorem get?_eq_some_iff (h : s.InOrder l) : s.get? k = some e ↔ (k, e) ∈ l :=
  (lookup_eq_some_iff_mem h.keys_entries).trans h.perm.mem_iff.symm

theorem get?_eq_none_iff (h : s.InOrder l) : s.get? k = none ↔ ∀ p ∈ l, p.1 ≠ k := by
  rw [Store.get?, lookup_eq_none_iff_key]
  exact ⟨fun hn p hp => hn p (h.perm.mem_iff.1 hp), fun hn p hp => hn p (h.perm.mem_iff.2 hp)⟩

theorem size_eq (h : s.InOrder l) : s.size = l.length := h.perm.length_eq.symm

theorem key_injective (h : s.InOrder l) {p q : CacheKey × Entry V} (hp : p ∈ l) (hq : q ∈ l)
    (hpq : p.1 = q.1) : p = q := List.inj_on_of_nodup_map h.keys hp hq hpq

theorem tick_injective (h : s.InOrder l) {p q : CacheKey × Entry V} (hp : p ∈ l) (hq : q ∈ l)
    (hpq : p.2.tick = q.2.tick) : p = q := by
  have hticks : (l.map fun p => p.2.tick).Nodup :=
    List.pairwise_map.2 (h.ascending.imp Nat.ne_of_lt)
  exact List.inj_on_of_nodup_map hticks hp hq hpq

/-- Two entries of one store have the same tick exactly if they are under the same key. -/
theorem tick_eq_iff (h : s.InOrder l) {p q : CacheKey × Entry V} (hp : p ∈ l) (hq : q ∈ l) :
    p.2.tick = q.2.tick ↔ p.1 = q.1 :=
  ⟨fun hpq => by rw [h.tick_injective hp hq hpq], fun hpq => by rw [h.key_injective hp hq hpq]⟩

/-! ### Changes -/

/-- Some entries stay, and their ticks stay in the index. -/
theorem filter (h : s.InOrder l) (keep : CacheKey × Entry V → Bool) {entries recency}
    (hentries : (l.filter keep).Perm entries)
    (hrecency : recency = (l.filter keep).map fun p => (p.2.tick, p.1)) :
    (Store.mk entries recency s.nextTick).InOrder (l.filter keep) where
  perm := hentries
  index := hrecency
  keys := h.keys.sublist (List.filter_sublist.map _)
  ascending := h.ascending.sublist List.filter_sublist
  below p hp := h.below p (List.mem_of_mem_filter hp)

/-- An entry at a fresh tick is put behind the others. -/
theorem append (h : s.InOrder l) (hk : ∀ p ∈ l, p.1 ≠ k) (he : e.tick = s.nextTick) {entries}
    (hentries : (l ++ [(k, e)]).Perm entries) :
    (Store.mk entries (s.recency ++ [(s.nextTick, k)]) (s.nextTick + 1)).InOrder
      (l ++ [(k, e)]) where
  perm := hentries
  index := by simp [h.index, he]
  keys := by
    rw [List.map_append, List.nodup_append]
    refine ⟨h.keys, by simp, ?_⟩
    intro a ha b hb
    obtain ⟨p, hp, rfl⟩ := List.mem_map.1 ha
    rw [List.map_singleton, List.mem_singleton] at hb
    exact hb ▸ hk p hp
  ascending := by
    refine List.pairwise_append.2 ⟨h.ascending, List.pairwise_singleton _ _, ?_⟩
    intro p hp q hq
    rw [List.mem_singleton] at hq
    subst hq
    exact he ▸ h.below p hp
  below p hp := by
    rcases List.mem_append.1 hp with hp | hp
    · exact Nat.lt_succ_of_lt (h.below p hp)
    · rw [List.mem_singleton] at hp
      subst hp
      exact he ▸ Nat.lt_succ_self _

/-- The index without the tick of one entry names the others. -/
theorem eraseTick_eq (h : s.InOrder l) (he : (k, e) ∈ l) :
    eraseTick e.tick s.recency =
      (l.filter fun p => p.1 != k).map fun p => (p.2.tick, p.1) := by
  rw [eraseTick, h.index, List.filter_map]
  congr 1
  refine List.filter_congr fun p hp => ?_
  show (p.2.tick != e.tick) = (p.1 != k)
  rw [Bool.eq_iff_iff, bne_iff_ne, bne_iff_ne]
  exact not_congr (h.tick_eq_iff hp he)

theorem remove (h : s.InOrder l) (k : CacheKey) :
    (s.remove k).InOrder (l.filter fun p => p.1 != k) := by
  unfold Store.remove
  split
  · next e he =>
    exact h.filter _ (h.perm.filter _) (h.eraseTick_eq (h.get?_eq_some_iff.1 he))
  · next hn =>
    have hall : (l.filter fun p => p.1 != k) = l :=
      List.filter_eq_self.2 fun p hp => bne_iff_ne.2 (h.get?_eq_none_iff.1 hn p hp)
    rwa [hall]

@[simp] theorem nextTick_remove (s : Store V) (k : CacheKey) :
    (s.remove k).nextTick = s.nextTick := by
  unfold Store.remove
  split <;> rfl

theorem touch (h : s.InOrder l) (he : s.get? k = some e) (now : Instant) :
    (s.touch k now).InOrder
      ((l.filter fun p => p.1 != k) ++
        [(k, { e with tick := s.nextTick, touchedAt := now })]) := by
  have hm := h.get?_eq_some_iff.1 he
  have hkept := h.filter (fun p => p.1 != k) (.refl _) (h.eraseTick_eq hm)
  simp only [Store.touch, he]
  refine hkept.append (fun p hp => by simpa using List.of_mem_filter hp) rfl ?_
  refine .symm (.trans ?_ (perm_of_update h.keys hm
    fun e => { e with tick := s.nextTick, touchedAt := now }))
  exact h.perm.symm.map _

theorem insert (h : s.InOrder l) (k : CacheKey) (value : Stored V) (now expiresAt : Instant)
    (version : Option String) :
    (s.insert k value now expiresAt version).InOrder
      ((l.filter fun p => p.1 != k) ++
        [(k, ⟨value, now, now, expiresAt, version, s.nextTick⟩)]) := by
  have hkept := h.remove k
  refine hkept.append (fun p hp => by simpa using List.of_mem_filter hp) (by simp) ?_
  rw [nextTick_remove]
  exact hkept.perm.append_right _

/-- The entry that goes is the first of the list. -/
theorem evictOldest (h : s.InOrder l) (hl : l ≠ []) :
    ∃ s', s.evictOldest = some s' ∧ s'.InOrder l.tail := by
  obtain ⟨p, l, rfl⟩ := List.exists_cons_of_ne_nil hl
  have hkeys := h.keys
  rw [List.map_cons, List.nodup_cons] at hkeys
  have hother : ∀ q ∈ l, q.1 ≠ p.1 := fun q hq hk => hkeys.1 (List.mem_map.2 ⟨q, hq, hk⟩)
  have htail : ((p :: l).filter fun q => q.1 != p.1) = l := by
    rw [List.filter_cons_of_neg (by simp)]
    exact List.filter_eq_self.2 fun q hq => bne_iff_ne.2 (hother q hq)
  have hrest := h.filter (fun q => q.1 != p.1) (h.perm.filter _) rfl
  rw [htail] at hrest
  refine ⟨_, ?_, hrest⟩
  rw [Store.evictOldest, h.index]
  rfl

theorem retain (h : s.InOrder l) (keep : CacheKey → Entry V → Bool) :
    (s.retain keep).1.InOrder (l.filter fun p => keep p.1 p.2) ∧
      (s.retain keep).2 = l.length - (l.filter fun p => keep p.1 p.2).length := by
  have hkept := h.perm.filter fun p => keep p.1 p.2
  refine ⟨h.filter _ hkept ?_, congrArg₂ (· - ·) h.perm.length_eq.symm hkept.length_eq.symm⟩
  rw [h.index, List.filter_map]
  congr 1
  refine List.filter_congr fun p hp => ?_
  -- a tick is that of a dropped entry exactly if its own entry is dropped
  have hdropped : ((s.entries.filter fun q => !keep q.1 q.2).any fun q => q.2.tick == p.2.tick) =
      !keep p.1 p.2 := by
    rw [Bool.eq_iff_iff, List.any_eq_true]
    constructor
    · rintro ⟨q, hq, htick⟩
      obtain ⟨hq, hkeep⟩ := List.mem_filter.1 hq
      rwa [← h.tick_injective (h.perm.mem_iff.2 hq) hp (eq_of_beq htick)]
    · exact fun hkeep => ⟨p, List.mem_filter.2 ⟨h.perm.mem_iff.1 hp, hkeep⟩, beq_self_eq_true _⟩
  show (!(s.entries.filter fun q => !keep q.1 q.2).any fun q => q.2.tick == p.2.tick) = keep p.1 p.2
  rw [hdropped, Bool.not_not]

theorem clear (s : Store V) : s.clear.InOrder [] :=
  ⟨.refl _, rfl, List.nodup_nil, .nil, fun _ h => absurd h List.not_mem_nil⟩

end InOrder

end Store

end ActionPolicy
