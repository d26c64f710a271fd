import ActionPolicy.Proofs.Cache.Expiry

/-!
# Removals

What is removed from a cache by key, by namespace, by expiry or altogether is each time what a test
does not keep. So it does not matter in which order removals are made, or how often.

## Main definitions

* `Store.keep` – the entries that a test keeps, and their ticks.
* `Store.evictionOrder` – the keys in the order in which evictions would take them.
* `CacheRemoval`, `Cache.remove` – the removals, and what they do.
* `removeAll` – several removals, one after another.
* `OrderFree` – what follows from removals being filters.

## Main statements

* `Store.InOrder.remove_eq_keep`, `Store.InOrder.retain_eq_keep` – removals are filters.
* `Store.InOrder.keep_keep` – two filters are one.
* `Store.InOrder.evictionOrder_eq` – evictions take entries in the order of their touches.
* `Cache.removeAll_eq` – what is left after several removals, and how many entries have gone.
* `OrderFree.of_removeAll_eq` – what follows from that.
-/

namespace ActionPolicy

variable {V : Type}

namespace Store

/-- The entries that a test keeps, and their ticks. -/
def keep (s : Store V) (test : CacheKey → Entry V → Bool) : Store V :=
  { s with
    entries := s.entries.filter fun p => test p.1 p.2
    recency := s.recency.filter fun p => (s.get? p.2).any fun e => test p.2 e }

namespace InOrder

variable {s s' : Store V} {l : List (CacheKey × Entry V)}

theorem ext (h : s.InOrder l) (h' : s'.InOrder l) (hentries : s.entries = s'.entries)
    (htick : s.nextTick = s'.nextTick) : s = s' := by
  have hrecency : s.recency = s'.recency := h.index.trans h'.index.symm
  cases s
  cases s'
  cases hentries
  cases htick
  cases hrecency
  rfl

theorem keep (h : s.InOrder l) (test : CacheKey → Entry V → Bool) :
    (s.keep test).InOrder (l.filter fun p => test p.1 p.2) := by
  refine h.filter _ (h.perm.filter _) ?_
  rw [h.index, List.filter_map]
  congr 1
  refine List.filter_congr fun p hp => ?_
  have hfound : s.get? p.1 = some p.2 := h.get?_eq_some_iff.mpr hp
  show ((s.get? p.1).any fun e => test p.1 e) = test p.1 p.2
  rw [hfound]
  rfl

theorem keep_keep (h : s.InOrder l) (test test' : CacheKey → Entry V → Bool) :
    (s.keep test).keep test' = s.keep fun k e => test k e && test' k e := by
  have htwice := (h.keep test).keep test'
  have honce := h.keep fun k e => test k e && test' k e
  rw [List.filter_filter] at htwice
  have hboth : (fun p : CacheKey × Entry V => test' p.1 p.2 && test p.1 p.2) =
      fun p => test p.1 p.2 && test' p.1 p.2 := by
    funext p
    exact Bool.and_comm _ _
  rw [hboth] at htwice
  refine htwice.ext honce ?_ rfl
  show (s.entries.filter _).filter _ = _
  rw [List.filter_filter, hboth]
  rfl

theorem keep_true (h : s.InOrder l) : s.keep (fun _ _ => true) = s := by
  have hall := h.keep fun _ _ => true
  rw [List.filter_true] at hall
  exact hall.ext h (List.filter_true _) rfl

theorem remove_eq_keep (h : s.InOrder l) (k : CacheKey) :
    s.remove k = s.keep fun k' _ => k' != k := by
  refine (h.remove k).ext (h.keep _) ?_ (nextTick_remove s k)
  unfold Store.remove
  split
  · rfl
  · rename_i hnone
    symm
    refine List.filter_eq_self.mpr fun p hp => ?_
    exact bne_iff_ne.mpr (lookup_eq_none_iff_key.mp hnone p hp)

theorem retain_eq_keep (h : s.InOrder l) (test : CacheKey → Entry V → Bool) :
    (s.retain test).1 = s.keep test :=
  (h.retain test).1.ext (h.keep test) rfl rfl

theorem clear_eq_keep (h : s.InOrder l) : s.clear = s.keep fun _ _ => false := by
  have hnone := h.keep fun _ _ => false
  rw [List.filter_false] at hnone
  exact (clear s).ext hnone (List.filter_false _).symm rfl

/-- There is one entry under a key at most. -/
theorem countP_key (h : s.InOrder l) (k : CacheKey) :
    (s.entries.countP fun p => !(p.1 != k)) = (s.get? k).isSome.toNat := by
  have hcount : (s.entries.countP fun p => !(p.1 != k)) = (s.entries.map Prod.fst).count k := by
    rw [List.count, List.countP_map]
    refine List.countP_congr fun p _ => ?_
    simp
  rw [hcount, h.keys_entries.count]
  cases hk : s.get? k with
  | none =>
    have habsent : k ∉ s.entries.map Prod.fst := by
      intro hmem
      obtain ⟨p, hp, rfl⟩ := List.mem_map.mp hmem
      exact lookup_eq_none_iff_key.mp hk p hp rfl
    rw [if_neg habsent]
    rfl
  | some e =>
    have hpresent : k ∈ s.entries.map Prod.fst := List.mem_map.mpr ⟨_, mem_of_get? hk, rfl⟩
    rw [if_pos hpresent]
    rfl

end InOrder

/-! ### Evictions to come -/

/-- The keys that so many evictions would take, in their order. -/
def victims : Nat → Store V → List CacheKey
  | 0, _ => []
  | n + 1, s =>
    match s.evictOldest with
    | none => []
    | some s' => (s.entries.filter fun p => (s'.get? p.1).isNone).map Prod.fst ++ victims n s'

/-- The keys in the order in which evictions would take them. -/
def evictionOrder (s : Store V) : List CacheKey := victims s.size s

theorem InOrder.victims_eq {s : Store V} {l : List (CacheKey × Entry V)} (h : s.InOrder l) :
    victims l.length s = l.map Prod.fst := by
  induction l generalizing s with
  | nil => rfl
  | cons p l ih =>
    obtain ⟨s', hs', hrest⟩ := h.evictOldest (List.cons_ne_nil p l)
    -- The entry touched first has gone, and all others are still found.
    have hgone : (s.entries.filter fun q => (s'.get? q.1).isNone).Perm [p] := by
      refine (h.perm.symm.filter _).trans ?_
      have hkeys := h.keys
      rw [List.map_cons, List.nodup_cons] at hkeys
      have hfirst : s'.get? p.1 = none := by
        refine hrest.get?_eq_none_iff.mpr fun q hq hk => ?_
        exact hkeys.1 (List.mem_map.mpr ⟨q, hq, hk⟩)
      have hothers : (l.filter fun q => (s'.get? q.1).isNone) = [] := by
        refine List.filter_eq_nil_iff.mpr fun q hq => ?_
        rw [hrest.get?_eq_some_iff.mpr hq]
        exact Bool.false_ne_true
      rw [List.filter_cons_of_pos (by rw [hfirst]; rfl), hothers]
    simp only [List.length_cons, victims, hs']
    rw [ih hrest, List.perm_singleton.mp hgone]
    rfl

/-- Evictions take entries in the order of their touches. -/
theorem InOrder.evictionOrder_eq {s : Store V} {l : List (CacheKey × Entry V)} (h : s.InOrder l) :
    s.evictionOrder = l.map Prod.fst := by
  rw [evictionOrder, h.size_eq, h.victims_eq]

theorem InOrder.evictionOrder_keep {s : Store V} {l : List (CacheKey × Entry V)} (h : s.InOrder l)
    (test : CacheKey → Entry V → Bool) :
    (s.keep test).evictionOrder =
      s.evictionOrder.filter fun k => ((s.keep test).get? k).isSome := by
  have hkept := h.keep test
  rw [h.evictionOrder_eq, hkept.evictionOrder_eq, List.filter_map]
  congr 1
  refine List.filter_congr fun p hp => ?_
  show test p.1 p.2 = ((s.keep test).get? p.1).isSome
  by_cases htest : test p.1 p.2 = true
  · have hfound : (s.keep test).get? p.1 = some p.2 :=
      hkept.get?_eq_some_iff.mpr (List.mem_filter.mpr ⟨hp, htest⟩)
    rw [hfound, htest]
    rfl
  · have hnone : (s.keep test).get? p.1 = none := by
      refine hkept.get?_eq_none_iff.mpr fun q hq hk => htest ?_
      obtain ⟨hmem, hq'⟩ := List.mem_filter.mp hq
      rwa [h.key_injective hmem hp hk] at hq'
    rw [hnone]
    simpa using htest

end Store

/-! ### Several removals -/

/-- What one test and then another takes is what both do not keep. -/
theorem countP_not_and {α : Type} (test test' : α → Bool) (l : List α) :
    (l.countP fun a => !test a) + ((l.filter test).countP fun a => !test' a) =
      l.countP fun a => !(test a && test' a) := by
  induction l with
  | nil => rfl
  | cons a l ih =>
    by_cases ha : test a = true
    · simp only [List.countP_cons, List.filter_cons_of_pos ha, ha, Bool.true_and]
      simp only [Bool.not_true, Bool.false_eq_true, if_false]
      omega
    · simp only [List.countP_cons, List.filter_cons_of_neg ha, ha, Bool.false_and]
      simp only [Bool.not_false, if_true]
      omega

/-- Several removals, one after another, and how many entries they remove in all. -/
def removeAll {S Op : Type} (remove : S → Op → S × Nat) (s : S) : List Op → S × Nat
  | [] => (s, 0)
  | op :: ops =>
    let (s, removed) := remove s op
    let (s, more) := removeAll remove s ops
    (s, removed + more)

theorem removeAll_append {S Op : Type} (remove : S → Op → S × Nat) (s : S) (ops more : List Op) :
    removeAll remove s (ops ++ more) =
      ((removeAll remove (removeAll remove s ops).1 more).1,
        (removeAll remove s ops).2 + (removeAll remove (removeAll remove s ops).1 more).2) := by
  induction ops generalizing s with
  | nil =>
    refine Prod.ext rfl ?_
    exact (Nat.zero_add _).symm
  | cons op ops ih =>
    simp only [List.cons_append, removeAll, ih]
    rw [Nat.add_assoc]

/-- No removal takes the entry. -/
def keptByAll {Op : Type} (keeps : Op → CacheKey → Entry V → Bool) (ops : List Op) (k : CacheKey)
    (e : Entry V) : Bool :=
  ops.all fun op => keeps op k e

/-- Removals in a state that has a store do not depend on their order. -/
structure OrderFree {S Op : Type} (store : S → Store V) (keeps : Op → CacheKey → Entry V → Bool)
    (remove : S → Op → S × Nat) (s : S) : Prop where
  /-- Two removals may change places. -/
  comm : ∀ op op', (remove (remove s op).1 op').1 = (remove (remove s op').1 op).1
  /-- To make one again changes nothing. -/
  again : ∀ op, remove (remove s op).1 op = ((remove s op).1, 0)
  /-- So it matters only which removals are made. -/
  state : ∀ ops ops' : List Op, (∀ op, op ∈ ops ↔ op ∈ ops') →
    (removeAll remove s ops).1 = (removeAll remove s ops').1
  /-- What they count is how much smaller the store has become. -/
  count : ∀ ops, (removeAll remove s ops).2 + (store (removeAll remove s ops).1).size =
    (store s).size
  survivors : ∀ ops k e, (store (removeAll remove s ops).1).get? k = some e ↔
    (store s).get? k = some e ∧ ∀ op ∈ ops, keeps op k e = true
  /-- The others stay in the order of their touches. -/
  recency : ∀ ops, (store (removeAll remove s ops).1).recency.Sublist (store s).recency
  /-- Evictions take them in the same order as before. -/
  evictions : ∀ ops, (store (removeAll remove s ops).1).evictionOrder =
    (store s).evictionOrder.filter fun k =>
      ((store (removeAll remove s ops).1).get? k).isSome

namespace OrderFree

variable {S Op : Type} {store : S → Store V} {keeps : Op → CacheKey → Entry V → Bool}
  {remove : S → Op → S × Nat} {s : S}

/-- If several removals leave what all of them keep and count the rest, their order does not
matter. -/
theorem of_removeAll_eq {l : List (CacheKey × Entry V)} (hstore : (store s).InOrder l)
    (put : Store V → S) (hput : ∀ held, store (put held) = held)
    (hall : ∀ ops, removeAll remove s ops = (put ((store s).keep (keptByAll keeps ops)),
      (store s).entries.countP fun p => !keptByAll keeps ops p.1 p.2)) :
    OrderFree store keeps remove s := by
  have hstate : ∀ ops ops' : List Op, (∀ op, op ∈ ops ↔ op ∈ ops') →
      (removeAll remove s ops).1 = (removeAll remove s ops').1 := by
    intro ops ops' hsame
    have hkept : (keptByAll keeps ops : CacheKey → Entry V → Bool) = keptByAll keeps ops' := by
      funext k e
      rw [Bool.eq_iff_iff, keptByAll, keptByAll, List.all_eq_true, List.all_eq_true]
      exact forall_congr' fun op => imp_congr_left (hsame op)
    rw [hall, hall, hkept]
  have hcount : ∀ ops, (removeAll remove s ops).2 + (store (removeAll remove s ops).1).size =
      (store s).size := by
    intro ops
    rw [hall, hput]
    have hlength := List.length_eq_countP_add_countP
      (fun p : CacheKey × Entry V => keptByAll keeps ops p.1 p.2) (l := (store s).entries)
    have hkept : ((store s).keep (keptByAll keeps ops)).size =
        (store s).entries.countP fun p => keptByAll keeps ops p.1 p.2 :=
      List.countP_eq_length_filter.symm
    simp only [Bool.not_eq_true, Bool.decide_eq_false] at hlength
    rw [hkept, Store.size, hlength, Nat.add_comm]
  refine {
    comm := fun op op' => hstate [op, op'] [op', op] fun _ => by simp [or_comm]
    again := fun op => Prod.ext (hstate [op, op] [op] fun _ => by simp) ?_
    state := hstate
    count := hcount
    survivors := fun ops k e => ?_
    recency := fun ops => ?_
    evictions := fun ops => ?_ }
  · have honce := hcount [op]
    have htwice := hcount [op, op]
    have hsame : (remove (remove s op).1 op).1 = (remove s op).1 :=
      hstate [op, op] [op] fun _ => by simp
    simp only [removeAll, Nat.add_zero, hsame] at honce htwice
    omega
  · rw [hall, hput, (hstore.keep _).get?_eq_some_iff, List.mem_filter, hstore.get?_eq_some_iff,
      keptByAll, List.all_eq_true]
  · rw [hall, hput]
    exact List.filter_sublist
  · rw [hall, hput]
    exact hstore.evictionOrder_keep _

end OrderFree

/-! ### Removals from a cache -/

/-- A removal from a cache. -/
inductive CacheRemoval where
  | delete (k : CacheKey)
  | clearNamespace (ns : Namespace)
  | purgeExpired (now : Instant)
  | clear

/-- What a removal keeps. -/
def CacheRemoval.keeps : CacheRemoval → CacheKey → Entry V → Bool
  | delete k, k', _ => k' != k
  | clearNamespace ns, k', _ => k'.ns != ns
  | purgeExpired now, _, e => !e.expiredAt now
  | clear, _, _ => false

namespace Cache

/-- A removal, and how many entries it removes. -/
def remove (c : Cache V) : CacheRemoval → Cache V × Nat
  | .delete k => (c.delete k).map id Bool.toNat
  | .clearNamespace ns => c.clearNamespace ns
  | .purgeExpired now => c.purgeExpired now
  | .clear => (c.clear, c.store.size)

variable {c : Cache V} {l : List (CacheKey × Entry V)}

theorem remove_eq (h : c.store.InOrder l) (op : CacheRemoval) :
    c.remove op = ({ c with store := c.store.keep op.keeps },
      c.store.entries.countP fun p => !op.keeps p.1 p.2) := by
  cases op with
  | delete k =>
    refine Prod.ext ?_ (h.countP_key k).symm
    exact congrArg (fun s => { c with store := s }) (h.remove_eq_keep k)
  | clearNamespace ns =>
    have hkept := h.retain_eq_keep (CacheRemoval.clearNamespace ns).keeps
    refine Prod.ext ?_ (c.store.retain_snd (CacheRemoval.clearNamespace ns).keeps)
    exact congrArg (fun s => { c with store := s }) hkept
  | purgeExpired now =>
    have hkept := h.retain_eq_keep (CacheRemoval.purgeExpired now).keeps
    refine Prod.ext ?_ (c.store.retain_snd (CacheRemoval.purgeExpired now).keeps)
    exact congrArg (fun s => { c with store := s }) hkept
  | clear =>
    refine Prod.ext ?_ (congrFun List.countP_true c.store.entries).symm
    exact congrArg (fun s => { c with store := s }) h.clear_eq_keep

/-- What is left after several removals, and how many entries have gone. -/
theorem removeAll_eq (h : c.store.InOrder l) (ops : List CacheRemoval) :
    removeAll remove c ops = ({ c with store := c.store.keep (keptByAll CacheRemoval.keeps ops) },
      c.store.entries.countP fun p => !keptByAll CacheRemoval.keeps ops p.1 p.2) := by
  induction ops generalizing c l with
  | nil =>
    refine Prod.ext ?_ (congrFun List.countP_false c.store.entries).symm
    exact congrArg (fun s => { c with store := s }) h.keep_true.symm
  | cons op ops ih =>
    have hrest := ih (c := { c with store := c.store.keep op.keeps }) (h.keep op.keeps)
    simp only [removeAll, remove_eq h, hrest]
    refine Prod.ext ?_ ?_
    · exact congrArg (fun s => { c with store := s })
        (h.keep_keep op.keeps (keptByAll CacheRemoval.keeps ops))
    · exact countP_not_and (fun p => op.keeps p.1 p.2)
        (fun p => keptByAll CacheRemoval.keeps ops p.1 p.2) c.store.entries

end Cache

end ActionPolicy
