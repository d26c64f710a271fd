import Mathlib.Data.List.Forall2
import Mathlib.Data.List.Nodup

/-!
# Lists of values under keys

What is found under a key in a list in which no key repeats, and how such a list changes.

## Main statements

* `lookup_eq_some_iff_mem`, `lookup_eq_none_iff_key` – what is found is what the list holds.
* `lookup_filter_ne`, `lookup_map_values` – what is found when a key is left out, and among changed
  values.
* `perm_of_update` – a change of one value, up to order.
* `exists_of_mem_of_forall₂` – what stands in a list has its like in one that is related to it.
-/

namespace ActionPolicy

variable {K E : Type} [DecidableEq K]

theorem lookup_eq_some_iff_mem {l : List (K × E)} (h : (l.map Prod.fst).Nodup) {k : K} {e : E} :
    l.lookup k = some e ↔ (k, e) ∈ l := by
  induction l with
  | nil => simp
  | cons p l ih =>
    obtain ⟨k', e'⟩ := p
    rw [List.map_cons, List.nodup_cons] at h
    by_cases hk : k = k'
    · subst hk
      have hnot : (k, e) ∉ l := fun hm => h.1 (List.mem_map.2 ⟨_, hm, rfl⟩)
      simp [hnot, eq_comm]
    · have hb : (k == k') = false := beq_false_of_ne hk
      simp [List.lookup_cons, hb, hk, ih h.2]

theorem lookup_eq_none_iff_key {l : List (K × E)} {k : K} :
    l.lookup k = none ↔ ∀ p ∈ l, p.1 ≠ k := by
  rw [List.lookup_eq_none_iff]
  exact forall₂_congr fun p _ => bne_iff_ne.trans ne_comm

theorem lookup_filter_ne {l : List (K × E)} {k k' : K} (hne : k' ≠ k) :
    (l.filter fun p => p.1 != k).lookup k' = l.lookup k' := by
  induction l with
  | nil => rfl
  | cons p l ih =>
    by_cases hp : p.1 = k
    · have hskip : (k' == p.1) = false := beq_false_of_ne (hp ▸ hne)
      rw [List.filter_cons_of_neg (by simp [hp]), ih, List.lookup_cons, hskip]
    · rw [List.filter_cons_of_pos (by simp [hp]), List.lookup_cons, List.lookup_cons, ih]

theorem lookup_map_values (f : K → E → E) (l : List (K × E)) (k : K) :
    (l.map fun p => (p.1, f p.1 p.2)).lookup k = (l.lookup k).map (f k) := by
  induction l with
  | nil => rfl
  | cons p l ih =>
    rw [List.map_cons, List.lookup_cons, List.lookup_cons, ih]
    by_cases hk : k = p.1
    · simp [hk]
    · simp [beq_false_of_ne hk]

/-- Changing the value under one key is, up to order, taking it out and putting the changed one
behind the others. -/
theorem perm_of_update {l : List (K × E)} (h : (l.map Prod.fst).Nodup) {k : K} {e : E}
    (hm : (k, e) ∈ l) (f : E → E) :
    (l.map fun p => if p.1 = k then (p.1, f p.2) else p).Perm
      ((l.filter fun p => p.1 != k) ++ [(k, f e)]) := by
  induction l with
  | nil => simp at hm
  | cons p l ih =>
    rw [List.map_cons, List.nodup_cons] at h
    by_cases hp : p.1 = k
    · have hother : ∀ q ∈ l, q.1 ≠ k := fun q hq hk =>
        h.1 (List.mem_map.2 ⟨q, hq, hk.trans hp.symm⟩)
      have hpe : p = (k, e) := by
        rcases List.mem_cons.1 hm with rfl | hm
        · rfl
        · exact absurd rfl (hother _ hm)
      subst hpe
      have hmap : (l.map fun p => if p.1 = k then (p.1, f p.2) else p) = l :=
        (List.map_congr_left fun q hq => if_neg (hother q hq)).trans (List.map_id _)
      have hfilter : (l.filter fun p => p.1 != k) = l :=
        List.filter_eq_self.2 fun q hq => bne_iff_ne.2 (hother q hq)
      simp only [List.map_cons, if_true, List.filter_cons, bne_self_eq_false, Bool.false_eq_true,
        if_false, hmap, hfilter]
      exact (List.perm_append_singleton _ _).symm
    · have hm' : (k, e) ∈ l := by
        rcases List.mem_cons.1 hm with rfl | hm
        · exact absurd rfl hp
        · exact hm
      simp only [List.map_cons, if_neg hp, List.filter_cons, bne_iff_ne.2 hp, if_true,
        List.cons_append]
      exact (ih h.2 hm').cons p

/-- What stands in a list has its like in one that is related to it item by item. -/
theorem exists_of_mem_of_forall₂ {α β : Type} {r : α → β → Prop} {l : List α} {l' : List β}
    (h : List.Forall₂ r l l') {a : α} (ha : a ∈ l) : ∃ b ∈ l', r a b := by
  induction h with
  | nil => contradiction
  | @cons c b rest rest' hcb _ ih =>
    rcases List.mem_cons.mp ha with rfl | ha
    · exact ⟨b, List.mem_cons_self, hcb⟩
    · obtain ⟨b', hb', hab'⟩ := ih ha
      exact ⟨b', List.mem_cons_of_mem b hb', hab'⟩

end ActionPolicy
