import ActionPolicy.Cache.Session

/-!
# What a session asks of its cache

An event of a session is for the cache one call, or nothing at all.

## Main definitions

* `CacheSession.made?` – the call that an event makes to the cache.

## Main statements

* `CacheSession.cache_step` – what an event does to the cache is what a call does, or nothing.
* `CacheSession.run_ask_derived` – a lookup and its derivation with nothing between them are a call
  in one piece.
* `CacheSession.asked_of_underWay` – what is under way was asked for.
-/

namespace ActionPolicy

namespace CacheSession

variable {V : Type}

@[simp] theorem run_nil (s : CacheSession V) : s.run [] = s := rfl

theorem run_cons (s : CacheSession V) (event : SessionEvent V) (events : List (SessionEvent V)) :
    s.run (event :: events) = (s.step event).1.run events := rfl

/-- The call that an event makes to the cache, if it makes one. -/
def made? (s : CacheSession V) : SessionEvent V → Option (CacheCall V)
  | .call call => some call
  | .ask now id _ version => some ⟨now, .get id.key version⟩
  | .derived now id value micros =>
    (s.find? id).map fun u => ⟨now, .complete id.key value u.ttl u.version micros⟩
  | .abandoned now id micros => (s.find? id).map fun _ => ⟨now, .abandon micros⟩

theorem cache_step (s : CacheSession V) (event : SessionEvent V) :
    (s.step event).1.cache = ((s.made? event).map fun call => (s.cache.step call).1).getD s.cache := by
  cases event with
  | call call => rfl
  | ask now id ttl version => rfl
  | derived now id value micros =>
    simp only [step, made?]
    cases s.find? id <;> rfl
  | abandoned now id micros =>
    simp only [step, made?]
    cases s.find? id <;> rfl

/-! ### Calls under way -/

theorem others_eq_self {s : CacheSession V} {id : CallId} (h : s.find? id = none) :
    s.others id = s.underWay := by
  have hall : ∀ u ∈ s.underWay, u.id ≠ id := by simpa [find?] using h
  exact List.filter_eq_self.mpr fun u hu => decide_eq_true (hall u hu)

theorem underWay_ask (s : CacheSession V) (now : Instant) (id : CallId) (ttl : Option Duration)
    (version : Option String) :
    (s.step (.ask now id ttl version)).1.underWay =
      if (s.cache.get now id.key version).2.isSome then s.underWay
      else s.underWay ++ [⟨id, ttl, version⟩] := rfl

/-- After the end of a call it is not under way, whether or not it was. -/
theorem underWay_derived (s : CacheSession V) (now : Instant) (id : CallId) (value : V)
    (micros : Nat) : (s.step (.derived now id value micros)).1.underWay = s.others id := by
  simp only [step]
  cases hu : s.find? id with
  | some u => rfl
  | none => exact (others_eq_self hu).symm

theorem underWay_abandoned (s : CacheSession V) (now : Instant) (id : CallId) (micros : Nat) :
    (s.step (.abandoned now id micros)).1.underWay = s.others id := by
  simp only [step]
  cases hu : s.find? id with
  | some u => rfl
  | none => exact (others_eq_self hu).symm

theorem mem_underWay_step {s : CacheSession V} {event : SessionEvent V} {u : UnderWay}
    (hu : u ∈ (s.step event).1.underWay) :
    u ∈ s.underWay ∨ ∃ now, event = .ask now u.id u.ttl u.version := by
  cases event with
  | call call => exact Or.inl hu
  | ask now id ttl version =>
    rw [underWay_ask] at hu
    split at hu
    · exact Or.inl hu
    · rcases List.mem_append.mp hu with hu | hu
      · exact Or.inl hu
      · rw [List.mem_singleton.mp hu]
        exact Or.inr ⟨now, rfl⟩
  | derived now id value micros =>
    rw [underWay_derived] at hu
    exact Or.inl (List.mem_filter.mp hu).1
  | abandoned now id micros =>
    rw [underWay_abandoned] at hu
    exact Or.inl (List.mem_filter.mp hu).1

theorem asked_of_underWay {s : CacheSession V} {events : List (SessionEvent V)} {u : UnderWay}
    (hu : u ∈ (s.run events).underWay) :
    u ∈ s.underWay ∨ ∃ now, .ask now u.id u.ttl u.version ∈ events := by
  induction events generalizing s with
  | nil => exact Or.inl hu
  | cons event events ih =>
    rcases ih hu with hu | ⟨now, hask⟩
    · rcases mem_underWay_step hu with hu | ⟨now, rfl⟩
      · exact Or.inl hu
      · exact Or.inr ⟨now, List.mem_cons_self⟩
    · exact Or.inr ⟨now, List.mem_cons_of_mem _ hask⟩

/-- A call that derives a value while nothing else happens. -/
theorem run_ask_derived (s : CacheSession V) {id : CallId} (hid : s.find? id = none)
    (now later : Instant) (ttl : Option Duration) (version : Option String) (value : V)
    (micros : Nat) :
    s.run [.ask now id ttl version, .derived later id value micros] =
      (s.step (.call ⟨now, .getOrInsert id.key ttl version value later micros⟩)).1 := by
  have hall : ∀ u ∈ s.underWay, u.id ≠ id := by simpa [find?] using hid
  rw [find?] at hid
  simp only [run_cons, run_nil, step, Cache.step, Cache.getOrInsert]
  cases s.cache.get now id.key version with
  | mk c found =>
    cases found with
    | some v => simp [find?, hid]
    | none => simpa [find?, others, List.find?_append, hid] using hall

end CacheSession

end ActionPolicy
