import ActionPolicy.Engine.Session
import ActionPolicy.Proofs.Cache.Contents
import Mathlib.Data.List.Perm.Basic

/-!
# Every call of an engine is answered

A call of an engine begins once, and is given one decision or is still deriving it.

## Main definitions

* `EngineEvent.inquiry?`, `inquiries` – the calls that begin.

## Main statements

* `EngineSession.run_ask_derived` – a call that nothing comes into is one of two steps.
* `EngineSession.inquiries_run` – every call is given one decision, or is still deriving it.
-/

namespace ActionPolicy

namespace EngineEvent

/-- The call that begins with an event. -/
def inquiry? : EngineEvent → Option Inquiry
  | call _ q _ => some q
  | ask _ q => some q
  | _ => none

end EngineEvent

/-- The calls that begin in a sequence of events. -/
def inquiries (events : List EngineEvent) : List Inquiry := events.filterMap EngineEvent.inquiry?

namespace EngineSession

@[simp] theorem run_nil (s : EngineSession) : s.run [] = (s, []) := rfl

theorem run_cons (s : EngineSession) (event : EngineEvent) (events : List EngineEvent) :
    s.run (event :: events) =
      (((s.step event).1.run events).1,
        (s.step event).2.toList ++ ((s.step event).1.run events).2) := rfl

/-! ### Calls -/

/-- A call that nothing comes into is one that begins and ends at once. -/
theorem run_ask_derived (s : EngineSession) (now : Instant) (q : Inquiry) (micros : Nat) :
    s.run [.ask now q, .derived s.pending.length now micros] =
      ((s.step (.call now q micros)).1, (s.step (.call now q micros)).2.toList) := by
  rw [run_cons, run_cons, run_nil]
  cases hget : s.engine.cache.get now q.key (some q.version) with
  | mk c found =>
    cases found with
    | none =>
      simp only [step, hget, Engine.resolveCached, Engine.resolveWith, Cache.getOrInsert,
        List.getElem?_concat_length]
      have hrest : (s.pending ++ [q]).eraseIdx s.pending.length = s.pending := by
        rw [List.eraseIdx_append_of_length_le (Nat.le_refl _)]
        simp
      simp [Engine.complete, Engine.withCache, withEngine, Inquiry.decision, Engine.cache, hrest]
    | some d =>
      -- The call has ended, so nothing stands at the place where it would derive.
      have hplace : s.pending[s.pending.length]? = none := List.getElem?_eq_none (Nat.le_refl _)
      simp only [step, hget, Engine.resolveCached, Engine.resolveWith, Cache.getOrInsert, withEngine,
        hplace]
      simp

/-- A call that begins is given a decision or derives one, and one that ends is given it. -/
theorem inquiries_step (s : EngineSession) (event : EngineEvent) :
    ((s.step event).2.toList.map Prod.fst ++ (s.step event).1.pending).Perm
      (s.pending ++ event.inquiry?.toList) := by
  cases event with
  | call now q micros => exact (List.perm_append_singleton q s.pending).symm
  | ask now q =>
    simp only [step]
    split
    · exact (List.perm_append_singleton q s.pending).symm
    · exact List.Perm.refl _
  | derived place now micros =>
    simp only [step]
    split
    · rename_i q hq
      obtain ⟨hlt, rfl⟩ := List.getElem?_eq_some_iff.mp hq
      have hperm := List.getElem_cons_eraseIdx_perm hlt
      simpa [EngineEvent.inquiry?] using hperm
    · simp [EngineEvent.inquiry?]
  | _ => simp [step, withEngine, EngineEvent.inquiry?]

/-- Every call that is under way or begins is given one decision, or is still deriving it. -/
theorem inquiries_run (s : EngineSession) (events : List EngineEvent) :
    ((s.run events).2.map Prod.fst ++ (s.run events).1.pending).Perm
      (s.pending ++ inquiries events) := by
  induction events generalizing s with
  | nil => simp [inquiries]
  | cons event events ih =>
    have hstep := s.inquiries_step event
    have hrest := ih (s.step event).1
    have hsplit : inquiries (event :: events) = event.inquiry?.toList ++ inquiries events := by
      cases hq : event.inquiry? <;> simp [inquiries, hq]
    rw [run_cons, hsplit, List.map_append, List.append_assoc, ← List.append_assoc s.pending]
    have hleft := hrest.append_left ((s.step event).2.toList.map Prod.fst)
    have hright := hstep.append_right (inquiries events)
    rw [List.append_assoc] at hright
    exact hleft.trans hright

end EngineSession

end ActionPolicy
