import ActionPolicy.Cache.Functions
import ActionPolicy.Proofs.Cache.Provenance
import Mathlib.Data.List.Perm.Basic

/-!
# What functions that share a cache are answered

Functions that share a cache do not mix up their results if each of them has a namespace of its own.
Then every call is answered what the derivation for its argument gives.

## Main definitions

* `FunctionFamily.Apart` – they have namespaces of their own, and identifiers stand for results.
* `FamilyEvent.SparesFamily` – others leave these namespaces alone.

## Main statements

* `FunctionFamily.Apart.outcome_eq` – requests under one key have one outcome.
* `WrappedFunction.call_eq` – a call is a lookup and, if that misses, a derivation.
* `FamilySession.calls_run` – every call is answered once, dropped, or still under way.
* `FamilySession.Correct.step`, `FamilySession.Correct.run` – what is held and answered is right.
* `FunctionFamily.Apart.run_new_correct` – all this for a new cache, and when a derivation begins.
-/

namespace ActionPolicy

variable {V : Type}

namespace WrappedFunction

variable {A E : Type}

theorem call_eq (w : WrappedFunction A E V) (c : Cache V) (now : Instant) (a : A) (micros : Nat) :
    w.call c now a micros =
      match c.get now (w.key a) none with
      | (c, some v) => (c, .ok v, false)
      | (c, none) => (w.finish c now a micros, w.outcome a, true) := by
  cases w with
  | sure f =>
    have hkey : (sure f : WrappedFunction A E V).key a = f.key a := rfl
    rw [hkey]
    simp only [call, CachedFunction.call, Cache.getOrInsert]
    cases c.get now (f.key a) none with
    | mk c found => cases found <;> rfl
  | fallible f =>
    have hkey : (fallible f : WrappedFunction A E V).key a = f.key a := rfl
    rw [hkey]
    simp only [call, finish, outcome, common]
    cases c.get now (f.key a) none with
    | mk c found =>
      cases found with
      | some v => rfl
      | none => cases f.derive a <;> rfl

end WrappedFunction

namespace FunctionFamily

variable {ι : Type}

/-- Every function has a namespace of its own, and arguments with one identifier have one
outcome. -/
structure Apart (F : FunctionFamily ι V) : Prop where
  namespaces : ∀ i j, (F.fn i).common.ns = (F.fn j).common.ns → i = j
  outcomes : ∀ i a b, (F.fn i).common.identifier a = (F.fn i).common.identifier b →
    (F.fn i).outcome a = (F.fn i).outcome b

/-- Requests under one key have one outcome. -/
theorem Apart.outcome_eq {F : FunctionFamily ι V} (h : F.Apart) {q r : F.Request}
    (hkey : q.key = r.key) {v : V} (hq : q.outcome = .ok v) : r.outcome = .ok v := by
  obtain ⟨i, a⟩ := q
  obtain ⟨j, b⟩ := r
  have hns : (F.fn i).common.ns = (F.fn j).common.ns := congrArg CacheKey.ns hkey
  obtain rfl := h.namespaces i j hns
  have hidentifier : (F.fn i).common.identifier a = (F.fn i).common.identifier b :=
    congrArg CacheKey.identifier hkey
  exact (h.outcomes i a b hidentifier).symm.trans hq

end FunctionFamily

open FunctionFamily

variable {ι : Type} {F : FunctionFamily ι V}

/-- If others cause the event, they store nothing in the namespaces of the family. -/
def FamilyEvent.SparesFamily : FamilyEvent F → Prop
  | other made => ∀ k v, made.op.stored? = some (k, v) → ∀ i, (F.fn i).common.ns ≠ k.ns
  | _ => True

/-- The call that begins with an event. -/
def FamilyEvent.request? : FamilyEvent F → Option F.Request
  | call _ q _ => some q
  | ask _ q => some q
  | _ => none

/-- The calls that begin in a sequence of events. -/
def FunctionFamily.requests (events : List (FamilyEvent F)) : List F.Request :=
  events.filterMap FamilyEvent.request?

namespace FamilySession

/-- The call that begins with an event and finds nothing. -/
def missed? (s : FamilySession F) : FamilyEvent F → Option F.Request
  | .call now q _ => if (s.cache.get now q.key none).2.isNone then some q else none
  | .ask now q => if (s.cache.get now q.key none).2.isNone then some q else none
  | _ => none

/-- A call that nothing comes into is one that begins and ends at once. -/
theorem step_call (s : FamilySession F) (now : Instant) (q : F.Request) (micros : Nat) :
    s.step (.call now q micros) =
      (s.step (.ask now q)).step (.ended s.underWay.length now micros) := by
  have hcall := (F.fn q.index).call_eq s.cache now q.arg micros
  have hkey : (F.fn q.index).key q.arg = q.key := rfl
  rw [hkey] at hcall
  cases hget : s.cache.get now q.key none with
  | mk c found =>
    rw [hget] at hcall
    cases found with
    | some v =>
      -- the call has ended, so nothing stands at the place where it would derive
      simp [step, hcall, hget]
    | none =>
      have hrest : (s.underWay ++ [q]).eraseIdx s.underWay.length = s.underWay := by
        rw [List.eraseIdx_append_of_length_le (Nat.le_refl _)]
        simp
      simp [step, hcall, hget, hrest, Request.outcome]

/-- A derivation begins exactly with a call that finds nothing. -/
theorem derivations_step (s : FamilySession F) (event : FamilyEvent F) :
    (s.step event).derivations = s.derivations ++ (s.missed? event).toList := by
  have hask (now : Instant) (q : F.Request) : (s.step (.ask now q)).derivations =
      s.derivations ++ (s.missed? (.ask now q)).toList := by
    simp only [step, missed?]
    cases s.cache.get now q.key none with
    | mk c found => cases found <;> simp
  have hended (s : FamilySession F) (place : Nat) (now : Instant) (micros : Nat) :
      (s.step (.ended place now micros)).derivations = s.derivations := by
    simp only [step]
    split <;> rfl
  cases event with
  | call now q micros => rw [step_call, hended, hask, missed?, missed?]
  | ask now q => exact hask now q
  | ended place now micros => simp [hended, missed?]
  | dropped place micros =>
    simp only [step, missed?]
    split <;> simp
  | other call => simp [step, missed?]

/-! ### Every call is answered -/

/-- The calls that have begun: answered, dropped or under way. -/
def calls (s : FamilySession F) : List F.Request :=
  s.replies.map Reply.request ++ (s.dropped ++ s.underWay)

theorem calls_ask (s : FamilySession F) (now : Instant) (q : F.Request) :
    (s.step (.ask now q)).calls.Perm (s.calls ++ [q]) := by
  simp only [step]
  split
  · simp only [calls, List.map_append, List.map_cons, List.map_nil, List.append_assoc]
    refine List.Perm.append_left _ ?_
    rw [← List.append_assoc s.dropped]
    exact List.perm_append_comm
  · simp [calls]

theorem calls_ended (s : FamilySession F) (place : Nat) (now : Instant) (micros : Nat) :
    (s.step (.ended place now micros)).calls.Perm s.calls := by
  simp only [step]
  split
  · rename_i q hq
    obtain ⟨hlt, rfl⟩ := List.getElem?_eq_some_iff.mp hq
    have hplace := List.getElem_cons_eraseIdx_perm hlt
    simp only [calls, List.map_append, List.map_cons, List.map_nil, List.append_assoc]
    refine List.Perm.append_left _ ?_
    rw [List.singleton_append]
    exact List.perm_middle.symm.trans (hplace.append_left s.dropped)
  · exact .refl _

theorem calls_step (s : FamilySession F) (event : FamilyEvent F) :
    (s.step event).calls.Perm (s.calls ++ event.request?.toList) := by
  cases event with
  | call now q micros =>
    rw [step_call]
    exact (calls_ended _ _ now micros).trans (s.calls_ask now q)
  | ask now q => exact s.calls_ask now q
  | ended place now micros => simpa [FamilyEvent.request?] using s.calls_ended place now micros
  | dropped place micros =>
    simp only [step, FamilyEvent.request?, Option.toList_none, List.append_nil]
    split
    · rename_i q hq
      obtain ⟨hlt, rfl⟩ := List.getElem?_eq_some_iff.mp hq
      have hplace := List.getElem_cons_eraseIdx_perm hlt
      simp only [calls, List.append_assoc]
      exact (hplace.append_left s.dropped).append_left _
    · exact .refl _
  | other call => simp [step, calls, FamilyEvent.request?]

theorem calls_run (s : FamilySession F) (events : List (FamilyEvent F)) :
    (s.run events).calls.Perm (s.calls ++ requests events) := by
  induction events generalizing s with
  | nil => simp [run, requests]
  | cons event events ih =>
    have hsplit : requests (event :: events) = event.request?.toList ++ requests events := by
      cases hq : event.request? <;> simp [requests, hq]
    rw [hsplit, ← List.append_assoc]
    exact (ih (s.step event)).trans ((s.calls_step event).append_right _)

/-! ### What is held and answered -/

/-- What is held under the key of a request is what the request gives, and so is what calls were
answered. -/
structure Correct (codec : Option (Codec V)) (s : FamilySession F) : Prop where
  form : s.cache.codec = codec
  held : ∀ q : F.Request, s.cache.HoldsOnly codec q.key fun v => q.outcome = .ok v
  replies : ∀ r ∈ s.replies, r.result = r.request.outcome

namespace Correct

variable {codec : Option (Codec V)} {s : FamilySession F}

theorem start (config : CacheConfig) (codec : Option (Codec V)) :
    (start F (.new config codec)).Correct codec where
  form := rfl
  held _ := ⟨rfl, fun _ hp => absurd hp List.not_mem_nil⟩
  replies _ hr := absurd hr List.not_mem_nil

/-- Nothing is stored, and the replies are right ones. -/
theorem of_thins (h : s.Correct codec) {s' : FamilySession F} (hthins : s.cache.Thins s'.cache)
    (hreplies : ∀ r ∈ s'.replies, r.result = r.request.outcome) : s'.Correct codec where
  form := hthins.codec.trans h.form
  held q := (h.held q).thins hthins
  replies := hreplies

theorem replies_concat (h : s.Correct codec) {q : F.Request}
    {result : Except (F.Failure q.index) V} (hresult : result = q.outcome) :
    ∀ r ∈ s.replies ++ [(⟨q, result⟩ : F.Reply)], r.result = r.request.outcome := by
  intro r hr
  rcases List.mem_append.mp hr with hr | hr
  · exact h.replies r hr
  · rw [List.mem_singleton.mp hr]
    exact hresult

theorem ask (h : s.Correct codec) (hcodec : ∀ c, codec = some c → c.Lossless) (now : Instant)
    (q : F.Request) : (s.step (.ask now q)).Correct codec := by
  have hthins := s.cache.thins_get now q.key none
  simp only [step]
  split
  · rename_i c v hget
    rw [hget] at hthins
    have hfound : (s.cache.get now q.key none).2 = some v := by rw [hget]
    obtain ⟨value, hvalue, hrestores⟩ := (h.held q).get hfound
    have hv : v = value := Codec.Restores.eq_of_lossless hcodec hrestores
    exact h.of_thins hthins (h.replies_concat (hv ▸ hvalue.symm))
  · rename_i c hget
    rw [hget] at hthins
    exact h.of_thins hthins h.replies

/-- A value that a derivation stores is also what every other request under its key gives. -/
theorem finish (h : s.Correct codec) (hapart : F.Apart) (q r : F.Request) (now : Instant)
    (micros : Nat) :
    ((F.fn q.index).finish s.cache now q.arg micros).HoldsOnly codec r.key
      fun v => r.outcome = .ok v := by
  unfold WrappedFunction.finish
  split
  · rename_i v hv
    let done : CacheCall V := ⟨now, .complete q.key v (F.fn q.index).common.ttl none micros⟩
    have hstored : ∀ v', done.op.stored? = some (r.key, v') → r.outcome = .ok v' := by
      intro v' hv'
      obtain ⟨hkey, rfl⟩ := Prod.mk.inj (Option.some.inj hv')
      exact hapart.outcome_eq hkey hv
    exact (h.held r).step hstored
  · exact (h.held r).thins (s.cache.thins_abandon micros)

theorem ended (h : s.Correct codec) (hapart : F.Apart) (place : Nat) (now : Instant)
    (micros : Nat) : (s.step (.ended place now micros)).Correct codec := by
  simp only [step]
  split
  · rename_i q hq
    refine ⟨?_, fun r => h.finish hapart q r now micros, h.replies_concat rfl⟩
    exact (h.finish hapart q q now micros).codec
  · exact h

/-- The cache and the replies stay right, if others leave the namespaces of the family alone. -/
theorem step (h : s.Correct codec) (hapart : F.Apart) (hcodec : ∀ c, codec = some c → c.Lossless)
    {event : FamilyEvent F} (hothers : event.SparesFamily) : (s.step event).Correct codec := by
  cases event with
  | call now q micros =>
    rw [step_call]
    exact (h.ask hcodec now q).ended hapart _ now micros
  | ask now q => exact h.ask hcodec now q
  | ended place now micros => exact h.ended hapart place now micros
  | dropped place micros =>
    simp only [FamilySession.step]
    split
    · exact h.of_thins (s.cache.thins_abandon micros) h.replies
    · exact h
  | other call =>
    refine ⟨?_, fun q => ?_, h.replies⟩
    · exact (s.cache.gains_step call).codec.trans h.form
    · refine (h.held q).step fun v hstored => ?_
      exact absurd rfl (hothers q.key v hstored q.index)

theorem run (h : s.Correct codec) (hapart : F.Apart) (hcodec : ∀ c, codec = some c → c.Lossless)
    {events : List (FamilyEvent F)} (hothers : ∀ event ∈ events, event.SparesFamily) :
    (s.run events).Correct codec := by
  induction events generalizing s with
  | nil => exact h
  | cons event events ih =>
    have hstep := h.step hapart hcodec (hothers event List.mem_cons_self)
    exact ih hstep fun e he => hothers e (List.mem_cons_of_mem event he)

/-- What is held under the key of a request can be had, and is what the request gives. -/
theorem decode (h : s.Correct codec) (hcodec : ∀ c, codec = some c → c.Lossless) {q : F.Request}
    {e : Entry V} (he : s.cache.store.get? q.key = some e) :
    ∃ v, q.outcome = .ok v ∧ s.cache.decode e.value = some v := by
  obtain ⟨v, hv, hheld⟩ := (h.held q).entries (q.key, e) (Store.mem_of_get? he) rfl
  refine ⟨v, hv, ?_⟩
  have hheld' : e.value = (s.cache.encode v).1 := hheld
  rw [hheld']
  exact Cache.decode_encode (fun c hc => hcodec c (h.form.symm.trans hc)) v

/-- A lookup misses exactly where nothing is held or what is held has expired. -/
theorem get_eq_none_iff (h : s.Correct codec) (hcodec : ∀ c, codec = some c → c.Lossless)
    (now : Instant) (q : F.Request) :
    (s.cache.get now q.key none).2 = none ↔
      ∀ e, s.cache.store.get? q.key = some e → e.expiredAt now = true := by
  cases he : s.cache.store.get? q.key with
  | none => simp [Cache.get, Cache.tryGet, Cache.lookup, he, Except.toOption]
  | some e =>
    obtain ⟨v, -, hdecode⟩ := h.decode hcodec he
    cases hexpired : e.expiredAt now with
    | true => simp [Cache.get, Cache.tryGet, Cache.lookup, he, hexpired, Except.toOption]
    | false =>
      simp [Cache.get, Cache.tryGet, Cache.lookup, he, hexpired, Cache.conflicting, hdecode,
        Except.toOption]

end Correct

end FamilySession

/-- Functions that share a new cache are answered what their own derivations give. That holds of a
failure too, which is never held. A derivation begins only where no value that is still valid is
held under its key. -/
theorem FunctionFamily.Apart.run_new_correct (hapart : F.Apart) (config : CacheConfig)
    {codec : Option (Codec V)} (hcodec : ∀ c, codec = some c → c.Lossless)
    (events : List (FamilyEvent F)) (hothers : ∀ event ∈ events, event.SparesFamily)
    {s : FamilySession F} (hs : s = (FamilySession.start F (.new config codec)).run events) :
    s.calls.Perm (requests events) ∧
      (∀ r ∈ s.replies, r.result = r.request.outcome) ∧
      (∀ (q : F.Request) e, s.cache.store.get? q.key = some e →
        ∃ v, q.outcome = .ok v ∧ s.cache.decode e.value = some v) ∧
      (∀ event, (s.step event).derivations = s.derivations ++ (s.missed? event).toList) ∧
      ∀ now (q : F.Request), (s.cache.get now q.key none).2 = none ↔
        ∀ e, s.cache.store.get? q.key = some e → e.expiredAt now = true := by
  have hcalls := (FamilySession.start F (.new config codec)).calls_run events
  have hcorrect := (FamilySession.Correct.start config codec).run hapart hcodec hothers
  rw [← hs] at hcalls hcorrect
  exact ⟨hcalls, hcorrect.replies, fun q e he => hcorrect.decode hcodec he, s.derivations_step,
    hcorrect.get_eq_none_iff hcodec⟩

/-- Small numbers, each held as one byte. -/
def Codec.byte : Codec UInt8 := ⟨"byte", fun n => some ⟨#[n]⟩, fun bytes => bytes.data[0]?⟩

/-- The rank of a role, and how many signatures a process needs. The process `P1` is not known. -/
def ranksAndSignatures : FunctionFamily Bool UInt8 where
  Arg _ := String
  Failure _ := String
  fn
    | false => .sure ⟨.dictionary, id, none, fun role => if role = "clerk" then 1 else 2⟩
    | true =>
      .fallible ⟨.processInfo, id, none, fun p => if p = "P1" then .error "unknown" else .ok 3⟩

def rankOf (role : String) : ranksAndSignatures.Request := ⟨false, role⟩

def signaturesOf (process : String) : ranksAndSignatures.Request := ⟨true, process⟩

/-- Two derivations are under way when the cache is cleared, and end in the other order; then a
rank, which shares an identifier with a process, pushes out the number of its signatures. -/
def overlapping : List (FamilyEvent ranksAndSignatures) :=
  [.call .epoch (rankOf "clerk") 5, .ask .epoch (signaturesOf "P1"),
    .ask .epoch (signaturesOf "P2"), .call .epoch (rankOf "clerk") 5, .other ⟨.epoch, .clear⟩,
    .ended 1 .epoch 7, .ended 0 .epoch 7, .call .epoch (rankOf "P2") 5,
    .ask .epoch (signaturesOf "P2")]

theorem FunctionFamily.Apart.run_new_correct_overlapping :
    let s := (FamilySession.start ranksAndSignatures
      (.new { CacheConfig.usual with capacity := 1 } (some .byte))).run overlapping
    (s.calls.Perm (requests overlapping) ∧
      (∀ r ∈ s.replies, r.result = r.request.outcome) ∧
      (∀ (q : ranksAndSignatures.Request) e, s.cache.store.get? q.key = some e →
        ∃ v, q.outcome = .ok v ∧ s.cache.decode e.value = some v) ∧
      (∀ event, (s.step event).derivations = s.derivations ++ (s.missed? event).toList) ∧
      ∀ now (q : ranksAndSignatures.Request), (s.cache.get now q.key none).2 = none ↔
        ∀ e, s.cache.store.get? q.key = some e → e.expiredAt now = true) ∧
    s.derivations = [rankOf "clerk", signaturesOf "P1", signaturesOf "P2", rankOf "P2",
      signaturesOf "P2"] := by
  have hapart : ranksAndSignatures.Apart := by
    refine ⟨fun i j => ?_, fun i a b => ?_⟩
    · cases i <;> cases j <;> decide
    · cases i <;> exact congrArg _
  have hlossless : ∀ c, some Codec.byte = some c → c.Lossless := by
    intro c hc n bytes hbytes
    obtain rfl := Option.some.inj hc
    obtain rfl := Option.some.inj hbytes
    rfl
  have hothers : ∀ event ∈ overlapping, event.SparesFamily := by
    simp [overlapping, FamilyEvent.SparesFamily, CacheOp.stored?]
  refine ⟨hapart.run_new_correct _ hlossless overlapping hothers rfl, ?_⟩
  rfl

end ActionPolicy
