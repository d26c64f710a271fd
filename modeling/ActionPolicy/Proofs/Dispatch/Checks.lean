import ActionPolicy.Document.Facts
import ActionPolicy.Proofs.Dispatch.Offered
import ActionPolicy.Proofs.KeyedList
import ActionPolicy.Proofs.RuleTable.FirstFault
import Mathlib.Data.List.Induction

/-!
# No handler runs before the checks

What a handler does to the world is not known. So an action is taken here with any way to hand it
to its handler, and in particular with one that puts down what handlers are given.

## Main definitions

* `Dispatcher.cleared` – the action that may be taken, with its handler.
* `Dispatcher.takeFrom` – take an action, with some way to hand it to its handler.
* `Dispatcher.deliveries` – what handlers are given meanwhile.
* `Dispatcher.registered` – the dispatcher after a series of registrations.
* `Dispatcher.Ready`, `Dispatcher.Refusal` – every check is passed; which one fails first.

## Main statements

* `Dispatcher.takeFrom_handle` – handlers that only answer make it `Dispatcher.dispatchFrom`.
* `Dispatcher.cleared_of_ready`, `Dispatcher.cleared_of_refusal`, `Dispatcher.ready_or_refusal` –
  either every check is passed, or one fails first.
* `Dispatcher.dispatchFrom_checked` – a handler is given an action, and once only, exactly if every
  check is passed.
-/

namespace ActionPolicy

/-- What a handler is given. -/
structure Delivery where
  handler : Handler
  item : ActionItem
  request : ActionRequest

namespace Dispatcher

/-- The action of a code that may be taken, with its handler. -/
def cleared (d : Dispatcher) (decision : Decision) (code : String) (request : ActionRequest) :
    Except DispatchError (ActionItem × Handler) :=
  match permitted decision code with
  | .error e => .error e
  | .ok item => (d.accept item request).map fun h => (item, h)

/-- Take the action of a code if it may be taken. `give` hands it to the handler. -/
def takeFrom {m : Type → Type} [Monad m]
    (give : Handler → ActionItem → ActionRequest → m (Except String ActionOutcome))
    (d : Dispatcher) (decision : Decision) (code : String) (request : ActionRequest) :
    m (Except DispatchError ActionOutcome) :=
  match d.cleared decision code request with
  | .error e => pure (.error e)
  | .ok (item, h) => do return (← give h item request).mapError (.handlerFailed item.code)

/-- Hand an action to a handler and put that down. -/
def note (h : Handler) (item : ActionItem) (request : ActionRequest) :
    StateM (List Delivery) (Except String ActionOutcome) := do
  modify (· ++ [⟨h, item, request⟩])
  return h.handle item request

/-- What handlers are given while an action is taken. -/
def deliveries (d : Dispatcher) (decision : Decision) (code : String) (request : ActionRequest) :
    List Delivery :=
  ((takeFrom note d decision code request).run []).2

section

variable (d : Dispatcher) (decision : Decision) (code : String) (request : ActionRequest)

/-- A dispatcher takes actions with handlers that do nothing but answer. -/
theorem takeFrom_handle :
    takeFrom (m := Id) Handler.handle d decision code request =
      d.dispatchFrom decision code request := by
  unfold takeFrom cleared dispatchFrom
  cases permitted decision code with
  | error e => rfl
  | ok item =>
    change _ = d.dispatch item request
    unfold dispatch
    dsimp only
    cases d.accept item request <;> rfl

theorem takeFrom_note :
    ((takeFrom note d decision code request).run []).1 =
      d.dispatchFrom decision code request := by
  rw [← takeFrom_handle]
  unfold takeFrom
  cases d.cleared decision code request <;> rfl

end

/-! ### Registrations -/

/-- The dispatcher after a series of registrations. -/
def registered (registrations : List (String × Handler)) : Dispatcher :=
  registrations.foldl (fun d r => d.register r.1 r.2) empty

/-- The handler is the last one that was registered for the code. -/
def LastRegistered (registrations : List (String × Handler)) (code : String) (h : Handler) : Prop :=
  ∃ earlier later, registrations = earlier ++ (code, h) :: later ∧ ∀ r ∈ later, r.1 ≠ code

theorem get?_register (d : Dispatcher) (code code' : String) (h : Handler) :
    (d.register code h).get? code' = if code' = code then some h else d.get? code' := by
  unfold get? register
  rw [List.lookup_cons]
  by_cases hc : code' = code
  · simp [hc]
  · rw [beq_false_of_ne hc, if_neg hc]
    exact lookup_filter_ne hc

theorem get?_registered_concat (rs : List (String × Handler)) (r : String × Handler)
    (code : String) :
    (registered (rs ++ [r])).get? code =
      if code = r.1 then some r.2 else (registered rs).get? code := by
  rw [registered, List.foldl_append, List.foldl_cons, List.foldl_nil, get?_register]
  rfl

variable {rs : List (String × Handler)} {decision : Decision} {code : String}
  {request : ActionRequest} {h : Handler} {item : ActionItem}

theorem get?_registered_of_forall (hnone : ∀ r ∈ rs, r.1 ≠ code) :
    (registered rs).get? code = none := by
  induction rs using List.reverseRecOn with
  | nil => rfl
  | append_singleton rs r ih =>
    have hr : code ≠ r.1 := (hnone r (by simp)).symm
    rw [get?_registered_concat, if_neg hr]
    exact ih fun s hs => hnone s (by simp [hs])

theorem LastRegistered.get? (hlast : LastRegistered rs code h) :
    (registered rs).get? code = some h := by
  obtain ⟨earlier, later, rfl, hlater⟩ := hlast
  induction later using List.reverseRecOn with
  | nil => rw [get?_registered_concat, if_pos rfl]
  | append_singleton later r ih =>
    have hr : code ≠ r.1 := (hlater r (by simp)).symm
    rw [← List.cons_append, ← List.append_assoc, get?_registered_concat, if_neg hr]
    exact ih fun s hs => hlater s (by simp [hs])

theorem forall_ne_or_lastRegistered (rs : List (String × Handler)) (code : String) :
    (∀ r ∈ rs, r.1 ≠ code) ∨ ∃ h, LastRegistered rs code h := by
  induction rs with
  | nil => simp
  | cons r rs ih =>
    rcases ih with hnone | ⟨h, earlier, later, rfl, hlater⟩
    · by_cases hr : r.1 = code
      · exact Or.inr ⟨r.2, [], rs, by simp [← hr], hnone⟩
      · exact Or.inl (List.forall_mem_cons.mpr ⟨hr, hnone⟩)
    · exact Or.inr ⟨h, r :: earlier, later, rfl, hlater⟩

/-! ### Actions of a code -/

/-- The action is the first one of a code among the items of a decision. -/
def FirstAction (decision : Decision) (code : String) (item : ActionItem) : Prop :=
  ∃ before after, decision.items = before ++ .action item :: after ∧ item.code = code ∧
    ∀ a, .action a ∈ before → a.code ≠ code

theorem FirstAction.permitted (hfirst : FirstAction decision code item) :
    permitted decision code = .ok item := by
  obtain ⟨before, after, hitems, hcode, hbefore⟩ := hfirst
  have hfind : decision.actions.find? (fun a => a.code == code) = some item := by
    have hactions : decision.actions =
        before.filterMap DecisionItem.action? ++ item :: after.filterMap DecisionItem.action? := by
      rw [Decision.actions, hitems, List.filterMap_append]
      rfl
    have hnone : (before.filterMap DecisionItem.action?).find? (fun a => a.code == code) = none := by
      rw [List.find?_eq_none]
      intro a ha
      have hmem : a ∈ (Decision.mk before).actions := ha
      simpa using hbefore a (Decision.mem_actions_iff.mp hmem)
    rw [hactions, List.find?_append, hnone, List.find?_cons_of_pos (by simp [hcode])]
    rfl
  rw [Dispatcher.permitted, hfind]

theorem permitted_of_forall (hnone : ∀ a, .action a ∈ decision.items → a.code ≠ code) :
    permitted decision code = .error (.notPermitted code) := by
  have hfind : (decision.actions.find? fun a => a.code == code) = none := by
    rw [List.find?_eq_none]
    intro a ha
    simpa using hnone a (Decision.mem_actions_iff.mp ha)
  rw [permitted, hfind]

theorem forall_ne_or_firstAction (decision : Decision) (code : String) :
    (∀ a, .action a ∈ decision.items → a.code ≠ code) ∨
      ∃ item, FirstAction decision code item := by
  obtain ⟨items⟩ := decision
  induction items with
  | nil => simp
  | cons i items ih =>
    by_cases hi : ∃ a, i = .action a ∧ a.code = code
    · obtain ⟨a, rfl, hcode⟩ := hi
      exact Or.inr ⟨a, [], items, rfl, hcode, by simp⟩
    · have hhead : ∀ a, .action a = i → a.code ≠ code := fun a ha hcode => hi ⟨a, ha.symm, hcode⟩
      rcases ih with hnone | ⟨item, before, after, rfl, hcode, hbefore⟩
      · refine Or.inl fun a ha => ?_
        rcases List.mem_cons.mp ha with ha | ha
        · exact hhead a ha
        · exact hnone a ha
      · refine Or.inr ⟨item, i :: before, after, rfl, hcode, fun a ha => ?_⟩
        rcases List.mem_cons.mp ha with ha | ha
        · exact hhead a ha
        · exact hbefore a ha

/-! ### What a handler and an action need -/

/-- The handler needs no entity, or the action has one of that kind, with an identifier. -/
def Served (h : Handler) (item : ActionItem) : Prop :=
  ∀ kind, h.requires = some kind → ∃ t, item.target = some t ∧ t.kind = kind ∧ t.id ≠ ""

/-- The action needs no comment, or the request has one with a character that is not blank. -/
def Commented (item : ActionItem) (request : ActionRequest) : Prop :=
  item.requireComment = true →
    ∃ text, request.comment = some text ∧ ∃ c ∈ text.toList, isBlank c = false

theorem hasTarget_eq_true_iff {kind : Target} :
    item.hasTarget kind = true ↔ ∃ t, item.target = some t ∧ t.kind = kind ∧ t.id ≠ "" := by
  simp [ActionItem.hasTarget, Option.any_eq_true]

theorem hasComment_eq_true_iff :
    request.hasComment = true ↔
      ∃ text, request.comment = some text ∧ ∃ c ∈ text.toList, isBlank c = false := by
  simp [ActionRequest.hasComment, Option.any_eq_true, Template.isBlankText_eq_false_iff]

/-- Every check is passed for what a handler is given. -/
structure Ready (rs : List (String × Handler)) (decision : Decision) (code : String)
    (request : ActionRequest) (call : Delivery) : Prop where
  offered : FirstAction decision code call.item
  registered : LastRegistered rs code call.handler
  served : Served call.handler call.item
  commented : Commented call.item request
  request_eq : call.request = request

/-- The first check that fails. -/
inductive Refusal (rs : List (String × Handler)) (decision : Decision) (code : String)
    (request : ActionRequest) : DispatchError → Prop where
  | notPermitted (none : ∀ a, .action a ∈ decision.items → a.code ≠ code) :
    Refusal rs decision code request (.notPermitted code)
  | unknownAction {item : ActionItem} (offered : FirstAction decision code item)
    (none : ∀ r ∈ rs, r.1 ≠ code) : Refusal rs decision code request (.unknownAction code)
  | unresolvedReference {item : ActionItem} (offered : FirstAction decision code item)
    {h : Handler} (registered : LastRegistered rs code h) {kind : Target}
    (requires : h.requires = some kind)
    (missing : ∀ t, item.target = some t → t.kind = kind → t.id = "") :
    Refusal rs decision code request (.unresolvedReference code kind)
  | missingComment {item : ActionItem} (offered : FirstAction decision code item)
    {h : Handler} (registered : LastRegistered rs code h) (served : Served h item)
    (needed : item.requireComment = true)
    (blank : ∀ text, request.comment = some text → ∀ c ∈ text.toList, isBlank c = true) :
    Refusal rs decision code request (.missingComment code)

theorem ready_or_refusal (rs : List (String × Handler)) (decision : Decision) (code : String)
    (request : ActionRequest) :
    (∃ call, Ready rs decision code request call) ∨ ∃ e, Refusal rs decision code request e := by
  rcases forall_ne_or_firstAction decision code with hnone | ⟨item, hoffered⟩
  · exact Or.inr ⟨_, .notPermitted hnone⟩
  rcases forall_ne_or_lastRegistered rs code with hnone | ⟨h, hregistered⟩
  · exact Or.inr ⟨_, .unknownAction hoffered hnone⟩
  by_cases hserved : Served h item
  · by_cases hcommented : Commented item request
    · exact Or.inl ⟨⟨h, item, request⟩, hoffered, hregistered, hserved, hcommented, rfl⟩
    · obtain ⟨hneeded, hblank⟩ := Classical.not_imp.mp hcommented
      refine Or.inr ⟨_, .missingComment hoffered hregistered hserved hneeded ?_⟩
      simpa using hblank
  · obtain ⟨kind, hmissing⟩ := not_forall.mp hserved
    obtain ⟨hrequires, hmissing⟩ := Classical.not_imp.mp hmissing
    refine Or.inr ⟨_, .unresolvedReference hoffered hregistered hrequires ?_⟩
    simpa using hmissing

/-! ### The checks -/

theorem FirstAction.code_eq (hoffered : FirstAction decision code item) : item.code = code := by
  obtain ⟨_, _, _, hcode, _⟩ := hoffered
  exact hcode

theorem cleared_of_firstAction (d : Dispatcher) (hoffered : FirstAction decision code item) :
    d.cleared decision code request = (d.accept item request).map fun h => (item, h) := by
  rw [cleared, hoffered.permitted]

theorem filter_requires_eq_none (hserved : Served h item) :
    (h.requires.filter fun kind => !item.hasTarget kind) = none := by
  rw [Option.filter_eq_none_iff]
  intro kind hkind
  simp [hasTarget_eq_true_iff.mpr (hserved kind hkind)]

/-- If every check is passed, the action may be taken. -/
theorem cleared_of_ready {call : Delivery} (hready : Ready rs decision code request call) :
    (registered rs).cleared decision code request = .ok (call.item, call.handler) := by
  have hcomment : (call.item.requireComment && !request.hasComment) = false := by
    simpa using fun hneeded => hasComment_eq_true_iff.mpr (hready.commented hneeded)
  rw [cleared_of_firstAction _ hready.offered, accept, hready.offered.code_eq,
    hready.registered.get?]
  simp only [filter_requires_eq_none hready.served, hcomment]
  rfl

/-- If a check fails, the first one that does is reported. -/
theorem cleared_of_refusal {e : DispatchError} (hrefused : Refusal rs decision code request e) :
    (registered rs).cleared decision code request = .error e := by
  cases hrefused with
  | notPermitted none => rw [cleared, permitted_of_forall none]
  | unknownAction offered none =>
    rw [cleared_of_firstAction _ offered, accept, offered.code_eq, get?_registered_of_forall none]
    rfl
  | @unresolvedReference item offered h last kind requires missing =>
    have hlacks : item.hasTarget kind = false := by
      rw [← Bool.not_eq_true, hasTarget_eq_true_iff]
      rintro ⟨t, htarget, hkind, hid⟩
      exact hid (missing t htarget hkind)
    have hfound : (h.requires.filter fun kind => !item.hasTarget kind) = some kind := by
      simp [requires, hlacks]
    rw [cleared_of_firstAction _ offered, accept, offered.code_eq, last.get?]
    simp only [hfound]
    rfl
  | @missingComment item offered h last served needed blank =>
    have hcomment : request.hasComment = false := by
      rw [← Bool.not_eq_true, hasComment_eq_true_iff]
      rintro ⟨text, htext, c, hc, hblank⟩
      rw [blank text htext c hc] at hblank
      contradiction
    rw [cleared_of_firstAction _ offered, accept, offered.code_eq, last.get?]
    simp only [filter_requires_eq_none served, needed, hcomment]
    rfl

/-! ### What is done -/

section

variable {m : Type → Type} [Monad m]
  (give : Handler → ActionItem → ActionRequest → m (Except String ActionOutcome))

/-- If every check is passed, the handler is given the action, and nothing else is done. -/
theorem takeFrom_of_ready {call : Delivery} (hready : Ready rs decision code request call) :
    takeFrom give (registered rs) decision code request = do
      return (← give call.handler call.item call.request).mapError (.handlerFailed code) := by
  rw [takeFrom, cleared_of_ready hready, hready.request_eq]
  simp only [hready.offered.code_eq]

theorem takeFrom_of_refusal {e : DispatchError} (hrefused : Refusal rs decision code request e) :
    takeFrom give (registered rs) decision code request = pure (.error e) := by
  rw [takeFrom, cleared_of_refusal hrefused]

end

theorem deliveries_of_ready {call : Delivery} (hready : Ready rs decision code request call) :
    (registered rs).deliveries decision code request = [call] := by
  rw [deliveries, takeFrom_of_ready note hready]
  rfl

theorem deliveries_of_refusal {e : DispatchError}
    (hrefused : Refusal rs decision code request e) :
    (registered rs).deliveries decision code request = [] := by
  rw [deliveries, takeFrom_of_refusal note hrefused]
  rfl

theorem dispatchFrom_of_ready {call : Delivery} (hready : Ready rs decision code request call) :
    (registered rs).dispatchFrom decision code request =
      (call.handler.handle call.item call.request).mapError (.handlerFailed code) := by
  rw [← takeFrom_handle, takeFrom_of_ready (m := Id) Handler.handle hready]
  rfl

theorem dispatchFrom_of_refusal {e : DispatchError}
    (hrefused : Refusal rs decision code request e) :
    (registered rs).dispatchFrom decision code request = .error e := by
  rw [← takeFrom_handle, takeFrom_of_refusal (m := Id) Handler.handle hrefused]
  rfl

theorem mem_deliveries_iff {call : Delivery} :
    call ∈ (registered rs).deliveries decision code request ↔
      Ready rs decision code request call := by
  rcases ready_or_refusal rs decision code request with ⟨other, hready⟩ | ⟨e, hrefused⟩
  · rw [deliveries_of_ready hready, List.mem_singleton]
    constructor
    · rintro rfl
      exact hready
    · intro hcall
      have hsame := (deliveries_of_ready hcall).symm.trans (deliveries_of_ready hready)
      exact List.singleton_inj.mp hsame
  · constructor
    · intro hcall
      rw [deliveries_of_refusal hrefused] at hcall
      contradiction
    · intro hcall
      have hboth := (deliveries_of_ready hcall).symm.trans (deliveries_of_refusal hrefused)
      contradiction

theorem field_mem_context {kind : Target} {ctx : Context} {id : String}
    (hid : ctx.idOf kind = some id) :
    ∃ members, ctx.toJson = .object members ∧ (kind.field, .string id) ∈ members := by
  refine ⟨_, rfl, ?_⟩
  cases kind with
  | task => simp [Target.field, show ctx.taskId = some id from hid]
  | processInstance => simp [Target.field, show ctx.processInstanceId = some id from hid]

/-- A handler is given an action at most once, and exactly if every check is passed for both. Then
its answer is the outcome. Otherwise no handler is given anything, and what is reported is the first
check that fails; if an entity is missing, with the field of a context that should have it. -/
theorem dispatchFrom_checked (rs : List (String × Handler)) (decision : Decision) (code : String)
    (request : ActionRequest) :
    ((takeFrom note (registered rs) decision code request).run []).1 =
        (registered rs).dispatchFrom decision code request ∧
      ((registered rs).deliveries decision code request).length ≤ 1 ∧
      (∀ call, call ∈ (registered rs).deliveries decision code request ↔
        Ready rs decision code request call) ∧
      (∀ call, Ready rs decision code request call →
        (registered rs).dispatchFrom decision code request =
          (call.handler.handle call.item request).mapError (.handlerFailed code)) ∧
      ((registered rs).deliveries decision code request = [] →
        ∃ e, Refusal rs decision code request e) ∧
      (∀ e, Refusal rs decision code request e →
        (registered rs).deliveries decision code request = [] ∧
          (registered rs).dispatchFrom decision code request = .error e) ∧
      ∀ kind, (DispatchError.unresolvedReference code kind).message =
          "action " ++ code ++ " needs a " ++ kind.field ++ " but none was resolved" ∧
        ∀ (ctx : Context) (id : String), ctx.idOf kind = some id →
          ∃ members, ctx.toJson = .object members ∧ (kind.field, .string id) ∈ members := by
  refine ⟨takeFrom_note _ decision code request, ?_, fun call => mem_deliveries_iff, ?_, ?_, ?_,
    fun kind => ⟨rfl, fun ctx id => field_mem_context⟩⟩
  · rcases ready_or_refusal rs decision code request with ⟨call, hready⟩ | ⟨e, hrefused⟩
    · exact (congrArg List.length (deliveries_of_ready hready)).le
    · simp [deliveries_of_refusal hrefused]
  · intro call hready
    rw [dispatchFrom_of_ready hready, hready.request_eq]
  · intro hnone
    rcases ready_or_refusal rs decision code request with ⟨call, hready⟩ | hrefused
    · rw [deliveries_of_ready hready] at hnone
      contradiction
    · exact hrefused
  · intro e hrefused
    exact ⟨deliveries_of_refusal hrefused, dispatchFrom_of_refusal hrefused⟩

/-- Field permissions have the code of an action, two handlers are registered for it, the action has
its task, and its comment is wanting. -/
theorem dispatchFrom_checked_reject :
    let item : ActionItem := { approveT1 with code := "reject" }
    let decision : Decision := ⟨[.fieldPermission ⟨"reject", 1, [], [], [], []⟩, .action item]⟩
    let rs : List (String × Handler) :=
      [("reject", ⟨none, fun _ _ => .error "replaced"⟩),
        ("reject", ⟨some .task, fun item _ => .ok ⟨item.code, item.target, none⟩⟩)]
    (registered rs).dispatchFrom decision "reject" approval =
        .ok ⟨"reject", some ⟨.task, "T1"⟩, none⟩ ∧
      (registered rs).deliveries decision "reject" .empty = [] := by
  intro item decision rs
  have hoffered : FirstAction decision "reject" item :=
    ⟨[_], [], rfl, rfl, by simp⟩
  have hlast : LastRegistered rs "reject" _ := ⟨[_], [], rfl, by simp⟩
  have hserved : Served ⟨some .task, fun item _ => .ok ⟨item.code, item.target, none⟩⟩ item := by
    rintro kind ⟨⟩
    exact ⟨_, rfl, rfl, by decide⟩
  have hcommented : Commented item approval :=
    fun _ => ⟨"in order", rfl, 'i', List.mem_cons_self, by decide⟩
  obtain ⟨-, -, -, hready, -, -, -⟩ := dispatchFrom_checked rs decision "reject" approval
  obtain ⟨-, -, -, -, -, hrefused, -⟩ := dispatchFrom_checked rs decision "reject" .empty
  constructor
  · rw [hready ⟨_, item, approval⟩ ⟨hoffered, hlast, hserved, hcommented, rfl⟩]
    rfl
  · exact (hrefused _ (.missingComment hoffered hlast hserved rfl (by simp [ActionRequest.empty]))).1

end Dispatcher

end ActionPolicy
