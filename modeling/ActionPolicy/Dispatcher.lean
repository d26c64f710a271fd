import ActionPolicy.Request

/-!
# Dispatchers

A dispatcher hands actions to their handlers, after it has checked that they can be taken.

## Main definitions

* `DispatchError` – why an action was not taken.
* `Handler` – what takes one kind of action.
* `Dispatcher` – handlers by the code of their action.
* `Dispatcher.accept` – the checks; gives the handler if they are passed.
* `Dispatcher.dispatch`, `Dispatcher.dispatchFrom` – the checks, and then the action.
-/

namespace ActionPolicy

/-- Why an action was not taken. -/
inductive DispatchError where
  /-- The entity that the handler needs is not known. -/
  | unresolvedReference (code : String) (target : Target)
  /-- The comment that the action needs is not given. -/
  | missingComment (code : String)
  | unknownAction (code : String)
  /-- The decision does not offer the action. -/
  | notPermitted (code : String)
  /-- The handler failed; the text says how. -/
  | handlerFailed (code reason : String)
  deriving DecidableEq, Repr

namespace DispatchError

/-- Why an action was not taken, in words. -/
def message : DispatchError → String
  | unresolvedReference code target =>
    "action " ++ code ++ " needs a " ++ target.field ++ " but none was resolved"
  | missingComment code => "action " ++ code ++ " requires a comment"
  | unknownAction code => "no handler registered for action " ++ code
  | notPermitted code => "action " ++ code ++ " is not permitted in this context"
  | handlerFailed code reason => "handler failed: " ++ code ++ ": " ++ reason

end DispatchError

/-- What takes one kind of action. -/
structure Handler where
  /-- The kind of entity that has to be known, if it needs one. -/
  requires : Option Target
  /-- Takes an action; if it fails, says why. -/
  handle : ActionItem → ActionRequest → Except String ActionOutcome

/-- Handlers by the code of their action. -/
structure Dispatcher where
  /-- The handlers, each code at most once. -/
  handlers : List (String × Handler)

namespace ActionItem

/-- The entity of a kind is known. -/
def hasTarget (item : ActionItem) (kind : Target) : Bool :=
  item.target.any fun t => t.kind == kind && !t.id.isEmpty

end ActionItem

namespace Dispatcher

/-- No handler at all. -/
def empty : Dispatcher := ⟨[]⟩

/-- The dispatcher with a handler for a code, in place of the one it had. -/
def register (d : Dispatcher) (code : String) (h : Handler) : Dispatcher :=
  ⟨(code, h) :: d.handlers.filter fun (c, _) => c != code⟩

/-- The handler for a code. -/
def get? (d : Dispatcher) (code : String) : Option Handler := d.handlers.lookup code

/-- There is a handler for a code. -/
def handles (d : Dispatcher) (code : String) : Bool := (d.get? code).isSome

/-- The handler that takes an action, if there is one and what the handler and the action need is
given. -/
def accept (d : Dispatcher) (item : ActionItem) (request : ActionRequest) :
    Except DispatchError Handler :=
  match d.get? item.code with
  | none => .error (.unknownAction item.code)
  | some h =>
    match h.requires.filter fun kind => !item.hasTarget kind with
    | some kind => .error (.unresolvedReference item.code kind)
    | none =>
      if item.requireComment && !request.hasComment then .error (.missingComment item.code)
      else .ok h

/-- Take an action. -/
def dispatch (d : Dispatcher) (item : ActionItem) (request : ActionRequest) :
    Except DispatchError ActionOutcome := do
  (← d.accept item request).handle item request |>.mapError (.handlerFailed item.code)

/-- The first action of a code that a decision offers. -/
def permitted (decision : Decision) (code : String) : Except DispatchError ActionItem :=
  match decision.actions.find? fun a => a.code == code with
  | some item => .ok item
  | none => .error (.notPermitted code)

/-- Take the action of a code if a decision offers it. -/
def dispatchFrom (d : Dispatcher) (decision : Decision) (code : String)
    (request : ActionRequest) : Except DispatchError ActionOutcome := do
  d.dispatch (← permitted decision code) request

end Dispatcher

end ActionPolicy
