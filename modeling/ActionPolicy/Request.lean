import ActionPolicy.Decision
import ActionPolicy.Json.Basic
import ActionPolicy.Text.Blank

/-!
# Requests and outcomes

What a user sends along with an action, and what comes of it.

## Main definitions

* `ActionRequest` – a comment, a receiving user and named values.
* `ActionOutcome` – what the handler of an action reports back.
-/

namespace ActionPolicy

/-- What a user sends along with an action. -/
structure ActionRequest where
  comment : Option String
  /-- The user who receives the task. -/
  assignee : Option String
  /-- Further values, ordered by name. -/
  values : List (String × Json)

namespace ActionRequest

/-- A request that says nothing. -/
def empty : ActionRequest := ⟨none, none, []⟩

/-- The request with a further value, or another value under a name it has already. -/
def withVariable (r : ActionRequest) (name : String) (value : Json) : ActionRequest :=
  { r with values := Json.put name value r.values }

/-- There is a comment, and it is not blank. -/
def hasComment (r : ActionRequest) : Bool := r.comment.any fun c => !isBlankText c

end ActionRequest

/-- What comes of an action. -/
structure ActionOutcome where
  code : String
  /-- The entity it was applied to. -/
  target : Option ResolvedTarget
  /-- What the handler has to say. -/
  message : Option String
  deriving DecidableEq, Repr

end ActionPolicy
