import ActionPolicy.Document.Decisions
import ActionPolicy.Request

/-!
# Documents of requests

How requests and outcomes are written and read.

## Main definitions

* `ActionRequest.toJson`, `ActionRequest.decode` – requests.
* `ActionOutcome.toJson`, `ActionOutcome.decode` – outcomes.
-/

namespace ActionPolicy

variable {σ : Type} [Source σ]

namespace ActionRequest

/-- A request; what it does not say is left out. -/
def toJson (r : ActionRequest) : Json :=
  .record [("comment", r.comment.map .string), ("assignee", r.assignee.map .string),
    ("variables", if r.values.isEmpty then none else some (.object r.values))]

/-- The fields of a request. -/
def record : Record σ ActionRequest :=
  ActionRequest.mk <$> .optional "comment" Source.text <*> .optional "assignee" Source.text
    <*> .defaulted "variables" Source.members []

/-- Reads a request. -/
def decode (s : σ) : Decoded ActionRequest := record.read "ActionRequest" false s

end ActionRequest

namespace ActionOutcome

/-- An outcome. -/
def toJson (o : ActionOutcome) : Json :=
  .record [("code", some (.string o.code)), ("target", o.target.map ResolvedTarget.toJson),
    ("message", o.message.map .string)]

/-- The fields of an outcome. -/
def record : Record σ ActionOutcome :=
  ActionOutcome.mk <$> .required "code" Source.text
    <*> .optional "target" ResolvedTarget.decode <*> .optional "message" Source.text

/-- Reads an outcome. -/
def decode (s : σ) : Decoded ActionOutcome := record.read "ActionOutcome" false s

end ActionOutcome

end ActionPolicy
