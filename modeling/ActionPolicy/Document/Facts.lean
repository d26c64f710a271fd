import ActionPolicy.CacheKey
import ActionPolicy.Context
import ActionPolicy.Document.Record
import ActionPolicy.RuleTable.Builtin

/-!
# Documents of facts

How vocabularies, cache keys and contexts are written and read.

## Main definitions

* `Named.toJson` – a member of a closed vocabulary.
* `CacheKey.toJson`, `CacheKey.decode` – cache keys.
* `Context.toJson`, `Context.decode` – contexts.
-/

namespace ActionPolicy

namespace Json

/-- An object of those members that have a value. -/
def record (members : List (String × Option Json)) : Json :=
  .object (members.filterMap fun (name, value) => value.map (name, ·))

/-- A list of texts, absent if it is empty. -/
def nonemptyStrings (ss : List String) : Option Json :=
  if ss.isEmpty then none else some (strings ss)

end Json

namespace Named

/-- A member of a closed vocabulary is written as its name. -/
def toJson {α : Type} [Named α] (a : α) : Json := .string (name a)

end Named

variable {σ : Type} [Source σ]

namespace CacheKey

/-- A key with its two parts. -/
def toJson (k : CacheKey) : Json :=
  .object [("namespace", Named.toJson k.ns), ("identifier", .string k.identifier)]

/-- The fields of a key. -/
def record : Record σ CacheKey :=
  CacheKey.mk <$> .required "namespace" Source.named <*> .required "identifier" Source.text

/-- Reads a key. -/
def decode (s : σ) : Decoded CacheKey := record.read "CacheKey" false s

end CacheKey

namespace Context

/-- A context; facts that are not known are left out. -/
def toJson (c : Context) : Json :=
  .record [("status", some (.string c.status)), ("node_type", c.nodeType.map .string),
    ("form_type", c.formType.map .string), ("roles", c.roles.map .strings),
    ("task_id", c.taskId.map .string), ("process_instance_id", c.processInstanceId.map .string)]

/-- The fields of a context. -/
def record : Record σ Context :=
  Context.mk <$> .required "status" Source.text <*> .optional "node_type" Source.text
    <*> .optional "form_type" Source.text <*> .optional "roles" Source.texts
    <*> .optional "task_id" Source.text <*> .optional "process_instance_id" Source.text

/-- Reads a context. -/
def decode (s : σ) : Decoded Context := record.read "Context" false s

end Context

end ActionPolicy
