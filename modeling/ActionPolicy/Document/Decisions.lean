import ActionPolicy.Decision
import ActionPolicy.Document.Rules
import ActionPolicy.Document.View

/-!
# Documents of decisions

How decisions and what they consist of are written and read.

## Main definitions

* `FieldAccess.toJson`, `FieldAccess.decode` – the access to a field.
* `DecisionItem.toJson`, `DecisionItem.decode` – items, told apart by their key `kind`.
* `Decision.toJson`, `Decision.decode` – decisions.
-/

namespace ActionPolicy

variable {σ : Type} [Source σ]

namespace FieldAccess

/-- The access to a field. -/
def toJson (a : FieldAccess) : Json :=
  .object [("editable", .bool a.editable), ("visible", .bool a.visible),
    ("required", .bool a.required)]

/-- The fields of an access. -/
def record : Record σ FieldAccess :=
  FieldAccess.mk <$> .required "editable" Source.bool <*> .required "visible" Source.bool
    <*> .required "required" Source.bool

/-- Reads an access. -/
def decode (s : σ) : Decoded FieldAccess := record.read "FieldAccess" false s

end FieldAccess

namespace ResolvedTarget

/-- An entity that an action applies to. -/
def toJson (t : ResolvedTarget) : Json :=
  .object [("kind", Named.toJson t.kind), ("id", .string t.id)]

/-- The fields of an entity. -/
def record : Record σ ResolvedTarget :=
  ResolvedTarget.mk <$> .required "kind" Source.named <*> .required "id" Source.text

/-- Reads an entity. -/
def decode (s : σ) : Decoded ResolvedTarget := record.read "ResolvedTarget" false s

end ResolvedTarget

namespace ActionItem

/-- The members of an action. -/
def members (a : ActionItem) : List (String × Option Json) :=
  [("code", some (.string a.code)), ("priority", some (.nat a.priority.toNat)),
    ("label", some (.string a.label)), ("style", some (Named.toJson a.style)),
    ("icon", a.icon.map .string), ("auth", Json.nonemptyStrings a.auth),
    ("require_comment", some (.bool a.requireComment)), ("confirm", a.confirm.map Confirm.toJson),
    ("class_name", a.className.map .string), ("target", a.target.map ResolvedTarget.toJson),
    ("enabled", some (.bool a.enabled)), ("visible", some (.bool a.visible))]

/-- An action by itself. -/
def toJson (a : ActionItem) : Json := .record a.members

/-- The fields of an action. -/
def record : Record σ ActionItem :=
  ActionItem.mk <$> .required "code" Source.text <*> .required "priority" Source.word32
    <*> .required "label" Source.text <*> .required "style" Source.named
    <*> .optional "icon" Source.text <*> .defaulted "auth" Source.texts []
    <*> .required "require_comment" Source.bool <*> .optional "confirm" Confirm.decode
    <*> .optional "class_name" Source.text <*> .optional "target" ResolvedTarget.decode
    <*> .required "enabled" Source.bool <*> .required "visible" Source.bool

/-- Reads an action. -/
def decode (s : σ) : Decoded ActionItem := record.read "ActionItem" false s

end ActionItem

namespace FieldPermission

/-- The members of field permissions. -/
def members (p : FieldPermission) : List (String × Option Json) :=
  [("code", some (.string p.code)), ("priority", some (.nat p.priority.toNat)),
    ("editable", some (.strings p.editable)), ("readonly", some (.strings p.readonly)),
    ("hidden", some (.strings p.hidden)), ("required", some (.strings p.required))]

/-- Field permissions by themselves. -/
def toJson (p : FieldPermission) : Json := .record p.members

/-- The fields of field permissions. -/
def record : Record σ FieldPermission :=
  FieldPermission.mk <$> .required "code" Source.text <*> .required "priority" Source.word32
    <*> .defaulted "editable" Source.texts [] <*> .defaulted "readonly" Source.texts []
    <*> .defaulted "hidden" Source.texts [] <*> .defaulted "required" Source.texts []

/-- Reads field permissions. -/
def decode (s : σ) : Decoded FieldPermission := record.read "FieldPermissionItem" false s

end FieldPermission

namespace DecisionItem

/-- An item with its kind before its members. -/
def toJson : DecisionItem → Json
  | action a => .record (("kind", some (.string "action")) :: a.members)
  | fieldPermission p => .record (("kind", some (.string "field_permission")) :: p.members)

/-- Reads an item. Its kind may stand anywhere, so the other members are set aside until it is
known. -/
def decode (s : σ) : Decoded DecisionItem := do
  let (kind, rest) ← Source.tagged "DecisionItem" "kind" ["action", "field_permission"] s
  if kind = "action" then return .action (← ActionItem.decode rest)
  else return .fieldPermission (← FieldPermission.decode rest)

end DecisionItem

namespace Decision

/-- A decision. -/
def toJson (d : Decision) : Json := .object [("items", .array (d.items.map DecisionItem.toJson))]

/-- The fields of a decision. -/
def record : Record σ Decision :=
  Decision.mk <$> .required "items" (Source.listOf DecisionItem.decode)

/-- Reads a decision. -/
def decode (s : σ) : Decoded Decision := record.read "Decision" false s

end Decision

end ActionPolicy
