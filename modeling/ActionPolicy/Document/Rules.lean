import ActionPolicy.Document.Facts

/-!
# Documents of rules

How conditions, templates and rule tables are written and read.

## Main definitions

* `Conditions.toJson`, `Conditions.decode` – conditions.
* `ActionSpec.toJson`, `ActionSpec.decode`, `FieldPermissionSpec.toJson`,
  `FieldPermissionSpec.decode` – what templates offer.
* `Template.toJson`, `Template.decode` – templates.
* `TableDocument`, `TableDocument.decode`, `TableDocument.table` – a rule table as written.

## Design notes

Templates, conditions and tables have no other keys than their fields, so that a misspelled
condition is noticed. A template has its payload under one of two keys, and exactly one of them.
-/

namespace ActionPolicy

variable {σ : Type} [Source σ]

namespace Conditions

/-- Conditions; dimensions without restriction are left out. -/
def toJson (c : Conditions) : Json :=
  .record [("status", c.status.map .strings), ("node_types", c.nodeTypes.map .strings),
    ("roles", c.roles.map .strings), ("form_types", c.formTypes.map .strings)]

/-- The fields of conditions. -/
def record : Record σ Conditions :=
  Conditions.mk <$> .optional "status" Source.texts <*> .optional "node_types" Source.texts
    <*> .optional "roles" Source.texts <*> .optional "form_types" Source.texts

/-- Reads conditions. -/
def decode (s : σ) : Decoded Conditions := record.read "Conditions" true s

end Conditions

namespace Confirm

/-- A question asked before an action. -/
def toJson (c : Confirm) : Json :=
  .record [("title", some (.string c.title)), ("ok_text", c.okText.map .string),
    ("cancel_text", c.cancelText.map .string)]

/-- The fields of a question. -/
def record : Record σ Confirm :=
  Confirm.mk <$> .required "title" Source.text <*> .optional "ok_text" Source.text
    <*> .optional "cancel_text" Source.text

/-- Reads a question. -/
def decode (s : σ) : Decoded Confirm := record.read "Confirm" false s

end Confirm

namespace ActionSpec

/-- An action that a template offers. -/
def toJson (a : ActionSpec) : Json :=
  .record [("label", some (.string a.label)), ("style", some (Named.toJson a.style)),
    ("icon", a.icon.map .string), ("auth", Json.nonemptyStrings a.auth),
    ("require_comment", some (.bool a.requireComment)), ("confirm", a.confirm.map Confirm.toJson),
    ("class_name", a.className.map .string), ("target", a.target.map Named.toJson)]

/-- The fields of an action. -/
def record : Record σ ActionSpec :=
  ActionSpec.mk <$> .required "label" Source.text <*> .defaulted "style" Source.named .default
    <*> .optional "icon" Source.text <*> .defaulted "auth" Source.texts []
    <*> .defaulted "require_comment" Source.bool false <*> .optional "confirm" Confirm.decode
    <*> .optional "class_name" Source.text <*> .optional "target" Source.named

/-- Reads an action. -/
def decode (s : σ) : Decoded ActionSpec := record.read "ActionSpec" false s

end ActionSpec

namespace FieldPermissionSpec

/-- The field permissions that a template grants. -/
def toJson (p : FieldPermissionSpec) : Json :=
  .object [("editable", .strings p.editable), ("readonly", .strings p.readonly),
    ("hidden", .strings p.hidden), ("required", .strings p.required)]

/-- The fields of field permissions. -/
def record : Record σ FieldPermissionSpec :=
  FieldPermissionSpec.mk <$> .defaulted "editable" Source.texts []
    <*> .defaulted "readonly" Source.texts [] <*> .defaulted "hidden" Source.texts []
    <*> .defaulted "required" Source.texts []

/-- Reads field permissions. -/
def decode (s : σ) : Decoded FieldPermissionSpec := record.read "FieldPermissionSpec" false s

end FieldPermissionSpec

namespace Template

/-- The key and the value of a payload. -/
def payloadMember : Payload → String × Json
  | .action spec => ("action", spec.toJson)
  | .fieldPermission spec => ("field_permission", spec.toJson)

/-- A template; conditions that every context meets are left out. -/
def toJson (t : Template) : Json :=
  let (payloadName, payload) := payloadMember t.payload
  .record [("code", some (.string t.code)), ("priority", t.priority.map fun p => .nat p.toNat),
    ("conditions", if t.conditions.isEmpty then none else some t.conditions.toJson),
    (payloadName, some payload)]

/-- A template as written, before its payload is settled. -/
structure Draft where
  code : String
  /-- The explicit priority. -/
  priority : Option Priority
  conditions : Conditions
  /-- The action, if one is written. -/
  action : Option ActionSpec
  /-- The field permissions, if some are written. -/
  fieldPermission : Option FieldPermissionSpec

namespace Draft

/-- The fields of a template. -/
def record : Record σ Draft :=
  Draft.mk <$> .required "code" Source.text <*> .optional "priority" Source.word32
    <*> .defaulted "conditions" Conditions.decode .any
    <*> .optional "action" ActionSpec.decode
    <*> .optional "field_permission" FieldPermissionSpec.decode

/-- The template, if exactly one payload is written. -/
def settle (d : Draft) : Except Fault Template :=
  match d.action, d.fieldPermission with
  | some spec, none => .ok ⟨d.code, d.priority, d.conditions, .action spec⟩
  | none, some spec => .ok ⟨d.code, d.priority, d.conditions, .fieldPermission spec⟩
  | none, none => .error (.missingPayload d.code)
  | some _, some _ => .error (.conflictingPayloads d.code)

end Draft

/-- Reads a template. -/
def decode (s : σ) : Decoded Template := do
  (← Draft.record.read "RawTemplate" true s).settle.mapError DecodeError.ofFault

end Template

/-- A rule table as written. -/
structure TableDocument where
  version : String
  /-- The built-in table that the templates are put behind. -/
  base : Option Profile
  templates : List Template
  deriving DecidableEq, Repr

namespace TableDocument

/-- The fields of a rule table. -/
def record : Record σ TableDocument :=
  TableDocument.mk <$> .required "table_version" Source.text
    <*> .optional "extends" Source.named
    <*> .defaulted "templates" (Source.listOf Template.decode) []

/-- Reads a rule table as written. -/
def decode (s : σ) : Decoded TableDocument := record.read "TableFile" true s

/-- All templates: those of the built-in table, if one is named, before the written ones. -/
def allTemplates (d : TableDocument) : List Template :=
  match d.base with
  | some profile => profile.templates ++ d.templates
  | none => d.templates

/-- The rule table, or what is wrong with it. -/
def table (d : TableDocument) : Except ConfigurationError RuleTable :=
  RuleTable.ofTemplates d.version d.allTemplates

end TableDocument

end ActionPolicy
