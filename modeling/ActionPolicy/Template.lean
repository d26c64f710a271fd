import ActionPolicy.Conditions

/-!
# Templates

A rule: when its conditions are met, it offers an action or grants field permissions.

## Main definitions

* `ActionSpec`, `FieldPermissionSpec` – what a rule offers.
* `Payload` – one of the two.
* `Template` – a code, an optional priority, conditions and a payload.
-/

namespace ActionPolicy

/-- A sort priority; lower comes first. -/
abbrev Priority := UInt32

/-- How a button is drawn. -/
inductive ButtonStyle where
  | primary
  | default
  | dashed
  | link
  | text
  | success
  | warning
  | danger
  deriving DecidableEq, Repr

namespace ButtonStyle

instance : Inhabited ButtonStyle := ⟨.default⟩

instance : Named ButtonStyle where
  all := [.primary, .default, .dashed, .link, .text, .success, .warning, .danger]
  name
    | .primary => "primary"
    | .default => "default"
    | .dashed => "dashed"
    | .link => "link"
    | .text => "text"
    | .success => "success"
    | .warning => "warning"
    | .danger => "danger"

end ButtonStyle

/-- A question asked before an action is taken. -/
structure Confirm where
  title : String
  /-- Caption of the button that goes ahead. -/
  okText : Option String
  /-- Caption of the button that turns back. -/
  cancelText : Option String
  deriving DecidableEq, Repr, Inhabited

namespace Confirm

/-- A question with the usual captions. -/
def ofTitle (title : String) : Confirm := ⟨title, none, none⟩

end Confirm

/-- The action that a template offers. -/
structure ActionSpec where
  label : String
  style : ButtonStyle
  icon : Option String
  /-- Permission codes that the user interface asks for. -/
  auth : List String
  /-- A comment has to be given. -/
  requireComment : Bool
  confirm : Option Confirm
  /-- Extra style class of the button. -/
  className : Option String
  /-- The entity whose identifier has to be known. -/
  target : Option Target
  deriving DecidableEq, Repr, Inhabited

namespace ActionSpec

/-- An action of which only the caption is given. -/
def ofLabel (label : String) : ActionSpec :=
  ⟨label, .default, none, [], false, none, none, none⟩

end ActionSpec

/-- The field permissions that a template grants. -/
structure FieldPermissionSpec where
  editable : List String
  /-- Fields that may only be read. -/
  readonly : List String
  hidden : List String
  /-- Fields that have to be filled in. -/
  required : List String
  deriving DecidableEq, Repr, Inhabited

/-- What a template yields where it applies. -/
inductive Payload where
  | action (spec : ActionSpec)
  | fieldPermission (spec : FieldPermissionSpec)
  deriving DecidableEq, Repr, Inhabited

/-- A rule that pairs conditions with a payload. -/
structure Template where
  /-- Identifies the template in its table. -/
  code : String
  /-- Explicit priority; without one the priority table decides. -/
  priority : Option Priority
  conditions : Conditions
  payload : Payload
  deriving DecidableEq, Repr, Inhabited

namespace Template

/-- A template of an action that is always offered. -/
def ofAction (code : String) (spec : ActionSpec) : Template := ⟨code, none, .any, .action spec⟩

/-- A template of field permissions that are always granted. -/
def ofFieldPermission (code : String) (spec : FieldPermissionSpec) : Template :=
  ⟨code, none, .any, .fieldPermission spec⟩

/-- The template applies in a context. -/
def appliesTo (t : Template) (ctx : Context) : Bool := t.conditions.metBy ctx

end Template

end ActionPolicy
