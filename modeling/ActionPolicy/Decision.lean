import ActionPolicy.FieldPermission

/-!
# Decisions

What a user may do in a situation: an ordered list of actions and field permissions.

## Main definitions

* `ResolvedTarget`, `ActionItem` – an action with the entity it applies to.
* `DecisionItem`, `Decision` – the items of a decision.
* `Decision.fieldAccess` – the access to a field after all field permissions, in order.
-/

namespace ActionPolicy

/-- An entity that an action applies to. -/
structure ResolvedTarget where
  /-- What kind of entity it is. -/
  kind : Target
  id : String
  deriving DecidableEq, Repr, Inhabited

/-- An action that the user may take. -/
structure ActionItem where
  /-- Code of the template it comes from. -/
  code : String
  priority : Priority
  label : String
  style : ButtonStyle
  icon : Option String
  /-- Permission codes that the user interface asks for. -/
  auth : List String
  /-- A comment has to be given. -/
  requireComment : Bool
  confirm : Option Confirm
  /-- Extra style class of the button. -/
  className : Option String
  /-- The entity that the action applies to. -/
  target : Option ResolvedTarget
  enabled : Bool
  visible : Bool
  deriving DecidableEq, Repr, Inhabited

/-- An item of a decision. -/
inductive DecisionItem where
  | action (item : ActionItem)
  | fieldPermission (item : FieldPermission)
  deriving DecidableEq, Repr, Inhabited

namespace DecisionItem

/-- Code of the template the item comes from. -/
def code : DecisionItem → String
  | action a => a.code
  | fieldPermission p => p.code

/-- Effective priority. -/
def priority : DecisionItem → Priority
  | action a => a.priority
  | fieldPermission p => p.priority

/-- The action, if the item is one. -/
def action? : DecisionItem → Option ActionItem
  | action a => some a
  | fieldPermission _ => none

/-- The field permissions, if the item holds some. -/
def fieldPermission? : DecisionItem → Option FieldPermission
  | action _ => none
  | fieldPermission p => some p

end DecisionItem

/-- The ordered items that a situation permits. -/
structure Decision where
  /-- The items, those of lower priority first. -/
  items : List DecisionItem
  deriving DecidableEq, Repr, Inhabited

namespace Decision

/-- The decision that permits nothing. -/
def empty : Decision := ⟨[]⟩

/-- Codes of the items, in order. -/
def codes (d : Decision) : List String := d.items.map DecisionItem.code

/-- The first item with a code. -/
def get? (d : Decision) (code : String) : Option DecisionItem :=
  d.items.find? fun i => i.code == code

/-- The actions, in order. -/
def actions (d : Decision) : List ActionItem := d.items.filterMap DecisionItem.action?

/-- The field permissions, in order. -/
def fieldPermissions (d : Decision) : List FieldPermission :=
  d.items.filterMap DecisionItem.fieldPermission?

/-- The access to a field after all field permissions, one after another. -/
def fieldAccess (d : Decision) (field : String) : FieldAccess :=
  d.fieldPermissions.foldl (fun access p => p.apply field access) .unrestricted

end Decision

end ActionPolicy
