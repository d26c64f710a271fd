import ActionPolicy.Context

/-!
# Conditions

When a template applies. A condition restricts up to four dimensions of the context to lists of
allowed values.

## Main definitions

* `Conditions` – the allowed values, dimension by dimension.
* `Conditions.metBy` – does a context meet the conditions.
* `Conditions.dimensions` – the restricted dimensions with their names.

## Design notes

The status is always compared. The other dimensions are compared only with what the context
carries, so an absent fact never rules a template out.
-/

namespace ActionPolicy

/-- The values that a template allows in each dimension; an absent list allows every value. -/
structure Conditions where
  /-- Allowed statuses. -/
  status : Option (List String)
  /-- Allowed node types. -/
  nodeTypes : Option (List String)
  /-- Roles of which the user needs one. -/
  roles : Option (List String)
  /-- Allowed form types. -/
  formTypes : Option (List String)
  deriving DecidableEq, Repr, Inhabited

namespace Conditions

/-- Conditions that every context meets. -/
def any : Conditions := ⟨none, none, none, none⟩

/-- No dimension is restricted. -/
def isEmpty (c : Conditions) : Bool :=
  c.status.isNone && c.nodeTypes.isNone && c.roles.isNone && c.formTypes.isNone

/-- The restricted dimensions in their fixed order, each with its name and allowed values. -/
def dimensions (c : Conditions) : List (String × List String) :=
  [("status", c.status), ("node_types", c.nodeTypes), ("roles", c.roles),
    ("form_types", c.formTypes)].filterMap fun (name, values) => values.map (name, ·)

/-- The status is one of the allowed ones. -/
def allowsStatus (c : Conditions) (status : String) : Bool :=
  c.status.all fun allowed => allowed.contains status

/-- The fact, if the context has it, is one of the allowed ones. -/
def allowsFact (allowed : Option (List String)) (fact : Option String) : Bool :=
  match allowed, fact with
  | some values, some v => values.contains v
  | _, _ => true

/-- The user is not known to lack all the required roles. -/
def allowsRoles (c : Conditions) (ctx : Context) : Bool :=
  c.roles.all fun allowed => ctx.hasAnyRole allowed != some false

/-- The context meets the conditions. -/
def metBy (c : Conditions) (ctx : Context) : Bool :=
  c.allowsStatus ctx.status && allowsFact c.nodeTypes ctx.nodeType && c.allowsRoles ctx &&
    allowsFact c.formTypes ctx.formType

end Conditions

end ActionPolicy
