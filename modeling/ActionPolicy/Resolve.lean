import ActionPolicy.Decision
import ActionPolicy.RuleTable.Basic

/-!
# Resolution

From a rule table and a context to the decision: the templates that apply, in the order of their
priorities, made into items.

## Main definitions

* `Template.item?` – the item a template yields in a context.
* `PriorityTable.resolve` – the decision for a context and a table.

## Design notes

The sort is stable, so templates of equal priority keep their order in the table. An action whose
target is not known in the context is left out.
-/

namespace ActionPolicy

namespace ActionSpec

/-- The action for a context, under a code and a priority; none if its target is not known. -/
def item? (spec : ActionSpec) (code : String) (priority : Priority) (ctx : Context) :
    Option ActionItem := do
  let target ← match spec.target with
    | none => pure none
    | some kind => (kind.lookup ctx).map fun id => some ⟨kind, id⟩
  return { code, priority, label := spec.label, style := spec.style, icon := spec.icon,
           auth := spec.auth, requireComment := spec.requireComment, confirm := spec.confirm,
           className := spec.className, target, enabled := true, visible := true }

end ActionSpec

namespace FieldPermissionSpec

/-- The field permissions under a code and a priority. -/
def item (spec : FieldPermissionSpec) (code : String) (priority : Priority) : FieldPermission :=
  { code, priority, editable := spec.editable, readonly := spec.readonly, hidden := spec.hidden,
    required := spec.required }

end FieldPermissionSpec

namespace Template

/-- The item that a template yields in a context at an effective priority. -/
def item? (t : Template) (priority : Priority) (ctx : Context) : Option DecisionItem :=
  match t.payload with
  | .action spec => (spec.item? t.code priority ctx).map .action
  | .fieldPermission spec => some (.fieldPermission (spec.item t.code priority))

end Template

namespace PriorityTable

/-- Templates with their effective priorities, those of lower priority first. -/
def ranked (p : PriorityTable) (templates : List Template) : List (Priority × Template) :=
  (templates.map fun t => (p.priorityOf t, t)).mergeSort fun a b => a.1 ≤ b.1

/-- The decision for a context and a table. -/
def resolve (p : PriorityTable) (ctx : Context) (table : RuleTable) : Decision :=
  ⟨(p.ranked (table.templates.filter fun t => t.appliesTo ctx)).filterMap
    fun (priority, t) => t.item? priority ctx⟩

end PriorityTable

end ActionPolicy
