import ActionPolicy.Namespace

/-!
# Cache keys

A cached value is found by its namespace and an identifier that the caller chooses.

## Main definitions

* `CacheKey` – namespace and identifier.
* `CacheKey.buttons`, `CacheKey.permissions`, `CacheKey.formData` – the keys of the usual values.
* `CacheKey.text` – a key written `namespace:identifier`.
-/

namespace ActionPolicy

/-- Where a value is held: its namespace and its identifier there. -/
structure CacheKey where
  ns : Namespace
  identifier : String
  deriving DecidableEq, Repr, Inhabited

namespace CacheKey

/-- The key of the actions of a task. -/
def buttons (taskId : String) : CacheKey := ⟨.workflowButtons, taskId⟩

/-- The key of the field permissions of a form at a node. -/
def permissions (nodeId formId : String) : CacheKey :=
  ⟨.permissionConfig, nodeId ++ "-" ++ formId⟩

/-- The key of one record of a form. -/
def formData (formId dataId : String) : CacheKey := ⟨.formData, formId ++ "-" ++ dataId⟩

/-- A key written out. -/
def text (k : CacheKey) : String := k.ns.name ++ ":" ++ k.identifier

end CacheKey

end ActionPolicy
