import ActionPolicy.Named
import ActionPolicy.Time.Duration

/-!
# Cache namespaces

What kind of value a cache key stands for. Namespaces divide the keys so that a whole kind can be
dropped at once.

## Main definitions

* `Namespace` – the seven kinds, in their order.
* `Namespace.recommendedTtl` – how long values of a kind usually stay valid.
-/

namespace ActionPolicy

/-- The kind of value held under a cache key. -/
inductive Namespace where
  /-- Configuration of an online form. -/
  | formConfig
  /-- Data of a single form record. -/
  | formData
  /-- Actions resolved for a task. -/
  | workflowButtons
  /-- Field permissions of a form at a node. -/
  | permissionConfig
  /-- Details of a process instance. -/
  | processInfo
  /-- Profile of a user. -/
  | userInfo
  | dictionary
  deriving DecidableEq, Repr, Inhabited

namespace Namespace

instance : Named Namespace where
  all := [.formConfig, .formData, .workflowButtons, .permissionConfig, .processInfo, .userInfo,
    .dictionary]
  name
    | .formConfig => "form_config"
    | .formData => "form_data"
    | .workflowButtons => "workflow_buttons"
    | .permissionConfig => "permission_config"
    | .processInfo => "process_info"
    | .userInfo => "user_info"
    | .dictionary => "dictionary"

/-- The stable written name. -/
def name (ns : Namespace) : String := Named.name ns

/-- How many namespaces come before this one. -/
def rank (ns : Namespace) : Nat := (Named.all (α := Namespace)).idxOf ns

/-- How long values of this kind usually stay valid; `none` where the cache's default applies. -/
def recommendedTtl : Namespace → Option Duration
  | .formConfig => some (.ofSecs 900)
  | .formData => some (.ofSecs 300)
  | .workflowButtons => some (.ofSecs 180)
  | .permissionConfig => some (.ofSecs 1800)
  | .dictionary => some (.ofSecs 3600)
  | .processInfo => none
  | .userInfo => none

end Namespace

end ActionPolicy
