import ActionPolicy.Named

/-!
# Contexts

The facts that one resolution is made from: the status of the task or process, what kind of node
and form it is at, who is acting, and which task and process instance are meant.

## Main definitions

* `Context` – the facts, all optional but the status.
* `Context.hasAnyRole` – does the user hold one of some roles; unknown without role information.
* `Target`, `Target.lookup` – the entity an action applies to, found in a context.
* `knownStatuses` – the status values that the built-in tables use.
-/

namespace ActionPolicy

/-- The status values that the built-in tables are written against. Any other is accepted too. -/
def knownStatuses : List String :=
  ["DRAFT", "PENDING", "IN_PROCESS", "COMPLETED", "SUSPENDED", "TERMINATED", "CLAIMED"]

/-- The facts a resolution is made from. -/
structure Context where
  /-- Status of the task or process. -/
  status : String
  nodeType : Option String
  /-- Kind of the form at the node. -/
  formType : Option String
  roles : Option (List String)
  /-- The task, if there is one. -/
  taskId : Option String
  /-- The process instance that the task belongs to, if there is one. -/
  processInstanceId : Option String
  deriving DecidableEq, Repr, Inhabited

namespace Context

/-- A context of which only the status is known. -/
def ofStatus (status : String) : Context := ⟨status, none, none, none, none, none⟩

/-- Does the user hold one of `candidates`? Unknown if the context says nothing about roles. -/
def hasAnyRole (ctx : Context) (candidates : List String) : Option Bool :=
  ctx.roles.map fun roles => candidates.any fun c => roles.contains c

end Context

/-- The entity an action applies to. -/
inductive Target where
  | task
  /-- The process instance that owns the task. -/
  | processInstance
  deriving DecidableEq, Repr, Inhabited

namespace Target

instance : Named Target where
  all := [.task, .processInstance]
  name
    | .task => "task"
    | .processInstance => "process_instance"

/-- The context's name for the identifier of this target. -/
def field : Target → String
  | .task => "task_id"
  | .processInstance => "process_instance_id"

/-- The target's identifier in a context; an empty one counts as missing. -/
def lookup (target : Target) (ctx : Context) : Option String :=
  let id := match target with
    | .task => ctx.taskId
    | .processInstance => ctx.processInstanceId
  id.filter fun s => !s.isEmpty

end Target

end ActionPolicy
