import ActionPolicy.RuleTable.Basic

/-!
# Built-in rule tables

The tables for the two kinds of client, and the order in which each shows its actions.

## Main definitions

* `Profile` – the kind of client.
* `Profile.templates`, `Profile.table` – its built-in templates and table.
* `Profile.priorities` – its order of actions.
-/

namespace ActionPolicy

/-- The kind of client that decisions are made for. -/
inductive Profile where
  | desktop
  | mobile
  deriving DecidableEq, Repr, Inhabited

namespace Profile

instance : Named Profile where
  all := [.desktop, .mobile]
  name
    | .desktop => "desktop"
    | .mobile => "mobile"

/-- Version of the built-in tables. -/
def builtinVersion : String := "builtin-1"

/-- A question with a caption for going ahead and the usual one for turning back. -/
def cancellable (title ok : String) : Confirm := ⟨title, some ok, some "Cancel"⟩

/-- Conditions on the node type and the status. -/
def atTask (nodeTypes statuses : List String) : Conditions :=
  { Conditions.any with nodeTypes := some nodeTypes, status := some statuses }

/-- A condition on the status alone. -/
def inStatus (statuses : List String) : Conditions :=
  { Conditions.any with status := some statuses }

/-- A template that offers an action under conditions. -/
def offer (code : String) (conditions : Conditions) (spec : ActionSpec) : Template :=
  ⟨code, none, conditions, .action spec⟩

/-- The actions of the desktop client. -/
def desktopTemplates : List Template := [
  offer "approve" (atTask ["userTask", "approvalTask"] ["PENDING", "IN_PROCESS"])
    { ActionSpec.ofLabel "Approve" with
      style := .primary,
      icon := some "ant-design:check-circle-outlined",
      requireComment := true,
      target := some .task },
  offer "reject" (atTask ["userTask", "approvalTask"] ["PENDING", "IN_PROCESS"])
    { ActionSpec.ofLabel "Reject" with
      icon := some "ant-design:close-circle-outlined",
      requireComment := true,
      confirm := some (cancellable "Reject this task?" "Reject"),
      className := some "btn-danger",
      target := some .task },
  offer "return" (atTask ["userTask"] ["PENDING", "IN_PROCESS"])
    { ActionSpec.ofLabel "Return" with
      icon := some "ant-design:rollback-outlined",
      requireComment := true,
      confirm := some (cancellable "Return to the previous step?" "Return"),
      target := some .task },
  offer "transfer" (atTask ["userTask"] ["PENDING", "IN_PROCESS"])
    { ActionSpec.ofLabel "Transfer" with
      icon := some "ant-design:swap-outlined",
      target := some .task },
  offer "delegate" (atTask ["userTask"] ["PENDING", "IN_PROCESS"])
    { ActionSpec.ofLabel "Delegate" with
      icon := some "ant-design:user-switch-outlined",
      target := some .task },
  offer "claim" (atTask ["userTask"] ["PENDING"])
    { ActionSpec.ofLabel "Claim" with
      style := .primary,
      icon := some "ant-design:hand-outlined",
      target := some .task },
  offer "unclaim" (atTask ["userTask"] ["CLAIMED"])
    { ActionSpec.ofLabel "Release" with
      icon := some "ant-design:unlock-outlined",
      target := some .task },
  offer "suspend" (inStatus ["IN_PROCESS"])
    { ActionSpec.ofLabel "Suspend" with
      icon := some "ant-design:pause-circle-outlined",
      auth := ["admin", "process:suspend"],
      confirm := some (cancellable "Suspend this process?" "Suspend"),
      target := some .processInstance },
  offer "resume" (inStatus ["SUSPENDED"])
    { ActionSpec.ofLabel "Resume" with
      style := .primary,
      icon := some "ant-design:play-circle-outlined",
      auth := ["admin", "process:resume"],
      target := some .processInstance },
  offer "terminate" (inStatus ["IN_PROCESS", "SUSPENDED"])
    { ActionSpec.ofLabel "Terminate" with
      icon := some "ant-design:stop-outlined",
      auth := ["admin", "process:terminate"],
      requireComment := true,
      confirm := some (cancellable "Terminate this process? This cannot be undone." "Terminate"),
      className := some "btn-danger",
      target := some .processInstance },
  offer "view_history" (inStatus ["IN_PROCESS", "COMPLETED", "TERMINATED"])
    { ActionSpec.ofLabel "History" with
      style := .link,
      icon := some "ant-design:history-outlined",
      target := some .processInstance },
  offer "view_diagram" (inStatus ["IN_PROCESS", "COMPLETED", "TERMINATED"])
    { ActionSpec.ofLabel "Diagram" with
      style := .link,
      icon := some "ant-design:node-index-outlined",
      target := some .processInstance },
  offer "print" (inStatus ["IN_PROCESS", "COMPLETED"])
    { ActionSpec.ofLabel "Print" with
      icon := some "ant-design:printer-outlined" }]

/-- The actions of the mobile client. -/
def mobileTemplates : List Template := [
  offer "approve" (atTask ["userTask", "approvalTask"] ["PENDING", "IN_PROCESS"])
    { ActionSpec.ofLabel "Approve" with
      style := .primary,
      requireComment := true,
      target := some .task },
  offer "reject" (atTask ["userTask", "approvalTask"] ["PENDING", "IN_PROCESS"])
    { ActionSpec.ofLabel "Reject" with
      style := .danger,
      requireComment := true,
      confirm := some (.ofTitle "Reject this task?"),
      target := some .task },
  offer "return" (atTask ["userTask"] ["PENDING", "IN_PROCESS"])
    { ActionSpec.ofLabel "Return" with
      style := .warning,
      requireComment := true,
      confirm := some (.ofTitle "Return to the previous step?"),
      target := some .task },
  offer "claim" (atTask ["userTask"] ["PENDING"])
    { ActionSpec.ofLabel "Claim" with
      style := .success,
      target := some .task },
  offer "unclaim" (atTask ["userTask"] ["CLAIMED"])
    { ActionSpec.ofLabel "Release" with
      target := some .task },
  offer "transfer" (atTask ["userTask"] ["PENDING", "IN_PROCESS"])
    { ActionSpec.ofLabel "Transfer" with
      target := some .task },
  offer "suspend" (inStatus ["IN_PROCESS"])
    { ActionSpec.ofLabel "Suspend" with
      style := .warning,
      confirm := some (.ofTitle "Suspend this process?"),
      target := some .processInstance },
  offer "resume" (inStatus ["SUSPENDED"])
    { ActionSpec.ofLabel "Resume" with
      style := .success,
      target := some .processInstance }]

/-- The built-in templates of a client. -/
def templates : Profile → List Template
  | desktop => desktopTemplates
  | mobile => mobileTemplates

/-- The built-in table of a client. -/
def table (p : Profile) : Except ConfigurationError RuleTable :=
  RuleTable.ofTemplates builtinVersion p.templates

/-- The order in which a client shows its actions. -/
def priorities : Profile → PriorityTable
  | desktop => .desktop
  | mobile => .mobile

end Profile

end ActionPolicy
