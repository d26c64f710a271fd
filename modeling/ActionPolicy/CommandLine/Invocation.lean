import ActionPolicy.CommandLine.Settings
import ActionPolicy.Engine

/-!
# Invocations

One run of the program: it prints the decision for the context that its arguments describe.

## Main definitions

* `Invocation` – the settings and the context.
* `Invocation.read` – the invocation that arguments and variables make.
* `Invocation.decide` – the decision.
* `Report` – what the program prints, and how it ends.
* `report` – the report of a run.
-/

namespace ActionPolicy

/-- What the program is asked to do. -/
structure Invocation where
  settings : Settings
  /-- The context that a decision is wanted for. -/
  context : Context

namespace Invocation

/-- The options that describe the context. -/
def contextOptions : List OptionDecl := [
  { OptionDecl.once "status" .text with required := true },
  .once "node-type" .text,
  .once "form-type" .text,
  { OptionDecl.once "role" .text with repeats := true },
  .once "task-id" .text,
  .once "process-instance-id" .text]

/-- What the program understands. -/
def grammar : Grammar := ⟨Settings.options ++ contextOptions, true⟩

/-- The context that given values describe. -/
def contextOf (g : Given) : Context :=
  let roles := g.all "role"
  { status := (g.get? "status").getD ""
    nodeType := g.get? "node-type"
    formType := g.get? "form-type"
    roles := if roles.isEmpty then none else some roles
    taskId := g.get? "task-id"
    processInstanceId := g.get? "process-instance-id" }

/-- The invocation that arguments and variables make. -/
def read (arguments : List String) (environment : String → Option String) :
    Except Interruption Invocation := do
  let g ← Given.read grammar arguments environment
  return ⟨.ofGiven g, contextOf g⟩

/-- What the decision is held under: the task, else the process instance. -/
def key (i : Invocation) : CacheKey :=
  .buttons ((i.context.taskId <|> i.context.processInstanceId).getD "anonymous")

/-- The decision for the context from a table, by way of an engine with the settings. -/
def decide (i : Invocation) (now : Instant) (table : RuleTable) : Decision :=
  let engine := Engine.create i.settings.cacheConfig i.settings.profile.priorities true
  (engine.resolveCached now i.key i.context table none (some table.version) 0).2.1

end Invocation

/-- What a run prints, and how it ends. -/
structure Report where
  /-- The code that the program ends with. -/
  exit : UInt32
  output : String
  /-- What went wrong, if something did. -/
  error : Option String
  deriving DecidableEq, Repr

/-- The line that tells the version. -/
def versionLine : String := "flowpolicy 0.1.0\n"

namespace Report

/-- The report of arguments that were not read to their end. The texts that explain the options, or
what is wrong with the arguments, are left out. -/
def ofInterruption : Interruption → Report
  | .help => ⟨0, "", none⟩
  | .version => ⟨0, versionLine, none⟩
  | _ => ⟨2, "", none⟩

/-- The report of a decision. -/
def ofDecision (d : Decision) : Report := ⟨0, d.toJson.pretty ++ "\n", none⟩

end Report

/-- The report of a run, given the arguments, the variables, the content of files and the time. -/
def report (arguments : List String) (environment : String → Option String)
    (contentOf : String → Except FileError ByteArray) (now : Instant) : Report :=
  match Invocation.read arguments environment with
  | .error i => .ofInterruption i
  | .ok invocation =>
    match invocation.settings.source.load contentOf with
    | .error e => ⟨1, "", some e.message⟩
    | .ok table => .ofDecision (invocation.decide now table)

end ActionPolicy
