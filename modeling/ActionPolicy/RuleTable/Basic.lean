import ActionPolicy.PriorityTable
import ActionPolicy.Text.Blank

/-!
# Rule tables

A rule table is an ordered list of templates under a version. It is checked when it is built.

## Main definitions

* `ConfigurationError` – what can be wrong with a table.
* `RuleTable` – a version and templates with which nothing is wrong.
* `RuleTable.ofTemplates` – the table of a version and templates, or the first fault.
* `RuleTable.extended` – a table with further templates behind its own.
-/

namespace ActionPolicy

/-- What is wrong with a table. -/
inductive ConfigurationError where
  /-- The code of the template at a position is blank. -/
  | emptyCode (index : Nat)
  /-- Two templates have the same code. -/
  | duplicateCode (code : String)
  /-- A dimension is restricted to no values at all. -/
  | emptyCondition (code dimension : String)
  /-- The explicit priority is the one of unranked templates. -/
  | reservedPriority (code : String) (priority : Priority)
  | emptyVersion
  deriving DecidableEq, Repr

namespace ConfigurationError

/-- What is wrong, in words. -/
def message : ConfigurationError → String
  | emptyCode index => "Template at position " ++ toString index ++ " has an empty code"
  | duplicateCode code => "Duplicate template code: " ++ code
  | emptyCondition code dimension =>
    "Template " ++ code ++ ": condition '" ++ dimension ++
      "' lists no values and can never match"
  | reservedPriority code priority =>
    "Template " ++ code ++ ": priority " ++ toString priority ++
      " is reserved for unranked templates"
  | emptyVersion => "Rule table version cannot be empty"

end ConfigurationError

namespace Template

/-- The first dimension that is restricted to no values. -/
def emptyDimension? (t : Template) : Option String :=
  (t.conditions.dimensions.find? fun (_, values) => values.isEmpty).map Prod.fst

/-- What is wrong with the template at a position behind templates with the codes `seen`. -/
def fault? (seen : List String) (index : Nat) (t : Template) : Option ConfigurationError :=
  if isBlankText t.code then some (.emptyCode index)
  else if seen.contains t.code then some (.duplicateCode t.code)
  else
    match t.emptyDimension? with
    | some dimension => some (.emptyCondition t.code dimension)
    | none =>
      if t.priority = some unranked then some (.reservedPriority t.code unranked) else none

end Template

/-- The first fault of templates, of which the first stands at position `index` behind templates
with the codes `seen`. -/
def templatesFault? (seen : List String) (index : Nat) :
    List Template → Option ConfigurationError
  | [] => none
  | t :: rest =>
    match t.fault? seen index with
    | some e => some e
    | none => templatesFault? (t.code :: seen) (index + 1) rest

/-- The first fault of a version and templates. -/
def tableFault? (version : String) (templates : List Template) : Option ConfigurationError :=
  if version.isEmpty then some .emptyVersion else templatesFault? [] 0 templates

/-- An ordered list of templates under a version, with which nothing is wrong. -/
structure RuleTable where
  /-- The version, which decisions made from the table carry as a tag. -/
  version : String
  /-- The templates; the earlier one comes first where priorities are equal. -/
  templates : List Template
  sound : tableFault? version templates = none

namespace RuleTable

/-- The table of a version and templates, or what is wrong with them. -/
def ofTemplates (version : String) (templates : List Template) :
    Except ConfigurationError RuleTable :=
  match h : tableFault? version templates with
  | some e => .error e
  | none => .ok ⟨version, templates, h⟩

/-- The table without templates. -/
def empty : RuleTable := ⟨"0.0.0", [], by decide⟩

/-- The table with further templates behind its own, checked as a whole. -/
def extended (t : RuleTable) (custom : List Template) : Except ConfigurationError RuleTable :=
  ofTemplates t.version (t.templates ++ custom)

/-- The template with a code. -/
def get? (t : RuleTable) (code : String) : Option Template :=
  t.templates.find? fun x => x.code == code

/-- Codes of the templates, in order. -/
def codes (t : RuleTable) : List String := t.templates.map Template.code

end RuleTable

end ActionPolicy
