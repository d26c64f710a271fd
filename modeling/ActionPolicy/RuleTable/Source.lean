import ActionPolicy.Document.Rules
import ActionPolicy.FileTree
import ActionPolicy.Yaml.Part

/-!
# Sources of rule tables

A rule table comes from a file in YAML or is built in.

## Main definitions

* `TableError` – why there is no table.
* `RuleTable.ofYaml` – the table that a text holds.
* `TableSource` – where a table comes from.
* `TableSource.load` – the table from there.
-/

namespace ActionPolicy

/-- Why there is no table. -/
inductive TableError where
  | file (e : FileError)
  | document (e : DocumentError)
  /-- Something is wrong with the table. -/
  | configuration (e : ConfigurationError)
  deriving DecidableEq, Repr

namespace TableError

/-- Why there is no table, in words; of a text that holds none only that it is so. -/
def message : TableError → String
  | file e => "IO error: " ++ e.message
  | document _ => "YAML parsing error"
  | configuration e => "Invalid rule table: " ++ e.message

end TableError

namespace RuleTable

/-- The table that a YAML text holds. -/
def ofYaml (text : String) : Except TableError RuleTable := do
  let d ← (Document.readYaml TableDocument.decode text).mapError TableError.document
  d.table.mapError TableError.configuration

/-- The table that a file of the given content holds, if the file could be read. -/
def ofFile (content : Except FileError ByteArray) : Except TableError RuleTable := do
  match String.fromUTF8? (← content.mapError TableError.file) with
  | some text => ofYaml text
  | none => .error (.file .notText)

end RuleTable

/-- Where a table comes from. -/
inductive TableSource where
  /-- From the file at a path. -/
  | file (path : String)
  | builtin (profile : Profile)
  deriving DecidableEq, Repr

namespace TableSource

/-- From a file if a path is given, else the built-in table of a client. -/
def ofPath (path : Option String) (profile : Profile) : TableSource :=
  match path with
  | some p => file p
  | none => builtin profile

/-- Only a file can come to hold another table. -/
def isReloadable : TableSource → Bool
  | file _ => true
  | builtin _ => false

/-- The table from a source, given the content of files. -/
def load (contentOf : String → Except FileError ByteArray) :
    TableSource → Except TableError RuleTable
  | file path => RuleTable.ofFile (contentOf path)
  | builtin profile => profile.table.mapError TableError.configuration

end TableSource

end ActionPolicy
