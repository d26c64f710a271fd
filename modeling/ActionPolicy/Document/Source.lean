import ActionPolicy.Document.Datum
import ActionPolicy.Document.Decoded
import ActionPolicy.Named

/-!
# Sources

What readers of documents need to know of a format: how to get at a text, a number, the items of a
list, the members of a record. Everything that is read from documents is read through `Source`, so
that each record is described once for all formats.

## Main definitions

* `Label`, `Member`, `Layout` – the keys of a record, and the two ways to write one.
* `View` – data seen as read from a text, taken from a value, or kept for a second reading.
* `Source` – the questions that can be asked of a part of a document.
* `texts`, `listOf`, `named` – readers of lists and of names from a closed vocabulary.
-/

namespace ActionPolicy

/-- A key of a record. -/
inductive Label where
  | name (s : String)
  | position (n : Nat)
  /-- Something that is no key of a record. -/
  | bad (e : DecodeError)
  deriving DecidableEq, Repr

/-- A key with its value. -/
structure Member (σ : Type) where
  /-- The key. -/
  label : Label
  /-- How many references were followed to read the key. -/
  followed : Nat
  part : σ

/-- How a record is written. -/
inductive Layout (σ : Type) where
  /-- Keys with their values, in the order written. -/
  | members (entries : List (Member σ))
  /-- The values alone, in the order of the fields, and what is wrong with more of them than there
  are fields. -/
  | values (items : List σ) (surplus : Nat → DecodeError)

/-- How data came about, which decides some limits and words. -/
inductive Flavour where
  | text
  | tree
  /-- Set aside until it is known which record it is. -/
  | kept
  deriving DecidableEq, Repr

/-- A part of a document of plain data. -/
structure View where
  flavour : Flavour
  /-- How many containers it stands in. -/
  level : Nat
  datum : Datum

/-- The questions that can be asked of a part of a document. -/
class Source (σ : Type) where
  text : σ → Decoded String
  bool : σ → Decoded Bool
  /-- An unsigned integer of 32 bits. -/
  word32 : σ → Decoded UInt32
  /-- The part itself, unless it is a null. -/
  option : σ → Decoded (Option σ)
  items : σ → Decoded (List σ)
  /-- The layout of a record of the given name. -/
  layout : String → σ → Decoded (Layout σ)
  variant : List String → σ → Decoded String
  /-- One of several records of a common name, told apart by a field that holds one of the given
  names; what else there is, is set aside. -/
  tagged : (recordName field : String) → List String → σ → Decoded (String × View)
  /-- Members of any names, ordered by name. -/
  members : σ → Decoded (List (String × Json))
  /-- Adds the place of the part to an error that has none. -/
  locate : σ → DecodeError → DecodeError

namespace Source

variable {σ : Type} [Source σ] {α : Type}

/-- Runs a reader and adds the place of the part to its errors. -/
def locating (s : σ) (result : Decoded α) : Decoded α := result.mapError (locate s)

/-- Reads a list with one reader for its items. -/
def listOf (read : σ → Decoded α) (s : σ) : Decoded (List α) := do
  locating s ((← items s).mapM read)

/-- Reads a list of texts. -/
def texts (s : σ) : Decoded (List String) := listOf text s

/-- Reads a part that may be null. -/
def optional (read : σ → Decoded α) (s : σ) : Decoded (Option α) := do
  match ← option s with
  | none => return none
  | some part => return some (← read part)

/-- Reads a member of a closed vocabulary. -/
def named [Named α] [Inhabited α] (s : σ) : Decoded α := do
  return (Named.ofName? (← variant (Named.names α) s)).getD default

end Source

end ActionPolicy
