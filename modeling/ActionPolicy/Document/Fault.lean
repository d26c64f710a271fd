import ActionPolicy.Json.Text
import ActionPolicy.Text.Quoted

/-!
# Faults of documents

What can be wrong with a well-formed document that does not hold what is expected of it, where it
is wrong, and how that is said.

## Main definitions

* `Found`, `Expected` – what stands in the document, and what should.
* `Fault` – what is wrong.
* `Step`, `pathText` – the way from the root of a document to a part of it.
* `DecodeError` – a fault with its place, if the place is known.
* `Fault.message`, `DecodeError.message?` – the text of a fault, in the wording of the format.
-/

namespace ActionPolicy

/-- The format of a document, where it decides how something is said. -/
inductive Format where
  | json
  | yaml
  deriving DecidableEq, Repr

/-- What stands in a document. -/
inductive Found where
  | null
  | bool (b : Bool)
  /-- An integer of 64 bits. -/
  | int (n : Int)
  /-- An integer of more than 64 bits. -/
  | wideInt (n : Int)
  | float (x : Binary64)
  | text (s : String)
  | list
  /-- Keys with their values. -/
  | map
  | tagged
  /-- A value that may be absent. -/
  | option
  deriving DecidableEq, Repr

namespace Found

/-- A binary number in positional notation, however many digits that takes. Of two equally near
decimals it is the greater one. -/
def plainFloatText (x : Binary64) : List Char :=
  let sign := if x.negative then ['-'] else []
  if x.isNaN then "NaN".toList
  else if x.isInfinite then sign ++ "inf".toList
  else sign ++ (Decimal.shortest .up x).positional

/-- What was found, in words. -/
def phrase (format : Format) : Found → String
  | null => match format with
    | .json => "null"
    | .yaml => "unit value"
  | bool b => "boolean `" ++ toString b ++ "`"
  | int n => "integer `" ++ toString n ++ "`"
  | wideInt n => "integer `" ++ toString n ++ "` as " ++ (if n < 0 then "i128" else "u128")
  | float x =>
    let digits := match format with
      | .json => Json.floatText x
      | .yaml => plainFloatText x
    "floating point `" ++ String.ofList digits ++ "`"
  | text s => "string " ++ quoted s
  | list => "sequence"
  | map => "map"
  | tagged => "enum"
  | option => "Option value"

end Found

/-- What should stand in a document. -/
inductive Expected where
  | text
  | bool
  /-- An unsigned integer of 32 bits. -/
  | word32
  | integer
  | float
  | unit
  | null
  | list
  /-- Keys with their values. -/
  | map
  | record (name : String)
  /-- A record of a name, written as the list of its `width` fields. -/
  | recordList (name : String) (width : Nat)
  /-- A list of at most `n` items. -/
  | items (n : Nat)
  | fewerItems
  /-- One of several records, told apart by a field. -/
  | taggedRecord (name : String)
  | variantName
  | variantNumber (n : Nat)
  | fieldName
  | fieldNumber (n : Nat)
  /-- A variant, as a text or under a key. -/
  | textOrMap
  /-- A variant under its only key. -/
  | singleKeyMap
  | tag
  /-- A key that is a text. -/
  | textKey
  /-- Whatever a record's field may hold. -/
  | anyValue
  /-- The field that tells records apart, or any other key. -/
  | tagOrAny (field : String)
  | anyJson
  deriving DecidableEq, Repr

namespace Expected

/-- What was expected, in words. -/
def phrase : Expected → String
  | text => "a string"
  | bool => "a boolean"
  | word32 => "u32"
  | integer => "an integer"
  | float => "a float"
  | unit => "unit"
  | null => "null"
  | list => "a sequence"
  | map => "a map"
  | record name => "struct " ++ name
  | recordList name width =>
    "struct " ++ name ++ " with " ++ toString width ++
      (if width = 1 then " element" else " elements")
  | items n => toString n ++ (if n = 1 then " element in sequence" else " elements in sequence")
  | fewerItems => "fewer elements in array"
  | taggedRecord name => "internally tagged enum " ++ name
  | variantName => "variant identifier"
  | variantNumber n => "variant index 0 <= i < " ++ toString n
  | fieldName => "field identifier"
  | fieldNumber n => "field index 0 <= i < " ++ toString n
  | textOrMap => "string or map"
  | singleKeyMap => "map with a single key"
  | tag => "a YAML tag starting with '!'"
  | textKey => "a string key"
  | anyValue => "any value"
  | tagOrAny field => "a type tag `" ++ field ++ "` or any other value"
  | anyJson => "any valid JSON value"

end Expected

/-- What is wrong with a part of a document. -/
inductive Fault where
  | wrongType (found : Found) (expected : Expected)
  | wrongValue (found : Found) (expected : Expected)
  /-- A list of the wrong length. -/
  | wrongLength (n : Nat) (expected : Expected)
  /-- A key that the record has no field for. -/
  | unknownField (name : String) (known : List String)
  /-- A name that no variant has. -/
  | unknownVariant (name : String) (known : List String)
  /-- A field that has to be written is not. -/
  | missingField (name : String)
  /-- A field is written more than once. -/
  | duplicateField (name : String)
  | missingPayload (code : String)
  | conflictingPayloads (code : String)
  /-- There is no value at all. -/
  | endOfStream
  | tooDeep
  /-- Named parts are referred to too often. -/
  | tooManyReferences
  /-- A tag stands inside a record that is told apart by a field. -/
  | taggedContent
  /-- A number that JSON cannot hold. -/
  | numberOutOfRange
  deriving DecidableEq, Repr

namespace Fault

/-- A list of names in a sentence. -/
def oneOf (names : List String) : String :=
  let ticked := names.map fun n => "`" ++ n ++ "`"
  match ticked with
  | [] => "there are no variants"
  | [a] => "expected " ++ a
  | [a, b] => "expected " ++ a ++ " or " ++ b
  | _ => "expected one of " ++ ", ".intercalate ticked

/-- What is wrong, in words. -/
def message (format : Format) : Fault → String
  | wrongType found expected =>
    "invalid type: " ++ found.phrase format ++ ", expected " ++ expected.phrase
  | wrongValue found expected =>
    "invalid value: " ++ found.phrase format ++ ", expected " ++ expected.phrase
  | wrongLength n expected => "invalid length " ++ toString n ++ ", expected " ++ expected.phrase
  | unknownField name known => "unknown field `" ++ name ++ "`, " ++ oneOf known
  | unknownVariant name known => "unknown variant `" ++ name ++ "`, " ++ oneOf known
  | missingField name => "missing field `" ++ name ++ "`"
  | duplicateField name => "duplicate field `" ++ name ++ "`"
  | missingPayload code =>
    "template " ++ quoted code ++ " has no action or field_permission payload"
  | conflictingPayloads code =>
    "template " ++ quoted code ++ " has both an action and a field_permission payload"
  | endOfStream => "EOF while parsing a value"
  | tooDeep => "recursion limit exceeded"
  | tooManyReferences => "repetition limit exceeded"
  | taggedContent => "untagged and internally tagged enums do not support enum input"
  | numberOutOfRange => "JSON number out of range"

end Fault

/-! ### Places -/

/-- A step from a container to a part of it. -/
inductive Step where
  /-- To the value of a key. -/
  | key (name : String)
  /-- To an item of a list, counted from zero. -/
  | index (n : Nat)
  /-- To the value of a key that is no scalar. -/
  | unnamed
  deriving DecidableEq, Repr

/-- The text of a root. -/
def rootText : String := "."

/-- The way from the root to a part, written out: none is the root. -/
def pathTextFrom : Option String → List Step → String
  | parent, [] => parent.getD rootText
  | parent, step :: rest =>
    let stem := (parent.map (· ++ ".")).getD ""
    match step with
    | .key name => pathTextFrom (some (stem ++ name)) rest
    | .index n => pathTextFrom (some (parent.getD rootText ++ "[" ++ toString n ++ "]")) rest
    | .unnamed => pathTextFrom (some (stem ++ "?")) rest

/-- The way from the root to a part, written out. -/
def pathText (path : List Step) : String := pathTextFrom none path

/-- Why a document could not be read. -/
inductive DecodeError where
  /-- A value that would have to be kept cannot be. -/
  | unkeepable
  /-- The document has the wrong shape, and there are no words for it. -/
  | unworded
  /-- A fault, and the way to the innermost part known to have it. -/
  | fault (path : Option (List Step)) (fault : Fault)
  deriving DecidableEq, Repr

namespace DecodeError

/-- A fault of which the place is not known yet. -/
def ofFault (f : Fault) : DecodeError := .fault none f

/-- The fault lies at this place, unless it is known to lie deeper. -/
def within (path : List Step) : DecodeError → DecodeError
  | .fault none f => .fault (some path) f
  | e => e

/-- The text of an error, if it has one. The place is left out where it reads as the root does. -/
def message? (format : Format) : DecodeError → Option String
  | .unkeepable => none
  | .unworded => none
  | .fault none f => some (f.message format)
  | .fault (some path) f =>
    some (if pathText path = rootText then f.message format
      else pathText path ++ ": " ++ f.message format)

end DecodeError

end ActionPolicy
