import ActionPolicy.Yaml.Tag

/-!
# YAML tokens

The marks and words a YAML text consists of. Indentation shows as tokens that start and end block
collections, and a key without a mark of its own as a token before it.

## Main definitions

* `ScalarStyle` – how a scalar is written.
* `Token` – a token.
-/

namespace ActionPolicy.Yaml

/-- How a scalar is written. -/
inductive ScalarStyle where
  | plain
  /-- In indented lines that stay as they are. -/
  | literal
  /-- In indented lines that are joined. -/
  | folded
  | quoted
  deriving DecidableEq, Repr

/-- A token of a YAML text. -/
inductive Token where
  /-- The version of YAML that the text is written in. -/
  | version (major minor : Nat)
  | tagHandle (handle : String) (stem : Tag)
  /-- The line that starts a document. -/
  | documentStart
  /-- The line that ends a document. -/
  | documentEnd
  | streamEnd
  | blockSequenceStart
  | blockMappingStart
  | blockEnd
  | flowSequenceStart
  | flowSequenceEnd
  | flowMappingStart
  | flowMappingEnd
  /-- An item of a list by indentation follows. -/
  | blockEntry
  | flowEntry
  /-- A key follows. -/
  | key
  | value
  /-- The node with this name, once more. -/
  | reference (name : String)
  /-- The name of the node that follows. -/
  | anchor (name : String)
  /-- The tag of the node that follows, in a short form unless the handle is empty. -/
  | tag (handle : String) (suffix : Tag)
  | scalar (style : ScalarStyle) (text : String)
  deriving DecidableEq, Repr, Inhabited

end ActionPolicy.Yaml
