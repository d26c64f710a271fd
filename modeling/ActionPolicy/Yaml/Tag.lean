/-!
# Tags

A tag says of what type a node is. It is written in ASCII, but any byte of it may be given by
number, so a tag is a list of bytes that need not make up a text.

## Main definitions

* `Tag` – a tag, or a part of one.
* `Tag.ofBytes` – the tag that written bytes stand for.
* `Tag.core` – the tag of a type of the core schema.
* `Tag.isLocal`, `Tag.localName?` – a tag of the document itself, and its name.

## Design notes

A zero byte ends a tag, whatever is written behind it. The tags of a document itself start with an
exclamation mark, which is not part of their names unless it is all there is.
-/

namespace ActionPolicy.Yaml

/-- A tag, or a part of one. -/
structure Tag where
  bytes : List UInt8
  deriving DecidableEq, Repr, Inhabited

namespace Tag

/-- The tag that written bytes stand for. -/
def ofBytes (bytes : List UInt8) : Tag := ⟨bytes.takeWhile (· ≠ 0)⟩

/-- The tag that ASCII characters stand for. -/
def ofChars (cs : List Char) : Tag := ⟨cs.map fun c => c.toNat.toUInt8⟩

instance : Append Tag := ⟨fun a b => ⟨a.bytes ++ b.bytes⟩⟩

/-- The exclamation mark that local tags start with. -/
def mark : Tag := ofChars ['!']

/-- What the tags of the core schema start with. -/
def coreStem : Tag := ofChars "tag:yaml.org,2002:".toList

/-- The tag of a type of the core schema. -/
def core (name : String) : Tag := coreStem ++ ofChars name.toList

/-- The tag belongs to the document itself. -/
def isLocal (t : Tag) : Bool := mark.bytes.isPrefixOf t.bytes

/-- The name of a local tag, unless its bytes make up no text. -/
def localName? (t : Tag) : Option String :=
  if t.isLocal then
    let name := t.bytes.drop mark.bytes.length
    String.fromUTF8? ⟨(if name.isEmpty then t.bytes else name).toArray⟩
  else none

end Tag

end ActionPolicy.Yaml
