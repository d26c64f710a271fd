import ActionPolicy.Document.Decisions
import ActionPolicy.Document.Text

/-!
# Codecs

How values are held at rest.

## Main definitions

* `Codec` – a pair of transformations, both of which may fail.
* `Codec.json` – values as compact JSON in UTF-8.
* `Codec.decisions`, `Codec.texts` – the JSON codecs of decisions and of texts.
-/

namespace ActionPolicy

/-- A transformation applied to values at rest, and its inverse. -/
structure Codec (V : Type) where
  name : String
  /-- The stored form of a value. -/
  encode : V → Option ByteArray
  /-- The value of a stored form. -/
  decode : ByteArray → Option V

namespace Codec

/-- Values as compact JSON. -/
def json {V : Type} (write : V → Json) (read : View → Decoded V) : Codec V where
  name := "json"
  encode v := some (write v).compact.toUTF8
  decode bytes := (Document.readJsonBytes read bytes).toOption

/-- Decisions as compact JSON. -/
def decisions : Codec Decision := json Decision.toJson Decision.decode

/-- Texts as compact JSON. -/
def texts : Codec String := json Json.string Source.text

end Codec

end ActionPolicy
