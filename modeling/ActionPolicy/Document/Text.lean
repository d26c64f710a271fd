import ActionPolicy.Document.View
import ActionPolicy.Json.Reader
import ActionPolicy.Text.Octets

/-!
# Documents in JSON

## Main definitions

* `DocumentError` – a text is no document at all, or one that holds something else.
* `Document.readJson` – reads a JSON text with a reader of its parts.
* `Document.readJsonBytes` – reads bytes, of which some may belong to no character.
* `Document.readValue` – reads a value built before.

## Design notes

That the text is JSON is settled before anything is expected of it. A value that cannot be kept
where it would have to be makes the text as unreadable as a missing brace. Where there are no words
for what is wrong, the whole text has to be one that can be kept.
-/

namespace ActionPolicy

/-- Why a text could not be read. -/
inductive DocumentError where
  /-- The text is no document of the format. -/
  | malformed
  /-- The document holds something else; the text says what, if there are words for it. -/
  | data (message : Option String)
  deriving DecidableEq, Repr

namespace Document

variable {α : Type}

/-- The error of a document in a format. -/
def errorIn (format : Format) : DecodeError → DocumentError
  | .unkeepable => .malformed
  | e => .data (e.message? format)

/-- The error of a JSON text that holds the given data. -/
def errorOf (d : Datum) (e : DecodeError) : DocumentError :=
  if e = .unworded ∧ !(View.ofText d).keepable then .malformed else errorIn .json e

/-- Reads the data that a JSON text holds, if it holds some. -/
def readDatum (read : View → Decoded α) : Option Datum → Except DocumentError α
  | none => .error .malformed
  | some d => (read (.ofText d)).result.mapError (errorOf d)

/-- Reads a JSON text. -/
def readJson (read : View → Decoded α) (text : String) : Except DocumentError α :=
  readDatum read (Json.read? text)

/-- Reads bytes that hold a JSON text. A stray byte does no harm in a text that is skipped. -/
def readJsonBytes (read : View → Decoded α) (bytes : ByteArray) : Except DocumentError α :=
  match String.fromUTF8? bytes with
  | some text => readJson read text
  | none =>
    let cs := Octets.chars bytes.toList
    let standIn := Octets.standIn cs
    readDatum read (Json.readStray? (· == standIn) (cs.map fun c => c.getD standIn))

/-- Reads a value built before. -/
def readValue (read : View → Decoded α) (j : Json) : Except DocumentError α :=
  (read (.ofJson j)).result.mapError (errorIn .json)

end Document

end ActionPolicy
