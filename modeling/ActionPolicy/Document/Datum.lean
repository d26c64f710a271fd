import ActionPolicy.Json.Basic

/-!
# Data as written

What a document holds before anything is expected of it. Keys may repeat and stay in the order
they are written in, and a scalar may be one that cannot be kept.

## Main definitions

* `Scalar` – a value without parts.
* `Datum` – a value with its parts.
* `Datum.toJson?` – the value a datum keeps; none if a part of it cannot be kept.
* `Datum.keepable`, `Datum.depth` – can every part be kept; how deep are the containers nested.
* `Json.toDatum` – a value as a document holds it.
-/

namespace ActionPolicy

/-- A value without parts. The last two do no harm where a document is only skipped, but they
cannot be kept. A zero with a minus sign is told from the other one, as it counts nothing. -/
inductive Scalar where
  | null
  | bool (b : Bool)
  | int (n : Int)
  | float (x : Binary64)
  | text (s : String)
  /-- The integer zero written with a minus sign. -/
  | negativeZero
  /-- A number beyond the largest binary number. -/
  | tooLarge
  /-- A text with a part that stands for no character. -/
  | garbled
  deriving DecidableEq, Repr, Inhabited

/-- A value as it is written in a document. -/
inductive Datum where
  | scalar (s : Scalar)
  | list (items : List Datum)
  /-- Keys with their values. -/
  | map (entries : List (Datum × Datum))
  deriving Inhabited, Repr

namespace Scalar

/-- The value a scalar keeps. -/
def toJson? : Scalar → Option Json
  | null => some .null
  | bool b => some (.bool b)
  | int n => some (.int n)
  | float x => some (if x.isFinite then .float x else .null)
  | text s => some (.string s)
  | negativeZero => some (.int 0)
  | tooLarge => none
  | garbled => none

end Scalar

namespace Datum

mutual

/-- The value a datum keeps. The members of an object come out ordered by name, and the last of
each name stands. -/
def toJson? : Datum → Option Json
  | .scalar s => s.toJson?
  | .list items => (itemsToJson? items).map .array
  | .map entries => (entriesToJson? [] entries).map .object

/-- The values that the items of a list keep. -/
def itemsToJson? : List Datum → Option (List Json)
  | [] => some []
  | d :: rest => do
    let j ← toJson? d
    return j :: (← itemsToJson? rest)

/-- The values that entries keep, put into an ordered list of members. -/
def entriesToJson? (done : List (String × Json)) :
    List (Datum × Datum) → Option (List (String × Json))
  | [] => some done
  | (.scalar (.text name), d) :: rest => do
    let j ← toJson? d
    entriesToJson? (Json.put name j done) rest
  | _ :: _ => none

end

mutual

/-- Every part can be kept. -/
def keepable : Datum → Bool
  | .scalar s => s.toJson?.isSome
  | .list items => itemsKeepable items
  | .map entries => entriesKeepable entries

/-- All items of a list can be kept. -/
def itemsKeepable : List Datum → Bool
  | [] => true
  | d :: rest => keepable d && itemsKeepable rest

/-- All keys and values can be kept. -/
def entriesKeepable : List (Datum × Datum) → Bool
  | [] => true
  | (k, d) :: rest => keepable k && keepable d && entriesKeepable rest

end

mutual

/-- How many containers are nested. -/
def depth : Datum → Nat
  | .scalar _ => 0
  | .list items => itemsDepth items + 1
  | .map entries => entriesDepth entries + 1

/-- The greatest depth of the items of a list. -/
def itemsDepth : List Datum → Nat
  | [] => 0
  | d :: rest => max (depth d) (itemsDepth rest)

/-- The greatest depth of keys and values. -/
def entriesDepth : List (Datum × Datum) → Nat
  | [] => 0
  | (k, d) :: rest => max (max (depth k) (depth d)) (entriesDepth rest)

end

end Datum

namespace Json

mutual

/-- A value as a document holds it. -/
def toDatum : Json → Datum
  | .null => .scalar .null
  | .bool b => .scalar (.bool b)
  | .int n => .scalar (.int n)
  | .float x => .scalar (.float x)
  | .string s => .scalar (.text s)
  | .array items => .list (itemsToData items)
  | .object members => .map (membersToData members)

/-- The items of a list as a document holds them. -/
def itemsToData : List Json → List Datum
  | [] => []
  | j :: rest => j.toDatum :: itemsToData rest

/-- The members of an object as a document holds them. -/
def membersToData : List (String × Json) → List (Datum × Datum)
  | [] => []
  | (name, j) :: rest => (.scalar (.text name), j.toDatum) :: membersToData rest

end

end Json

end ActionPolicy
