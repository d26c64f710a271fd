import ActionPolicy.Decimal.Shortest

/-!
# JSON values

## Main definitions

* `Json` – a value. The members of an object keep their order.
* `Json.put` – a member set in an object whose members are ordered by name.
* `Json.sorted` – a value with the members of every object ordered by name; of several members of
  one name the last stays.
-/

namespace ActionPolicy

/-- A JSON value. -/
inductive Json where
  | null
  | bool (b : Bool)
  /-- A number written without fraction and exponent. -/
  | int (n : Int)
  | float (x : Binary64)
  | string (s : String)
  | array (items : List Json)
  /-- Named values, in the order they are written. -/
  | object (members : List (String × Json))
  deriving Inhabited, BEq, Repr

namespace Json

/-- A natural number. -/
def nat (n : Nat) : Json := .int n

/-- A list of texts. -/
def strings (ss : List String) : Json := .array (ss.map .string)

/-- A value, or `null` in place of an absent one. -/
def ofOption {α : Type} (f : α → Json) : Option α → Json
  | none => .null
  | some a => f a

/-- Set a member in a list ordered by name: replace the one of that name, or insert in order. -/
def put {α : Type} (name : String) (value : α) : List (String × α) → List (String × α)
  | [] => [(name, value)]
  | (n, v) :: rest =>
    if n = name then (name, value) :: rest
    else if name < n then (name, value) :: (n, v) :: rest
    else (n, v) :: put name value rest

mutual

/-- The members of every object ordered by name, the last of each name standing. -/
def sorted : Json → Json
  | .array items => .array (sortedItems items)
  | .object members => .object (sortedMembers [] members)
  | j => j

/-- The items of a list, each with its objects ordered. -/
def sortedItems : List Json → List Json
  | [] => []
  | j :: rest => j.sorted :: sortedItems rest

/-- The members put one after another into an ordered list. -/
def sortedMembers (done : List (String × Json)) : List (String × Json) → List (String × Json)
  | [] => done
  | (name, value) :: rest => sortedMembers (put name value.sorted done) rest

end

end Json

end ActionPolicy
