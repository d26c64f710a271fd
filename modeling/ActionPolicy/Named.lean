/-!
# Closed vocabularies

A small type whose members each have one fixed written name: cache namespaces, button styles,
targets, profiles.

## Main definitions

* `Named` – the members of a type in their declared order, and their names.
* `Named.ofName?` – the member written with a given name, if there is one.
* `Named.names` – all names, in declared order.
-/

namespace ActionPolicy

/-- A type whose members are listed and have written names. -/
class Named (α : Type) where
  /-- Every member, in declared order. -/
  all : List α
  /-- The written name of a member. -/
  name : α → String

namespace Named

variable {α : Type} [Named α]

/-- The member written `s`. -/
def ofName? (s : String) : Option α :=
  (Named.all (α := α)).find? fun a => name a == s

/-- The names of all members, in declared order. -/
def names (α : Type) [Named α] : List String :=
  (Named.all (α := α)).map name

end Named

end ActionPolicy
