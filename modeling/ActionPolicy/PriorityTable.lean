import ActionPolicy.Template

/-!
# Priority tables

The rank of a template that has no explicit priority is looked up by its code.

## Main definitions

* `unranked` – the priority of a template that no table knows; it sorts last.
* `PriorityTable` – ranks by code.
* `PriorityTable.priorityOf` – the effective priority of a template.
-/

namespace ActionPolicy

/-- The priority of a template without explicit priority and rank: the greatest one. -/
def unranked : Priority := 4294967295

/-- Ranks by template code. -/
structure PriorityTable where
  /-- Codes with their ranks; the first pair of a code counts. -/
  ranks : List (String × Priority)
  deriving Repr, Inhabited

namespace PriorityTable

/-- No code is ranked. -/
def empty : PriorityTable := ⟨[]⟩

/-- Set the rank of a code. -/
def insert (t : PriorityTable) (code : String) (rank : Priority) : PriorityTable :=
  ⟨(code, rank) :: t.ranks⟩

/-- Ranks from pairs, of which a later one overrides an earlier one. -/
def ofPairs (pairs : List (String × Priority)) : PriorityTable :=
  pairs.foldl (fun t (code, rank) => t.insert code rank) empty

/-- The rank of a code. -/
def rank (t : PriorityTable) (code : String) : Priority := (t.ranks.lookup code).getD unranked

/-- The effective priority: the explicit one, else the rank of the code. -/
def priorityOf (t : PriorityTable) (template : Template) : Priority :=
  template.priority.getD (t.rank template.code)

/-- The order of the desktop action bar. -/
def desktop : PriorityTable :=
  ofPairs [("approve", 1), ("reject", 2), ("return", 3), ("claim", 4), ("transfer", 5),
    ("delegate", 6), ("unclaim", 7), ("suspend", 8), ("resume", 9), ("terminate", 10),
    ("view_history", 20), ("view_diagram", 21), ("print", 22)]

/-- The order of the mobile client, where a task is claimed before it is returned. -/
def mobile : PriorityTable :=
  ofPairs [("approve", 1), ("reject", 2), ("claim", 3), ("return", 4), ("transfer", 5),
    ("unclaim", 6), ("suspend", 7), ("resume", 8)]

end PriorityTable

end ActionPolicy
