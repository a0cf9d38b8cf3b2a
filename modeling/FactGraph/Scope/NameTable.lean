/-!
# Name tables

A table that leads from a name to entries, such as positions in a list, in the order in which they
were entered.

## Main definitions

* `NameTable.push`: enters an entry under a name
* `NameTable.get`: the entries under a name
-/

namespace FactGraph

/-- Entries by name. -/
structure NameTable (α : Type) where
  /-- One row for each name that has an entry. -/
  rows : List (String × List α) := []
  deriving Inhabited

namespace NameTable

variable {α : Type}

/-- The rows with one more entry under a name, behind those that it has. -/
def pushRow (name : String) (entry : α) : List (String × List α) → List (String × List α)
  | [] => [(name, [entry])]
  | (other, entries) :: rows =>
    if other = name then (other, entries ++ [entry]) :: rows
    else (other, entries) :: pushRow name entry rows

/-- Enters an entry under a name. -/
def push (table : NameTable α) (name : String) (entry : α) : NameTable α :=
  ⟨pushRow name entry table.rows⟩

/-- The entries under a name, in the order in which they were entered. -/
def get (table : NameTable α) (name : String) : List α :=
  (table.rows.lookup name).getD []

/-- The name has an entry. -/
def contains (table : NameTable α) (name : String) : Bool :=
  (table.rows.lookup name).isSome

end NameTable

end FactGraph
