/-! Tables from names to values, in the order in which the names came. -/

namespace TagScript

/-- Values by name. A name stands at most once in a table built by `set`. -/
abbrev Table (α : Type) := List (String × α)

namespace Table

variable {α : Type}

def get? (name : String) (table : Table α) : Option α :=
  table.lookup name

def set (name : String) (value : α) : Table α → Table α
  | [] => [(name, value)]
  | (other, held) :: rest =>
    if other = name then (name, value) :: rest else (other, held) :: set name value rest

def erase (name : String) (table : Table α) : Table α :=
  table.filter (·.1 != name)

def names (table : Table α) : List String :=
  table.map (·.1)

def holds (name : String) (table : Table α) : Bool :=
  (table.get? name).isSome

end Table

def sortedTexts (texts : List String) : List String :=
  texts.mergeSort fun left right => decide (left ≤ right)

end TagScript
