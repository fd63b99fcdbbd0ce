/-!
# Tables in the order of insertion

A table is a list of keys with their values.  A key that is set again keeps its place and takes the
new value; a new key goes to the end.  Look-up is `List.lookup`.
-/

namespace ChainMapping
namespace Ordered

variable {α : Type}

/-- Sets a key. -/
def put (key : String) (value : α) : List (String × α) → List (String × α)
  | [] => [(key, value)]
  | (other, kept) :: rest =>
    if other = key then (key, value) :: rest else (other, kept) :: put key value rest

/-- The table that a list of settings leaves behind. -/
def ofList (settings : List (String × α)) : List (String × α) :=
  settings.foldl (fun table (key, value) => put key value table) []

def keys (table : List (String × α)) : List String := table.map Prod.fst

end Ordered
end ChainMapping
