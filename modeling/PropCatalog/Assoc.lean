/-!
# Ordered maps

A map is a list of pairs in the order in which keys were first inserted. `set` gives a key a new
value and keeps its place; `insertNew` leaves a key that is already there alone.
-/

namespace PropCatalog
namespace Assoc

variable {α : Type}

def get? (pairs : List (String × α)) (key : String) : Option α :=
  (pairs.find? (·.1 == key)).map (·.2)

def has (pairs : List (String × α)) (key : String) : Bool :=
  pairs.any (·.1 == key)

/-- Gives `key` the value `a`: at the place of the key if there is one, else at the end. -/
def set (pairs : List (String × α)) (key : String) (a : α) : List (String × α) :=
  match pairs with
  | [] => [(key, a)]
  | (k, b) :: rest => if k == key then (k, a) :: rest else (k, b) :: set rest key a

/-- Adds a pair unless its key is taken. -/
def insertNew (pairs : List (String × α)) (pair : String × α) : List (String × α) :=
  if has pairs pair.1 then pairs else pairs ++ [pair]

/-- All pairs of a list, a later value for a key replacing an earlier one. -/
def ofList (pairs : List (String × α)) : List (String × α) :=
  pairs.foldl (fun acc pair => set acc pair.1 pair.2) []

/-- The pairs of both maps, those of the second one winning. -/
def merge (pairs others : List (String × α)) : List (String × α) :=
  others.foldl (fun acc pair => set acc pair.1 pair.2) pairs

end Assoc
end PropCatalog
