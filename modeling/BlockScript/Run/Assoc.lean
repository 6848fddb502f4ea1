/-!
# Association lists

A finite map as a list of entries in the order of their first insertion.  Inserting under a
key that is present replaces the value in place, so a key never occurs twice.
-/

set_option autoImplicit false

namespace BlockScript

/-- A finite map from keys to values. -/
structure Assoc (κ ν : Type) where
  entries : List (κ × ν)

namespace Assoc

variable {κ ν : Type} [DecidableEq κ]

/-- The map without entries. -/
def empty : Assoc κ ν := ⟨[]⟩

/-- The value under a key in a list of entries. -/
def find (key : κ) : List (κ × ν) → Option ν
  | [] => none
  | (k, v) :: rest => if k = key then some v else find key rest

/-- Entries with the value under a key replaced, or added at the end. -/
def put (key : κ) (value : ν) : List (κ × ν) → List (κ × ν)
  | [] => [(key, value)]
  | (k, v) :: rest => if k = key then (k, value) :: rest else (k, v) :: put key value rest

/-- The value under a key. -/
def get? (m : Assoc κ ν) (key : κ) : Option ν := find key m.entries

/-- Whether there is a value under a key. -/
def contains (m : Assoc κ ν) (key : κ) : Bool := (m.get? key).isSome

/-- The map with a value under a key. -/
def insert (m : Assoc κ ν) (key : κ) (value : ν) : Assoc κ ν := ⟨put key value m.entries⟩

/-- The keys. -/
def keys (m : Assoc κ ν) : List κ := m.entries.map Prod.fst

end Assoc

end BlockScript
