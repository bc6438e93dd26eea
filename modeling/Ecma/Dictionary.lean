set_option autoImplicit false

/-!
Dictionaries: values under distinct names, in the order in which the names were added.
-/

namespace Ecma

abbrev Dictionary (α : Type) := List (String × α)

namespace Dictionary

variable {α : Type}

def find? : Dictionary α → String → Option α
  | [], _ => none
  | (key, a) :: rest, name => if key = name then some a else find? rest name

def has (d : Dictionary α) (name : String) : Bool :=
  (d.find? name).isSome

/-- Puts a value under a name; a new name goes to the end. -/
def put : Dictionary α → String → α → Dictionary α
  | [], name, a => [(name, a)]
  | (key, b) :: rest, name, a => if key = name then (key, a) :: rest else (key, b) :: put rest name a

def modify : Dictionary α → String → (α → α) → Dictionary α
  | [], _, _ => []
  | (key, a) :: rest, name, f =>
    if key = name then (key, f a) :: rest else (key, a) :: modify rest name f

def erase : Dictionary α → String → Dictionary α
  | [], _ => []
  | (key, a) :: rest, name => if key = name then rest else (key, a) :: erase rest name

def keys (d : Dictionary α) : List String :=
  d.map Prod.fst

end Dictionary

end Ecma
