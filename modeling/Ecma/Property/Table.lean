import Std.Data.TreeMap.Basic
import Ecma.Dictionary
import Ecma.Property.Descriptor
import Ecma.Property.Key

set_option autoImplicit false

/-!
The own properties of an object. Indices are kept in ascending order, names in the order in which
they were added; a redefined property keeps its place.
-/

namespace Ecma

structure PropertyTable where
  elements : Std.TreeMap Nat Descriptor := ∅
  names : Dictionary Descriptor := []

namespace PropertyTable

instance : Inhabited PropertyTable := ⟨{}⟩

def find? (t : PropertyTable) : PropertyKey → Option Descriptor
  | .index i => t.elements[i]?
  | .name s => t.names.find? s

def insert (t : PropertyTable) (key : PropertyKey) (d : Descriptor) : PropertyTable :=
  match key with
  | .index i => { t with elements := t.elements.insert i d }
  | .name s => { t with names := t.names.put s d }

/-- Changes a property that is there. -/
def modify (t : PropertyTable) (key : PropertyKey) (f : Descriptor → Descriptor) : PropertyTable :=
  match key with
  | .index i => { t with elements := t.elements.modify i f }
  | .name s => { t with names := t.names.modify s f }

def erase (t : PropertyTable) : PropertyKey → PropertyTable
  | .index i => { t with elements := t.elements.erase i }
  | .name s => { t with names := t.names.erase s }

def indices (t : PropertyTable) : List Nat :=
  t.elements.keys

/-- The keys: indices ascending, then names in their order. -/
def keys (t : PropertyTable) : List PropertyKey :=
  t.indices.map .index ++ t.names.keys.map .name

def size (t : PropertyTable) : Nat :=
  t.elements.size + t.names.length

def descriptors (t : PropertyTable) : List Descriptor :=
  t.elements.values ++ t.names.map Prod.snd

/-- A table whose names are given in order. -/
def ofNames (names : List (String × Descriptor)) : PropertyTable :=
  { names := names }

/-- A table of consecutive elements, some of which may be missing. -/
def ofElements (names : Dictionary Descriptor) (items : List (Option Value)) : PropertyTable :=
  let add (state : Nat × Std.TreeMap Nat Descriptor) (item : Option Value) :=
    match item with
    | some v => (state.1 + 1, state.2.insert state.1 (.free v))
    | none => (state.1 + 1, state.2)
  { elements := (items.foldl add (0, ∅)).2, names := names }

end PropertyTable

end Ecma
