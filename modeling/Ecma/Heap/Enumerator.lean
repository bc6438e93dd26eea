import Ecma.Heap.Store

set_option autoImplicit false

/-!
Enumeration of property names, one at a time, while the heap may change in between. A key is looked
up again when its turn comes; a key that was there on an object is not reported for its prototypes.
-/

namespace Ecma

/-- The keys that were there when their turn came. -/
structure SeenKeys where
  indices : Std.TreeMap Nat Unit := ∅
  names : List String := []

namespace SeenKeys

def contains (s : SeenKeys) : PropertyKey → Bool
  | .index i => s.indices.contains i
  | .name n => s.names.contains n

def add (s : SeenKeys) : PropertyKey → SeenKeys
  | .index i => { s with indices := s.indices.insert i () }
  | .name n => { s with names := n :: s.names }

end SeenKeys

/-- The object whose keys are listed, the keys whose turn is still to come, and the keys seen. -/
structure Enumerator where
  current : Option ObjectId
  pending : List PropertyKey
  seen : SeenKeys := {}
  ownOnly : Bool
  enumerableOnly : Bool

namespace Enumerator

/-- Starts with the keys of an object. -/
def start (h : Heap) (id : ObjectId) (ownOnly enumerableOnly : Bool) : Enumerator :=
  { current := some id, pending := h.ownKeys id, ownOnly := ownOnly
    enumerableOnly := enumerableOnly }

/-- Goes through the pending keys of an object up to one that is reported. -/
def scan (h : Heap) (e : Enumerator) (id : ObjectId) :
    List PropertyKey → SeenKeys → Option PropertyKey × List PropertyKey × SeenKeys
  | [], seen => (none, [], seen)
  | key :: rest, seen =>
    if seen.contains key then e.scan h id rest seen
    else
      match h.own? id key with
      | none => e.scan h id rest seen
      | some d =>
        let seen := seen.add key
        if !e.enumerableOnly || d.enumerable then (some key, rest, seen)
        else e.scan h id rest seen

/-- The next key, on the object at hand or on a prototype of it; the fuel bounds the prototypes. -/
def nextFrom (h : Heap) : Nat → Enumerator → Option PropertyKey × Enumerator
  | 0, e => (none, { e with current := none })
  | fuel + 1, e =>
    match e.current with
    | none => (none, e)
    | some id =>
      match e.scan h id e.pending e.seen with
      | (some key, rest, seen) => (some key, { e with pending := rest, seen := seen })
      | (none, _, seen) =>
        let e := { e with pending := [], seen := seen }
        if e.ownOnly then (none, { e with current := none })
        else
          match h.prototype? id with
          | none => (none, { e with current := none })
          | some p => nextFrom h fuel { e with current := some p, pending := h.ownKeys p }

/-- The next key and what remains. -/
def next (h : Heap) (e : Enumerator) : Option PropertyKey × Enumerator :=
  nextFrom h ((e.current.getD 0) + 1) e

end Enumerator

/-- The own enumerable keys of an object. -/
def Heap.enumerableKeys (h : Heap) (id : ObjectId) : List PropertyKey :=
  (h.ownKeys id).filter fun key => (h.own? id key).any Descriptor.enumerable

end Ecma
