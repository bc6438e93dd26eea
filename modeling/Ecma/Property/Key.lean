import Ecma.Value

set_option autoImplicit false

/-!
Property keys. A name that is the decimal form of an array index is kept as the index, so that every
key has one form: two texts give the same key only when they are the same.
-/

namespace Ecma

/-- Array indices are below this bound, which leaves room for a length above them. -/
def indexBound : Nat := Nat.pow 2 32 - 1

/-- The key of an own property; an index is below `indexBound`. -/
inductive PropertyKey where
  | index (i : Nat)
  | name (s : String)
deriving DecidableEq, Repr, Inhabited

/-- The number that decimal digits spell, if there are digits and nothing else. -/
def decimal? : List Char → Option Nat
  | [] => none
  | cs => if cs.all Char.isDigit then some (Number.digitsValue cs) else none

/-- The array index whose decimal form a text is: no leading zero, and below the bound. -/
def arrayIndex? (s : String) : Option Nat :=
  if s.utf8ByteSize > 10 then none
  else
    match s.toList with
    | '0' :: _ :: _ => none
    | cs => (decimal? cs).filter (· < indexBound)

namespace PropertyKey

def ofString (s : String) : PropertyKey :=
  match arrayIndex? s with
  | some i => .index i
  | none => .name s

/-- The key whose text is the decimal form of a number. -/
def ofNat (n : Nat) : PropertyKey :=
  if n < indexBound then .index n else .name (toString n)

def index? : PropertyKey → Option Nat
  | .index i => some i
  | .name _ => none

/-- The text of a key. -/
def text : PropertyKey → String
  | .index i => toString i
  | .name s => s

/-- The index that a number is, if it is one. -/
def ofIndexNumber? (x : Float) : Option PropertyKey :=
  match Number.Scaled.ofFloat? x with
  | some s =>
    if s.isWhole && (s.mantissa == 0 || !s.negative) && s.whole < indexBound then
      some (.index s.whole)
    else none
  | none => none

/-- The key that a primitive names. -/
def ofPrimitive (v : Value) : PropertyKey :=
  ofString v.primitiveText

def length : PropertyKey :=
  .name "length"

end PropertyKey

end Ecma
