import Ecma.Value

set_option autoImplicit false

/-!
Static types. A type set is a bound on the values an expression can have; it decides which operators
need no conversion of objects.
-/

namespace Ecma.Program

/-- Which of the six types a value may have. -/
structure TypeSet where
  undefined : Bool := false
  null : Bool := false
  boolean : Bool := false
  number : Bool := false
  string : Bool := false
  object : Bool := false
deriving DecidableEq, Repr, Inhabited

namespace TypeSet

def ofUndefined : TypeSet := { undefined := true }
def ofNull : TypeSet := { null := true }
def ofBoolean : TypeSet := { boolean := true }
def ofNumber : TypeSet := { number := true }
def ofString : TypeSet := { string := true }
def ofObject : TypeSet := { object := true }
def all : TypeSet := ⟨true, true, true, true, true, true⟩

/-- The type of a value. -/
def of : Value → TypeSet
  | .undefined => ofUndefined
  | .null => ofNull
  | .boolean _ => ofBoolean
  | .number _ => ofNumber
  | .string _ => ofString
  | .object _ => ofObject

def union (a b : TypeSet) : TypeSet :=
  ⟨a.undefined || b.undefined, a.null || b.null, a.boolean || b.boolean, a.number || b.number,
    a.string || b.string, a.object || b.object⟩

/-- Every type of the one is among those of the other. -/
def isWithin (a b : TypeSet) : Bool :=
  (!a.undefined || b.undefined) && (!a.null || b.null) && (!a.boolean || b.boolean) &&
    (!a.number || b.number) && (!a.string || b.string) && (!a.object || b.object)

def toList (a : TypeSet) : List Bool :=
  [a.undefined, a.null, a.boolean, a.number, a.string, a.object]

/-- Exactly one type. -/
def isSingle (a : TypeSet) : Bool :=
  a.toList.count true == 1

/-- No object, so that no conversion can run code. -/
def isPrimitive (a : TypeSet) : Bool :=
  !a.object

end TypeSet

end Ecma.Program
