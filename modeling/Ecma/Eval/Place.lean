import Ecma.Operation.Operator
import Ecma.Operation.Reference

set_option autoImplicit false

/-!
Reading, writing and deleting at places: what the target of an assignment is once its parts are
evaluated.
-/

namespace Ecma

open Ecma.Program Ecma.Scope Run

def getSlot (index : Nat) : Run Value := do
  let frame := (← running).frame
  return (← heap).slot frame index

def setSlot (index : Nat) (v : Value) : Run Unit := do
  let frame := (← running).frame
  modifyHeap fun h => h.setSlot frame index v

namespace Place

def read : Place → Run Value
  | .slot index => getSlot index
  | .reference r => r.read
  | .property base key => getOf base key
  | .nothing => return .undefined

def write (p : Place) (v : Value) (strict : Bool) : Run Unit :=
  match p with
  | .slot index => setSlot index v
  | .reference r => r.write v
  | .property base key => putOf base key v strict
  | .nothing => Run.throwError .referenceError "Invalid left-hand side in assignment"

/-- The operator `delete`; what is no place counts as deleted. -/
def delete (p : Place) (strict : Bool) : Run Bool := do
  match p with
  | .slot _ => return false
  | .reference r => r.delete
  | .property base key =>
    let id ← toObject base
    deleteOwn id key strict
  | .nothing => return true

/-- The operator `typeof`; a name that is nowhere has a type too. -/
def typeOf (p : Place) : Run Value := do
  match p with
  | .reference ⟨.unresolvable, _, _⟩ => return .string "undefined"
  | p =>
    let v ← p.read
    return .string ((← heap).typeOf v)

/-- The receiver of a function called through the place. -/
def receiver (h : Heap) : Place → Value
  | .reference r => r.receiver h
  | _ => .undefined

end Place

def readVariable (v : Variable) (strict : Bool) : Run Value := do
  (← placeOf v strict).read

end Ecma
