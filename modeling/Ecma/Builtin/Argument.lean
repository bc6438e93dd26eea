import Ecma.Operation.Property

set_option autoImplicit false

/-!
What the provided functions share: their arguments, and errors about them.
-/

namespace Ecma

open Run

/-- An argument by position; a missing one is undefined. -/
def argument (args : List Value) (index : Nat) : Value :=
  args.getD index .undefined

/-- An argument that a method needs and got something else for. -/
def throwUnfit {α : Type} (v : Value) (message : String → String) : Run α := do
  throwTypeError (message ((← heap).typeOf v))

/-- A position relative to the start, or to the end if it is negative, within a length. -/
def relativeIndex (relative length : Float) : Float :=
  if relative < 0.0 then
    let fromEnd := length + relative
    if fromEnd > 0.0 then fromEnd else 0.0
  else if relative < length then relative else length

/-- The end of a range that is given by two arguments; a missing end is the length. -/
def rangeEnd (v : Value) (length : Float) : Run Float := do
  match v with
  | .undefined => return length
  | v => return relativeIndex (← toInteger v) length

/-- The values of consecutive properties, read in their order. -/
def readElements (id : ObjectId) (start : Nat) : Nat → List Value → Run (List Value)
  | 0, read => return read.reverse
  | count + 1, read => do
    let v ← get id (.ofNat start)
    readElements id (start + 1) count (v :: read)

/-- The length of any object, as a word. -/
def lengthOfObject (id : ObjectId) : Run Nat := do
  toUint32 (← get id .length)

end Ecma
