import Ecma.Builtin.Argument

set_option autoImplicit false

/-!
The constructors of errors, the text of an error, and the stack it has kept.
-/

namespace Ecma

open Run

/-- Makes an error with the message that is given, if one is. -/
def constructError (prototype : ObjectId) (args : List Value) : Run Value := do
  match argument args 0 with
  | .undefined => return .object (← newErrorFrom prototype none)
  | v =>
    let message ← toText v
    return .object (← newErrorFrom prototype (some (.string message)))

/-- The text of a property, with a text for undefined. -/
def textProperty (id : ObjectId) (name other : String) : Run String := do
  match ← get id (.name name) with
  | .undefined => return other
  | v => toText v

/-- The name and the message of an error; an empty one is left out. -/
def errorSummary (id : ObjectId) : Run String := do
  let name ← textProperty id "name" "Error"
  let message ← textProperty id "message" ""
  if name.isEmpty then return message
  if message.isEmpty then return name
  return s!"{name}: {message}"

def receiverObject (this : Value) (method : String) : Run ObjectId := do
  match this with
  | .object id => return id
  | other =>
    throwUnfit other fun type => s!"Error.prototype.{method} called on non-object ({type})"

/-- The lines of the stack that an error has kept. -/
def stackLines (h : Heap) (id : ObjectId) : List String :=
  match h.kind id with
  | .error frames => frames.map StackFrame.text
  | _ => []

def ErrorFunction.run (f : ErrorFunction) (this : Value) (args : List Value) : Run Value := do
  match f with
  | .constructor => constructError Intrinsic.errorPrototype args
  | .native kind => constructError kind.prototype args
  | .toString => return .string (← errorSummary (← receiverObject this "toString"))
  | .stack =>
    let id ← receiverObject this "stack"
    let summary ← errorSummary id
    return .string (String.intercalate "\n" (summary :: stackLines (← heap) id))

end Ecma
