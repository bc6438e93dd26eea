import Ecma.Operation.Property

set_option autoImplicit false

/-!
Environments and references from running code.
-/

namespace Ecma

open Run

/-! Bindings. -/

def newEnvironment (record : EnvironmentRecord) (outer : Option EnvironmentId) :
    Run EnvironmentId :=
  updateHeap fun h => h.addEnvironment ⟨record, outer⟩

def newScope (outer : EnvironmentId) : Run EnvironmentId :=
  newEnvironment (.declarative []) (some outer)

/-- Adds a binding that can be written. In an object it is a property. -/
def createBinding (env : EnvironmentId) (name : String) (deletable : Bool) : Run Unit := do
  match ((← heap).environment env).record with
  | .declarative _ => modifyHeap fun h => h.modifyBindings env fun b => b.createMutable name deletable
  | .object id _ =>
    discard <| defineOwn id (.ofString name)
      (.ofDescriptor (.data .undefined true true deletable)) true

/-- Writes a binding. A constant refuses, which is an error in strict code. -/
def setBinding (env : EnvironmentId) (name : String) (v : Value) (strict : Bool) : Run Unit := do
  match ((← heap).environment env).record with
  | .declarative bindings =>
    let refused := strict && bindings.has name && !bindings.canWrite name
    modifyHeap fun h => h.modifyBindings env fun b => b.write name v
    if refused then throwTypeError s!"Assignment to constant variable '{name}'"
  | .object id _ => put id (.ofString name) v strict

def notDefined {α : Type} (name : String) : Run α :=
  Run.throwError .referenceError s!"{name} is not defined"

/-- Reads a binding. -/
def getBinding (env : EnvironmentId) (name : String) (strict : Bool) : Run Value := do
  let h ← heap
  match (h.environment env).record with
  | .declarative bindings =>
    match Dictionary.find? bindings name with
    | none => notDefined name
    | some b =>
      if b.state = .uninitialized then
        if strict then Run.throwError .referenceError s!"{name} is not initialized"
        return .undefined
      return b.value
  | .object id _ =>
    let key := PropertyKey.ofString name
    if h.hasProperty id key then get id key
    else if strict then notDefined name
    else return .undefined

/-- Deletes a binding and says whether it is gone. -/
def deleteBinding (env : EnvironmentId) (name : String) : Run Bool := do
  match ((← heap).environment env).record with
  | .declarative bindings =>
    modifyHeap fun h => h.modifyBindings env fun b => b.delete name
    return bindings.canDelete name
  | .object id _ => deleteOwn id (.ofString name) false

/-- Binds a name that is known to be free to a constant; only declarative environments do. -/
def bindConstant (env : EnvironmentId) (name : String) (v : Value) : Run Unit :=
  modifyHeap fun h => h.modifyBindings env fun b =>
    (b.createConstant name).initializeConstant name v

/-! References. -/

namespace Reference

def isProperty (r : Reference) : Bool :=
  match r.base with
  | .value _ => true
  | _ => false

def isUnresolvable (r : Reference) : Bool :=
  match r.base with
  | .unresolvable => true
  | _ => false

/-- The base is a boolean, a string or a number. -/
def hasPrimitiveBase (r : Reference) : Bool :=
  match r.base with
  | .value (.boolean _) => true
  | .value (.string _) => true
  | .value (.number _) => true
  | _ => false

def read (r : Reference) : Run Value :=
  match r.base with
  | .value base => getOf base (.ofString r.name)
  | .environment env => getBinding env r.name r.strict
  | .unresolvable => notDefined r.name

/-- Writes a reference. A name that is nowhere becomes a global property, except in strict code. -/
def write (r : Reference) (v : Value) : Run Unit :=
  match r.base with
  | .value base => putOf base (.ofString r.name) v r.strict
  | .environment env => setBinding env r.name v r.strict
  | .unresolvable =>
    if r.strict then notDefined r.name
    else put Intrinsic.global (.ofString r.name) v false

def strictDelete {α : Type} : Run α :=
  Run.throwError .syntaxError "Delete of an unqualified identifier in strict mode"

/-- The operator `delete`. -/
def delete (r : Reference) : Run Bool := do
  match r.base with
  | .value base =>
    let id ← toObject base
    deleteOwn id (.ofString r.name) r.strict
  | .environment env => if r.strict then strictDelete else deleteBinding env r.name
  | .unresolvable => if r.strict then strictDelete else return true

/-- The receiver of a function called through the reference. -/
def receiver (h : Heap) (r : Reference) : Value :=
  match r.base with
  | .environment env => h.implicitReceiver env
  | _ => .undefined

end Reference

end Ecma
