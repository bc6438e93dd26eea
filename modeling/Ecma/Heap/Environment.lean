import Ecma.Dictionary
import Ecma.Value

set_option autoImplicit false

/-!
Environments. A declarative environment keeps bindings of its own; an object environment reads and
writes the properties of an object. Every environment but the outermost has one around it.
-/

namespace Ecma

inductive BindingState where
  | deletable
  | lasting
  | uninitialized
  | constant
deriving DecidableEq, Repr, Inhabited

def BindingState.isMutable : BindingState → Bool
  | .deletable => true
  | .lasting => true
  | _ => false

structure Binding where
  value : Value := .undefined
  state : BindingState
deriving DecidableEq, Inhabited

abbrev Bindings := Dictionary Binding

namespace Bindings

/-- Adds a binding; one that is there stays as it is. -/
def create (b : Bindings) (name : String) (state : BindingState) : Bindings :=
  if Dictionary.has b name then b else Dictionary.put b name { state := state }

def createMutable (b : Bindings) (name : String) (deletable : Bool) : Bindings :=
  b.create name (if deletable then .deletable else .lasting)

def createConstant (b : Bindings) (name : String) : Bindings :=
  b.create name .uninitialized

/-- Gives a constant its value, the first time only. -/
def initializeConstant (b : Bindings) (name : String) (v : Value) : Bindings :=
  Dictionary.modify b name fun old => if old.state = .uninitialized then ⟨v, .constant⟩ else old

def value? (b : Bindings) (name : String) : Option Value :=
  (Dictionary.find? b name).map Binding.value

def state? (b : Bindings) (name : String) : Option BindingState :=
  (Dictionary.find? b name).map Binding.state

/-- Whether a write would take effect. -/
def canWrite (b : Bindings) (name : String) : Bool :=
  (b.state? name).any BindingState.isMutable

/-- Writes a binding that can be written; any other stays as it is. -/
def write (b : Bindings) (name : String) (v : Value) : Bindings :=
  Dictionary.modify b name fun old => if old.state.isMutable then { old with value := v } else old

/-- Whether the name is gone after a delete. -/
def canDelete (b : Bindings) (name : String) : Bool :=
  match b.state? name with
  | none => true
  | some state => state = .deletable

def delete (b : Bindings) (name : String) : Bindings :=
  if b.canDelete name then Dictionary.erase b name else b

end Bindings

inductive EnvironmentRecord where
  | declarative (bindings : Bindings)
  /-- `receiver` says whether the object is the receiver of functions called by name. -/
  | object (id : ObjectId) (receiver : Bool)
deriving Inhabited

structure Environment where
  record : EnvironmentRecord
  outer : Option EnvironmentId
deriving Inhabited

end Ecma
