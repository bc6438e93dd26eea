import Ecma.Realm.State

set_option autoImplicit false

/-!
Where a name or the target of an assignment leads. A reference is a name together with what it is
looked up in: a value, an environment, or nothing. A place is a reference, a slot of the local frame,
or a property.
-/

namespace Ecma

open Ecma.Program

inductive ReferenceBase where
  | value (v : Value)
  | environment (env : EnvironmentId)
  | unresolvable
deriving DecidableEq, Inhabited

structure Reference where
  base : ReferenceBase
  name : String
  strict : Bool
deriving DecidableEq, Inhabited

/-- The reference that a name is from an environment on. -/
def Reference.ofName (h : Heap) (env : EnvironmentId) (name : String) (strict : Bool) : Reference :=
  match h.findBinding env name with
  | some env => ⟨.environment env, name, strict⟩
  | none => ⟨.unresolvable, name, strict⟩

inductive Place where
  | slot (index : Nat)
  | reference (r : Reference)
  | property (base : Value) (key : PropertyKey)
  /-- Nothing that could be assigned to. -/
  | nothing
deriving DecidableEq, Inhabited

/-- The reference that a resolved name is at this moment. -/
def Variable.reference (v : Variable) (strict : Bool) (h : Heap) (env : EnvironmentId) :
    Reference :=
  match v.resolution with
  | .fixed links => ⟨.environment (h.skip links env), v.name, strict⟩
  | .global => ⟨.environment Intrinsic.globalEnvironment, v.name, strict⟩
  | .dynamic links => .ofName h (h.skip links env) v.name strict
  | .slot _ => .ofName h env v.name strict

/-- The place a name stands for, as its resolution says; the flag tells whether the code is strict. -/
def Realm.placeOf (r : Realm) (v : Variable) (strict : Bool) : Place :=
  match v.resolution with
  | .slot index => .slot index
  | _ => .reference (Variable.reference v strict r.heap r.running.lexicalEnv)

/-- Why a run ends early. Scripts can catch what is thrown and nothing else. -/
inductive Interrupt where
  | thrown (v : Value)
  /-- Too many contexts; carries the error object made then. -/
  | stackOverflow (v : Value)
  | stepsExceeded
  /-- The machine's own bounds were reached. -/
  | exhausted
deriving DecidableEq, Inhabited

/-- How running code finds the place that a resolved name stands for; it may also refuse to. -/
abbrev Lookup := Variable → Bool → Realm → Except Interrupt Place

/-- Every name is found where its resolution says. -/
def Lookup.resolved : Lookup := fun v strict r => .ok (r.placeOf v strict)

end Ecma
