import Ecma.Eval.Code
import Ecma.Eval.Function
import Ecma.Eval.Place

set_option autoImplicit false

/-!
Evaluating expressions. Operands are evaluated from left to right and once. `strict` tells whether the
code is strict.
-/

namespace Ecma

open Ecma.Program Ecma.Syntax Run

/-- Makes the function of a function expression. A name of its own is bound to it, in a slot or in an
environment made for the purpose. -/
def newNamedFunction (routine : Routine) (own : Option OwnName) : Run Value := do
  let outer := (← running).lexicalEnv
  match own with
  | none => return .object (← newFunction routine outer)
  | some own =>
    let env ← if own.collapsed then pure outer else newScope outer
    let f := Value.object (← newFunction routine env)
    match own.slot with
    | some index => setSlot index f
    | none => bindConstant env own.name f
    return f

/-- Calls what a call expression has evaluated. -/
def callAt (site : Site) (f this : Value) (args : List Value) : Run Value := do
  setPosition site.position
  if !(← heap).isCallable f then
    let callee := site.callee
    throwTypeError s!"{callee} is not a function"
  call f this args

/-- Calls a function by a name; the name `eval` can stand for a direct call of `eval`. -/
def callNamed (site : Site) (name : String) (f this : Value) (args : List Value) (strict : Bool) :
    Run Value := do
  if name == "eval" && f == .object Intrinsic.evalFunction then
    setPosition site.position
    directEval args strict
  else callAt site f this args

def constructAt (site : Site) (f : Value) (args : List Value) : Run Value := do
  setPosition site.position
  if !(← heap).isCallable f then
    let callee := site.callee
    throwTypeError s!"{callee} is not a constructor"
  construct f args

/-- What a property of an object literal defines. -/
def propertyDefinition (kind : PropertyKind) (v : Value) : Definition :=
  match kind with
  | .init => .ofDescriptor (.free v)
  | .getter => { getter := some v.object?, enumerable := some true, configurable := some true }
  | .setter => { setter := some v.object?, enumerable := some true, configurable := some true }

/-- How much an update adds. -/
def UpdateOp.delta : UpdateOp → Float
  | .increment => 1.0
  | .decrement => -1.0

/-- Adds to a place and gives the number before or after. -/
def updatePlace (op : UpdateOp) (before : Bool) (p : Place) (strict : Bool) : Run Value := do
  let old ← toNumber (← p.read)
  let new := old + UpdateOp.delta op
  p.write (.number new) strict
  return .number (if before then new else old)

mutual

def evaluate (strict : Bool) : Expr → Run Value
  | .constant v => return v
  | .this => return (← running).this
  | .variable v => readVariable v strict
  | .array elements => do
    let items ← evaluateElements strict elements
    return .object (← newSparseArray items)
  | .object properties => do
    let id ← newPlainObject
    evaluateProperties strict id properties
    return .object id
  | .function routine own => newNamedFunction routine own
  | .member object key => do
    let base ← evaluate strict object
    let key ← evaluateKey strict key
    getOf base key
  | .callMember site object key args => do
    let base ← evaluate strict object
    let key ← evaluateKey strict key
    let f ← getOf base key
    let args ← evaluateAll strict args
    callAt site f base args
  | .callVariable site v args => do
    let p ← placeOf v strict
    let f ← p.read
    let this := p.receiver (← heap)
    let args ← evaluateAll strict args
    callNamed site v.name f this args strict
  | .call site callee args => do
    let f ← evaluate strict callee
    let args ← evaluateAll strict args
    callAt site f .undefined args
  | .construct site callee args => do
    let f ← evaluate strict callee
    let args ← evaluateAll strict args
    constructAt site f args
  | .typeOfVariable v => do
    let p ← placeOf v strict
    p.typeOf
  | .typeOf e => do
    let v ← evaluate strict e
    return .string ((← heap).typeOf v)
  | .delete target => do
    let p ← evaluateTarget strict target
    return .boolean (← p.delete strict)
  | .void e => do
    discard <| evaluate strict e
    return .undefined
  | .not e => do
    let v ← evaluate strict e
    return .boolean !v.toBoolean
  | .sign op primitive e => do
    let v ← evaluate strict e
    if primitive then return .number (op.apply v.primitiveNumber)
    return .number (op.apply (← toNumber v))
  | .update op before target => do
    let p ← evaluateTarget strict target
    updatePlace op before p strict
  | .binary operation left right => do
    let a ← evaluate strict left
    let b ← evaluate strict right
    perform operation a b
  | .logical op left right => do
    let v ← evaluate strict left
    if v.toBoolean == (op == .and) then evaluate strict right else return v
  | .conditional test yes no => do
    let v ← evaluate strict test
    if v.toBoolean then evaluate strict yes else evaluate strict no
  | .assign target value => do
    let p ← evaluateTarget strict target
    let v ← evaluate strict value
    p.write v strict
    return v
  | .compound op target value => do
    let p ← evaluateTarget strict target
    let old ← p.read
    let operand ← evaluate strict value
    let v ← operate op old operand
    p.write v strict
    return v
  | .sequence items => evaluateLast strict .undefined items

def evaluateKey (strict : Bool) : Key → Run PropertyKey
  | .known key => return key
  | .computed e => do
    let v ← evaluate strict e
    toPropertyKey v

def evaluateTarget (strict : Bool) : Target → Run Place
  | .variable v => placeOf v strict
  | .member object key => do
    let base ← evaluate strict object
    let key ← evaluateKey strict key
    return .property base key
  | .value e => do
    discard <| evaluate strict e
    return .nothing

def evaluateAll (strict : Bool) : List Expr → Run (List Value)
  | [] => return []
  | e :: rest => do
    let v ← evaluate strict e
    let vs ← evaluateAll strict rest
    return v :: vs

def evaluateLast (strict : Bool) (last : Value) : List Expr → Run Value
  | [] => return last
  | e :: rest => do
    let v ← evaluate strict e
    evaluateLast strict v rest

def evaluateElements (strict : Bool) : List Program.Element → Run (List (Option Value))
  | [] => return []
  | .hole :: rest => do
    let vs ← evaluateElements strict rest
    return none :: vs
  | .item e :: rest => do
    let v ← evaluate strict e
    let vs ← evaluateElements strict rest
    return some v :: vs

def evaluateProperties (strict : Bool) (id : ObjectId) : List Program.Property → Run Unit
  | [] => return ()
  | .mk key kind value :: rest => do
    let v ← evaluate strict value
    discard <| defineOwn id key (propertyDefinition kind v) false
    evaluateProperties strict id rest

end

end Ecma
