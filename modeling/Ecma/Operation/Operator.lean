import Ecma.Operation.Property

set_option autoImplicit false

/-!
The operators of expressions on any values, with all their conversions.
-/

namespace Ecma

open Ecma.Program Ecma.Syntax Run

/-- The operand that a boolean is compared as. -/
def unboolean : Value → Value
  | .boolean b => .number (Value.boolean b).primitiveNumber
  | v => v

/-- The operator `==` on primitives. A number and a text are compared as numbers; undefined and null
equal each other and nothing else. -/
def looselyEqualPrimitives (a b : Value) : Bool :=
  match unboolean a, unboolean b with
  | .undefined, .null => true
  | .null, .undefined => true
  | .number x, .string s => x == (Value.string s).primitiveNumber
  | .string s, .number y => (Value.string s).primitiveNumber == y
  | a, b => strictlyEqual a b

/-- Whether a value is compared with an object by converting the object. -/
def comparesConverted : Value → Bool
  | .number _ => true
  | .string _ => true
  | _ => false

/-- The operator `==`. -/
def looselyEqual (a b : Value) : Run Bool := do
  match unboolean a, unboolean b with
  | .object x, .object y => return x == y
  | a, .object y =>
    if comparesConverted a then
      return looselyEqualPrimitives a (← toPrimitive (.object y) .number)
    else return false
  | .object x, b =>
    if comparesConverted b then
      return looselyEqualPrimitives (← toPrimitive (.object x) .number) b
    else return false
  | a, b => return looselyEqualPrimitives a b

/-- The comparison `<` of primitives; none if one of them is no number. -/
def lessPrimitives : Value → Value → Option Bool
  | .string a, .string b => some (Text.unitsLess a b)
  | a, b =>
    let x := a.primitiveNumber
    let y := b.primitiveNumber
    if x.isNaN || y.isNaN then none else some (x < y)

/-- The comparison `<`. The flag says which operand is converted first. -/
def less (a b : Value) (leftFirst : Bool) : Run (Option Bool) := do
  if leftFirst then
    let x ← toPrimitive a .number
    let y ← toPrimitive b .number
    return lessPrimitives x y
  else
    let y ← toPrimitive b .number
    let x ← toPrimitive a .number
    return lessPrimitives x y

/-- The operators `<`, `>`, `<=` and `>=`; the left operand is always converted first. -/
def compareValues (op : BinaryOp) (a b : Value) : Run Bool := do
  match op with
  | .less => return (← less a b true) == some true
  | .greater => return (← less b a false) == some true
  | .lessEqual => return (← less b a false) == some false
  | _ => return (← less a b true) == some false

/-- The operator `+`. -/
def add (a b : Value) : Run Value := do
  let x ← toPrimitive a .number
  let y ← toPrimitive b .number
  return addPrimitives x y

/-- The operators `==`, `!=`, `===` and `!==`. -/
def equate (op : BinaryOp) (a b : Value) : Run Bool := do
  match op with
  | .strictEqual => return strictlyEqual a b
  | .strictUnequal => return !strictlyEqual a b
  | .equal => looselyEqual a b
  | _ => return !(← looselyEqual a b)

/-- The operator `in`. -/
def isIn (key target : Value) : Run Bool := do
  match target with
  | .object id =>
    let key ← toPropertyKey key
    return (← heap).hasProperty id key
  | _ =>
    let h ← heap
    let name := h.display key
    let value := h.display target
    throwTypeError s!"Cannot use 'in' operator to search for '{name}' in {value}"

/-- Whether the prototype of a function is among those of a value. A bound function stands for the
one it binds. -/
def hasInstance (f : ObjectId) (v : Value) : Run Bool := do
  let (f, _, _) := (← heap).unbind f .undefined []
  match v with
  | .object id =>
    match ← get f (.name "prototype") with
    | .object prototype => return (← heap).inherits id prototype
    | _ => throwTypeError "Function has non-object prototype in instanceof check"
  | _ => return false

/-- The operator `instanceof`. -/
def instanceOf (v target : Value) : Run Bool := do
  match target with
  | .object f =>
    if (← heap).isCallable target then hasInstance f v
    else throwTypeError "Right-hand side of 'instanceof' is not callable"
  | _ => throwTypeError "Right-hand side of 'instanceof' is not callable"

/-- Any binary operator. -/
def operate (op : BinaryOp) (a b : Value) : Run Value := do
  match numeric? op with
  | some f =>
    let x ← toNumber a
    let y ← toNumber b
    return .number (f x y)
  | none =>
    match op with
    | .add => add a b
    | .less | .greater | .lessEqual | .greaterEqual => return .boolean (← compareValues op a b)
    | .isIn => return .boolean (← isIn a b)
    | .instanceOf => return .boolean (← instanceOf a b)
    | _ => return .boolean (← equate op a b)

/-- Carries out an operator as it was chosen for its operands. -/
def perform (operation : Operation) (a b : Value) : Run Value :=
  match operation with
  | .generic op => operate op a b
  | .numeric op =>
    match numeric? op with
    | some f => return applyNumeric f a b
    | none => operate op a b
  | .addNumbers => return .number (a.primitiveNumber + b.primitiveNumber)
  | .concat => return concat a b
  | .addPrimitives => return addPrimitives a b
  | .compareNumbers op =>
    return .boolean (compareNumbers op a.primitiveNumber b.primitiveNumber)
  | .sameType negate => return .boolean (negate != strictlyEqual a b)

end Ecma
