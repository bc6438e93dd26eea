import Ecma.Number.Word
import Ecma.Syntax.Tree
import Ecma.Value

set_option autoImplicit false

/-!
Operators on primitives. They run no code, so constants can be combined before a program runs.
-/

namespace Ecma.Program

open Ecma.Number Ecma.Syntax

/-- The operators that make two numbers of their operands and give a number. -/
def numeric? : BinaryOp → Option (Float → Float → Float)
  | .subtract => some fun x y => x - y
  | .multiply => some fun x y => x * y
  | .divide => some fun x y => x / y
  | .remainder => some remainder
  | .shiftLeft => some shiftLeft
  | .shiftRight => some shiftRight
  | .shiftRightUnsigned => some shiftRightUnsigned
  | .bitAnd => some bitwiseAnd
  | .bitOr => some bitwiseOr
  | .bitXor => some bitwiseXor
  | _ => none

/-- The unary operators that make a number of their operand and give a number. -/
inductive Sign where
  | minus
  | plus
  | bitNot
deriving DecidableEq, Repr, Inhabited

def Sign.apply : Sign → Float → Float
  | .minus, x => -x
  | .plus, x => x
  | .bitNot, x => bitwiseNot x

/-- The texts of two primitives, joined. -/
def concat (a b : Value) : Value :=
  .string (a.primitiveText ++ b.primitiveText)

/-- The operator `+` on primitives: a text on either side makes it a join. -/
def addPrimitives : Value → Value → Value
  | .number x, .number y => .number (x + y)
  | .string s, b => concat (.string s) b
  | a, .string s => concat a (.string s)
  | a, b => .number (a.primitiveNumber + b.primitiveNumber)

/-- The comparison of two numbers that an operator stands for. -/
def compareNumbers (op : BinaryOp) (x y : Float) : Bool :=
  match op with
  | .less => x < y
  | .greater => x > y
  | .lessEqual => x ≤ y
  | _ => x ≥ y

/-- The result of the numeric operator on primitives. -/
def applyNumeric (f : Float → Float → Float) (a b : Value) : Value :=
  .number (f a.primitiveNumber b.primitiveNumber)

/-- The value of an operator on two constants, where it is known before the program runs. -/
def fold? (op : BinaryOp) (a b : Value) : Option Value :=
  match numeric? op with
  | some f => some (applyNumeric f a b)
  | none => if op = .add then some (addPrimitives a b) else none

/-- A value that is equal to another exactly when the two are strictly equal, if there is one: the
zeroes become one, and what equals nothing has none. -/
def switchKey? : Value → Option Value
  | .number x => if x.isNaN then none else if x == 0.0 then some (.number 0.0) else some (.number x)
  | .object _ => none
  | v => some v

end Ecma.Program
