import Ecma.Grammar.Rule
import Ecma.Syntax.Tree

set_option autoImplicit false

/-!
How operators between operands group. Every operator has a level; a higher level binds tighter, and
operators of one level group to the left.
-/

namespace Ecma.Syntax

open Ecma.Grammar

/-- How tightly an operator binds. -/
def level : Infix → Nat
  | .or => 1
  | .and => 2
  | .bitOr => 3
  | .bitXor => 4
  | .bitAnd => 5
  | .equal | .unequal | .strictEqual | .strictUnequal => 6
  | .less | .greater | .lessEqual | .greaterEqual | .instanceOf | .isIn => 7
  | .shiftLeft | .shiftRight | .shiftRightUnsigned => 8
  | .add | .subtract => 9
  | .multiply | .divide | .remainder => 10

/-- Joins the operand at hand with those waiting whose operators bind at least so tightly. -/
def settle {α : Type} (join : Infix → α → α → α) (least : Nat) :
    List (α × Infix) → α → List (α × Infix) × α
  | [], right => ([], right)
  | (left, op) :: waiting, right =>
    if least ≤ level op then settle join least waiting (join op left right)
    else ((left, op) :: waiting, right)

/-- Groups an operand, the operands waiting before it, and the operators and operands after it. -/
def groupWith {α : Type} (join : Infix → α → α → α) :
    List (α × Infix) → α → List (Infix × α) → α
  | waiting, operand, [] => (settle join 0 waiting operand).2
  | waiting, operand, (op, next) :: rest =>
    let (waiting, left) := settle join (level op) waiting operand
    groupWith join ((left, op) :: waiting) next rest

/-- Groups a sequence of operands with operators between them. -/
def group {α : Type} (join : Infix → α → α → α) (operand : α) (rest : List (Infix × α)) : α :=
  groupWith join [] operand rest

/-- The expression that an operator makes of two operands. -/
def infixExpression (op : Infix) (left right : Expression) : Expression :=
  let span : Span := ⟨left.span.start, right.span.stop⟩
  match op with
  | .or => .logical span .or left right
  | .and => .logical span .and left right
  | .bitOr => .binary span .bitOr left right
  | .bitXor => .binary span .bitXor left right
  | .bitAnd => .binary span .bitAnd left right
  | .strictEqual => .binary span .strictEqual left right
  | .strictUnequal => .binary span .strictUnequal left right
  | .equal => .binary span .equal left right
  | .unequal => .binary span .unequal left right
  | .less => .binary span .less left right
  | .greater => .binary span .greater left right
  | .lessEqual => .binary span .lessEqual left right
  | .greaterEqual => .binary span .greaterEqual left right
  | .instanceOf => .binary span .instanceOf left right
  | .isIn => .binary span .isIn left right
  | .shiftLeft => .binary span .shiftLeft left right
  | .shiftRight => .binary span .shiftRight left right
  | .shiftRightUnsigned => .binary span .shiftRightUnsigned left right
  | .add => .binary span .add left right
  | .subtract => .binary span .subtract left right
  | .multiply => .binary span .multiply left right
  | .divide => .binary span .divide left right
  | .remainder => .binary span .remainder left right

end Ecma.Syntax
