import Ecma.Program.Operator
import Ecma.Property.Key
import Ecma.Scope.Resolution

set_option autoImplicit false

/-!
Programs ready to run. Names are resolved, constants are combined, property keys that are known are
keys already, and operators are chosen by what is known of their operands. A jump names its target by
how many labels are around it.
-/

namespace Ecma.Program

open Ecma.Scope Ecma.Syntax Ecma.Text

/-- A name and where to look for it. -/
structure Variable where
  name : String
  resolution : Resolution
deriving DecidableEq, Repr, Inhabited

/-- Where a call stands, and how its callee is written. -/
structure Site where
  position : Nat
  callee : String
deriving DecidableEq, Repr, Inhabited

/-- The binding of a name by a scope of its own: that of a named function or a catch clause. -/
structure OwnName where
  name : String
  slot : Option Nat
  collapsed : Bool
deriving DecidableEq, Repr, Inhabited

/-- How a binary operator is carried out. -/
inductive Operation where
  /-- Any operands: the operator with all its conversions. -/
  | generic (op : BinaryOp)
  /-- Primitives, made numbers. -/
  | numeric (op : BinaryOp)
  /-- Numbers added. -/
  | addNumbers
  /-- Primitives of which one is a text. -/
  | concat
  /-- Primitives added. -/
  | addPrimitives
  /-- Numbers compared. -/
  | compareNumbers (op : BinaryOp)
  /-- Primitives of one type, compared with `==` or `!=`. -/
  | sameType (negate : Bool)
deriving DecidableEq, Repr, Inhabited

abbrev Label := Nat

/-- What is known of a unit of code besides its statements. -/
structure Header where
  kind : CodeKind
  name : Option String
  params : List String
  strict : Bool
  «variables» : List String
  /-- The size of the local frame. -/
  slots : Nat
  /-- The bindings of the unit's own scope that live in the frame. -/
  locals : List (String × Nat)
  /-- All bindings of the unit's own scope live in the frame. -/
  collapsed : Bool
  directEval : Bool
  usesArguments : Bool
  source : Source
  span : Span
deriving DecidableEq, Inhabited

mutual

inductive Expr where
  | constant (value : Value)
  | this
  | variable (v : Variable)
  | array (elements : List Element)
  | object (properties : List Property)
  | function (routine : Routine) (own : Option OwnName)
  | member (object : Expr) (key : Key)
  | callMember (site : Site) (object : Expr) (key : Key) (args : List Expr)
  | callVariable (site : Site) (v : Variable) (args : List Expr)
  | call (site : Site) (callee : Expr) (args : List Expr)
  | construct (site : Site) (callee : Expr) (args : List Expr)
  | typeOfVariable (v : Variable)
  | typeOf (e : Expr)
  | delete (target : Target)
  | void (e : Expr)
  | not (e : Expr)
  /-- The operand is a primitive when `primitive` is set. -/
  | sign (op : Sign) (primitive : Bool) (e : Expr)
  | update (op : UpdateOp) (before : Bool) (target : Target)
  | binary (operation : Operation) (left right : Expr)
  | logical (op : LogicalOp) (left right : Expr)
  | conditional (test yes no : Expr)
  | assign (target : Target) (value : Expr)
  | compound (op : BinaryOp) (target : Target) (value : Expr)
  | sequence (items : List Expr)

/-- An element of an array literal. -/
inductive Element where
  | hole
  | item (e : Expr)

inductive Property where
  | mk (key : PropertyKey) (kind : PropertyKind) (value : Expr)

/-- A property key, known or to be computed. -/
inductive Key where
  | known (key : PropertyKey)
  | computed (e : Expr)

/-- What an assignment, an update or `delete` acts on. -/
inductive Target where
  | variable (v : Variable)
  | member (object : Expr) (key : Key)
  /-- Anything else; only `delete` accepts it. -/
  | value (e : Expr)

/-- An assignment to a declared variable. -/
inductive Assignment where
  | mk (v : Variable) (value : Expr)

/-- The test of a case clause and the clause it selects. -/
inductive Test where
  | mk (clause : Nat) (e : Expr)

/-- How the first clause of a `switch` statement is found. -/
inductive Selector where
  /-- All tests are constants; the clause is looked up. -/
  | direct (table : List (Value × Nat))
  /-- The tests are evaluated in turn. -/
  | tests (tests : List Test)

inductive Clause where
  | mk (body : List Stmt)

/-- The first clause of a `for` statement. -/
inductive LoopInit where
  | none
  | «variables» (assignments : List Assignment)
  | expression (e : Expr)

inductive Handler where
  | mk (own : OwnName) (body : List Stmt)

inductive Stmt where
  | block (body : List Stmt)
  | labelled (label : Label) (body : Stmt)
  /-- Everything else counts as a step and has a place in stack traces. -/
  | step (position : Nat) (action : Action)

/-- What a statement does. Loops and `switch` statements know the labels right before them. -/
inductive Action where
  | nothing
  | expression (e : Expr)
  | «variables» (assignments : List Assignment)
  | returning (value : Option Expr)
  | breaking (label : Option Label)
  | continuing (label : Option Label)
  | conditional (test : Expr) (yes : Stmt) (no : Option Stmt)
  | throwing (e : Expr)
  | whileLoop (labels : List Label) (test : Expr) (body : Stmt)
  | doLoop (labels : List Label) (body : Stmt) (test : Expr)
  | forLoop (labels : List Label) (init : LoopInit) (test update : Option Expr) (body : Stmt)
  | forIn (labels : List Label) (init : List Assignment) (target : Target) (object : Expr)
      (body : Stmt)
  | switching (labels : List Label) (subject : Expr) (selector : Selector)
      (otherwise : Option Nat) (clauses : List Clause)
  | trying (block : List Stmt) (handler : Option Handler) (finalizer : Option (List Stmt))
  | withObject (object : Expr) (body : Stmt)

/-- A unit of code: its header, the functions it declares, and its statements. -/
inductive Routine where
  | mk (header : Header) (functions : List Routine) (body : List Stmt)

end

instance : Inhabited Expr := ⟨.this⟩

instance : Inhabited Stmt := ⟨.block []⟩

instance : Inhabited Routine := ⟨.mk default [] []⟩

namespace Routine

def header : Routine → Header
  | .mk header _ _ => header

def functions : Routine → List Routine
  | .mk _ functions _ => functions

def body : Routine → List Stmt
  | .mk _ _ body => body

end Routine

end Ecma.Program
