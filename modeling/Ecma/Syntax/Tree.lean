import Ecma.Scope.Tree
import Ecma.Text.Source

set_option autoImplicit false

/-!
The syntax tree. Every node carries the byte offsets of its text. A unit of code is a program, a
text given to eval, or a function; functions declared in it are hoisted out of its statements.
-/

namespace Ecma.Syntax

open Ecma.Scope Ecma.Text

/-- The offsets at which the text of a node starts and stops. -/
structure Span where
  start : Nat
  stop : Nat
deriving DecidableEq, Repr, Inhabited

/-- A name with the innermost scope around it. -/
structure Identifier where
  name : String
  scope : ScopeId
  span : Span
deriving DecidableEq, Repr, Inhabited

inductive Literal where
  | null
  | boolean (value : Bool)
  | string (value : String)
  | number (value : Float)
deriving DecidableEq, Inhabited

inductive PropertyKind where
  | init
  | getter
  | setter
deriving DecidableEq, Repr, Inhabited

inductive UnaryOp where
  | minus | plus | not | bitNot | typeOf | void | delete
deriving DecidableEq, Repr, Inhabited

inductive UpdateOp where
  | increment | decrement
deriving DecidableEq, Repr, Inhabited

inductive BinaryOp where
  | equal | unequal | strictEqual | strictUnequal
  | less | lessEqual | greater | greaterEqual
  | shiftLeft | shiftRight | shiftRightUnsigned
  | add | subtract | multiply | divide | remainder
  | bitOr | bitAnd | bitXor
  | isIn | instanceOf
deriving DecidableEq, Repr, Inhabited

inductive LogicalOp where
  | or | and
deriving DecidableEq, Repr, Inhabited

/-- What is known of a unit of code besides its statements. -/
structure Header where
  kind : CodeKind
  id : Nat
  name : Option String
  params : List String
  strict : Bool
  /-- The `var` names, each once, in source order. -/
  «variables» : List String
  scope : ScopeId
  directEval : Bool
  usesArguments : Bool
  usesWith : Bool
  source : Source
  span : Span
deriving DecidableEq, Inhabited

mutual

inductive Expression where
  | literal (span : Span) (value : Literal)
  | this (span : Span)
  | identifier (id : Identifier)
  | array (span : Span) (elements : List Element)
  | object (span : Span) (properties : List Property)
  /-- A function; a named one is bound in a scope of its own. -/
  | function (span : Span) (code : Code) (ownScope : Option ScopeId)
  | member (span : Span) (object key : Expression)
  | call (span : Span) (callee : Expression) (arguments : List Expression)
  | new (span : Span) (callee : Expression) (arguments : List Expression)
  | unary (span : Span) (op : UnaryOp) (argument : Expression)
  | update (span : Span) (op : UpdateOp) (before : Bool) (argument : Expression)
  | binary (span : Span) (op : BinaryOp) (left right : Expression)
  | logical (span : Span) (op : LogicalOp) (left right : Expression)
  | conditional (span : Span) (test yes no : Expression)
  /-- An assignment, compound when it has an operator. -/
  | assign (span : Span) (op : Option BinaryOp) (target value : Expression)
  | sequence (span : Span) (items : List Expression)

/-- An element of an array literal. -/
inductive Element where
  | hole
  | item (value : Expression)

inductive Property where
  | mk (key : String) (kind : PropertyKind) (value : Expression)

inductive Declarator where
  | mk (span : Span) (id : Identifier) (init : Option Expression)

/-- The first clause of a `for` statement. -/
inductive ForInit where
  | none
  | «variables» (declarators : List Declarator)
  | expression (e : Expression)

/-- What a `for-in` statement assigns to. -/
inductive ForTarget where
  | variable (declarator : Declarator)
  | expression (e : Expression)

/-- A clause of a `switch` statement; the default clause has no test. -/
inductive Clause where
  | mk (span : Span) (test : Option Expression) (body : List Statement)

/-- A catch clause; its scope binds the parameter. -/
inductive Handler where
  | mk (span : Span) (param : Identifier) (body : List Statement)

inductive Statement where
  | expression (span : Span) (e : Expression)
  | block (span : Span) (body : List Statement)
  | «variables» (span : Span) (declarators : List Declarator)
  /-- The place of a hoisted function declaration. -/
  | function (span : Span)
  | empty (span : Span)
  | debugger (span : Span)
  | returning (span : Span) (value : Option Expression)
  | breaking (span : Span) (label : Option String)
  | continuing (span : Span) (label : Option String)
  | labelled (span : Span) (label : String) (body : Statement)
  | conditional (span : Span) (test : Expression) (yes : Statement) (no : Option Statement)
  | switching (span : Span) (subject : Expression) (clauses : List Clause)
  | throwing (span : Span) (value : Expression)
  | trying (span : Span) (block : List Statement) (handler : Option Handler)
      (finalizer : Option (List Statement))
  | whileLoop (span : Span) (test : Expression) (body : Statement)
  | doLoop (span : Span) (body : Statement) (test : Expression)
  | forLoop (span : Span) (init : ForInit) (test update : Option Expression) (body : Statement)
  | forIn (span : Span) (target : ForTarget) (object : Expression) (body : Statement)
  | withObject (span : Span) (object : Expression) (scope : ScopeId) (body : Statement)

/-- A unit of code. -/
inductive Code where
  | mk (header : Header) (functions : List Code) (body : List Statement)

end

instance : Inhabited Expression := ⟨.this default⟩

instance : Inhabited Statement := ⟨.empty default⟩

instance : Inhabited Code := ⟨.mk default [] []⟩

def Expression.span : Expression → Span
  | .literal span _ | .this span | .array span _ | .object span _ | .function span _ _
  | .member span _ _ | .call span _ _ | .new span _ _ | .unary span _ _ | .update span _ _ _
  | .binary span _ _ _ | .logical span _ _ _ | .conditional span _ _ _ | .assign span _ _ _
  | .sequence span _ => span
  | .identifier id => id.span

/-- Only names and members can be assigned to. -/
def Expression.isTarget : Expression → Bool
  | .identifier _ => true
  | .member _ _ _ => true
  | _ => false

def Statement.span : Statement → Span
  | .expression span _ | .block span _ | .«variables» span _ | .function span | .empty span
  | .debugger span | .returning span _ | .breaking span _ | .continuing span _
  | .labelled span _ _ | .conditional span _ _ _ | .switching span _ _ | .throwing span _
  | .trying span _ _ _ | .whileLoop span _ _ | .doLoop span _ _ | .forLoop span _ _ _ _
  | .forIn span _ _ _ | .withObject span _ _ _ => span

namespace Code

def header : Code → Header
  | .mk header _ _ => header

def functions : Code → List Code
  | .mk _ functions _ => functions

def body : Code → List Statement
  | .mk _ _ body => body

end Code

/-- A unit of code with the scopes of everything parsed along with it. -/
structure Parsed where
  code : Code
  scopes : Scope.Tree

end Ecma.Syntax
