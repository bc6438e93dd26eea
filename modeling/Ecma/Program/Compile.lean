import Ecma.Program.Tree
import Ecma.Program.TypeSet

set_option autoImplicit false

/-!
From syntax tree to program. Every expression comes with a bound on its types; where the bound leaves
no object, operators are chosen that need no conversions, and an expression of constants becomes a
constant itself.
-/

namespace Ecma.Program

open Ecma.Scope Ecma.Syntax

/-- An expression with the types its value can have. -/
structure Typed where
  expr : Expr
  types : TypeSet

instance : Inhabited Typed := ⟨⟨.this, .all⟩⟩

/-- What the compilation of a unit of code knows: the scopes of the whole text, the text, and the
labels around the current statement, the nearest first. -/
structure Surroundings where
  scopes : Scope.Tree
  text : String
  labels : List String := []

namespace Typed

def constant (v : Value) : Typed :=
  ⟨.constant v, .of v⟩

/-- The value of an expression that is known before the program runs. -/
def value? (t : Typed) : Option Value :=
  match t.expr with
  | .constant v => some v
  | _ => none

def isPrimitive (t : Typed) : Bool :=
  t.types.isPrimitive

end Typed

def literalValue : Literal → Value
  | .null => .null
  | .boolean b => .boolean b
  | .string s => .string s
  | .number x => .number x

def typeOfConstant : Value → String
  | .undefined => "undefined"
  | .null => "object"
  | .boolean _ => "boolean"
  | .number _ => "number"
  | .string _ => "string"
  | .object _ => "object"

/-- What an expression stands for where something is assigned to or deleted. -/
def asTarget : Expr → Target
  | .variable v => .variable v
  | .member object key => .member object key
  | e => .value e

/-- The call of an expression; the object of a member is the receiver. -/
def asCall (site : Site) (args : List Expr) : Expr → Expr
  | .variable v => .callVariable site v args
  | .member object key => .callMember site object key args
  | e => .call site e args

/-- The operator `typeof`; a name is not read when it is nowhere to be found. -/
def compileTypeOf (t : Typed) : Typed :=
  match t.expr with
  | .constant v => .constant (.string (typeOfConstant v))
  | .variable v => ⟨.typeOfVariable v, .ofString⟩
  | e => ⟨.typeOf e, .ofString⟩

def compileNot (t : Typed) : Typed :=
  match t.value? with
  | some v => .constant (.boolean !v.toBoolean)
  | none => ⟨.not t.expr, .ofBoolean⟩

def compileSign (op : Sign) (t : Typed) : Typed :=
  match t.value? with
  | some v => .constant (.number (op.apply v.primitiveNumber))
  | none => ⟨.sign op t.isPrimitive t.expr, .ofNumber⟩

/-- The operation for operands of known types, and the types of its result. -/
def chooseAdd (a b : TypeSet) : Operation × TypeSet :=
  let primitive := a.isPrimitive && b.isPrimitive
  let text := a.isWithin .ofString || b.isWithin .ofString
  if a.isWithin .ofNumber && b.isWithin .ofNumber then (.addNumbers, .ofNumber)
  else
    (if primitive && text then .concat else if primitive then .addPrimitives else .generic .add,
      if text then .ofString else .union .ofNumber .ofString)

def chooseComparison (op : BinaryOp) (a b : TypeSet) : Operation :=
  if a.isWithin .ofNumber && b.isWithin .ofNumber then .compareNumbers op else .generic op

def chooseEquality (op : BinaryOp) (a b : TypeSet) : Operation :=
  if a.isPrimitive && b.isPrimitive && a == b && a.isSingle then .sameType (op == .unequal)
  else .generic op

def chooseOperation (op : BinaryOp) (a b : TypeSet) : Operation × TypeSet :=
  match op with
  | .add => chooseAdd a b
  | .subtract | .multiply | .divide | .remainder | .shiftLeft | .shiftRight | .shiftRightUnsigned
  | .bitAnd | .bitOr | .bitXor =>
    (if a.isPrimitive && b.isPrimitive then .numeric op else .generic op, .ofNumber)
  | .less | .lessEqual | .greater | .greaterEqual => (chooseComparison op a b, .ofBoolean)
  | .equal | .unequal => (chooseEquality op a b, .ofBoolean)
  | .strictEqual | .strictUnequal | .isIn | .instanceOf => (.generic op, .ofBoolean)

/-- An operator applied to constants, where that gives a constant. -/
def foldConstants (op : BinaryOp) (left right : Typed) : Option Value :=
  match left.value?, right.value? with
  | some a, some b => if left.isPrimitive && right.isPrimitive then fold? op a b else none
  | _, _ => none

def compileBinary (op : BinaryOp) (left right : Typed) : Typed :=
  match foldConstants op left right with
  | some v => .constant v
  | none =>
    let (operation, types) := chooseOperation op left.types right.types
    ⟨.binary operation left.expr right.expr, types⟩

/-- The types an operator gives for operands of any types. -/
def compoundTypes (op : BinaryOp) : TypeSet :=
  (chooseOperation op .all .all).2

/-- The key that an expression is known to give. -/
def compileKey (t : Typed) : Key :=
  match t.value? with
  | some v => .known (.ofPrimitive v)
  | none => .computed t.expr

namespace Surroundings

/-- The name as it is to be looked for from its scope. -/
def resolve (s : Surroundings) (id : Identifier) : Variable :=
  ⟨id.name, s.scopes.resolve id.scope id.name⟩

/-- The site of a call and the text of its callee. -/
def site (s : Surroundings) (span : Span) (callee : Expression) : Site :=
  ⟨span.start, Text.slice s.text callee.span.start callee.span.stop⟩

/-- How a scope that binds one name does it. -/
def ownName (s : Surroundings) (scope : ScopeId) (name : String) : OwnName :=
  let own := s.scopes.scope scope
  ⟨name, own.locals.lookup name, own.collapsed⟩

/-- The header of a unit of code, with what the analysis found about its scope. -/
def header (s : Surroundings) (h : Syntax.Header) : Header :=
  let scope := s.scopes.scope h.scope
  { kind := h.kind, name := h.name, params := h.params, strict := h.strict
    «variables» := h.variables, slots := (s.scopes.code h.id).slots, locals := scope.locals
    collapsed := scope.collapsed, directEval := h.directEval, usesArguments := h.usesArguments
    source := h.source, span := h.span }

/-- The number of a label: how many labels are around the statement it marks. -/
def labelFrom (name : String) : List String → Option Label
  | [] => none
  | label :: rest => if label = name then some rest.length else labelFrom name rest

/-- The target of a jump; one without a label goes to the nearest statement that takes it. -/
def target (s : Surroundings) (label : Option String) : Option Label :=
  label.bind fun name => labelFrom name s.labels

def enter (s : Surroundings) (label : String) : Surroundings :=
  { s with labels := label :: s.labels }

end Surroundings

/-- The tests that are not constants, if any, decide how a clause is found. -/
def constants? : List (Nat × Typed) → Option (List (Nat × Value))
  | [] => some []
  | (clause, t) :: rest =>
    match t.value?, constants? rest with
    | some v, some vs => some ((clause, v) :: vs)
    | _, _ => none

/-- The keys under which constant tests are found, in their order. -/
def directTable (tests : List (Nat × Value)) : List (Value × Nat) :=
  tests.filterMap fun (clause, v) => (switchKey? v).map fun key => (key, clause)

def chooseSelector (tests : List (Nat × Typed)) : Selector :=
  match constants? tests with
  | some vs => .direct (directTable vs)
  | none => .tests (tests.map fun (clause, t) => .mk clause t.expr)

mutual

def compileExpr (s : Surroundings) : Expression → Typed
  | .literal _ value => .constant (literalValue value)
  | .this _ => ⟨.this, .all⟩
  | .identifier id => ⟨.variable (s.resolve id), .all⟩
  | .array _ elements => ⟨.array (compileElements s elements), .ofObject⟩
  | .object _ properties => ⟨.object (compileProperties s properties), .ofObject⟩
  | .function _ code ownScope =>
    let routine := compileCode s code
    let own := ownScope.map fun scope => s.ownName scope (routine.header.name.getD "")
    ⟨.function routine own, .ofObject⟩
  | .member _ object key => ⟨.member (compileExpr s object).expr (compileKey (compileExpr s key)), .all⟩
  | .call span callee arguments =>
    ⟨asCall (s.site span callee) (compileArguments s arguments) (compileExpr s callee).expr, .all⟩
  | .new span callee arguments =>
    ⟨.construct (s.site span callee) (compileExpr s callee).expr (compileArguments s arguments),
      .ofObject⟩
  | .unary _ op argument =>
    match op with
    | .typeOf => compileTypeOf (compileExpr s argument)
    | .delete => ⟨.delete (asTarget (compileExpr s argument).expr), .ofBoolean⟩
    | .void => ⟨.void (compileExpr s argument).expr, .ofUndefined⟩
    | .not => compileNot (compileExpr s argument)
    | .minus => compileSign .minus (compileExpr s argument)
    | .plus => compileSign .plus (compileExpr s argument)
    | .bitNot => compileSign .bitNot (compileExpr s argument)
  | .update _ op before argument => ⟨.update op before (asTarget (compileExpr s argument).expr), .ofNumber⟩
  | .binary _ op left right => compileBinary op (compileExpr s left) (compileExpr s right)
  | .logical _ op left right =>
    let left := compileExpr s left
    let right := compileExpr s right
    ⟨.logical op left.expr right.expr, left.types.union right.types⟩
  | .conditional _ test yes no =>
    let yes := compileExpr s yes
    let no := compileExpr s no
    ⟨.conditional (compileExpr s test).expr yes.expr no.expr, yes.types.union no.types⟩
  | .assign _ op target value =>
    let value := compileExpr s value
    match op with
    | none => ⟨.assign (asTarget (compileExpr s target).expr) value.expr, value.types⟩
    | some op => ⟨.compound op (asTarget (compileExpr s target).expr) value.expr, compoundTypes op⟩
  | .sequence _ items =>
    let (items, types) := compileSequence s .ofUndefined items
    ⟨.sequence items, types⟩

def compileElements (s : Surroundings) : List Syntax.Element → List Element
  | [] => []
  | .hole :: rest => .hole :: compileElements s rest
  | .item e :: rest => .item (compileExpr s e).expr :: compileElements s rest

def compileProperties (s : Surroundings) : List Syntax.Property → List Property
  | [] => []
  | .mk key kind value :: rest =>
    .mk (.ofString key) kind (compileExpr s value).expr :: compileProperties s rest

def compileArguments (s : Surroundings) : List Expression → List Expr
  | [] => []
  | e :: rest => (compileExpr s e).expr :: compileArguments s rest

/-- The items of a sequence and the types of its last one. -/
def compileSequence (s : Surroundings) (types : TypeSet) : List Expression → List Expr × TypeSet
  | [] => ([], types)
  | e :: rest =>
    let first := compileExpr s e
    let (items, types) := compileSequence s first.types rest
    (first.expr :: items, types)

def compileOptional (s : Surroundings) : Option Expression → Option Expr
  | none => none
  | some e => some (compileExpr s e).expr

/-- The declarators that assign something. -/
def compileDeclarators (s : Surroundings) : List Declarator → List Assignment
  | [] => []
  | .mk _ _ none :: rest => compileDeclarators s rest
  | .mk _ id (some init) :: rest =>
    .mk (s.resolve id) (compileExpr s init).expr :: compileDeclarators s rest

def compileInit (s : Surroundings) : ForInit → LoopInit
  | .none => .none
  | .«variables» declarators => .«variables» (compileDeclarators s declarators)
  | .expression e => .expression (compileExpr s e).expr

/-- The assignment before a `for-in` loop, if there is one, and what the loop assigns to. -/
def compileForTarget (s : Surroundings) : ForTarget → List Assignment × Target
  | .variable (.mk _ id none) => ([], .variable (s.resolve id))
  | .variable (.mk _ id (some init)) =>
    ([.mk (s.resolve id) (compileExpr s init).expr], .variable (s.resolve id))
  | .expression e => ([], asTarget (compileExpr s e).expr)

/-- A statement; `own` are the labels right before it. -/
def compileStmt (s : Surroundings) (own : List Label) : Statement → Stmt
  | .block _ body => .block (compileBody s body)
  | .labelled _ label body =>
    let id := s.labels.length
    .labelled id (compileStmt (s.enter label) (own ++ [id]) body)
  | .expression span e => .step span.start (.expression (compileExpr s e).expr)
  | .«variables» span declarators => .step span.start (.«variables» (compileDeclarators s declarators))
  | .function span => .step span.start .nothing
  | .empty span => .step span.start .nothing
  | .debugger span => .step span.start .nothing
  | .returning span value => .step span.start (.returning (compileOptional s value))
  | .breaking span label => .step span.start (.breaking (s.target label))
  | .continuing span label => .step span.start (.continuing (s.target label))
  | .conditional span test yes no =>
    .step span.start
      (.conditional (compileExpr s test).expr (compileStmt s [] yes) (compileAlternative s no))
  | .switching span subject clauses =>
    let (tests, otherwise) := compileTests s 0 clauses
    .step span.start (.switching own (compileExpr s subject).expr (chooseSelector tests) otherwise
      (compileClauses s clauses))
  | .throwing span value => .step span.start (.throwing (compileExpr s value).expr)
  | .trying span block handler finalizer =>
    .step span.start
      (.trying (compileBody s block) (compileHandler s handler) (compileFinalizer s finalizer))
  | .whileLoop span test body =>
    .step span.start (.whileLoop own (compileExpr s test).expr (compileStmt s [] body))
  | .doLoop span body test =>
    .step span.start (.doLoop own (compileStmt s [] body) (compileExpr s test).expr)
  | .forLoop span init test update body =>
    .step span.start (.forLoop own (compileInit s init) (compileOptional s test)
      (compileOptional s update) (compileStmt s [] body))
  | .forIn span target object body =>
    let (init, target) := compileForTarget s target
    .step span.start
      (.forIn own init target (compileExpr s object).expr (compileStmt s [] body))
  | .withObject span object _ body =>
    .step span.start (.withObject (compileExpr s object).expr (compileStmt s [] body))

def compileBody (s : Surroundings) : List Statement → List Stmt
  | [] => []
  | statement :: rest => compileStmt s [] statement :: compileBody s rest

def compileAlternative (s : Surroundings) : Option Statement → Option Stmt
  | none => none
  | some statement => some (compileStmt s [] statement)

def compileFinalizer (s : Surroundings) : Option (List Statement) → Option (List Stmt)
  | none => none
  | some body => some (compileBody s body)

def compileHandler (s : Surroundings) : Option Syntax.Handler → Option Handler
  | none => none
  | some (.mk _ param body) => some (.mk (s.ownName param.scope param.name) (compileBody s body))

/-- The tests with the number of the clause each selects, and the default clause. -/
def compileTests (s : Surroundings) (clause : Nat) :
    List Syntax.Clause → List (Nat × Typed) × Option Nat
  | [] => ([], none)
  | .mk _ none _ :: rest =>
    let (tests, _) := compileTests s (clause + 1) rest
    (tests, some clause)
  | .mk _ (some test) _ :: rest =>
    let (tests, otherwise) := compileTests s (clause + 1) rest
    ((clause, compileExpr s test) :: tests, otherwise)

def compileClauses (s : Surroundings) : List Syntax.Clause → List Clause
  | [] => []
  | .mk _ _ body :: rest => .mk (compileBody s body) :: compileClauses s rest

/-- A unit of code; no label around it can be reached from inside. -/
def compileCode (s : Surroundings) : Code → Routine
  | .mk header functions body =>
    let inside := { s with labels := [] }
    .mk (s.header header) (compileCodes inside functions) (compileBody inside body)

def compileCodes (s : Surroundings) : List Code → List Routine
  | [] => []
  | code :: rest => compileCode s code :: compileCodes s rest

end

/-- A parsed unit, ready to run. -/
def compile (parsed : Parsed) : Routine :=
  compileCode ⟨parsed.scopes, parsed.code.header.source.text, []⟩ parsed.code

end Ecma.Program
