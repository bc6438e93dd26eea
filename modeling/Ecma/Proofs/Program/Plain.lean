import Ecma.Program.Compile

set_option autoImplicit false

/-!
The constants of a program are primitives: no program that is compiled names an object.
-/

namespace Ecma.Program

open Ecma.Scope Ecma.Syntax

mutual

def Expr.Plain : Expr → Prop
  | .constant v => v.isObject = false
  | .this => True
  | .variable _ => True
  | .array elements => PlainElements elements
  | .object properties => PlainProperties properties
  | .function routine _ => routine.Plain
  | .member object key => object.Plain ∧ key.Plain
  | .callMember _ object key args => object.Plain ∧ key.Plain ∧ PlainExprs args
  | .callVariable _ _ args => PlainExprs args
  | .call _ callee args => callee.Plain ∧ PlainExprs args
  | .construct _ callee args => callee.Plain ∧ PlainExprs args
  | .typeOfVariable _ => True
  | .typeOf e => e.Plain
  | .delete target => target.Plain
  | .void e => e.Plain
  | .not e => e.Plain
  | .sign _ _ e => e.Plain
  | .update _ _ target => target.Plain
  | .binary _ left right => left.Plain ∧ right.Plain
  | .logical _ left right => left.Plain ∧ right.Plain
  | .conditional test yes no => test.Plain ∧ yes.Plain ∧ no.Plain
  | .assign target value => target.Plain ∧ value.Plain
  | .compound _ target value => target.Plain ∧ value.Plain
  | .sequence items => PlainExprs items

def Key.Plain : Key → Prop
  | .known _ => True
  | .computed e => e.Plain

def Target.Plain : Target → Prop
  | .variable _ => True
  | .member object key => object.Plain ∧ key.Plain
  | .value e => e.Plain

def PlainExprs : List Expr → Prop
  | [] => True
  | e :: rest => e.Plain ∧ PlainExprs rest

def PlainElements : List Element → Prop
  | [] => True
  | .hole :: rest => PlainElements rest
  | .item e :: rest => e.Plain ∧ PlainElements rest

def PlainProperties : List Property → Prop
  | [] => True
  | .mk _ _ value :: rest => value.Plain ∧ PlainProperties rest

def PlainOptional : Option Expr → Prop
  | none => True
  | some e => e.Plain

def PlainAssignments : List Assignment → Prop
  | [] => True
  | .mk _ value :: rest => value.Plain ∧ PlainAssignments rest

def PlainTests : List Test → Prop
  | [] => True
  | .mk _ e :: rest => e.Plain ∧ PlainTests rest

def Selector.Plain : Selector → Prop
  | .direct _ => True
  | .tests tests => PlainTests tests

def PlainClauses : List Clause → Prop
  | [] => True
  | .mk body :: rest => PlainStmts body ∧ PlainClauses rest

def LoopInit.Plain : LoopInit → Prop
  | .none => True
  | .«variables» assignments => PlainAssignments assignments
  | .expression e => e.Plain

def PlainHandler : Option Handler → Prop
  | none => True
  | some (.mk _ body) => PlainStmts body

def PlainFinalizer : Option (List Stmt) → Prop
  | none => True
  | some body => PlainStmts body

def Stmt.Plain : Stmt → Prop
  | .block body => PlainStmts body
  | .labelled _ body => body.Plain
  | .step _ action => action.Plain

def PlainStmts : List Stmt → Prop
  | [] => True
  | s :: rest => s.Plain ∧ PlainStmts rest

def PlainAlternative : Option Stmt → Prop
  | none => True
  | some s => s.Plain

def Action.Plain : Action → Prop
  | .nothing => True
  | .expression e => e.Plain
  | .«variables» assignments => PlainAssignments assignments
  | .returning value => PlainOptional value
  | .breaking _ => True
  | .continuing _ => True
  | .conditional test yes no => test.Plain ∧ yes.Plain ∧ PlainAlternative no
  | .throwing e => e.Plain
  | .whileLoop _ test body => test.Plain ∧ body.Plain
  | .doLoop _ body test => body.Plain ∧ test.Plain
  | .forLoop _ init test update body => init.Plain ∧ PlainOptional test ∧ PlainOptional update ∧ body.Plain
  | .forIn _ init target object body => PlainAssignments init ∧ target.Plain ∧ object.Plain ∧ body.Plain
  | .switching _ subject selector _ clauses => subject.Plain ∧ selector.Plain ∧ PlainClauses clauses
  | .trying block handler finalizer => PlainStmts block ∧ PlainHandler handler ∧ PlainFinalizer finalizer
  | .withObject object body => object.Plain ∧ body.Plain

def Routine.Plain : Routine → Prop
  | .mk _ functions body => PlainRoutines functions ∧ PlainStmts body

def PlainRoutines : List Routine → Prop
  | [] => True
  | routine :: rest => routine.Plain ∧ PlainRoutines rest

end

/-! What compilation puts together. -/

theorem constant_plain (v : Value) (primitive : v.isObject = false) : (Typed.constant v).expr.Plain := by
  rw [Typed.constant, Expr.Plain]
  exact primitive

theorem as_target_plain (e : Expr) (plain : e.Plain) : (asTarget e).Plain := by
  cases e with
  | «variable» v =>
    rw [asTarget, Target.Plain]
    trivial
  | member object key =>
    rw [Expr.Plain] at plain
    rw [asTarget, Target.Plain]
    exact plain
  | _ => exact plain

theorem as_call_plain (site : Site) (args : List Expr) (callee : Expr) (plain : callee.Plain) (others : PlainExprs args) :
    (asCall site args callee).Plain := by
  cases callee with
  | «variable» v =>
    rw [asCall, Expr.Plain]
    exact others
  | member object key =>
    rw [Expr.Plain] at plain
    rw [asCall, Expr.Plain]
    exact ⟨plain.1, plain.2, others⟩
  | _ => exact ⟨plain, others⟩

theorem type_of_plain (t : Typed) (plain : t.expr.Plain) : (compileTypeOf t).expr.Plain := by
  rw [compileTypeOf]
  split
  · exact constant_plain _ rfl
  · rw [Expr.Plain]
    trivial
  · rw [Expr.Plain]
    exact plain

theorem not_plain (t : Typed) (plain : t.expr.Plain) : (compileNot t).expr.Plain := by
  rw [compileNot]
  split
  · exact constant_plain _ rfl
  · rw [Expr.Plain]
    exact plain

theorem sign_plain (op : Sign) (t : Typed) (plain : t.expr.Plain) : (compileSign op t).expr.Plain := by
  rw [compileSign]
  split
  · exact constant_plain _ rfl
  · rw [Expr.Plain]
    exact plain

theorem add_primitive (a b : Value) : (addPrimitives a b).isObject = false := by
  unfold addPrimitives
  split <;> rfl

theorem fold_primitive (op : BinaryOp) (a b v : Value) (folds : fold? op a b = some v) : v.isObject = false := by
  rw [fold?] at folds
  split at folds
  · cases folds
    rfl
  · split at folds
    · cases folds
      exact add_primitive a b
    · cases folds

theorem binary_plain (op : BinaryOp) (left right : Typed) (first : left.expr.Plain) (second : right.expr.Plain) :
    (compileBinary op left right).expr.Plain := by
  rw [compileBinary]
  split
  · next v folds =>
    rw [foldConstants] at folds
    split at folds
    · split at folds
      · exact constant_plain v (fold_primitive op _ _ v folds)
      · cases folds
    · cases folds
  · rw [Expr.Plain]
    exact ⟨first, second⟩

theorem key_plain (t : Typed) (plain : t.expr.Plain) : (compileKey t).Plain := by
  rw [compileKey]
  split
  · rw [Key.Plain]
    trivial
  · rw [Key.Plain]
    exact plain

theorem selector_plain (tests : List (Nat × Typed)) (plain : ∀ test ∈ tests, test.2.expr.Plain) :
    (chooseSelector tests).Plain := by
  have each (tests : List (Nat × Typed)) (plain : ∀ test ∈ tests, test.2.expr.Plain) :
      PlainTests (tests.map fun test => .mk test.1 test.2.expr) := by
    induction tests with
    | nil =>
      rw [List.map_nil, PlainTests]
      trivial
    | cons test rest hyp =>
      obtain ⟨first, others⟩ := List.forall_mem_cons.mp plain
      rw [List.map_cons, PlainTests]
      exact ⟨first, hyp others⟩
  rw [chooseSelector]
  cases constants? tests with
  | some vs =>
    dsimp only
    rw [Selector.Plain]
    trivial
  | none =>
    dsimp only
    rw [Selector.Plain]
    exact each tests plain

/-! Compilation. -/

mutual

theorem expr_plain (s : Surroundings) (e : Expression) : (compileExpr s e).expr.Plain := by
  cases e with
  | literal span value =>
    rw [compileExpr]
    exact constant_plain _ (by cases value <;> rfl)
  | this span =>
    rw [compileExpr, Expr.Plain]
    trivial
  | identifier id =>
    rw [compileExpr, Expr.Plain]
    trivial
  | array span elements =>
    rw [compileExpr, Expr.Plain]
    exact elements_plain s elements
  | object span properties =>
    rw [compileExpr, Expr.Plain]
    exact properties_plain s properties
  | function span code ownScope =>
    rw [compileExpr, Expr.Plain]
    exact code_plain s code
  | member span object key =>
    rw [compileExpr, Expr.Plain]
    exact ⟨expr_plain s object, key_plain _ (expr_plain s key)⟩
  | call span callee arguments =>
    rw [compileExpr]
    exact as_call_plain _ _ _ (expr_plain s callee) (arguments_plain s arguments)
  | new span callee arguments =>
    rw [compileExpr, Expr.Plain]
    exact ⟨expr_plain s callee, arguments_plain s arguments⟩
  | unary span op argument =>
    have plain := expr_plain s argument
    cases op with
    | typeOf =>
      rw [compileExpr]
      exact type_of_plain _ plain
    | delete =>
      rw [compileExpr, Expr.Plain]
      exact as_target_plain _ plain
    | void =>
      rw [compileExpr, Expr.Plain]
      exact plain
    | not =>
      rw [compileExpr]
      exact not_plain _ plain
    | minus =>
      rw [compileExpr]
      exact sign_plain _ _ plain
    | plus =>
      rw [compileExpr]
      exact sign_plain _ _ plain
    | bitNot =>
      rw [compileExpr]
      exact sign_plain _ _ plain
  | update span op before argument =>
    rw [compileExpr, Expr.Plain]
    exact as_target_plain _ (expr_plain s argument)
  | binary span op left right =>
    rw [compileExpr]
    exact binary_plain op _ _ (expr_plain s left) (expr_plain s right)
  | logical span op left right =>
    rw [compileExpr, Expr.Plain]
    exact ⟨expr_plain s left, expr_plain s right⟩
  | conditional span test yes no =>
    rw [compileExpr, Expr.Plain]
    exact ⟨expr_plain s test, expr_plain s yes, expr_plain s no⟩
  | assign span op target value =>
    have parts := And.intro (as_target_plain _ (expr_plain s target)) (expr_plain s value)
    cases op with
    | none =>
      rw [compileExpr, Expr.Plain]
      exact parts
    | some op =>
      rw [compileExpr, Expr.Plain]
      exact parts
  | sequence span items =>
    rw [compileExpr, Expr.Plain]
    exact sequence_plain s _ items

theorem elements_plain (s : Surroundings) (elements : List Syntax.Element) : PlainElements (compileElements s elements) := by
  match elements with
  | [] =>
    rw [compileElements, PlainElements]
    trivial
  | .hole :: rest =>
    rw [compileElements, PlainElements]
    exact elements_plain s rest
  | .item e :: rest =>
    rw [compileElements, PlainElements]
    exact ⟨expr_plain s e, elements_plain s rest⟩

theorem properties_plain (s : Surroundings) (properties : List Syntax.Property) :
    PlainProperties (compileProperties s properties) := by
  match properties with
  | [] =>
    rw [compileProperties, PlainProperties]
    trivial
  | .mk key kind value :: rest =>
    rw [compileProperties, PlainProperties]
    exact ⟨expr_plain s value, properties_plain s rest⟩

theorem arguments_plain (s : Surroundings) (arguments : List Expression) : PlainExprs (compileArguments s arguments) := by
  match arguments with
  | [] =>
    rw [compileArguments, PlainExprs]
    trivial
  | e :: rest =>
    rw [compileArguments, PlainExprs]
    exact ⟨expr_plain s e, arguments_plain s rest⟩

theorem sequence_plain (s : Surroundings) (types : TypeSet) (items : List Expression) :
    PlainExprs (compileSequence s types items).1 := by
  match items with
  | [] =>
    rw [compileSequence, PlainExprs]
    trivial
  | e :: rest =>
    rw [compileSequence, PlainExprs]
    exact ⟨expr_plain s e, sequence_plain s _ rest⟩

theorem optional_plain (s : Surroundings) (e : Option Expression) : PlainOptional (compileOptional s e) := by
  match e with
  | none =>
    rw [compileOptional, PlainOptional]
    trivial
  | some e =>
    rw [compileOptional, PlainOptional]
    exact expr_plain s e

theorem declarators_plain (s : Surroundings) (declarators : List Declarator) :
    PlainAssignments (compileDeclarators s declarators) := by
  match declarators with
  | [] =>
    rw [compileDeclarators, PlainAssignments]
    trivial
  | .mk _ _ none :: rest =>
    rw [compileDeclarators]
    exact declarators_plain s rest
  | .mk _ id (some init) :: rest =>
    rw [compileDeclarators, PlainAssignments]
    exact ⟨expr_plain s init, declarators_plain s rest⟩

theorem init_plain (s : Surroundings) (init : ForInit) : (compileInit s init).Plain := by
  match init with
  | .none =>
    rw [compileInit, LoopInit.Plain]
    trivial
  | .«variables» declarators =>
    rw [compileInit, LoopInit.Plain]
    exact declarators_plain s declarators
  | .expression e =>
    rw [compileInit, LoopInit.Plain]
    exact expr_plain s e

theorem for_target_plain (s : Surroundings) (target : ForTarget) :
    PlainAssignments (compileForTarget s target).1 ∧ (compileForTarget s target).2.Plain := by
  match target with
  | .variable (.mk _ id none) =>
    rw [compileForTarget, PlainAssignments, Target.Plain]
    exact ⟨trivial, trivial⟩
  | .variable (.mk _ id (some init)) =>
    rw [compileForTarget, PlainAssignments, PlainAssignments, Target.Plain]
    exact ⟨⟨expr_plain s init, trivial⟩, trivial⟩
  | .expression e =>
    rw [compileForTarget, PlainAssignments]
    exact ⟨trivial, as_target_plain _ (expr_plain s e)⟩

theorem stmt_plain (s : Surroundings) (own : List Label) (statement : Statement) : (compileStmt s own statement).Plain := by
  cases statement with
  | block span body =>
    rw [compileStmt, Stmt.Plain]
    exact body_plain s body
  | labelled span label body =>
    rw [compileStmt, Stmt.Plain]
    exact stmt_plain _ _ body
  | expression span e =>
    rw [compileStmt, Stmt.Plain, Action.Plain]
    exact expr_plain s e
  | «variables» span declarators =>
    rw [compileStmt, Stmt.Plain, Action.Plain]
    exact declarators_plain s declarators
  | returning span value =>
    rw [compileStmt, Stmt.Plain, Action.Plain]
    exact optional_plain s value
  | conditional span test yes no =>
    rw [compileStmt, Stmt.Plain, Action.Plain]
    exact ⟨expr_plain s test, stmt_plain s [] yes, alternative_plain s no⟩
  | switching span subject clauses =>
    rw [compileStmt, Stmt.Plain, Action.Plain]
    exact ⟨expr_plain s subject, selector_plain _ (tests_plain s 0 clauses), clauses_plain s clauses⟩
  | throwing span value =>
    rw [compileStmt, Stmt.Plain, Action.Plain]
    exact expr_plain s value
  | trying span block handler finalizer =>
    rw [compileStmt, Stmt.Plain, Action.Plain]
    exact ⟨body_plain s block, handler_plain s handler, finalizer_plain s finalizer⟩
  | whileLoop span test body =>
    rw [compileStmt, Stmt.Plain, Action.Plain]
    exact ⟨expr_plain s test, stmt_plain s [] body⟩
  | doLoop span body test =>
    rw [compileStmt, Stmt.Plain, Action.Plain]
    exact ⟨stmt_plain s [] body, expr_plain s test⟩
  | forLoop span init test update body =>
    rw [compileStmt, Stmt.Plain, Action.Plain]
    exact ⟨init_plain s init, optional_plain s test, optional_plain s update, stmt_plain s [] body⟩
  | forIn span target object body =>
    obtain ⟨assignments, assigned⟩ := for_target_plain s target
    rw [compileStmt, Stmt.Plain, Action.Plain]
    exact ⟨assignments, assigned, expr_plain s object, stmt_plain s [] body⟩
  | withObject span object scope body =>
    rw [compileStmt, Stmt.Plain, Action.Plain]
    exact ⟨expr_plain s object, stmt_plain s [] body⟩
  | _ =>
    rw [compileStmt, Stmt.Plain, Action.Plain]
    trivial

theorem body_plain (s : Surroundings) (body : List Statement) : PlainStmts (compileBody s body) := by
  match body with
  | [] =>
    rw [compileBody, PlainStmts]
    trivial
  | statement :: rest =>
    rw [compileBody, PlainStmts]
    exact ⟨stmt_plain s [] statement, body_plain s rest⟩

theorem alternative_plain (s : Surroundings) (statement : Option Statement) :
    PlainAlternative (compileAlternative s statement) := by
  match statement with
  | none =>
    rw [compileAlternative, PlainAlternative]
    trivial
  | some statement =>
    rw [compileAlternative, PlainAlternative]
    exact stmt_plain s [] statement

theorem finalizer_plain (s : Surroundings) (body : Option (List Statement)) : PlainFinalizer (compileFinalizer s body) := by
  match body with
  | none =>
    rw [compileFinalizer, PlainFinalizer]
    trivial
  | some body =>
    rw [compileFinalizer, PlainFinalizer]
    exact body_plain s body

theorem handler_plain (s : Surroundings) (handler : Option Syntax.Handler) : PlainHandler (compileHandler s handler) := by
  match handler with
  | none =>
    rw [compileHandler, PlainHandler]
    trivial
  | some (.mk _ param body) =>
    rw [compileHandler, PlainHandler]
    exact body_plain s body

theorem tests_plain (s : Surroundings) (clause : Nat) (clauses : List Syntax.Clause) :
    ∀ test ∈ (compileTests s clause clauses).1, test.2.expr.Plain := by
  match clauses with
  | [] =>
    rw [compileTests]
    exact nofun
  | .mk _ none _ :: rest =>
    rw [compileTests]
    exact tests_plain s (clause + 1) rest
  | .mk _ (some test) _ :: rest =>
    rw [compileTests]
    exact List.forall_mem_cons.mpr ⟨expr_plain s test, tests_plain s (clause + 1) rest⟩

theorem clauses_plain (s : Surroundings) (clauses : List Syntax.Clause) : PlainClauses (compileClauses s clauses) := by
  match clauses with
  | [] =>
    rw [compileClauses, PlainClauses]
    trivial
  | .mk _ _ body :: rest =>
    rw [compileClauses, PlainClauses]
    exact ⟨body_plain s body, clauses_plain s rest⟩

theorem code_plain (s : Surroundings) (code : Code) : (compileCode s code).Plain := by
  match code with
  | .mk header functions body =>
    rw [compileCode, Routine.Plain]
    exact ⟨codes_plain _ functions, body_plain _ body⟩

theorem codes_plain (s : Surroundings) (codes : List Code) : PlainRoutines (compileCodes s codes) := by
  match codes with
  | [] =>
    rw [compileCodes, PlainRoutines]
    trivial
  | code :: rest =>
    rw [compileCodes, PlainRoutines]
    exact ⟨code_plain s code, codes_plain s rest⟩

end

theorem compile_plain (parsed : Parsed) : (compile parsed).Plain := by
  exact code_plain _ parsed.code

end Ecma.Program
