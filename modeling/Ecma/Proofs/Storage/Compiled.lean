import Ecma.Proofs.Storage.Paired

set_option autoImplicit false

/-!
Compiling a text with slots and without gives programs that belong together.
-/

namespace Ecma.Storage

open Ecma.Program Ecma.Scope Ecma.Syntax

variable (text : String)

mutual

theorem expr_paired (p : Setting) (formed : p.tree.WellFormed) (labels : List String) (e : Expression)
    (fitted : e.Scoped p) :
    TypedPaired p (compileExpr (surroundings p true text labels) e) (compileExpr (surroundings p false text labels) e) := by
  cases e with
  | literal span value =>
    rw [compileExpr, compileExpr]
    exact constant_paired p _
  | this span =>
    rw [compileExpr, compileExpr]
    exact ⟨.this, rfl⟩
  | identifier id =>
    rw [Expression.Scoped] at fitted
    rw [compileExpr, compileExpr]
    exact ⟨.variable _ _ (name_paired p text labels id fitted), rfl⟩
  | array span elements =>
    rw [Expression.Scoped] at fitted
    rw [compileExpr, compileExpr]
    exact ⟨.array _ _ (elements_paired p formed labels elements fitted), rfl⟩
  | object span properties =>
    rw [Expression.Scoped] at fitted
    rw [compileExpr, compileExpr]
    exact ⟨.object _ _ (properties_paired p formed labels properties fitted), rfl⟩
  | function span code own =>
    cases own with
    | none =>
      rw [Expression.Scoped] at fitted
      rw [compileExpr, compileExpr]
      exact ⟨.function _ _ (routine_paired p text labels p.scope code fitted), rfl⟩
    | some scope =>
      rw [Expression.Scoped] at fitted
      obtain ⟨opened, ⟨name, named, defs⟩, inside⟩ := fitted
      have owns := own_paired p text labels formed .namedFunction scope name opened defs
      have routines := routine_paired p text labels scope code inside
      rw [compileExpr, compileExpr]
      refine ⟨.named scope _ _ _ _ ?_ routines, rfl⟩
      rw [compiled_header, compiled_header]
      change OwnPaired p .namedFunction scope
        ((surroundings p true text labels).ownName scope (code.header.name.getD ""))
        ((surroundings p false text labels).ownName scope (code.header.name.getD ""))
      rw [named]
      exact owns
  | member span object key =>
    rw [Expression.Scoped] at fitted
    rw [compileExpr, compileExpr]
    exact ⟨.member _ _ _ _ (expr_paired p formed labels object fitted.1).exprs
      (key_paired p _ _ (expr_paired p formed labels key fitted.2)), rfl⟩
  | call span callee arguments =>
    rw [Expression.Scoped] at fitted
    rw [compileExpr, compileExpr]
    exact ⟨call_paired p _ _ _ _ _ (expr_paired p formed labels callee fitted.2.1).exprs
      (evaluates_compiled p text labels true callee fitted.1) (arguments_paired p formed labels arguments fitted.2.2), rfl⟩
  | new span callee arguments =>
    rw [Expression.Scoped] at fitted
    rw [compileExpr, compileExpr]
    exact ⟨.construct _ _ _ _ _ (expr_paired p formed labels callee fitted.1).exprs
      (arguments_paired p formed labels arguments fitted.2), rfl⟩
  | unary span op argument =>
    rw [Expression.Scoped] at fitted
    obtain ⟨deletes, inner⟩ := fitted
    have paired := expr_paired p formed labels argument inner
    cases op with
    | typeOf =>
      rw [compileExpr, compileExpr]
      exact type_of_paired p _ _ paired
    | delete =>
      rw [compileExpr, compileExpr]
      exact ⟨.delete _ _ (target_paired p _ _ paired.exprs) (deletes_compiled p text labels true argument (deletes rfl)),
        rfl⟩
    | void =>
      rw [compileExpr, compileExpr]
      exact ⟨.void _ _ paired.exprs, rfl⟩
    | not =>
      rw [compileExpr, compileExpr]
      exact not_paired p _ _ paired
    | minus =>
      rw [compileExpr, compileExpr]
      exact sign_paired p _ _ _ paired
    | plus =>
      rw [compileExpr, compileExpr]
      exact sign_paired p _ _ _ paired
    | bitNot =>
      rw [compileExpr, compileExpr]
      exact sign_paired p _ _ _ paired
  | update span op before argument =>
    rw [Expression.Scoped] at fitted
    rw [compileExpr, compileExpr]
    exact ⟨.update op before _ _ (target_paired p _ _ (expr_paired p formed labels argument fitted.2).exprs)
      (assigns_compiled p text labels true argument fitted.1), rfl⟩
  | binary span op left right =>
    rw [Expression.Scoped] at fitted
    rw [compileExpr, compileExpr]
    exact binary_paired p op _ _ _ _ (expr_paired p formed labels left fitted.1)
      (expr_paired p formed labels right fitted.2)
  | logical span op left right =>
    rw [Expression.Scoped] at fitted
    have lefts := expr_paired p formed labels left fitted.1
    have rights := expr_paired p formed labels right fitted.2
    rw [compileExpr, compileExpr]
    exact ⟨.logical op _ _ _ _ lefts.exprs rights.exprs, congrArg₂ TypeSet.union lefts.types rights.types⟩
  | conditional span test yes no =>
    rw [Expression.Scoped] at fitted
    have first := expr_paired p formed labels yes fitted.2.1
    have second := expr_paired p formed labels no fitted.2.2
    rw [compileExpr, compileExpr]
    exact ⟨.conditional _ _ _ _ _ _ (expr_paired p formed labels test fitted.1).exprs first.exprs second.exprs,
      congrArg₂ TypeSet.union first.types second.types⟩
  | assign span op target value =>
    rw [Expression.Scoped] at fitted
    have targets := target_paired p _ _ (expr_paired p formed labels target fitted.2.1).exprs
    have may := assigns_compiled p text labels true target fitted.1
    have values := expr_paired p formed labels value fitted.2.2
    cases op with
    | none =>
      rw [compileExpr, compileExpr]
      exact ⟨.assign _ _ _ _ targets may values.exprs, values.types⟩
    | some op =>
      rw [compileExpr, compileExpr]
      exact ⟨.compound op _ _ _ _ targets may values.exprs, rfl⟩
  | sequence span items =>
    rw [Expression.Scoped] at fitted
    obtain ⟨all, types⟩ := sequence_paired p formed labels .ofUndefined items fitted
    rw [compileExpr, compileExpr]
    exact ⟨.sequence _ _ all, types⟩

theorem elements_paired (p : Setting) (formed : p.tree.WellFormed) (labels : List String)
    (elements : List Syntax.Element) (fitted : elementsScoped p elements) :
    List.Forall₂ (ElementPaired p) (compileElements (surroundings p true text labels) elements)
      (compileElements (surroundings p false text labels) elements) := by
  match elements with
  | [] =>
    rw [compileElements, compileElements]
    exact .nil
  | .hole :: rest =>
    rw [elementsScoped] at fitted
    rw [compileElements, compileElements]
    exact .cons .hole (elements_paired p formed labels rest fitted)
  | .item e :: rest =>
    rw [elementsScoped] at fitted
    rw [compileElements, compileElements]
    exact .cons (.item _ _ (expr_paired p formed labels e fitted.1).exprs) (elements_paired p formed labels rest fitted.2)

theorem properties_paired (p : Setting) (formed : p.tree.WellFormed) (labels : List String)
    (properties : List Syntax.Property) (fitted : propertiesScoped p properties) :
    List.Forall₂ (PropertyPaired p) (compileProperties (surroundings p true text labels) properties)
      (compileProperties (surroundings p false text labels) properties) := by
  match properties with
  | [] =>
    rw [compileProperties, compileProperties]
    exact .nil
  | .mk key kind value :: rest =>
    rw [propertiesScoped] at fitted
    rw [compileProperties, compileProperties]
    exact .cons (.mk _ kind _ _ (expr_paired p formed labels value fitted.1).exprs)
      (properties_paired p formed labels rest fitted.2)

theorem arguments_paired (p : Setting) (formed : p.tree.WellFormed) (labels : List String)
    (arguments : List Expression) (fitted : expressionsScoped p arguments) :
    List.Forall₂ (ExprPaired p) (compileArguments (surroundings p true text labels) arguments)
      (compileArguments (surroundings p false text labels) arguments) := by
  match arguments with
  | [] =>
    rw [compileArguments, compileArguments]
    exact .nil
  | e :: rest =>
    rw [expressionsScoped] at fitted
    rw [compileArguments, compileArguments]
    exact .cons (expr_paired p formed labels e fitted.1).exprs (arguments_paired p formed labels rest fitted.2)

theorem sequence_paired (p : Setting) (formed : p.tree.WellFormed) (labels : List String) (types : TypeSet)
    (items : List Expression) (fitted : expressionsScoped p items) :
    List.Forall₂ (ExprPaired p) (compileSequence (surroundings p true text labels) types items).1
      (compileSequence (surroundings p false text labels) types items).1 ∧
    (compileSequence (surroundings p true text labels) types items).2 =
      (compileSequence (surroundings p false text labels) types items).2 := by
  match items with
  | [] =>
    rw [compileSequence, compileSequence]
    exact ⟨.nil, rfl⟩
  | e :: rest =>
    rw [expressionsScoped] at fitted
    have first := expr_paired p formed labels e fitted.1
    obtain ⟨others, last⟩ := sequence_paired p formed labels (compileExpr (surroundings p false text labels) e).types
      rest fitted.2
    rw [compileSequence, compileSequence, first.types]
    exact ⟨.cons first.exprs others, last⟩

end

theorem optional_paired (p : Setting) (formed : p.tree.WellFormed) (labels : List String) (e : Option Expression)
    (fitted : optionalScoped p e) :
    Option.Rel (ExprPaired p) (compileOptional (surroundings p true text labels) e)
      (compileOptional (surroundings p false text labels) e) := by
  cases e with
  | none =>
    rw [compileOptional, compileOptional]
    exact .none
  | some e =>
    rw [optionalScoped] at fitted
    rw [compileOptional, compileOptional]
    exact .some (expr_paired text p formed labels e fitted).exprs

theorem declarators_paired (p : Setting) (formed : p.tree.WellFormed) (labels : List String)
    (declarators : List Declarator) (fitted : declaratorsScoped p declarators) :
    List.Forall₂ (AssignmentPaired p) (compileDeclarators (surroundings p true text labels) declarators)
      (compileDeclarators (surroundings p false text labels) declarators) := by
  match declarators with
  | [] =>
    rw [compileDeclarators, compileDeclarators]
    exact .nil
  | .mk _ _ none :: rest =>
    rw [declaratorsScoped] at fitted
    rw [compileDeclarators, compileDeclarators]
    exact declarators_paired p formed labels rest fitted.2
  | .mk _ id (some init) :: rest =>
    rw [declaratorsScoped, Declarator.Scoped] at fitted
    obtain ⟨⟨named, may, value⟩, others⟩ := fitted
    rw [compileDeclarators, compileDeclarators]
    exact .cons (.mk _ _ _ _ (name_paired p text labels id named) may (expr_paired text p formed labels init value).exprs)
      (declarators_paired p formed labels rest others)

theorem init_paired (p : Setting) (formed : p.tree.WellFormed) (labels : List String) (init : ForInit)
    (fitted : init.Scoped p) :
    InitPaired p (compileInit (surroundings p true text labels) init)
      (compileInit (surroundings p false text labels) init) := by
  cases init with
  | none =>
    rw [compileInit, compileInit]
    exact .none
  | «variables» declarators =>
    rw [ForInit.Scoped] at fitted
    rw [compileInit, compileInit]
    exact .variables _ _ (declarators_paired text p formed labels declarators fitted)
  | expression e =>
    rw [ForInit.Scoped] at fitted
    rw [compileInit, compileInit]
    exact .expression _ _ (expr_paired text p formed labels e fitted).exprs

theorem for_target_paired (p : Setting) (formed : p.tree.WellFormed) (labels : List String) (target : ForTarget)
    (fitted : target.Scoped p) :
    List.Forall₂ (AssignmentPaired p) (compileForTarget (surroundings p true text labels) target).1
      (compileForTarget (surroundings p false text labels) target).1 ∧
    TargetPaired p (compileForTarget (surroundings p true text labels) target).2
      (compileForTarget (surroundings p false text labels) target).2 ∧
    Assigns p (compileForTarget (surroundings p true text labels) target).2 := by
  match target with
  | .variable (.mk _ id none) =>
    rw [ForTarget.Scoped] at fitted
    rw [compileForTarget, compileForTarget]
    exact ⟨.nil, .variable _ _ (name_paired p text labels id fitted.1), fitted.2.1⟩
  | .variable (.mk _ id (some init)) =>
    rw [ForTarget.Scoped, optionalScoped] at fitted
    obtain ⟨named, may, value⟩ := fitted
    have names := name_paired p text labels id named
    rw [compileForTarget, compileForTarget]
    exact ⟨.cons (.mk _ _ _ _ names may (expr_paired text p formed labels init value).exprs) .nil,
      .variable _ _ names, may⟩
  | .expression e =>
    rw [ForTarget.Scoped] at fitted
    rw [compileForTarget, compileForTarget]
    exact ⟨.nil, target_paired p _ _ (expr_paired text p formed labels e fitted.2).exprs,
      assigns_compiled p text labels true e fitted.1⟩

theorem tests_paired (p : Setting) (formed : p.tree.WellFormed) (labels : List String) (clause : Nat)
    (clauses : List Syntax.Clause) (fitted : clausesScoped p clauses) :
    TestsPaired p (compileTests (surroundings p true text labels) clause clauses).1
      (compileTests (surroundings p false text labels) clause clauses).1 ∧
    (compileTests (surroundings p true text labels) clause clauses).2 =
      (compileTests (surroundings p false text labels) clause clauses).2 := by
  match clauses with
  | [] =>
    rw [compileTests, compileTests]
    exact ⟨.nil, rfl⟩
  | .mk _ none _ :: rest =>
    rw [clausesScoped] at fitted
    obtain ⟨tests, _⟩ := tests_paired p formed labels (clause + 1) rest fitted.2
    rw [compileTests, compileTests]
    exact ⟨tests, rfl⟩
  | .mk _ (some test) _ :: rest =>
    rw [clausesScoped, Clause.Scoped, optionalScoped] at fitted
    obtain ⟨⟨first, _⟩, others⟩ := fitted
    obtain ⟨tests, otherwise⟩ := tests_paired p formed labels (clause + 1) rest others
    rw [compileTests, compileTests]
    exact ⟨.cons ⟨rfl, expr_paired text p formed labels test first⟩ tests, otherwise⟩

/-! Statements. -/

mutual

theorem stmt_paired (p : Setting) (formed : p.tree.WellFormed) (labels : List String) (own : List Label)
    (statement : Statement) (fitted : statement.Scoped p) :
    StmtPaired p (compileStmt (surroundings p true text labels) own statement)
      (compileStmt (surroundings p false text labels) own statement) := by
  cases statement with
  | block span body =>
    rw [Statement.Scoped] at fitted
    rw [compileStmt, compileStmt]
    exact .block p _ _ (body_paired p formed labels body fitted)
  | labelled span label body =>
    rw [Statement.Scoped] at fitted
    rw [compileStmt, compileStmt]
    exact .labelled p _ label body.isLoop _ _
      (stmt_paired (p.under label body.isLoop) formed (label :: labels) _ body fitted.2)
  | expression span e =>
    rw [Statement.Scoped] at fitted
    rw [compileStmt, compileStmt]
    exact .step p _ _ _ (.expression p _ _ (expr_paired text p formed labels e fitted).exprs)
  | «variables» span declarators =>
    rw [Statement.Scoped] at fitted
    rw [compileStmt, compileStmt]
    exact .step p _ _ _ (.variables p _ _ (declarators_paired text p formed labels declarators fitted))
  | returning span value =>
    rw [Statement.Scoped] at fitted
    rw [compileStmt, compileStmt]
    exact .step p _ _ _ (.returning p _ _ (optional_paired text p formed labels value fitted.2))
  | breaking span label =>
    rw [compileStmt, compileStmt]
    exact .step p _ _ _ (.breaking p _)
  | continuing span label =>
    rw [compileStmt, compileStmt]
    exact .step p _ _ _ (.continuing p _)
  | conditional span test yes no =>
    rw [Statement.Scoped] at fitted
    rw [compileStmt, compileStmt]
    exact .step p _ _ _ (.conditional p _ _ _ _ _ _ (expr_paired text p formed labels test fitted.1).exprs
      (stmt_paired p formed labels [] yes fitted.2.1) (alternative_paired p formed labels no fitted.2.2))
  | switching span subject clauses =>
    rw [Statement.Scoped] at fitted
    obtain ⟨tests, otherwise⟩ := tests_paired text p.inSwitch formed labels 0 clauses fitted.2
    rw [compileStmt, compileStmt]
    change _ = (compileTests (surroundings p false text labels) 0 clauses).2 at otherwise
    change StmtPaired p _ (.step _ (.switching own _ _ (compileTests (surroundings p false text labels) 0 clauses).2 _))
    rw [← otherwise]
    exact .step p _ _ _ (.switching p own _ _ _ _ _ _ _ (expr_paired text p formed labels subject fitted.1).exprs
      (selector_paired p.inSwitch _ _ tests) (clauses_paired p.inSwitch formed labels clauses fitted.2))
  | throwing span value =>
    rw [Statement.Scoped] at fitted
    rw [compileStmt, compileStmt]
    exact .step p _ _ _ (.throwing p _ _ (expr_paired text p formed labels value fitted).exprs)
  | trying span block handler finalizer =>
    rw [Statement.Scoped] at fitted
    rw [compileStmt, compileStmt]
    exact .step p _ _ _ (.trying p _ _ _ _ _ _ (body_paired p formed labels block fitted.1)
      (handler_paired p formed labels handler fitted.2.1) (finalizer_paired p formed labels finalizer fitted.2.2))
  | whileLoop span test body =>
    rw [Statement.Scoped] at fitted
    rw [compileStmt, compileStmt]
    exact .step p _ _ _ (.whileLoop p own _ _ _ _ (expr_paired text p formed labels test fitted.1).exprs
      (stmt_paired p.inLoop formed labels [] body fitted.2))
  | doLoop span body test =>
    rw [Statement.Scoped] at fitted
    rw [compileStmt, compileStmt]
    exact .step p _ _ _ (.doLoop p own _ _ _ _ (expr_paired text p formed labels test fitted.2).exprs
      (stmt_paired p.inLoop formed labels [] body fitted.1))
  | forLoop span init test update body =>
    rw [Statement.Scoped] at fitted
    obtain ⟨starts, tested, updated, repeated⟩ := fitted
    rw [compileStmt, compileStmt]
    exact .step p _ _ _ (.forLoop p own _ _ _ _ _ _ _ _ (init_paired text p formed labels init starts)
      (optional_paired text p formed labels test tested) (optional_paired text p formed labels update updated)
      (stmt_paired p.inLoop formed labels [] body repeated))
  | forIn span target object body =>
    rw [Statement.Scoped] at fitted
    obtain ⟨inits, targets, may⟩ := for_target_paired text p formed labels target fitted.1
    rw [compileStmt, compileStmt]
    exact .step p _ _ _ (.forIn p own _ _ _ _ _ _ _ _ inits targets may
      (expr_paired text p formed labels object fitted.2.1).exprs (stmt_paired p.inLoop formed labels [] body fitted.2.2))
  | withObject span object scope body =>
    rw [Statement.Scoped] at fitted
    rw [compileStmt, compileStmt]
    exact .step p _ _ _ (.withObject p scope _ _ _ _ (expr_paired text p formed labels object fitted.1).exprs fitted.2.1
      (stmt_paired (p.inside scope) formed labels [] body fitted.2.2))
  | _ =>
    rw [compileStmt, compileStmt]
    exact .step p _ _ _ (.nothing p)

theorem body_paired (p : Setting) (formed : p.tree.WellFormed) (labels : List String) (body : List Statement)
    (fitted : statementsScoped p body) :
    StmtsPaired p (compileBody (surroundings p true text labels) body)
      (compileBody (surroundings p false text labels) body) := by
  match body with
  | [] =>
    rw [compileBody, compileBody]
    exact .nil p
  | statement :: rest =>
    rw [statementsScoped] at fitted
    rw [compileBody, compileBody]
    exact .cons p _ _ _ _ (stmt_paired p formed labels [] statement fitted.1) (body_paired p formed labels rest fitted.2)

theorem alternative_paired (p : Setting) (formed : p.tree.WellFormed) (labels : List String)
    (statement : Option Statement) (fitted : alternativeScoped p statement) :
    AlternativePaired p (compileAlternative (surroundings p true text labels) statement)
      (compileAlternative (surroundings p false text labels) statement) := by
  match statement with
  | none =>
    rw [compileAlternative, compileAlternative]
    exact .none p
  | some statement =>
    rw [alternativeScoped] at fitted
    rw [compileAlternative, compileAlternative]
    exact .some p _ _ (stmt_paired p formed labels [] statement fitted)

theorem finalizer_paired (p : Setting) (formed : p.tree.WellFormed) (labels : List String)
    (body : Option (List Statement)) (fitted : finalizerScoped p body) :
    FinalizerPaired p (compileFinalizer (surroundings p true text labels) body)
      (compileFinalizer (surroundings p false text labels) body) := by
  match body with
  | none =>
    rw [compileFinalizer, compileFinalizer]
    exact .none p
  | some body =>
    rw [finalizerScoped] at fitted
    rw [compileFinalizer, compileFinalizer]
    exact .some p _ _ (body_paired p formed labels body fitted)

theorem handler_paired (p : Setting) (formed : p.tree.WellFormed) (labels : List String)
    (handler : Option Syntax.Handler) (fitted : handlerScoped p handler) :
    HandlerPaired p (compileHandler (surroundings p true text labels) handler)
      (compileHandler (surroundings p false text labels) handler) := by
  match handler with
  | none =>
    rw [compileHandler, compileHandler]
    exact .none p
  | some (.mk _ param body) =>
    rw [handlerScoped] at fitted
    obtain ⟨opened, defs, inside⟩ := fitted
    rw [compileHandler, compileHandler]
    exact .some p param.scope _ _ _ _ (own_paired p text labels formed .handler param.scope param.name opened defs)
      (body_paired (p.inside param.scope) formed labels body inside)

theorem clauses_paired (p : Setting) (formed : p.tree.WellFormed) (labels : List String)
    (clauses : List Syntax.Clause) (fitted : clausesScoped p clauses) :
    ClausesPaired p (compileClauses (surroundings p true text labels) clauses)
      (compileClauses (surroundings p false text labels) clauses) := by
  match clauses with
  | [] =>
    rw [compileClauses, compileClauses]
    exact .nil p
  | .mk _ _ body :: rest =>
    rw [clausesScoped, Clause.Scoped] at fitted
    rw [compileClauses, compileClauses]
    exact .cons p _ _ _ _ (body_paired p formed labels body fitted.1.2) (clauses_paired p formed labels rest fitted.2)

end

end Ecma.Storage
