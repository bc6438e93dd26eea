import Ecma.Proofs.Scope.Tree
import Ecma.Syntax.Tree

set_option autoImplicit false

/-!
How syntax trees and trees of scopes belong together. A name is referred to from the scope it stands in;
functions, catch clauses and `with` statements have scopes of their own right inside that scope. Jumps go
to statements around them in the same unit of code.
-/

namespace Ecma.Syntax

open Ecma.Scope

/-- What a jump can go to: the unit itself, if it is a function, the labels around the place, each with
whether it labels a loop, and the loops and `switch` statements around it. -/
structure Goals where
  kind : CodeKind
  labels : List (String × Bool) := []
  loops : Nat := 0
  breakables : Nat := 0

namespace Goals

def inLoop (g : Goals) : Goals :=
  { g with loops := g.loops + 1, breakables := g.breakables + 1 }

def inSwitch (g : Goals) : Goals :=
  { g with breakables := g.breakables + 1 }

def under (g : Goals) (label : String) (loop : Bool) : Goals :=
  { g with labels := (label, loop) :: g.labels }

/-- A `break` has somewhere to go. -/
def breaks (g : Goals) : Option String → Prop
  | none => g.breakables ≠ 0
  | some label => (g.labels.lookup label).isSome = true

/-- A `continue` has a loop to go to. -/
def continues (g : Goals) : Option String → Prop
  | none => g.loops ≠ 0
  | some label => g.labels.lookup label = some true

end Goals

/-- Where a part of a syntax tree stands. -/
structure Setting where
  tree : Scope.Tree
  scope : ScopeId
  strict : Bool
  /-- Whether the code around binds `arguments` whenever it refers to it. -/
  arguments : Bool
  goals : Goals

namespace Setting

def inside (p : Setting) (scope : ScopeId) : Setting :=
  { p with scope := scope }

def inLoop (p : Setting) : Setting :=
  { p with goals := p.goals.inLoop }

def inSwitch (p : Setting) : Setting :=
  { p with goals := p.goals.inSwitch }

def under (p : Setting) (label : String) (loop : Bool) : Setting :=
  { p with goals := p.goals.under label loop }

end Setting

/-- A loop, possibly labelled. -/
def Statement.isLoop : Statement → Bool
  | .whileLoop _ _ _ | .doLoop _ _ _ | .forLoop _ _ _ _ _ | .forIn _ _ _ _ => true
  | .labelled _ _ body => body.isLoop
  | _ => false

structure Identifier.Scoped (p : Setting) (id : Identifier) : Prop where
  scope : id.scope = p.scope
  referred : id.name ∈ (p.tree.scope p.scope).refs
  arguments : id.name = "arguments" → p.arguments = true

-- A scope right inside the one at the place.
structure Opened (p : Setting) (kind : ScopeKind) (scope : ScopeId) : Prop where
  inside : scope < p.tree.scopes.size
  kind : (p.tree.scope scope).kind = kind
  outer : (p.tree.scope scope).outer = some p.scope

/-- Strict code does not assign to `arguments`. -/
def assignable (p : Setting) : Expression → Prop
  | .identifier id => p.strict = true → id.name ≠ "arguments"
  | _ => True

/-- Strict code does not delete names. -/
def deletable (p : Setting) : Expression → Prop
  | .identifier _ => p.strict = false
  | _ => True

/-- Code that may be called by the name `eval` sees the names of all scopes around it. -/
def callable (p : Setting) : Expression → Prop
  | .identifier id => id.name = "eval" → (p.tree.scope p.scope).directEval = true
  | _ => True

/-- Whether a function binds `arguments` when it refers to it. -/
def Header.bindsArguments (h : Header) (functions : List Code) : Bool :=
  h.usesArguments || h.params.contains "arguments" || h.variables.contains "arguments" ||
    functions.any fun f => f.header.name == some "arguments"

structure Header.Scoped (tree : Scope.Tree) (outer : ScopeId) (h : Header) (functions : List Code) :
    Prop where
  function : h.kind = .function
  inside : h.scope < tree.scopes.size
  kind : (tree.scope h.scope).kind = .function
  outer : (tree.scope h.scope).outer = some outer
  code : (tree.scope h.scope).code = h.id
  defs : ∀ name, name ∈ (tree.scope h.scope).defs ↔ name ∈ h.params ∨ name = "arguments" ∨
    (∃ f ∈ functions, f.header.name = some name) ∨ name ∈ h.variables
  strict : h.strict = true → "arguments" ∉ h.params ∧ "arguments" ∉ h.variables ∧
    ∀ f ∈ functions, f.header.name ≠ some "arguments"

mutual

def Expression.Scoped (p : Setting) : Expression → Prop
  | .literal _ _ => True
  | .this _ => True
  | .identifier id => id.Scoped p
  | .array _ elements => elementsScoped p elements
  | .object _ properties => propertiesScoped p properties
  | .function _ code own =>
    match own with
    | none => code.Scoped p.tree p.scope
    | some scope =>
      Opened p .namedFunction scope ∧
        (∃ name, code.header.name = some name ∧ (p.tree.scope scope).defs = [name]) ∧
        code.Scoped p.tree scope
  | .member _ object key => object.Scoped p ∧ key.Scoped p
  | .call _ callee arguments => callable p callee ∧ callee.Scoped p ∧ expressionsScoped p arguments
  | .new _ callee arguments => callee.Scoped p ∧ expressionsScoped p arguments
  | .unary _ op argument => (op = .delete → deletable p argument) ∧ argument.Scoped p
  | .update _ _ _ argument => assignable p argument ∧ argument.Scoped p
  | .binary _ _ left right => left.Scoped p ∧ right.Scoped p
  | .logical _ _ left right => left.Scoped p ∧ right.Scoped p
  | .conditional _ test yes no => test.Scoped p ∧ yes.Scoped p ∧ no.Scoped p
  | .assign _ _ target value => assignable p target ∧ target.Scoped p ∧ value.Scoped p
  | .sequence _ items => expressionsScoped p items

def elementsScoped (p : Setting) : List Element → Prop
  | [] => True
  | .hole :: rest => elementsScoped p rest
  | .item e :: rest => e.Scoped p ∧ elementsScoped p rest

def propertiesScoped (p : Setting) : List Property → Prop
  | [] => True
  | .mk _ _ value :: rest => value.Scoped p ∧ propertiesScoped p rest

def expressionsScoped (p : Setting) : List Expression → Prop
  | [] => True
  | e :: rest => e.Scoped p ∧ expressionsScoped p rest

def optionalScoped (p : Setting) : Option Expression → Prop
  | none => True
  | some e => e.Scoped p

def Declarator.Scoped (p : Setting) : Declarator → Prop
  | .mk _ id init =>
    match init with
    | none => True
    | some e => id.Scoped p ∧ (p.strict = true → id.name ≠ "arguments") ∧ e.Scoped p

def declaratorsScoped (p : Setting) : List Declarator → Prop
  | [] => True
  | d :: rest => d.Scoped p ∧ declaratorsScoped p rest

def ForInit.Scoped (p : Setting) : ForInit → Prop
  | .none => True
  | .«variables» declarators => declaratorsScoped p declarators
  | .expression e => e.Scoped p

def ForTarget.Scoped (p : Setting) : ForTarget → Prop
  | .variable (.mk _ id init) =>
    id.Scoped p ∧ (p.strict = true → id.name ≠ "arguments") ∧ optionalScoped p init
  | .expression e => assignable p e ∧ e.Scoped p

def Clause.Scoped (p : Setting) : Clause → Prop
  | .mk _ test body => optionalScoped p test ∧ statementsScoped p body

def clausesScoped (p : Setting) : List Clause → Prop
  | [] => True
  | c :: rest => c.Scoped p ∧ clausesScoped p rest

def handlerScoped (p : Setting) : Option Handler → Prop
  | none => True
  | some (.mk _ param body) =>
    Opened p .handler param.scope ∧ (p.tree.scope param.scope).defs = [param.name] ∧
      statementsScoped (p.inside param.scope) body

def Statement.Scoped (p : Setting) : Statement → Prop
  | .expression _ e => e.Scoped p
  | .block _ body => statementsScoped p body
  | .«variables» _ declarators => declaratorsScoped p declarators
  | .function _ => True
  | .empty _ => True
  | .debugger _ => True
  | .returning _ value => p.goals.kind = .function ∧ optionalScoped p value
  | .breaking _ label => p.goals.breaks label
  | .continuing _ label => p.goals.continues label
  | .labelled _ label body => p.goals.labels.lookup label = none ∧ body.Scoped (p.under label body.isLoop)
  | .conditional _ test yes no => test.Scoped p ∧ yes.Scoped p ∧ alternativeScoped p no
  | .switching _ subject clauses => subject.Scoped p ∧ clausesScoped p.inSwitch clauses
  | .throwing _ value => value.Scoped p
  | .trying _ block handler finalizer =>
    statementsScoped p block ∧ handlerScoped p handler ∧ finalizerScoped p finalizer
  | .whileLoop _ test body => test.Scoped p ∧ body.Scoped p.inLoop
  | .doLoop _ body test => body.Scoped p.inLoop ∧ test.Scoped p
  | .forLoop _ init test update body =>
    init.Scoped p ∧ optionalScoped p test ∧ optionalScoped p update ∧ body.Scoped p.inLoop
  | .forIn _ target object body => target.Scoped p ∧ object.Scoped p ∧ body.Scoped p.inLoop
  | .withObject _ object scope body =>
    object.Scoped p ∧ Opened p .withObject scope ∧ body.Scoped (p.inside scope)

def alternativeScoped (p : Setting) : Option Statement → Prop
  | none => True
  | some s => s.Scoped p

def finalizerScoped (p : Setting) : Option (List Statement) → Prop
  | none => True
  | some body => statementsScoped p body

def statementsScoped (p : Setting) : List Statement → Prop
  | [] => True
  | s :: rest => s.Scoped p ∧ statementsScoped p rest

/-- A function right inside a scope. -/
def Code.Scoped (tree : Scope.Tree) (outer : ScopeId) : Code → Prop
  | .mk h functions body =>
    h.Scoped tree outer functions ∧ codesScoped tree h.scope functions ∧
      statementsScoped ⟨tree, h.scope, h.strict, h.bindsArguments functions, ⟨h.kind, [], 0, 0⟩⟩ body

def codesScoped (tree : Scope.Tree) (outer : ScopeId) : List Code → Prop
  | [] => True
  | code :: rest => code.Scoped tree outer ∧ codesScoped tree outer rest

end

/-- Code that no function is around. -/
structure Code.Rooted (tree : Scope.Tree) (code : Code) : Prop where
  inside : code.header.scope < tree.scopes.size
  kind : (tree.scope code.header.scope).kind = if code.header.kind = .eval then .eval else .global
  outer : (tree.scope code.header.scope).outer = none
  owner : (tree.scope code.header.scope).code = code.header.id
  functions : codesScoped tree code.header.scope code.functions
  body : statementsScoped ⟨tree, code.header.scope, code.header.strict, true, ⟨code.header.kind, [], 0, 0⟩⟩ code.body

end Ecma.Syntax
