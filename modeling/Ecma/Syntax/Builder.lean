import Ecma.Grammar.Peg
import Ecma.Grammar.Rule
import Ecma.Syntax.Literal
import Ecma.Syntax.Tree
import Ecma.Number.Reading
import Ecma.Number.Text

set_option autoImplicit false

/-!
What is kept while the syntax tree is built from the nodes of the grammar: the scopes opened so
far, the unit of code at hand with its labels and hoisted names, and the scope at the place. The
checks of names and of assignment targets are here, those of statements and expressions follow in
`Ecma.Syntax.Build`.
-/

namespace Ecma.Syntax

open Ecma.Grammar Ecma.Scope Ecma.Text

/-- The unit of code whose statements are being built. -/
structure Unfinished where
  id : Nat
  kind : CodeKind
  strict : Bool
  scope : ScopeId
  functions : List Code := []
  «variables» : List String := []
  directEval : Bool := false
  usesArguments : Bool := false
  usesWith : Bool := false
  /-- The labels around the place, innermost first, and whether each one labels a loop. -/
  labels : List (String × Bool) := []
  loops : Nat := 0
  breakables : Nat := 0

structure Builder where
  source : Source
  scopes : Scope.Tree
  code : Unfinished
  scope : ScopeId

/-- Building either goes on or ends with the first syntax error. -/
abbrev Build := EStateM SyntaxError Builder

abbrev Nodes := List (Node Rule)

namespace Build

def fail {α : Type} (cause : EarlyError) (node : Node Rule) : Build α :=
  throw (.early cause node.start)

def failAt {α : Type} (cause : EarlyError) (offset : Nat) : Build α :=
  throw (.early cause offset)

def spanOf (node : Node Rule) : Span :=
  ⟨node.start, node.stop⟩

def modifyCode (f : Unfinished → Unfinished) : Build Unit :=
  modify fun b => { b with code := f b.code }

def modifyScopes (f : Scope.Tree → Scope.Tree) : Build Unit :=
  modify fun b => { b with scopes := f b.scopes }

def strict : Build Bool :=
  return (← get).code.strict

/-- Turns a fault of a literal into an error at its node. -/
def liftAt {α : Type} (node : Node Rule) : Except EarlyError α → Build α
  | .ok a => pure a
  | .error cause => fail cause node

/-- Opens a scope inside the one at the place or inside the given one. -/
def openScope (kind : ScopeKind) (outer : ScopeId) : Build ScopeId := do
  let b ← get
  let (scopes, id) := b.scopes.newScope kind (some outer) b.code.id
  set { b with scopes := scopes }
  return id

/-- Builds with another innermost scope. -/
def within {α : Type} (scope : ScopeId) (build : Build α) : Build α := do
  let saved := (← get).scope
  modify fun b => { b with scope := scope }
  let a ← build
  modify fun b => { b with scope := saved }
  return a

end Build

open Build

/-- Names that strict code reserves. -/
def strictReserved : List String :=
  ["implements", "interface", "let", "package", "private", "protected", "public", "static",
    "yield"]

def isEvalOrArguments (name : String) : Bool :=
  name == "eval" || name == "arguments"

/-- The name of an identifier; strict code has more reserved words. -/
def checkedName (node : Node Rule) (strict : Bool) : Build String := do
  let name ← liftAt node (decodeIdentifier node.chars)
  if strict && strictReserved.contains name then fail .strictReservedWord node
  return name

/-- The name of something bound: strict code does not bind `eval` and `arguments`. -/
def bindingName (node : Node Rule) (strict : Bool) : Build String := do
  let name ← checkedName node strict
  if strict && isEvalOrArguments name then fail .strictEvalOrArguments node
  return name

/-- A name that is referred to at the place. -/
def reference (node : Node Rule) : Build Identifier := do
  let name ← checkedName node (← strict)
  if name == "arguments" then modifyCode fun c => { c with usesArguments := true }
  let scope := (← get).scope
  modifyScopes fun t => t.addRef scope name
  return ⟨name, scope, spanOf node⟩

/-- Something can be assigned to the expression of the node. -/
def checkTarget (target : Expression) (node : Node Rule) : Build Unit := do
  if !target.isTarget then fail .assignmentTarget node
  match target with
  | .identifier id =>
    if (← strict) && isEvalOrArguments id.name then fail .strictEvalOrArguments node
  | _ => pure ()

/-- The value of a string literal. -/
def stringValue (node : Node Rule) : Build String := do
  let (value, octal) ← liftAt node (decodeString node.chars)
  if octal && (← strict) then fail .octalEscape node
  return value

/-- The value of a numeric literal. -/
def numberValue (node : Node Rule) : Build Float := do
  let (value, octal) := Number.ofLiteral node.chars
  if octal && (← strict) then fail .octalLiteral node
  return value

/-- The key that a property name spells. -/
def propertyKey (node : Node Rule) : Build String :=
  match node.rule with
  | .identifierName => liftAt node (decodeIdentifier node.chars)
  | .stringLiteral => stringValue node
  | .numericLiteral => return Number.text (← numberValue node)
  | _ => fail .unexpectedShape node

/-- The expression statements at the front of a body that are nothing but a string, up to one that
asks for strictness. -/
def hasUseStrict : Nodes → Bool
  | .mk .expressionStatement _ _ _ (e :: _) :: rest =>
    let length := e.stop - e.start
    if e.anyBelow fun p => p.rule == .stringLiteral && p.stop - p.start == length then
      e.text == "\"use strict\"" || e.text == "'use strict'" || hasUseStrict rest
    else false
  | _ => false

/-- A loop, possibly labelled. -/
def isLoop : Node Rule → Bool
  | .mk rule _ _ _ parts =>
    match rule, parts with
    | .doWhileStatement, _ | .whileStatement, _ | .forStatement, _ | .forInStatement, _ => true
    | .labelledStatement, [_, body] => isLoop body
    | _, _ => false

/-- The names of parameters, which strict code does not repeat. -/
def parameters (strict : Bool) : Nodes → List String → Build (List String)
  | [], names => return names
  | node :: rest, names => do
    let name ← bindingName node strict
    if strict && names.contains name then fail .duplicateParameter node
    parameters strict rest (names ++ [name])

/-- Binds the names of a finished unit in its scope and makes it a unit of code. -/
def finish (code : Unfinished) (name : Option String) (params : List String)
    (body : List Statement) (span : Span) (declareFunctions : Bool) : Build Code := do
  let bind (names : List String) : Build Unit :=
    modifyScopes fun t => names.foldl (fun t name => t.addDef code.scope name) t
  if code.kind == .function then bind ["arguments"]
  if declareFunctions then bind (code.functions.filterMap fun f => f.header.name)
  bind code.variables
  if code.usesWith then modifyScopes fun t => t.markWith code.id
  return .mk
    { kind := code.kind, id := code.id, name := name, params := params, strict := code.strict
      «variables» := code.variables, scope := code.scope, directEval := code.directEval
      usesArguments := code.usesArguments, usesWith := code.usesWith
      source := (← get).source, span := span }
    code.functions body

/-- Builds a function in a scope around it. The body says by itself whether it is strict. -/
def functionCode (outer : ScopeId) (name : Option (Node Rule)) (params : Nodes) (span : Span)
    (statements : Nodes) (build : Build (List Statement)) : Build Code := do
  let strict := (← strict) || hasUseStrict statements
  let name ← name.mapM fun node => bindingName node strict
  let params ← parameters strict params []
  let b ← get
  let saved := b.code
  let savedScope := b.scope
  let (scopes, id) := b.scopes.newCode .function
  let (scopes, scope) := scopes.newScope .function (some outer) id
  let scopes := params.foldl (fun t name => t.addDef scope name) scopes
  set { b with
    scopes := scopes
    scope := scope
    code := { id := id, kind := .function, strict := strict, scope := scope } }
  let body ← build
  let code := (← get).code
  modify fun b => { b with code := saved, scope := savedScope }
  finish code name params body span true

/-- Counts a loop around the statement it builds. -/
def inLoop {α : Type} (build : Build α) : Build α := do
  modifyCode fun c => { c with loops := c.loops + 1, breakables := c.breakables + 1 }
  let a ← build
  modifyCode fun c => { c with loops := c.loops - 1, breakables := c.breakables - 1 }
  return a

/-- Counts a switch around the clauses it builds. -/
def inSwitch {α : Type} (build : Build α) : Build α := do
  modifyCode fun c => { c with breakables := c.breakables + 1 }
  let a ← build
  modifyCode fun c => { c with breakables := c.breakables - 1 }
  return a

/-- Builds under a label. -/
def underLabel {α : Type} (label : String) (loop : Bool) (build : Build α) : Build α := do
  modifyCode fun c => { c with labels := (label, loop) :: c.labels }
  let a ← build
  modifyCode fun c => { c with labels := c.labels.drop 1 }
  return a

/-- A declared variable, which its code hoists. -/
def declareVariable (node : Node Rule) : Build Identifier := do
  let name ← bindingName node (← strict)
  modifyCode fun c => { c with «variables» := addName c.variables name }
  return ⟨name, (← get).scope, spanOf node⟩

/-- Refers to a name at the place without a node of its own. -/
def referTo (name : String) : Build Unit := do
  let scope := (← get).scope
  modifyScopes fun t => t.addRef scope name

/-- The label of a `continue`: it has to label a loop. -/
def continueLabel (node : Node Rule) : Build String := do
  let name ← checkedName node (← strict)
  match (← get).code.labels.lookup name with
  | some true => return name
  | some false => fail .illegalContinue node
  | none => fail .undefinedLabel node

/-- The label of a `break`. -/
def breakLabel (node : Node Rule) : Build String := do
  let name ← checkedName node (← strict)
  match (← get).code.labels.lookup name with
  | some _ => return name
  | none => fail .undefinedLabel node

/-- What has been seen of a key in an object literal. -/
structure Seen where
  data : Bool := false
  getter : Bool := false
  setter : Bool := false

/-- The keys of an object literal so far. -/
abbrev SeenKeys := List (String × Seen)

/-- A key may be given twice only as data outside strict code, or as a getter and a setter. -/
def Seen.conflicts (seen : Seen) (strict : Bool) : PropertyKind → Bool
  | .init => (seen.data && strict) || seen.getter || seen.setter
  | .getter => seen.data || seen.getter
  | .setter => seen.data || seen.setter

def Seen.note (seen : Seen) : PropertyKind → Seen
  | .init => { seen with data := true }
  | .getter => { seen with getter := true }
  | .setter => { seen with setter := true }

/-- Notes a key of an object literal, unless that conflicts with what was seen of it. -/
def noteKey (seen : SeenKeys) (key : String) (kind : PropertyKind) (offset : Nat) :
    Build SeenKeys := do
  let known := (seen.lookup key).getD {}
  if known.conflicts (← strict) kind then failAt .duplicateProperty offset
  return (key, known.note kind) :: seen

end Ecma.Syntax
