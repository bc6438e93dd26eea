import Ecma.Eval.Completion
import Ecma.Eval.Expression
import Ecma.Heap.Enumerator

set_option autoImplicit false

/-!
Executing statements. Every statement but blocks and labelled ones counts as a step, and so does
every round of a loop.
-/

namespace Ecma

open Ecma.Program Ecma.Syntax Run

/-- The outcome of a round: another one with the value so far, or the end of the loop. -/
abbrev Round := Option Value ⊕ Completion

/-- Takes the body's completion; the value of the latest round that has one is the loop's. -/
def endRound (labels : List Label) (value : Option Value) (c : Completion) : Round :=
  let value := c.value.or value
  match c.afterRound labels with
  | .again => .inl value
  | .leave => .inr { value := value }
  | .pass => .inr (c.orValue value)

/-- Tests, then runs the body and the update, until the test fails. -/
def whileRounds (labels : List Label) (test : Run Bool) (body : Run Completion)
    (update : Run Unit) : Run Completion :=
  loop none fun value => do
    step
    if ← test then
      match endRound labels value (← body) with
      | .inl value => do
        update
        return .inl value
      | .inr c => return .inr c
    else return .inr { value := value }

/-- Runs the body, then tests. -/
def doRounds (labels : List Label) (body : Run Completion) (test : Run Bool) : Run Completion :=
  loop none fun value => do
    step
    match endRound labels value (← body) with
    | .inl value => do
      if ← test then return .inl value else return .inr { value := value }
    | .inr c => return .inr c

/-- Runs the body for every enumerable name of an object and its prototypes. -/
def nameRounds (labels : List Label) (id : ObjectId) (assign : Value → Run Unit)
    (body : Run Completion) : Run Completion := do
  let start := Enumerator.start (← heap) id false true
  loop (start, none) fun (names, value) => do
    match names.next (← heap) with
    | (none, _) => return .inr { value := value }
    | (some key, names) =>
      step
      assign (.string key.text)
      match endRound labels value (← body) with
      | .inl value => return .inl (names, value)
      | .inr c => return .inr c

/-- Runs a catch clause with what was thrown bound to its name. -/
def runHandler {α : Type} (own : OwnName) (thrown : Value) (body : Run α) : Run α := do
  let outer := (← running).lexicalEnv
  let env ← if own.collapsed then pure outer else newScope outer
  inEnvironment env do
    match own.slot with
    | some index => setSlot index thrown
    | none => do
      createBinding env own.name false
      setBinding env own.name thrown false
    body

/-- Hands what was thrown to the handler. All other interrupts pass, and so does their heap. -/
def catching (block : Run Completion) (handler : Value → Run Completion) : Run Completion :=
  fun machine r =>
    match block machine r with
    | .error (.thrown v) r => handler v machine r
    | outcome => outcome

/-- Runs the finalizer after an end of the block that scripts can see; a jump out of the finalizer
takes the place of that end. -/
def thenFinally (block : Run Completion) (finalizer : Run Completion) : Run Completion :=
  fun machine r =>
    match block machine r with
    | .ok c r =>
      match finalizer machine r with
      | .ok f r => .ok (if f.jump.isSome then f else c) r
      | .error e r => .error e r
    | .error (.thrown v) r =>
      match finalizer machine r with
      | .ok f r => if f.jump.isSome then .ok f r else .error (.thrown v) r
      | .error e r => .error e r
    | outcome => outcome

/-- Looks up the clause for a value among constant tests; the first one counts. -/
def findClause (table : List (Value × Nat)) (v : Value) : Option Nat :=
  (switchKey? v).bind fun key => table.lookup key

/-- The jump statements. -/
def jumpTo (jump : Jump) : Run Completion :=
  return { jump := some jump }

mutual

def execute (strict : Bool) : Stmt → Run Completion
  | .block body => executeAll strict none body
  | .labelled label body => do
    let c ← execute strict body
    return c.leaveLabel label
  | .step position action => do
    step
    setPosition position
    act strict action

/-- Runs statements in turn; `last` is the value of the latest one that had one. -/
def executeAll (strict : Bool) (last : Option Value) : List Stmt → Run Completion
  | [] => return { value := last }
  | s :: rest => do
    let c ← execute strict s
    if c.jump.isSome then return c.orValue last
    executeAll strict (c.value.or last) rest

def act (strict : Bool) : Action → Run Completion
  | .nothing => return .normal
  | .expression e => do
    let v ← evaluate strict e
    return { value := some v }
  | .«variables» assignments => do
    assignAll strict assignments
    return .normal
  | .returning none => return ⟨some .undefined, some .returning⟩
  | .returning (some e) => do
    let v ← evaluate strict e
    return ⟨some v, some .returning⟩
  | .breaking label => jumpTo (.breaking label)
  | .continuing label => jumpTo (.continuing label)
  | .conditional test yes no => do
    let v ← evaluate strict test
    if v.toBoolean then execute strict yes else executeOptional strict no
  | .throwing e => do
    let v ← evaluate strict e
    throwValue v
  | .whileLoop labels test body =>
    whileRounds labels (return (← evaluate strict test).toBoolean) (execute strict body) (return ())
  | .doLoop labels body test =>
    doRounds labels (execute strict body) (return (← evaluate strict test).toBoolean)
  | .forLoop labels init test update body => do
    startLoop strict init
    whileRounds labels (testOptional strict test) (execute strict body)
      (evaluateOptional strict update)
  | .forIn labels init target object body => do
    assignAll strict init
    let v ← evaluate strict object
    if v.isNullish then return .normal
    let id ← toObject v
    nameRounds labels id (fun name => do (← evaluateTarget strict target).write name strict)
      (execute strict body)
  | .switching labels subject selector otherwise clauses => do
    let v ← evaluate strict subject
    let selected ← select strict v selector
    match selected.or otherwise with
    | none => return .normal
    | some start => executeClauses strict labels start none clauses
  | .trying block handler finalizer => do
    let guarded := executeGuarded strict (executeAll strict none block) handler
    executeFinally strict guarded finalizer
  | .withObject object body => do
    let v ← evaluate strict object
    let id ← toObject v
    let env ← newEnvironment (.object id true) (some (← running).lexicalEnv)
    inEnvironment env (execute strict body)

def executeOptional (strict : Bool) : Option Stmt → Run Completion
  | none => return .normal
  | some s => execute strict s

def assignAll (strict : Bool) : List Assignment → Run Unit
  | [] => return ()
  | .mk v e :: rest => do
    let p ← placeOf v strict
    let value ← evaluate strict e
    p.write value strict
    assignAll strict rest

def startLoop (strict : Bool) : LoopInit → Run Unit
  | .none => return ()
  | .«variables» assignments => assignAll strict assignments
  | .expression e => discard <| evaluate strict e

def testOptional (strict : Bool) : Option Expr → Run Bool
  | none => return true
  | some e => return (← evaluate strict e).toBoolean

def evaluateOptional (strict : Bool) : Option Expr → Run Unit
  | none => return ()
  | some e => discard <| evaluate strict e

/-- The clause that a value selects. -/
def select (strict : Bool) (v : Value) : Selector → Run (Option Nat)
  | .direct table => return findClause table v
  | .tests tests => selectTest strict v tests

def selectTest (strict : Bool) (v : Value) : List Test → Run (Option Nat)
  | [] => return none
  | .mk clause e :: rest => do
    let t ← evaluate strict e
    if strictlyEqual v t then return some clause
    selectTest strict v rest

/-- Runs the clauses after those that are skipped, from one into the next. -/
def executeClauses (strict : Bool) (labels : List Label) (skipped : Nat) (last : Option Value) :
    List Program.Clause → Run Completion
  | [] => return { value := last }
  | .mk body :: rest =>
    match skipped with
    | skipped + 1 => executeClauses strict labels skipped last rest
    | 0 => do
      let c ← executeAll strict none body
      let last := c.value.or last
      if c.leavesSwitch labels then return { value := last }
      if c.jump.isSome then return c.orValue last
      executeClauses strict labels 0 last rest

def executeGuarded (strict : Bool) (block : Run Completion) : Option Program.Handler → Run Completion
  | none => block
  | some (.mk own body) => catching block fun thrown => runHandler own thrown (executeAll strict none body)

def executeFinally (strict : Bool) (block : Run Completion) : Option (List Stmt) → Run Completion
  | none => block
  | some body => thenFinally block (executeAll strict none body)

end

end Ecma
