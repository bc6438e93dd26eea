import Ecma.Eval.Expression
import Ecma.Eval.Statement

set_option autoImplicit false

/-!
What expressions mean as they are written. Operands are evaluated from left to right and once, no
constants are combined beforehand, and every operator is carried out with all its conversions.
-/

namespace Ecma

open Ecma.Program Ecma.Syntax Run

/-- What an expression means in each of the places where it can stand. -/
structure Meaning where
  value : Run Value
  /-- What it stands for where something is assigned to or deleted. -/
  target : Run Place
  /-- The function it gives where it is called, and the receiver. -/
  callee : Run (Value × Value)
  typeName : Run Value
  /-- The name that it is, if it is one. -/
  name? : Option String

namespace Meaning

def typeNameOf (value : Run Value) : Run Value := do
  let v ← value
  return .string ((← heap).typeOf v)

/-- The meaning of an expression that is neither a name nor a member. -/
def ofValue (value : Run Value) : Meaning where
  value := value
  target := do
    discard value
    return .nothing
  callee := do
    let f ← value
    return (f, .undefined)
  typeName := typeNameOf value
  name? := none

/-- The meaning of a name. -/
def ofName (v : Variable) (strict : Bool) : Meaning where
  value := readVariable v strict
  target := placeOf v strict
  callee := do
    let p ← placeOf v strict
    let f ← p.read
    return (f, p.receiver (← heap))
  typeName := do
    let p ← placeOf v strict
    p.typeOf
  name? := some v.name

/-- The object and the key of a member. -/
def memberOf (object key : Meaning) : Run (Value × PropertyKey) := do
  let base ← object.value
  let v ← key.value
  return (base, ← toPropertyKey v)

def ofMember (object key : Meaning) : Meaning where
  value := do
    let (base, key) ← memberOf object key
    getOf base key
  target := do
    let (base, key) ← memberOf object key
    return .property base key
  callee := do
    let (base, key) ← memberOf object key
    return (← getOf base key, base)
  typeName := typeNameOf do
    let (base, key) ← memberOf object key
    getOf base key
  name? := none

def call (callee : Meaning) (site : Site) (arguments : Run (List Value)) (strict : Bool) :
    Run Value := do
  let (f, this) ← callee.callee
  let args ← arguments
  match callee.name? with
  | some name => callNamed site name f this args strict
  | none => callAt site f this args

def sign (op : Sign) (e : Meaning) : Run Value := do
  let v ← e.value
  return .number (op.apply (← toNumber v))

def unary (op : UnaryOp) (e : Meaning) (strict : Bool) : Run Value := do
  match op with
  | .typeOf => e.typeName
  | .delete =>
    let p ← e.target
    return .boolean (← p.delete strict)
  | .void =>
    discard e.value
    return .undefined
  | .not =>
    let v ← e.value
    return .boolean !v.toBoolean
  | .minus => sign .minus e
  | .plus => sign .plus e
  | .bitNot => sign .bitNot e

def binary (op : BinaryOp) (left right : Meaning) : Run Value := do
  let a ← left.value
  let b ← right.value
  operate op a b

def logical (op : LogicalOp) (left right : Meaning) : Run Value := do
  let v ← left.value
  if v.toBoolean == (op == .and) then right.value else return v

def conditional (test yes no : Meaning) : Run Value := do
  let v ← test.value
  if v.toBoolean then yes.value else no.value

def assign (op : Option BinaryOp) (target value : Meaning) (strict : Bool) : Run Value := do
  let p ← target.target
  match op with
  | none =>
    let v ← value.value
    p.write v strict
    return v
  | some op =>
    let old ← p.read
    let operand ← value.value
    let v ← operate op old operand
    p.write v strict
    return v

end Meaning

mutual

def meaning (s : Surroundings) (strict : Bool) : Expression → Meaning
  | .literal _ value => .ofValue (return literalValue value)
  | .this _ => .ofValue do return (← running).this
  | .identifier id => .ofName (s.resolve id) strict
  | .array _ elements => .ofValue do
    let items ← elementsMeaning s strict elements
    return .object (← newSparseArray items)
  | .object _ properties => .ofValue do
    let id ← newPlainObject
    propertiesMeaning s strict id properties
    return .object id
  | .function _ code ownScope => .ofValue do
    let routine := compileCode s code
    newNamedFunction routine
      (ownScope.map fun scope => s.ownName scope (routine.header.name.getD ""))
  | .member _ object key => .ofMember (meaning s strict object) (meaning s strict key)
  | .call span callee arguments => .ofValue
    ((meaning s strict callee).call (s.site span callee) (argumentsMeaning s strict arguments) strict)
  | .new span callee arguments => .ofValue do
    let f ← (meaning s strict callee).value
    let args ← argumentsMeaning s strict arguments
    constructAt (s.site span callee) f args
  | .unary _ op argument => .ofValue (Meaning.unary op (meaning s strict argument) strict)
  | .update _ op before argument => .ofValue do
    let p ← (meaning s strict argument).target
    updatePlace op before p strict
  | .binary _ op left right => .ofValue
    (Meaning.binary op (meaning s strict left) (meaning s strict right))
  | .logical _ op left right => .ofValue
    (Meaning.logical op (meaning s strict left) (meaning s strict right))
  | .conditional _ test yes no => .ofValue
    (Meaning.conditional (meaning s strict test) (meaning s strict yes) (meaning s strict no))
  | .assign _ op target value => .ofValue
    (Meaning.assign op (meaning s strict target) (meaning s strict value) strict)
  | .sequence _ items => .ofValue (lastMeaning s strict .undefined items)

def elementsMeaning (s : Surroundings) (strict : Bool) :
    List Syntax.Element → Run (List (Option Value))
  | [] => return []
  | .hole :: rest => do
    let vs ← elementsMeaning s strict rest
    return none :: vs
  | .item e :: rest => do
    let v ← (meaning s strict e).value
    let vs ← elementsMeaning s strict rest
    return some v :: vs

def propertiesMeaning (s : Surroundings) (strict : Bool) (id : ObjectId) :
    List Syntax.Property → Run Unit
  | [] => return ()
  | .mk key kind value :: rest => do
    let v ← (meaning s strict value).value
    discard <| defineOwn id (.ofString key) (propertyDefinition kind v) false
    propertiesMeaning s strict id rest

def argumentsMeaning (s : Surroundings) (strict : Bool) : List Expression → Run (List Value)
  | [] => return []
  | e :: rest => do
    let v ← (meaning s strict e).value
    let vs ← argumentsMeaning s strict rest
    return v :: vs

/-- The items of a sequence; the value of the last one counts. -/
def lastMeaning (s : Surroundings) (strict : Bool) (last : Value) : List Expression → Run Value
  | [] => return last
  | e :: rest => do
    let v ← (meaning s strict e).value
    lastMeaning s strict v rest

end

/-! The leaves of evaluation: what needs no operands. -/

variable (strict : Bool) (s : Surroundings)

theorem evaluate_constant (v : Value) : evaluate strict (.constant v) = pure v := by
  rw [evaluate]

theorem evaluate_variable (v : Variable) : evaluate strict (.variable v) = readVariable v strict := by
  rw [evaluate]

theorem evaluate_known_key (key : PropertyKey) : evaluateKey strict (.known key) = pure key := by
  rw [evaluateKey]

theorem evaluate_name_target (v : Variable) : evaluateTarget strict (.variable v) = placeOf v strict := by
  rw [evaluateTarget]

theorem compile_literal (span : Span) (value : Literal) :
    compileExpr s (.literal span value) = .constant (literalValue value) := by
  rw [compileExpr]

theorem meaning_literal (span : Span) (value : Literal) :
    meaning s strict (.literal span value) = .ofValue (pure (literalValue value)) := by
  rw [meaning]

end Ecma

/-!
What statements mean as they are written. A jump carries the name of a label. A loop takes the jumps
without a label and a `continue` to a label right before it, a `switch` statement takes a `break` without a
label, and a labelled statement takes a `break` to its label; all others go on outwards.
-/

namespace Ecma

open Ecma.Program Ecma.Syntax Run

/-- A jump as it is written. -/
inductive NamedJump where
  | returning
  | breaking (label : Option String)
  | continuing (label : Option String)
deriving DecidableEq, Repr

/-- How a statement ends: with a value or none, and possibly with a jump. -/
structure Ending where
  value : Option Value := none
  jump : Option NamedJump := none

namespace Ending

def jumping (jump : NamedJump) : Ending :=
  { jump := some jump }

def orValue (c : Ending) (value : Option Value) : Ending :=
  { c with value := c.value.or value }

/-- The jump has arrived. -/
def arrived (c : Ending) : Ending :=
  { value := c.value }

/-- A labelled statement takes a `break` to its label. -/
def underLabel (c : Ending) (label : String) : Ending :=
  if c.jump = some (.breaking (some label)) then c.arrived else c

/-- What a loop behind some labels does after a round of its body: it goes on with the value so far, or it
ends. -/
def afterRound (labels : List String) (last : Option Value) (c : Ending) : Option Value ⊕ Ending :=
  match c.jump with
  | none => .inl (c.value.or last)
  | some (.continuing none) => .inl (c.value.or last)
  | some (.continuing (some label)) => if label ∈ labels then .inl (c.value.or last) else .inr (c.orValue last)
  | some (.breaking none) => .inr (c.orValue last).arrived
  | some _ => .inr (c.orValue last)

end Ending

/-! Loops. -/

def whileMeaning (labels : List String) (test : Run Bool) (body : Run Ending) (update : Run Unit) :
    Run Ending :=
  loop none fun value => do
    step
    if ← test then
      let c ← body
      match c.afterRound labels value with
      | .inl value => do
        update
        return .inl value
      | .inr c => return .inr c
    else return .inr { value := value }

def doMeaning (labels : List String) (body : Run Ending) (test : Run Bool) : Run Ending :=
  loop none fun value => do
    step
    let c ← body
    match c.afterRound labels value with
    | .inl value => do
      if ← test then return .inl value else return .inr { value := value }
    | .inr c => return .inr c

def namesMeaning (labels : List String) (id : ObjectId) (assign : Value → Run Unit) (body : Run Ending) :
    Run Ending := do
  let start := Enumerator.start (← heap) id false true
  loop (start, none) fun (names, value) => do
    match names.next (← heap) with
    | (none, _) => return .inr { value := value }
    | (some key, names) =>
      step
      assign (.string key.text)
      let c ← body
      match c.afterRound labels value with
      | .inl value => return .inl (names, value)
      | .inr c => return .inr c

/-! Errors. -/

def caughtBy (block : Run Ending) (handler : Value → Run Ending) : Run Ending :=
  fun machine r =>
    match block machine r with
    | .error (.thrown v) r => handler v machine r
    | outcome => outcome

/-- A jump out of the finalizer takes the place of how the block has ended. -/
def finishedBy (block finalizer : Run Ending) : Run Ending :=
  fun machine r =>
    match block machine r with
    | .ok c r =>
      match finalizer machine r with
      | .ok f r => .ok (if f.jump.isSome then f else c) r
      | .error e r => .error e r
    | .error (.thrown v) r =>
      match finalizer machine r with
      | .ok f r => if f.jump.isSome then .ok f r else .error (.thrown v) r
      | .error e r => .error e r
    | outcome => outcome

/-! Parts of statements. -/

section

variable (s : Surroundings) (strict : Bool)

def declaratorsMeaning : List Declarator → Run Unit
  | [] => return ()
  | .mk _ _ none :: rest => declaratorsMeaning rest
  | .mk _ id (some init) :: rest => do
    let p ← placeOf (s.resolve id) strict
    let v ← (meaning s strict init).value
    p.write v strict
    declaratorsMeaning rest

def testMeaning (e : Expression) : Run Bool := do
  let v ← (meaning s strict e).value
  return v.toBoolean

def optionalTestMeaning : Option Expression → Run Bool
  | none => return true
  | some e => testMeaning s strict e

def optionalMeaning : Option Expression → Run Unit
  | none => return ()
  | some e => discard (meaning s strict e).value

def initMeaning : ForInit → Run Unit
  | .none => return ()
  | .«variables» declarators => declaratorsMeaning s strict declarators
  | .expression e => discard (meaning s strict e).value

/-- The assignment before a `for-in` loop. -/
def forTargetInit : ForTarget → Run Unit
  | .variable d => declaratorsMeaning s strict [d]
  | .expression _ => return ()

def forTargetPlace : ForTarget → Run Place
  | .variable (.mk _ id _) => placeOf (s.resolve id) strict
  | .expression e => (meaning s strict e).target

/-- The first clause whose test equals a value; the tests are evaluated in turn. -/
def selectMeaning (v : Value) (clause : Nat) : List Syntax.Clause → Run (Option Nat)
  | [] => return none
  | .mk _ none _ :: rest => selectMeaning v (clause + 1) rest
  | .mk _ (some test) _ :: rest => do
    let t ← (meaning s strict test).value
    if strictlyEqual v t then return some clause
    selectMeaning v (clause + 1) rest

/-- The default clause. -/
def defaultClause (clause : Nat) : List Syntax.Clause → Option Nat
  | [] => none
  | .mk _ none _ :: _ => some clause
  | .mk _ (some _) _ :: rest => defaultClause (clause + 1) rest

/-- Every other statement than a block or a labelled one is a step. -/
def atStep (span : Span) (run : Run Ending) : Run Ending := do
  step
  setPosition span.start
  run

end

mutual

/-- A statement; `own` are the labels right before it. -/
def statementMeaning (s : Surroundings) (strict : Bool) (own : List String) : Statement → Run Ending
  | .block _ body => statementsMeaning s strict none body
  | .labelled _ label body => do
    let c ← statementMeaning (s.enter label) strict (own ++ [label]) body
    return c.underLabel label
  | .expression span e => atStep span do
    let v ← (meaning s strict e).value
    return { value := some v }
  | .«variables» span declarators => atStep span do
    declaratorsMeaning s strict declarators
    return {}
  | .function span => atStep span (return {})
  | .empty span => atStep span (return {})
  | .debugger span => atStep span (return {})
  | .returning span none => atStep span (return ⟨some .undefined, some .returning⟩)
  | .returning span (some e) => atStep span do
    let v ← (meaning s strict e).value
    return ⟨some v, some .returning⟩
  | .breaking span label => atStep span (return .jumping (.breaking label))
  | .continuing span label => atStep span (return .jumping (.continuing label))
  | .conditional span test yes no => atStep span do
    let v ← (meaning s strict test).value
    if v.toBoolean then statementMeaning s strict [] yes else alternativeMeaning s strict no
  | .throwing span e => atStep span do
    let v ← (meaning s strict e).value
    throwValue v
  | .whileLoop span test body => atStep span
    (whileMeaning own (testMeaning s strict test) (statementMeaning s strict [] body) (return ()))
  | .doLoop span body test => atStep span
    (doMeaning own (statementMeaning s strict [] body) (testMeaning s strict test))
  | .forLoop span init test update body => atStep span do
    initMeaning s strict init
    whileMeaning own (optionalTestMeaning s strict test) (statementMeaning s strict [] body)
      (optionalMeaning s strict update)
  | .forIn span target object body => atStep span do
    forTargetInit s strict target
    let v ← (meaning s strict object).value
    if v.isNullish then return {}
    let id ← toObject v
    namesMeaning own id (fun name => do (← forTargetPlace s strict target).write name strict)
      (statementMeaning s strict [] body)
  | .switching span subject clauses => atStep span do
    let v ← (meaning s strict subject).value
    let selected ← selectMeaning s strict v 0 clauses
    match selected.or (defaultClause 0 clauses) with
    | none => return {}
    | some start => clausesMeaning s strict start none clauses
  | .trying span block handler finalizer => atStep span
    (finalizerMeaning s strict (handlerMeaning s strict (statementsMeaning s strict none block) handler)
      finalizer)
  | .withObject span object _ body => atStep span do
    let v ← (meaning s strict object).value
    let id ← toObject v
    let env ← newEnvironment (.object id true) (some (← running).lexicalEnv)
    inEnvironment env (statementMeaning s strict [] body)

/-- Statements in turn; `last` is the value of the latest one that had one. -/
def statementsMeaning (s : Surroundings) (strict : Bool) (last : Option Value) :
    List Statement → Run Ending
  | [] => return { value := last }
  | statement :: rest => do
    let c ← statementMeaning s strict [] statement
    if c.jump.isSome then return c.orValue last
    statementsMeaning s strict (c.value.or last) rest

def alternativeMeaning (s : Surroundings) (strict : Bool) : Option Statement → Run Ending
  | none => return {}
  | some statement => statementMeaning s strict [] statement

/-- The clauses after those that are skipped, from one into the next. -/
def clausesMeaning (s : Surroundings) (strict : Bool) (skipped : Nat) (last : Option Value) :
    List Syntax.Clause → Run Ending
  | [] => return { value := last }
  | .mk _ _ body :: rest =>
    match skipped with
    | skipped + 1 => clausesMeaning s strict skipped last rest
    | 0 => do
      let c ← statementsMeaning s strict none body
      if c.jump = some (.breaking none) then return (c.orValue last).arrived
      if c.jump.isSome then return c.orValue last
      clausesMeaning s strict 0 (c.value.or last) rest

def handlerMeaning (s : Surroundings) (strict : Bool) (block : Run Ending) :
    Option Syntax.Handler → Run Ending
  | none => block
  | some (.mk _ param body) => caughtBy block fun thrown =>
    runHandler (s.ownName param.scope param.name) thrown (statementsMeaning s strict none body)

def finalizerMeaning (s : Surroundings) (strict : Bool) (block : Run Ending) :
    Option (List Statement) → Run Ending
  | none => block
  | some body => finishedBy block (statementsMeaning s strict none body)

end

end Ecma
