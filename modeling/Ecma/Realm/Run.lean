import Ecma.Realm.Place

set_option autoImplicit false

/-!
Running code. A run changes the realm and gives a result or is interrupted. It finds the places of
names and enters other code through the machine it runs on, which is bounded: how deep entries may
nest, and how many rounds one loop may take. Both bounds are far beyond what any run reaches.
-/

namespace Ecma

open Ecma.Program

/-- The ways to enter code. -/
inductive Invocation where
  | call (f : ObjectId) (this : Value) (args : List Value)
  | construct (f : ObjectId) (args : List Value)
  /-- Global or eval code; `deletable` says whether the names it declares can be deleted. -/
  | code (routine : Routine) (lexicalEnv variableEnv : EnvironmentId) (this : Value)
      (deletable : Bool)

/-- What a run finds names and enters other code with. -/
structure Machine where
  rounds : Nat
  lookup : Lookup
  enter : Invocation → EStateM Interrupt Realm Value

abbrev Run := ReaderT Machine (EStateM Interrupt Realm)

namespace Run

variable {α σ : Type}

def enter (invocation : Invocation) : Run Value := fun machine => machine.enter invocation

/-- The place a name stands for. -/
def placeOf (v : Variable) (strict : Bool) : Run Place := fun machine r =>
  match machine.lookup v strict r with
  | .ok p => .ok p r
  | .error e => .error e r

def heap : Run Heap := return (← get).heap

def modifyHeap (f : Heap → Heap) : Run Unit :=
  modify fun r => { r with heap := f r.heap }

/-- Changes the heap and gives what the change says. -/
def updateHeap (f : Heap → α × Heap) : Run α :=
  modifyGet fun r =>
    let (a, heap) := f r.heap
    (a, { r with heap := heap })

def newObject (kind : ObjectKind) (prototype : Option ObjectId)
    (properties : PropertyTable := {}) : Run ObjectId :=
  updateHeap fun h => h.addObject { kind := kind, prototype := prototype, properties := properties }

def newPlainObject : Run ObjectId :=
  newObject .ordinary (some Intrinsic.objectPrototype)

/-! Errors. -/

/-- Makes an error object that keeps the stack of the moment. -/
def newErrorFrom (prototype : ObjectId) (message : Option Value) : Run ObjectId := do
  let frames := (← get).captureStack
  let names := message.toList.map fun m => ("message", Descriptor.hidden m)
  newObject (.error frames) (some prototype) (.ofNames names)

def newError (kind : ErrorKind) (message : String) : Run ObjectId :=
  newErrorFrom kind.prototype (if message.isEmpty then none else some (.string message))

def throwValue (v : Value) : Run α := throw (.thrown v)

def «throwError» (kind : ErrorKind) (message : String) : Run α := do
  throwValue (.object (← newError kind message))

def throwTypeError (message : String) : Run α := Run.throwError .typeError message

/-! Contexts and steps. -/

/-- Runs to the end, whatever the end is, and then changes the realm. -/
def always (after : Realm → Realm) (run : Run α) : Run α := fun machine r =>
  match run machine r with
  | .ok a r => .ok a (after r)
  | .error e r => .error e (after r)

def leaveContext (r : Realm) : Realm :=
  match r.waiting with
  | [] => { r with running := {} }
  | c :: rest => { r with running := c, waiting := rest }

def leaveContexts : Nat → Realm → Realm
  | 0, r => r
  | count + 1, r => leaveContexts count (leaveContext r)

/-- Leaves contexts until no more than so many are waiting. -/
def unwindTo (depth : Nat) (r : Realm) : Realm :=
  leaveContexts (r.depth - depth) r

/-- Runs in a context of its own, if the limit leaves room for one. -/
def inContext (c : Context) (run : Run α) : Run α := do
  let r ← get
  let full := r.config.depthLimit ≤ r.depth
  if full then
    throw (.stackOverflow (.object (← newError .rangeError "Maximum call stack size exceeded")))
  modify fun r => { r with running := c, waiting := r.running :: r.waiting }
  always leaveContext run

def modifyRunning (f : Context → Context) : Run Unit :=
  modify fun r => { r with running := f r.running }

def running : Run Context := return (← get).running

def setPosition (position : Nat) : Run Unit :=
  modifyRunning fun c => { c with position := position }

/-- Runs with another lexical environment. -/
def inEnvironment (env : EnvironmentId) (run : Run α) : Run α := do
  let saved := (← running).lexicalEnv
  modifyRunning fun c => { c with lexicalEnv := env }
  always (fun r => { r with running := { r.running with lexicalEnv := saved } }) run

/-- Counts a statement or a round of a loop. -/
def step : Run Unit := do
  modify fun r => { r with steps := r.steps + 1 }
  let r ← get
  match r.config.stepsLimit with
  | some limit => if limit < r.steps then throw .stepsExceeded
  | none => return ()

/-! Loops. -/

/-- Goes on until a round gives a result. -/
def loopFrom (round : σ → Run (σ ⊕ α)) : Nat → σ → Run α
  | 0, _ => throw .exhausted
  | rounds + 1, state => do
    match ← round state with
    | .inl state => loopFrom round rounds state
    | .inr result => return result

def loop (state : σ) (round : σ → Run (σ ⊕ α)) : Run α := do
  loopFrom round (← read).rounds state

end Run

end Ecma
