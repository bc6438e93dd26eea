import Ecma.Eval.Machine
import Ecma.Realm.Create

set_option autoImplicit false

/-!
Entering a realm from outside. An entry parses or calls something, and what it gives is a value or the
reason why there is none; either way the realm can be entered again.
-/

namespace Ecma

open Ecma.Program Ecma.Syntax Run

/-- Why an entry gave no value. -/
inductive Failure where
  /-- The text is no program; nothing has run. -/
  | malformed (message : String)
  | uncaught (v : Value) (message : String)
  | stackOverflow (v : Value)
  | stepsExceeded
  /-- The machine's own bounds were reached. -/
  | exhausted
deriving DecidableEq, Inhabited

namespace Failure

def message : Failure → String
  | .malformed message => s!"SyntaxError: {message}"
  | .uncaught _ message => s!"Uncaught {message}"
  | .stackOverflow _ => "RangeError: Maximum call stack size exceeded"
  | .stepsExceeded => "RangeError: steps overflow"
  | .exhausted => "RangeError: evaluation is too long"

/-- The value that was thrown. -/
def value? : Failure → Option Value
  | .uncaught v _ => some v
  | .stackOverflow v => some v
  | _ => none

end Failure

/-- What an entry gives. -/
abbrev Entry := Except Failure Value

namespace Realm

/-- The text of a value for the host. -/
def displayRun (v : Value) : Run String := do
  match v with
  | .object id =>
    match (← Run.heap).kind id with
    | .error _ => errorSummary id
    | _ => toText v
  | v => toText v

/-- The text of a value for the host; a value whose conversion fails shows its class only. -/
def display (host : HostFunction) (v : Value) (r : Realm) (lookup : Lookup := Lookup.resolved) :
    String × Realm :=
  match (displayRun v).on host r lookup with
  | .ok text s => (text, s)
  | .error _ s =>
    let s := unwindTo r.depth s
    (s.heap.display v, s)

/-- Turns the outcome of a run into what the entry gives; `depth` is where the run started. -/
def finish (host : HostFunction) (depth : Nat) (lookup : Lookup := Lookup.resolved) :
    EStateM.Result Interrupt Realm Value → Entry × Realm
  | .ok v r => (.ok v, r)
  | .error e r =>
    let r := unwindTo depth r
    match e with
    | .thrown v =>
      let (message, r) := display host v r lookup
      (.error (.uncaught v message), r)
    | .stackOverflow v => (.error (.stackOverflow v), r)
    | .stepsExceeded => (.error .stepsExceeded, r)
    | .exhausted => (.error .exhausted, r)

def resetSteps (r : Realm) : Realm :=
  { r with steps := 0 }

/-- Runs a unit of global code. -/
def runProgram (routine : Routine) : Run Value :=
  enter (.code routine Intrinsic.globalEnvironment Intrinsic.globalEnvironment
    (.object Intrinsic.global) false)

/-- Parses and runs a program; its value is that of its last statement that has one. -/
def evaluateProgram (host : HostFunction) (text filename : String) (r : Realm)
    (lookup : Lookup := Lookup.resolved) : Entry × Realm :=
  match parseProgram text filename r.config.collapse with
  | .error e => (.error (.malformed (e.message text)), r)
  | .ok parsed =>
    finish host r.depth lookup ((runProgram (compile parsed)).on host r.resetSteps lookup)

/-- Calls a function. -/
def callFunction (host : HostFunction) (f this : Value) (args : List Value) (r : Realm)
    (lookup : Lookup := Lookup.resolved) : Entry × Realm :=
  finish host r.depth lookup ((call f this args).on host r.resetSteps lookup)

/-- Calls the handler that a script has left under a name, if there is one. -/
def callHandler (host : HostFunction) (name : String) (args : List Value) (r : Realm)
    (lookup : Lookup := Lookup.resolved) : Entry × Realm :=
  match r.handlers.find? name with
  | some handler =>
    if r.heap.isCallable handler then callFunction host handler .undefined args r lookup
    else (.ok .undefined, r)
  | none => (.ok .undefined, r)

/-- Reads a global property. -/
def readGlobal (name : String) : Run Value :=
  get Intrinsic.global (.ofString name)

/-- The value of a global name. The steps go on from the entry before. -/
def globalValue (host : HostFunction) (name : String) (r : Realm)
    (lookup : Lookup := Lookup.resolved) : Entry × Realm :=
  finish host r.depth lookup ((readGlobal name).on host r lookup)

/-- Registers a function of the host under a name, with the word the host knows it by. -/
def register (name word : String) (r : Realm) : Realm :=
  { r with hosts := r.hosts.put name word }

/-- Takes a function of the host away and says whether it was there. -/
def unregister (name : String) (r : Realm) : Bool × Realm :=
  (r.hosts.has name, { r with hosts := r.hosts.erase name })

/-- What was written to the two output streams since it was last taken. -/
def takeOutput (r : Realm) : (String × String) × Realm :=
  ((r.stdout, r.stderr), { r with stdout := "", stderr := "" })

end Realm

end Ecma
