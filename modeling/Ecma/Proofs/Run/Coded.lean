import Ecma.Eval.Statement
import Ecma.Proofs.Builtin.Dispatch
import Ecma.Proofs.Heap.Edit
import Ecma.Proofs.Run.Course

set_option autoImplicit false

/-!
Runs by how they are made. All that the code of scripts and the functions of the host do is put together in
a few ways, so that what each of these ways preserves is preserved by every run.
-/

namespace Ecma

open Ecma.Program Run

-- A run that does not depend on the steps counted so far.
def Run.Blind {α : Type} (f : Realm → Run α) : Prop :=
  ∀ r n, f (r.withSteps n) = f r

-- The flag `raw` lets a host do anything uniform, `free` lets it change limits, look at everything and take
-- the interrupts that scripts cannot; code of scripts does none of these. The last flag says whether the
-- place of the code that runs may move.
inductive Coded (raw free : Bool) : {α : Type} → Bool → Run α → Prop
  | uniform {α : Type} {moves : Bool} (x : Run α) (allowed : raw = true ∧ free = true) (uniform : Uniform x) :
      Coded raw free moves x
  | native {α : Type} {moves : Bool} (x : Run α) (native : Native free x) : Coded raw free moves x
  | bind {α β : Type} {moves : Bool} (x : Run α) (f : α → Run β) (first : Coded raw free moves x)
      (second : ∀ a, Coded raw free moves (f a)) : Coded raw free moves (x >>= f)
  | look {α : Type} {moves : Bool} (f : Realm → Run α) (blind : free = true ∨ Blind f)
      (each : ∀ r, Coded raw free moves (f r)) : Coded raw free moves (MonadState.get >>= f)
  | found {moves : Bool} (v : Variable) (strict : Bool) : Coded raw free moves (placeOf v strict)
  | update {α : Type} {moves : Bool} (f : Heap → α × Heap) (regular : ∀ h : Heap, h.Regular (f h).2) :
      Coded raw free moves (updateHeap f)
  | modify {moves : Bool} (f : Heap → Heap) (regular : ∀ h : Heap, h.Regular (f h)) : Coded raw free moves (modifyHeap f)
  | function {moves : Bool} (routine : Routine) (scope : EnvironmentId) : Coded raw free moves (newFunction routine scope)
  | place (f : Context → Context) (same : ∀ c : Context, c.SameCode (f c)) : Coded raw free true (modifyRunning f)
  | step {moves : Bool} : Coded raw free moves step
  | within {α : Type} (env : EnvironmentId) (body : Run α) (inside : Coded raw free true body) :
      Coded raw free true (inEnvironment env body)
  | catching {moves : Bool} (block : Run Completion) (handler : Value → Run Completion)
      (body : Coded raw free moves block) (rest : ∀ v, Coded raw free moves (handler v)) :
      Coded raw free moves (catching block handler)
  | thenFinally {moves : Bool} (block finalizer : Run Completion) (body : Coded raw free moves block)
      (rest : Coded raw free moves finalizer) : Coded raw free moves (thenFinally block finalizer)
  | whileRounds {moves : Bool} (labels : List Label) (test : Run Bool) (body : Run Completion) (update : Run Unit)
      (tests : Coded raw free moves test) (runs : Coded raw free moves body) (updates : Coded raw free moves update) :
      Coded raw free moves (whileRounds labels test body update)
  | doRounds {moves : Bool} (labels : List Label) (body : Run Completion) (test : Run Bool)
      (runs : Coded raw free moves body) (tests : Coded raw free moves test) :
      Coded raw free moves (doRounds labels body test)
  | nameRounds {moves : Bool} (labels : List Label) (id : ObjectId) (assign : Value → Run Unit) (body : Run Completion)
      (assigns : ∀ v, Coded raw free moves (assign v)) (runs : Coded raw free moves body) :
      Coded raw free moves (nameRounds labels id assign body)
  | enter {moves : Bool} (invocation : Invocation) : Coded raw free moves (enter invocation)
  | evaluation {moves : Bool} (text : String) (strict : Bool) (caller : Context) :
      Coded raw free moves (runEvalCode text strict caller)
  | rescuing {α : Type} {moves : Bool} (block : Run α) (handler : Interrupt → Option (Run α))
      (passes : free = true ∨ handler .stepsExceeded = none ∧ handler .exhausted = none)
      (body : Coded raw free moves block) (each : ∀ e x, handler e = some x → Coded raw free moves x) :
      Coded raw free moves (rescuing block handler)

section

variable {raw free moves : Bool} {α β : Type}

theorem coded_pure (a : α) : Coded raw free moves (pure a) := by
  exact .native _ (.pure a)

theorem coded_heap (f : Heap → Run α) (each : ∀ h, Coded raw free moves (f h)) : Coded raw free moves (heap >>= f) := by
  have whole : (heap >>= f) = ((MonadState.get : Run Realm) >>= fun r => f r.heap) := by
    rfl
  rw [whole]
  exact .look _ (.inr fun _ _ => rfl) fun r => each r.heap

theorem coded_running (f : Context → Run α) (each : ∀ c, Coded raw free moves (f c)) :
    Coded raw free moves (running >>= f) := by
  have whole : (running >>= f) = ((MonadState.get : Run Realm) >>= fun r => f r.running) := by
    rfl
  rw [whole]
  exact .look _ (.inr fun _ _ => rfl) fun r => each r.running

theorem coded_scope (outer : EnvironmentId) : Coded raw free moves (newScope outer) := by
  exact .update _ fun h => .environment h _

theorem coded_evaluation (v : Value) (strict : Bool) (caller : Context) :
    Coded raw free moves (evaluateText v strict caller) := by
  cases v with
  | string text => exact .evaluation text strict caller
  | _ => exact coded_pure _

end

end Ecma

/-!
Runs without statements. They count no steps and catch nothing; what they do beside calls is done at once.
-/

namespace Ecma

open Ecma.Program Run

inductive Straight (free : Bool) : {α : Type} → Bool → Run α → Prop
  | native {α : Type} {moves : Bool} (x : Run α) (native : Native free x) : Straight free moves x
  | bind {α β : Type} {moves : Bool} (x : Run α) (f : α → Run β) (first : Straight free moves x)
      (second : ∀ a, Straight free moves (f a)) : Straight free moves (x >>= f)
  | look {α : Type} {moves : Bool} (f : Realm → Run α) (blind : free = true ∨ Blind f)
      (each : ∀ r, Straight free moves (f r)) : Straight free moves (MonadState.get >>= f)
  | found {moves : Bool} (v : Variable) (strict : Bool) : Straight free moves (placeOf v strict)
  | update {α : Type} {moves : Bool} (f : Heap → α × Heap) (regular : ∀ h : Heap, h.Regular (f h).2) :
      Straight free moves (updateHeap f)
  | modify {moves : Bool} (f : Heap → Heap) (regular : ∀ h : Heap, h.Regular (f h)) : Straight free moves (modifyHeap f)
  | function {moves : Bool} (routine : Routine) (scope : EnvironmentId) : Straight free moves (newFunction routine scope)
  | position (position : Nat) : Straight free true (setPosition position)
  | enter {moves : Bool} (invocation : Invocation) : Straight free moves (enter invocation)
  | evaluation {moves : Bool} (text : String) (strict : Bool) (caller : Context) :
      Straight free moves (runEvalCode text strict caller)

section

variable {raw free moves : Bool} {α β : Type}

theorem straight_coded (x : Run α) (straight : Straight free moves x) : Coded raw free moves x := by
  induction straight with
  | native x native => exact .native x native
  | bind x f _ _ first second => exact .bind x f first second
  | look f blind _ each => exact .look f blind each
  | found v strict => exact .found v strict
  | update f regular => exact .update f regular
  | modify f regular => exact .modify f regular
  | function routine scope => exact .function routine scope
  | position position => exact .place _ fun _ => ⟨rfl, rfl⟩
  | enter invocation => exact .enter invocation
  | evaluation text strict caller => exact .evaluation text strict caller

theorem straight_pure (a : α) : Straight free moves (pure a) := by
  exact .native _ (.pure a)

theorem straight_discard (x : Run α) (straight : Straight free moves x) :
    Straight free moves (discard x : Run PUnit) := by
  have whole : (discard x : Run PUnit) = x >>= fun _ => pure PUnit.unit := by
    exact (bind_pure_comp (fun _ => PUnit.unit) x).symm
  rw [whole]
  exact .bind _ _ straight fun _ => straight_pure _

theorem straight_heap (f : Heap → Run α) (each : ∀ h, Straight free moves (f h)) :
    Straight free moves (heap >>= f) := by
  have whole : (heap >>= f) = ((MonadState.get : Run Realm) >>= fun r => f r.heap) := by
    rfl
  rw [whole]
  exact .look _ (.inr fun _ _ => rfl) fun r => each r.heap

theorem straight_running (f : Context → Run α) (each : ∀ c, Straight free moves (f c)) :
    Straight free moves (running >>= f) := by
  have whole : (running >>= f) = ((MonadState.get : Run Realm) >>= fun r => f r.running) := by
    rfl
  rw [whole]
  exact .look _ (.inr fun _ _ => rfl) fun r => each r.running

theorem straight_ite (c : Prop) [Decidable c] (x y : Run α) (yes : Straight free moves x) (no : Straight free moves y) :
    Straight free moves (if c then x else y) := by
  split
  · exact yes
  · exact no

theorem straight_error (kind : ErrorKind) (message : String) :
    Straight free moves (Run.throwError kind message : Run α) := by
  exact .native _ (throw_error_native kind message)

theorem straight_scope (outer : EnvironmentId) : Straight free moves (newScope outer) := by
  exact .update _ fun h => .environment h _

theorem straight_bindings (env : EnvironmentId) (f : Bindings → Bindings) :
    Straight free moves (modifyHeap fun h => h.modifyBindings env f) := by
  exact .modify _ fun h => .bindings h env f

theorem straight_evaluation (v : Value) (strict : Bool) (caller : Context) :
    Straight free moves (evaluateText v strict caller) := by
  cases v with
  | string text => exact .evaluation text strict caller
  | _ => exact straight_pure _

/-! Statements put runs without statements together in ways of their own. -/

inductive Scripted (free : Bool) : {α : Type} → Run α → Prop
  | straight {α : Type} (x : Run α) (straight : Straight free true x) : Scripted free x
  | bind {α β : Type} (x : Run α) (f : α → Run β) (first : Scripted free x) (second : ∀ a, Scripted free (f a)) :
      Scripted free (x >>= f)
  | running {α : Type} (f : Context → Run α) (each : ∀ c, Scripted free (f c)) : Scripted free (running >>= f)
  | step : Scripted free step
  | within {α : Type} (env : EnvironmentId) (body : Run α) (inside : Scripted free body) :
      Scripted free (inEnvironment env body)
  | catching (block : Run Completion) (handler : Value → Run Completion) (body : Scripted free block)
      (rest : ∀ v, Scripted free (handler v)) : Scripted free (catching block handler)
  | thenFinally (block finalizer : Run Completion) (body : Scripted free block) (rest : Scripted free finalizer) :
      Scripted free (thenFinally block finalizer)
  | whileRounds (labels : List Label) (test : Run Bool) (body : Run Completion) (update : Run Unit)
      (tests : Scripted free test) (runs : Scripted free body) (updates : Scripted free update) :
      Scripted free (whileRounds labels test body update)
  | doRounds (labels : List Label) (body : Run Completion) (test : Run Bool) (runs : Scripted free body)
      (tests : Scripted free test) : Scripted free (doRounds labels body test)
  | nameRounds (labels : List Label) (id : ObjectId) (assign : Value → Run Unit) (body : Run Completion)
      (assigns : ∀ v, Scripted free (assign v)) (runs : Scripted free body) :
      Scripted free (nameRounds labels id assign body)

theorem scripted_coded (x : Run α) (scripted : Scripted free x) : Coded raw free true x := by
  induction scripted with
  | straight x straight => exact straight_coded x straight
  | bind x f _ _ first second => exact .bind x f first second
  | running f _ each => exact coded_running f each
  | step => exact .step
  | within env body _ inside => exact .within env body inside
  | catching block handler _ _ body rest => exact .catching block handler body rest
  | thenFinally block finalizer _ _ body rest => exact .thenFinally block finalizer body rest
  | whileRounds labels test body update _ _ _ tests runs updates =>
    exact .whileRounds labels test body update tests runs updates
  | doRounds labels body test _ _ runs tests => exact .doRounds labels body test runs tests
  | nameRounds labels id assign body _ _ assigns runs => exact .nameRounds labels id assign body assigns runs

theorem scripted_pure (a : α) : Scripted free (pure a) := by
  exact .straight _ (straight_pure a)

theorem scripted_ite (c : Prop) [Decidable c] (x y : Run α) (yes : Scripted free x) (no : Scripted free y) :
    Scripted free (if c then x else y) := by
  split
  · exact yes
  · exact no

end

/-! Where no code can be entered, runs without statements count nothing, change no limit and raise no signal but
that of the machine. -/

section

variable {m : Machine} {α β : Type}

end

section

variable {host : HostFunction} {rounds : Nat} {moves : Bool} {α : Type}

end

end Ecma
