import Ecma.Builtin.Global
import Ecma.Eval.Machine
import Ecma.Proofs.Heap.Edit
import Ecma.Proofs.Run.Result

set_option autoImplicit false

/-!
The course of a run: what happens to the realm while code runs, in order. A run has a course by the way it
is made, and each moment of a course is a step from one realm to the next, so that a course accounts for
everything that the run does to the realm, its limits among it.
-/

namespace Ecma

open Ecma.Program Run

/-! Moments. -/

-- What can happen to a realm.
inductive Happening where
  | change
  /-- The running code goes to another position or gets other environments. -/
  | place
  | restore
  /-- A statement or a round of a loop begins. -/
  | count
  | exceed
  | exhaust
  /-- An activation of a script's, a provided or a host function, or of global or eval code begins. -/
  | enter
  /-- There is no room for an activation; `v` is the error made then. -/
  | refuse (v : Value)
  | leave
  /-- A catch clause begins. -/
  | handle
  /-- A finally block begins. -/
  | finalize
  /-- A function of the host takes an interrupt of what it has called. -/
  | rescue (e : Interrupt)

structure Moment where
  before : Realm
  kind : Happening
  after : Realm

-- The interrupt that a happening raises; scripts cannot catch it.
def Happening.signal? : Happening → Option Interrupt
  | .exceed => some .stepsExceeded
  | .refuse v => some (.stackOverflow v)
  | .exhaust => some .exhausted
  | _ => none

namespace Realm

def entering (r : Realm) (c : Context) : Realm :=
  { r with running := c, waiting := r.running :: r.waiting }

def withRunning (r : Realm) (c : Context) : Realm :=
  { r with running := c }

def withHeap (r : Realm) (h : Heap) : Realm :=
  { r with heap := h }

def counted (r : Realm) : Realm :=
  { r with steps := r.steps + 1 }

-- The limits, the output and what is registered may change at any time, and counting may start anew.
inductive Changes : Realm → Realm → Prop
  | heap (r : Realm) (h : Heap) (edit : Heap.Edit r.heap h) : Changes r (r.withHeap h)
  | beside (r s : Realm) (heap : s.heap = r.heap) (running : s.running = r.running)
      (waiting : s.waiting = r.waiting) (hosts : s.hosts = r.hosts) (steps : s.steps = r.steps ∨ s.steps = 0) :
      Changes r s

end Realm

-- The function and the code of a context stay the same while it runs.
def Context.SameCode (c c' : Context) : Prop :=
  c'.function = c.function ∧ c'.code = c.code

inductive Moment.Lawful : Moment → Prop
  | change (r s : Realm) (changes : r.Changes s) : Lawful ⟨r, .change, s⟩
  | place (r : Realm) (c : Context) (same : r.running.SameCode c) : Lawful ⟨r, .place, r.withRunning c⟩
  | restore (r : Realm) (c : Context) (same : r.running.SameCode c) : Lawful ⟨r, .restore, r.withRunning c⟩
  | count (r : Realm) (room : ∀ limit, r.config.stepsLimit = some limit → r.steps < limit) :
      Lawful ⟨r, .count, r.counted⟩
  | exceed (r : Realm) (limit : Nat) (limited : r.config.stepsLimit = some limit) (exceeded : limit ≤ r.steps) :
      Lawful ⟨r, .exceed, r.counted⟩
  | exhaust (r : Realm) : Lawful ⟨r, .exhaust, r⟩
  | enter (r : Realm) (c : Context) (room : r.depth < r.config.depthLimit) :
      Lawful ⟨r, .enter, r.entering c⟩
  | refuse (r : Realm) (o : Object) (frames : List StackFrame) (isError : o.kind = .error frames)
      (full : r.config.depthLimit ≤ r.depth) :
      Lawful ⟨r, .refuse (.object r.heap.objects.size), r.withHeap (r.heap.addObject o).2⟩
  | leave (r : Realm) : Lawful ⟨r, .leave, leaveContext r⟩
  | handle (r : Realm) : Lawful ⟨r, .handle, r⟩
  | finalize (r : Realm) : Lawful ⟨r, .finalize, r⟩
  | rescue (r : Realm) (e : Interrupt) : Lawful ⟨r, .rescue e, r⟩

-- Moments that lead from one realm to another.
inductive Chain : Realm → List Moment → Realm → Prop
  | nil (r : Realm) : Chain r [] r
  | cons (m : Moment) (t : List Moment) (s : Realm) (lawful : m.Lawful) (rest : Chain m.after t s) :
      Chain m.before (m :: t) s

theorem chain_single (m : Moment) (lawful : m.Lawful) : Chain m.before [m] m.after := by
  exact .cons m [] _ lawful (.nil _)

theorem chain_lawful (r s : Realm) (t : List Moment) (chain : Chain r t s) : ∀ m ∈ t, m.Lawful := by
  induction chain with
  | nil r => exact fun m member => absurd member List.not_mem_nil
  | cons m t s lawful _ hyp => exact List.forall_mem_cons.mpr ⟨lawful, hyp⟩

theorem chain_append (r s s' : Realm) (t t' : List Moment) (first : Chain r t s) (second : Chain s t' s') :
    Chain r (t ++ t') s' := by
  induction first with
  | nil r => exact second
  | cons m t s lawful _ hyp => exact .cons m _ _ lawful (hyp second)

namespace Run

variable {α : Type}

def endOf : EStateM.Result Interrupt Realm α → Realm
  | .ok _ r => r
  | .error _ r => r

-- The interrupt, if it is one that scripts cannot catch.
def signalOf : EStateM.Result Interrupt Realm α → Option Interrupt
  | .ok _ _ => none
  | .error (.thrown _) _ => none
  | .error e _ => some e

-- What a function of the host can do about the interrupts of what it calls.
def rescuing (block : Run α) (handler : Interrupt → Option (Run α)) : Run α := fun m r =>
  match block m r with
  | .ok a s => .ok a s
  | .error e s =>
    match handler e with
    | some x => x m s
    | none => .error e s

end Run

/-! Courses. -/

-- A run on the machine of a depth; the flag says whether it may move the place of the code that runs.
inductive Course (host : HostFunction) (rounds : Nat) :
    {α : Type} → Nat → Bool → Run α → Realm → List Moment → Prop
  | pure {α : Type} (d : Nat) (moves : Bool) (a : α) (r : Realm) : Course host rounds d moves (pure a) r []
  | get (d : Nat) (moves : Bool) (r : Realm) : Course host rounds d moves (MonadState.get : Run Realm) r []
  | read (d : Nat) (moves : Bool) (r : Realm) : Course host rounds d moves (MonadReader.read : Run Machine) r []
  | found (d : Nat) (moves : Bool) (v : Variable) (strict : Bool) (r : Realm) :
      Course host rounds d moves (placeOf v strict) r []
  | thrown {α : Type} (d : Nat) (moves : Bool) (v : Value) (r : Realm) :
      Course host rounds d moves (throw (.thrown v) : Run α) r []
  | bind {α β : Type} (d : Nat) (moves : Bool) (x : Run α) (f : α → Run β) (r s : Realm) (a : α)
      (t t' : List Moment) (first : Course host rounds d moves x r t)
      (ended : x (machine host .resolved rounds d) r = .ok a s)
      (second : Course host rounds d moves (f a) s t') : Course host rounds d moves (x >>= f) r (t ++ t')
  | broken {α β : Type} (d : Nat) (moves : Bool) (x : Run α) (f : α → Run β) (r s : Realm) (e : Interrupt)
      (t : List Moment) (first : Course host rounds d moves x r t)
      (ended : x (machine host .resolved rounds d) r = .error e s) : Course host rounds d moves (x >>= f) r t
  | change {α : Type} (d : Nat) (moves : Bool) (f : Realm → α × Realm) (r : Realm)
      (changes : r.Changes (f r).2) :
      Course host rounds d moves (modifyGet f : Run α) r [⟨r, .change, (f r).2⟩]
  | place (d : Nat) (f : Context → Context) (r : Realm) (same : r.running.SameCode (f r.running)) :
      Course host rounds d true (modifyRunning f) r [⟨r, .place, r.withRunning (f r.running)⟩]
  | count (d : Nat) (moves : Bool) (r : Realm)
      (room : ∀ limit, r.config.stepsLimit = some limit → r.steps < limit) :
      Course host rounds d moves step r [⟨r, .count, r.counted⟩]
  | exceed (d : Nat) (moves : Bool) (r : Realm) (limit : Nat) (limited : r.config.stepsLimit = some limit)
      (exceeded : limit ≤ r.steps) : Course host rounds d moves step r [⟨r, .exceed, r.counted⟩]
  | context {α : Type} (d : Nat) (moves : Bool) (c : Context) (run : Run α) (r : Realm) (t : List Moment)
      (room : r.depth < r.config.depthLimit) (body : Course host rounds d true run (r.entering c) t) :
      Course host rounds d moves (inContext c run) r (⟨r, .enter, r.entering c⟩ :: (t ++
        [⟨endOf (run (machine host .resolved rounds d) (r.entering c)), .leave,
          leaveContext (endOf (run (machine host .resolved rounds d) (r.entering c)))⟩]))
  | refuse {α : Type} (d : Nat) (moves : Bool) (c : Context) (run : Run α) (r s : Realm) (id : ObjectId)
      (full : r.config.depthLimit ≤ r.depth)
      (made : newError .rangeError "Maximum call stack size exceeded" (machine host .resolved rounds d) r =
        .ok id s) : Course host rounds d moves (inContext c run) r [⟨r, .refuse (.object id), s⟩]
  | within {α : Type} (d : Nat) (env : EnvironmentId) (run : Run α) (r s : Realm) (t : List Moment)
      (body : Course host rounds d true run (r.withRunning { r.running with lexicalEnv := env }) t)
      (ended : s = endOf (run (machine host .resolved rounds d)
        (r.withRunning { r.running with lexicalEnv := env }))) :
      Course host rounds d true (inEnvironment env run) r
        (⟨r, .place, r.withRunning { r.running with lexicalEnv := env }⟩ :: (t ++
          [⟨s, .restore, s.withRunning { s.running with lexicalEnv := r.running.lexicalEnv }⟩]))
  | uncaught (d : Nat) (moves : Bool) (block : Run Completion) (handler : Value → Run Completion) (r : Realm)
      (t : List Moment) (body : Course host rounds d moves block r t)
      (other : ∀ v s, block (machine host .resolved rounds d) r ≠ .error (.thrown v) s) :
      Course host rounds d moves (catching block handler) r t
  | caught (d : Nat) (moves : Bool) (block : Run Completion) (handler : Value → Run Completion) (r s : Realm)
      (v : Value) (t t' : List Moment) (body : Course host rounds d moves block r t)
      (ended : block (machine host .resolved rounds d) r = .error (.thrown v) s)
      (rest : Course host rounds d moves (handler v) s t') :
      Course host rounds d moves (catching block handler) r (t ++ ⟨s, .handle, s⟩ :: t')
  | unfinished (d : Nat) (moves : Bool) (block finalizer : Run Completion) (r : Realm) (e : Interrupt)
      (t : List Moment) (body : Course host rounds d moves block r t)
      (signal : signalOf (block (machine host .resolved rounds d) r) = some e) :
      Course host rounds d moves (thenFinally block finalizer) r t
  | finished (d : Nat) (moves : Bool) (block finalizer : Run Completion) (r s : Realm) (t t' : List Moment)
      (body : Course host rounds d moves block r t)
      (visible : signalOf (block (machine host .resolved rounds d) r) = none)
      (ended : s = endOf (block (machine host .resolved rounds d) r))
      (rest : Course host rounds d moves finalizer s t') :
      Course host rounds d moves (thenFinally block finalizer) r (t ++ ⟨s, .finalize, s⟩ :: t')
  | enter (d : Nat) (moves : Bool) (invocation : Invocation) (r : Realm) (t : List Moment)
      (body : Course host rounds d false (dispatch host invocation) r t) :
      Course host rounds (d + 1) moves (enter invocation) r t
  | bottom (moves : Bool) (invocation : Invocation) (r : Realm) :
      Course host rounds 0 moves (enter invocation) r [⟨r, .exhaust, r⟩]
  | exhausted {α : Type} (d : Nat) (moves : Bool) (r : Realm) :
      Course host rounds d moves (throw .exhausted : Run α) r [⟨r, .exhaust, r⟩]
  | passed {α : Type} (d : Nat) (moves : Bool) (block : Run α) (handler : Interrupt → Option (Run α)) (r : Realm)
      (t : List Moment) (body : Course host rounds d moves block r t)
      (other : ∀ e s, block (machine host .resolved rounds d) r = .error e s → handler e = none) :
      Course host rounds d moves (rescuing block handler) r t
  | rescued {α : Type} (d : Nat) (moves : Bool) (block : Run α) (handler : Interrupt → Option (Run α))
      (x : Run α) (r s : Realm) (e : Interrupt) (t t' : List Moment) (body : Course host rounds d moves block r t)
      (ended : block (machine host .resolved rounds d) r = .error e s) (taken : handler e = some x)
      (rest : Course host rounds d moves x s t') :
      Course host rounds d moves (rescuing block handler) r (t ++ ⟨s, .rescue e, s⟩ :: t')

/-! How the runs of a course end. -/

section

variable {α : Type} (m : Machine) (r : Realm)

-- The realm with an error object made now.
def Realm.withError (r : Realm) (kind : ErrorKind) (message : String) : Realm :=
  r.withHeap (r.heap.addObject
    { kind := .error r.captureStack, prototype := some kind.prototype
      properties := .ofNames (if message.isEmpty then [] else [("message", .hidden (.string message))]) }).2

theorem new_error_at (kind : ErrorKind) (message : String) :
    newError kind message m r = .ok r.heap.objects.size (r.withError kind message) := by
  by_cases empty : message.isEmpty = true
  · rw [newError, if_pos empty, Realm.withError, if_pos empty]
    rfl
  · rw [newError, if_neg empty, Realm.withError, if_neg empty]
    rfl

theorem throw_at (kind : ErrorKind) (message : String) :
    (Run.throwError kind message : Run α) m r =
      .error (.thrown (.object r.heap.objects.size)) (r.withError kind message) := by
  rw [Run.throwError, bind_at, new_error_at]
  rfl

theorem in_context_room (c : Context) (run : Run α) (room : r.depth < r.config.depthLimit) :
    inContext c run m r = match run m (r.entering c) with
      | .ok a s => .ok a (leaveContext s)
      | .error e s => .error e (leaveContext s) := by
  have open' : ¬ r.config.depthLimit ≤ r.depth := Nat.not_le.mpr room
  rw [inContext, bind_at]
  change (if r.config.depthLimit ≤ r.depth then _ else _ : Run α) m r = _
  rw [if_neg open']
  rfl

theorem in_context_full (c : Context) (run : Run α) (full : r.config.depthLimit ≤ r.depth) :
    inContext c run m r = .error (.stackOverflow (.object r.heap.objects.size))
      (r.withError .rangeError "Maximum call stack size exceeded") := by
  rw [inContext, bind_at]
  change (if r.config.depthLimit ≤ r.depth then _ else _ : Run α) m r = _
  rw [if_pos full, bind_at, new_error_at]
  rfl

theorem in_context_end (c : Context) (run : Run α) (room : r.depth < r.config.depthLimit) :
    endOf (inContext c run m r) = leaveContext (endOf (run m (r.entering c))) := by
  rw [in_context_room m r c run room]
  cases run m (r.entering c) <;> rfl

theorem in_environment_at (env : EnvironmentId) (run : Run α) :
    inEnvironment env run m r = match run m (r.withRunning { r.running with lexicalEnv := env }) with
      | .ok a s => .ok a (s.withRunning { s.running with lexicalEnv := r.running.lexicalEnv })
      | .error e s => .error e (s.withRunning { s.running with lexicalEnv := r.running.lexicalEnv }) := by
  rfl

theorem in_environment_end (env : EnvironmentId) (run : Run α) :
    endOf (inEnvironment env run m r) =
      (endOf (run m (r.withRunning { r.running with lexicalEnv := env }))).withRunning
        { (endOf (run m (r.withRunning { r.running with lexicalEnv := env }))).running with
          lexicalEnv := r.running.lexicalEnv } := by
  rw [in_environment_at]
  cases run m (r.withRunning { r.running with lexicalEnv := env }) <;> rfl

theorem place_of_at (host : HostFunction) (rounds d : Nat) (v : Variable) (strict : Bool) :
    placeOf v strict (machine host .resolved rounds d) r = .ok (r.placeOf v strict) r := by
  cases d <;> rfl

theorem catching_other (block : Run Completion) (handler : Value → Run Completion)
    (other : ∀ v s, block m r ≠ .error (.thrown v) s) : catching block handler m r = block m r := by
  rw [catching]
  split
  · next v s ended => exact absurd ended (other v s)
  · rfl

theorem catching_thrown (s : Realm) (block : Run Completion) (handler : Value → Run Completion) (v : Value)
    (ended : block m r = .error (.thrown v) s) : catching block handler m r = handler v m s := by
  simp only [catching, ended]

theorem finally_signal (block finalizer : Run Completion) (e : Interrupt)
    (signal : signalOf (block m r) = some e) : thenFinally block finalizer m r = block m r := by
  rw [thenFinally]
  split
  · next c s ended =>
    rw [ended] at signal
    cases signal
  · next v s ended =>
    rw [ended] at signal
    cases signal
  · rfl

-- A finalizer that runs decides where the realm ends.
theorem finally_end (block finalizer : Run Completion) (visible : signalOf (block m r) = none) :
    endOf (thenFinally block finalizer m r) = endOf (finalizer m (endOf (block m r))) := by
  rw [thenFinally]
  cases ended : block m r with
  | ok c s =>
    dsimp only [endOf]
    cases finalizer m s <;> rfl
  | error e s =>
    cases e with
    | thrown v =>
      dsimp only [endOf]
      cases finalizer m s with
      | ok f s' =>
        by_cases jumped : f.jump.isSome = true
        · simp only [if_pos jumped, endOf]
        · simp only [if_neg jumped, endOf]
      | error e' s' => rfl
    | _ =>
      rw [ended] at visible
      cases visible

theorem rescuing_other (block : Run α) (handler : Interrupt → Option (Run α))
    (other : ∀ e s, block m r = .error e s → handler e = none) : rescuing block handler m r = block m r := by
  rw [rescuing]
  cases ended : block m r with
  | ok a s => rfl
  | error e s =>
    dsimp only
    rw [other e s ended]

theorem rescuing_taken (s : Realm) (block : Run α) (handler : Interrupt → Option (Run α)) (e : Interrupt)
    (x : Run α) (ended : block m r = .error e s) (taken : handler e = some x) :
    rescuing block handler m r = x m s := by
  simp only [rescuing, ended, taken]

theorem step_room (room : ∀ limit, r.config.stepsLimit = some limit → r.steps < limit) :
    step m r = .ok () r.counted := by
  rw [step_at]
  cases limited : r.config.stepsLimit with
  | none => rfl
  | some limit =>
    have below : ¬ limit < r.steps + 1 := Nat.not_lt.mpr (room limit limited)
    dsimp only
    rw [if_neg below]
    rfl

theorem step_over (limit : Nat) (limited : r.config.stepsLimit = some limit) (exceeded : limit ≤ r.steps) :
    step m r = .error .stepsExceeded r.counted := by
  rw [step_at, limited]
  dsimp only
  rw [if_pos (Nat.lt_succ_of_le exceeded)]
  rfl

end

-- A course leads from the realm where the run starts to the one where it ends.
theorem course_chain (host : HostFunction) (rounds : Nat) {α : Type} (d : Nat) (moves : Bool) (x : Run α)
    (r : Realm) (t : List Moment) (course : Course host rounds d moves x r t) :
    Chain r t (endOf (x (machine host .resolved rounds d) r)) := by
  induction course with
  | pure d moves a r => exact .nil r
  | get d moves r => exact .nil r
  | read d moves r => exact .nil r
  | found d moves v strict r =>
    rw [place_of_at]
    exact .nil r
  | thrown d moves v r => exact .nil r
  | bind d moves x f r s a t t' first ended second hyp hyp' =>
    rw [ended] at hyp
    rw [bind_at, ended]
    exact chain_append _ _ _ _ _ hyp hyp'
  | broken d moves x f r s e t first ended hyp =>
    rw [ended] at hyp
    rw [bind_at, ended]
    exact hyp
  | change d moves f r changes => exact chain_single _ (.change _ _ changes)
  | place d f r same => exact chain_single _ (.place _ _ same)
  | count d moves r room =>
    rw [step_room _ r room]
    exact chain_single _ (.count r room)
  | exceed d moves r limit limited exceeded =>
    rw [step_over _ r limit limited exceeded]
    exact chain_single _ (.exceed r limit limited exceeded)
  | context d moves c run r t room body hyp =>
    rw [in_context_end _ r c run room]
    exact .cons _ _ _ (.enter r c room) (chain_append _ _ _ _ _ hyp (chain_single _ (.leave _)))
  | refuse d moves c run r s id full made =>
    rw [new_error_at] at made
    cases made
    rw [in_context_full _ r c run full]
    exact chain_single _ (.refuse r _ _ rfl full)
  | within d env run r s t body ended hyp =>
    rw [in_environment_end, ← ended]
    rw [← ended] at hyp
    have same : r.running.SameCode { r.running with lexicalEnv := env } := ⟨rfl, rfl⟩
    have back : s.running.SameCode { s.running with lexicalEnv := r.running.lexicalEnv } := ⟨rfl, rfl⟩
    exact .cons _ _ _ (.place r _ same) (chain_append _ _ _ _ _ hyp (chain_single _ (.restore s _ back)))
  | uncaught d moves block handler r t body other hyp =>
    rw [catching_other _ r block handler other]
    exact hyp
  | caught d moves block handler r s v t t' body ended rest hyp hyp' =>
    rw [ended] at hyp
    rw [catching_thrown _ r s block handler v ended]
    exact chain_append _ _ _ _ _ hyp (.cons _ _ _ (.handle s) hyp')
  | unfinished d moves block finalizer r e t body signal hyp =>
    rw [finally_signal _ r block finalizer e signal]
    exact hyp
  | finished d moves block finalizer r s t t' body visible ended rest hyp hyp' =>
    rw [← ended] at hyp
    rw [finally_end _ r block finalizer visible, ← ended]
    exact chain_append _ _ _ _ _ hyp (.cons _ _ _ (.finalize s) hyp')
  | enter d moves invocation r t body hyp => exact hyp
  | bottom moves invocation r => exact chain_single _ (.exhaust r)
  | exhausted d moves r => exact chain_single _ (.exhaust r)
  | passed d moves block handler r t body other hyp =>
    rw [rescuing_other _ r block handler other]
    exact hyp
  | rescued d moves block handler x r s e t t' body ended taken rest hyp hyp' =>
    rw [ended] at hyp
    rw [rescuing_taken _ r s block handler e x ended taken]
    exact chain_append _ _ _ _ _ hyp (.cons _ _ _ (.rescue s e) hyp')

/-! Changes of the limits. The one function that changes limits asks for what a number makes of them. -/

-- What can become of the limits when a number is asked for.
inductive Config.Asked (x : Float) (c : Config) : Config → Prop
  | steps : Asked x c { c with stepsLimit := limitOf x }
  | depth (limit : Nat) (given : limitOf x = some limit) : Asked x c { c with depthLimit := limit }
  | trace (lines : Nat) : Asked x c { c with traceLimit := lines }

-- The function that changes limits asks for a number, which it has just got from a value.
structure Moment.Asks (host : HostFunction) (m : Moment) (x : Float) : Prop where
  config : m.before.config.Asked x m.after.config
  setter : ∃ f, m.before.running.function = some f ∧
    m.before.heap.callable? f = some (.builtin (.global .setSystemProperty))
  number : ∃ rounds depth v r, toNumber v (machine host .resolved rounds depth) r = .ok x m.before

-- The limits that moments lead from and to, with none between a moment and the next.
def Config.Leads : Config → List Moment → Config → Prop
  | c, [], c' => c' = c
  | c, m :: t, c' => m.before.config = c ∧ m.after.config.Leads t c'

theorem leads_append (c c' c'' : Config) (t t' : List Moment) (first : c.Leads t c') (second : c'.Leads t' c'') :
    c.Leads (t ++ t') c'' := by
  induction t generalizing c with
  | nil =>
    cases first
    exact second
  | cons m t hyp => exact ⟨first.1, hyp _ first.2⟩

theorem chain_leads (r s : Realm) (t : List Moment) (chain : Chain r t s) : r.config.Leads t s.config := by
  induction chain with
  | nil r => exact rfl
  | cons m t s _ _ hyp => exact ⟨rfl, hyp⟩

def Moment.Limited (host : HostFunction) (m : Moment) : Prop :=
  m.after.config = m.before.config ∨ ∃ x, m.Asks host x

end Ecma

/-!
Contexts are balanced: when a run is over, the contexts that wait are those that waited before it, and the
code that ran goes on.
-/

namespace Ecma

open Ecma.Program Run

-- A run that does not move the place of its own code gives back the running context.
structure Balanced (moves : Bool) (r s : Realm) : Prop where
  waiting : s.waiting = r.waiting
  code : r.running.SameCode s.running
  running : moves = false → s.running = r.running

theorem balanced_refl (moves : Bool) (r : Realm) : Balanced moves r r := by
  exact ⟨rfl, ⟨rfl, rfl⟩, fun _ => rfl⟩

theorem balanced_trans (moves : Bool) (r s s' : Realm) (first : Balanced moves r s)
    (second : Balanced moves s s') : Balanced moves r s' := by
  refine ⟨second.waiting.trans first.waiting, ?_, fun still => (second.running still).trans (first.running still)⟩
  exact ⟨second.code.1.trans first.code.1, second.code.2.trans first.code.2⟩

theorem balanced_of_same (moves : Bool) (r s : Realm) (running : s.running = r.running)
    (waiting : s.waiting = r.waiting) : Balanced moves r s := by
  exact ⟨waiting, ⟨congrArg Context.function running, congrArg Context.code running⟩, fun _ => running⟩

theorem changes_balanced (moves : Bool) (r s : Realm) (changes : r.Changes s) : Balanced moves r s := by
  cases changes with
  | heap h edit => exact balanced_of_same moves r _ rfl rfl
  | beside _ heap running waiting hosts steps => exact balanced_of_same moves r s running waiting

-- Leaving what was entered gives back both the running context and those that waited.
theorem leave_entered (r s : Realm) (c : Context) (balanced : Balanced true (r.entering c) s) :
    (leaveContext s).running = r.running ∧ (leaveContext s).waiting = r.waiting := by
  have waiting : s.waiting = r.running :: r.waiting := balanced.waiting
  rw [leaveContext, waiting]
  exact ⟨rfl, rfl⟩

theorem course_balanced (host : HostFunction) (rounds : Nat) {α : Type} (d : Nat) (moves : Bool) (x : Run α)
    (r : Realm) (t : List Moment) (course : Course host rounds d moves x r t) :
    Balanced moves r (endOf (x (machine host .resolved rounds d) r)) := by
  induction course with
  | pure d moves a r => exact balanced_refl moves r
  | get d moves r => exact balanced_refl moves r
  | read d moves r => exact balanced_refl moves r
  | found d moves v strict r =>
    rw [place_of_at]
    exact balanced_refl moves r
  | thrown d moves v r => exact balanced_refl moves r
  | bind d moves x f r s a t t' first ended second hyp hyp' =>
    rw [ended] at hyp
    rw [bind_at, ended]
    exact balanced_trans moves r s _ hyp hyp'
  | broken d moves x f r s e t first ended hyp =>
    rw [ended] at hyp
    rw [bind_at, ended]
    exact hyp
  | change d moves f r changes => exact changes_balanced moves r _ changes
  | place d f r same => exact ⟨rfl, same, fun still => Bool.noConfusion still⟩
  | count d moves r room =>
    rw [step_room _ r room]
    exact balanced_of_same moves r _ rfl rfl
  | exceed d moves r limit limited exceeded =>
    rw [step_over _ r limit limited exceeded]
    exact balanced_of_same moves r _ rfl rfl
  | context d moves c run r t room body hyp =>
    have back := leave_entered r _ c hyp
    rw [in_context_end _ r c run room]
    exact balanced_of_same moves r _ back.1 back.2
  | refuse d moves c run r s id full made =>
    rw [in_context_full _ r c run full]
    exact balanced_of_same moves r _ rfl rfl
  | within d env run r s t body ended hyp =>
    rw [in_environment_end, ← ended]
    rw [← ended] at hyp
    exact ⟨hyp.waiting, hyp.code, fun still => Bool.noConfusion still⟩
  | uncaught d moves block handler r t body other hyp =>
    rw [catching_other _ r block handler other]
    exact hyp
  | caught d moves block handler r s v t t' body ended rest hyp hyp' =>
    rw [ended] at hyp
    rw [catching_thrown _ r s block handler v ended]
    exact balanced_trans moves r s _ hyp hyp'
  | unfinished d moves block finalizer r e t body signal hyp =>
    rw [finally_signal _ r block finalizer e signal]
    exact hyp
  | finished d moves block finalizer r s t t' body visible ended rest hyp hyp' =>
    rw [← ended] at hyp
    rw [finally_end _ r block finalizer visible, ← ended]
    exact balanced_trans moves r s _ hyp hyp'
  | enter d moves invocation r t body hyp => exact balanced_of_same moves r _ (hyp.running rfl) hyp.waiting
  | bottom moves invocation r => exact balanced_refl moves r
  | exhausted d moves r => exact balanced_refl moves r
  | passed d moves block handler r t body other hyp =>
    rw [rescuing_other _ r block handler other]
    exact hyp
  | rescued d moves block handler x r s e t t' body ended taken rest hyp hyp' =>
    rw [ended] at hyp
    rw [rescuing_taken _ r s block handler e x ended taken]
    exact balanced_trans moves r s _ hyp hyp'

end Ecma
