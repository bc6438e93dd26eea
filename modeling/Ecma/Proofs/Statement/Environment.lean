import Ecma.Proofs.Eval.Entry

set_option autoImplicit false

/-!
The environments of running code. Whatever a statement does and however it ends, the code goes on in the
environments, with the receiver and in the frame it had before; and a statement inside it runs in as many
environments more as there are `with` statements and catch clauses with an environment around it.
-/

namespace Ecma

open Ecma.Program Run

-- The running code goes on as it was, at another position perhaps, and nothing is lost.
structure Realm.Resumes (r s : Realm) : Prop where
  running : s.running = { r.running with position := s.running.position }
  waiting : s.waiting = r.waiting
  heap : r.heap.Extends s.heap

theorem resumes_refl (r : Realm) : r.Resumes r := by
  exact ⟨rfl, rfl, Heap.extends_refl r.heap⟩

theorem resumes_trans (r s s' : Realm) (first : r.Resumes s) (second : s.Resumes s') : r.Resumes s' := by
  refine ⟨?_, second.waiting.trans first.waiting, Heap.extends_trans _ _ _ first.heap second.heap⟩
  rw [second.running, first.running]

theorem resumes_position (r : Realm) (position : Nat) :
    r.Resumes (r.withRunning { r.running with position := position }) := by
  exact ⟨rfl, rfl, Heap.extends_refl r.heap⟩

-- A run after which the running code goes on as it was, wherever it starts and however it ends.
def Run.Steady (m : Machine) {α : Type} (x : Run α) : Prop :=
  ∀ r : Realm, r.Resumes (endOf (x m r))

section

variable {m : Machine} {α β σ : Type}

theorem steady_ok (x : Run α) (a : α) (r s : Realm) (steady : Steady m x) (ended : x m r = .ok a s) : r.Resumes s := by
  have resumes := steady r
  rwa [ended] at resumes

theorem steady_error (x : Run α) (e : Interrupt) (r s : Realm) (steady : Steady m x) (ended : x m r = .error e s) :
    r.Resumes s := by
  have resumes := steady r
  rwa [ended] at resumes

theorem steady_pure (a : α) : Steady m (pure a) := by
  exact fun r => resumes_refl r

theorem steady_bind (x : Run α) (f : α → Run β) (first : Steady m x) (second : ∀ a, Steady m (f a)) :
    Steady m (x >>= f) := by
  intro r
  rw [bind_at]
  cases ended : x m r with
  | ok a s => exact resumes_trans _ _ _ (steady_ok x a r s first ended) (second a s)
  | error e s => exact steady_error x e r s first ended

theorem steady_heap (f : Heap → Run α) (each : ∀ h, Steady m (f h)) : Steady m (heap >>= f) := by
  exact fun r => each r.heap r

theorem steady_running (f : Context → Run α) (each : ∀ c, Steady m (f c)) : Steady m (running >>= f) := by
  exact fun r => each r.running r

theorem steady_ite (c : Prop) [Decidable c] (x y : Run α) (yes : Steady m x) (no : Steady m y) :
    Steady m (if c then x else y) := by
  split
  · exact yes
  · exact no

theorem steady_position (position : Nat) : Steady m (setPosition position) := by
  exact fun r => resumes_position r position

-- The environment that was changed is put back at the end.
theorem steady_within (env : EnvironmentId) (run : Run α) (steady : Steady m run) : Steady m (inEnvironment env run) := by
  intro r
  have inside := steady (r.withRunning { r.running with lexicalEnv := env })
  rw [in_environment_end]
  refine ⟨?_, inside.waiting, inside.heap⟩
  change { (endOf _).running with lexicalEnv := r.running.lexicalEnv } = _
  rw [inside.running]
  rfl

theorem steady_catching (block : Run Completion) (handler : Value → Run Completion) (body : Steady m block)
    (rest : ∀ v, Steady m (handler v)) : Steady m (catching block handler) := by
  intro r
  by_cases thrown : ∃ v s, block m r = .error (.thrown v) s
  · obtain ⟨v, s, ended⟩ := thrown
    rw [catching_thrown m r s block handler v ended]
    exact resumes_trans _ _ _ (steady_error block _ r s body ended) (rest v s)
  · rw [catching_other m r block handler fun v s ended => thrown ⟨v, s, ended⟩]
    exact body r

theorem steady_finally (block finalizer : Run Completion) (body : Steady m block) (rest : Steady m finalizer) :
    Steady m (thenFinally block finalizer) := by
  intro r
  cases signal : signalOf (block m r) with
  | some e =>
    rw [finally_signal m r block finalizer e signal]
    exact body r
  | none =>
    rw [finally_end m r block finalizer signal]
    exact resumes_trans _ _ _ (body r) (rest _)

theorem steady_rounds (round : σ → Run (σ ⊕ α)) (each : ∀ state, Steady m (round state)) (fuel : Nat) (state : σ) :
    Steady m (loopFrom round fuel state) := by
  induction fuel generalizing state with
  | zero => exact fun r => resumes_refl r
  | succ fuel hyp =>
    refine steady_bind _ _ (each state) fun next => ?_
    cases next with
    | inl state => exact hyp state
    | inr result => exact steady_pure result

theorem steady_loop (state : σ) (round : σ → Run (σ ⊕ α)) (each : ∀ state, Steady m (round state)) :
    Steady m (loop state round) := by
  exact fun r => steady_rounds round each m.rounds state r

end

/-! Code of scripts. -/

section

variable {m : Machine} {α : Type} (still : ∀ {α : Type} (x : Run α), Coded true true false x → Steady m x)
include still

theorem steady_step : Steady m step := by
  exact still _ .step

-- One round of a `while` or a `for` loop.
def whileRound (labels : List Label) (test : Run Bool) (body : Run Completion) (update : Run Unit)
    (value : Option Value) : Run Round := do
  step
  if ← test then
    match endRound labels value (← body) with
    | .inl value => do
      update
      return .inl value
    | .inr c => return .inr c
  else return .inr { value := value }

def doRound (labels : List Label) (body : Run Completion) (test : Run Bool) (value : Option Value) : Run Round := do
  step
  match endRound labels value (← body) with
  | .inl value => do
    if ← test then return .inl value else return .inr { value := value }
  | .inr c => return .inr c

def nameRound (labels : List Label) (assign : Value → Run Unit) (body : Run Completion)
    (state : Enumerator × Option Value) : Run ((Enumerator × Option Value) ⊕ Completion) := do
  match state.1.next (← heap) with
  | (none, _) => return .inr { value := state.2 }
  | (some key, names) =>
    step
    assign (.string key.text)
    match endRound labels state.2 (← body) with
    | .inl value => return .inl (names, value)
    | .inr c => return .inr c

theorem while_round_steady (labels : List Label) (test : Run Bool) (body : Run Completion) (update : Run Unit)
    (tests : Steady m test) (runs : Steady m body) (updates : Steady m update) (value : Option Value) :
    Steady m (whileRound labels test body update value) := by
  refine steady_bind _ _ (steady_step still) fun _ => steady_bind _ _ tests fun _ => ?_
  refine steady_ite _ _ _ (steady_bind _ _ runs fun c => ?_) (steady_pure _)
  split
  · exact steady_bind _ _ updates fun _ => steady_pure _
  · exact steady_pure _

theorem do_round_steady (labels : List Label) (body : Run Completion) (test : Run Bool) (runs : Steady m body)
    (tests : Steady m test) (value : Option Value) : Steady m (doRound labels body test value) := by
  refine steady_bind _ _ (steady_step still) fun _ => steady_bind _ _ runs fun c => ?_
  split
  · exact steady_bind _ _ tests fun _ => steady_ite _ _ _ (steady_pure _) (steady_pure _)
  · exact steady_pure _

theorem name_round_steady (labels : List Label) (assign : Value → Run Unit) (body : Run Completion)
    (assigns : ∀ v, Steady m (assign v)) (runs : Steady m body) (state : Enumerator × Option Value) :
    Steady m (nameRound labels assign body state) := by
  refine steady_heap _ fun h => ?_
  split
  · exact steady_pure _
  · refine steady_bind _ _ (steady_step still) fun _ => steady_bind _ _ (assigns _) fun _ => ?_
    refine steady_bind _ _ runs fun c => ?_
    split <;> exact steady_pure _

theorem while_steady (labels : List Label) (test : Run Bool) (body : Run Completion) (update : Run Unit)
    (tests : Steady m test) (runs : Steady m body) (updates : Steady m update) :
    Steady m (whileRounds labels test body update) := by
  exact steady_loop none (whileRound labels test body update)
    (while_round_steady still labels test body update tests runs updates)

theorem do_steady (labels : List Label) (body : Run Completion) (test : Run Bool) (runs : Steady m body)
    (tests : Steady m test) : Steady m (doRounds labels body test) := by
  exact steady_loop none (doRound labels body test) (do_round_steady still labels body test runs tests)

theorem names_steady (labels : List Label) (id : ObjectId) (assign : Value → Run Unit) (body : Run Completion)
    (assigns : ∀ v, Steady m (assign v)) (runs : Steady m body) : Steady m (nameRounds labels id assign body) := by
  exact steady_heap _ fun h => steady_loop _ (nameRound labels assign body)
    (name_round_steady still labels assign body assigns runs)

-- Apart from calls and the other things that are done at once, only the position moves.
theorem straight_steady {moves : Bool} (x : Run α) (straight : Straight true moves x) : Steady m x := by
  induction straight with
  | native x native => exact still _ (.native x native)
  | bind x f _ _ first second => exact steady_bind x f first second
  | look f _ _ each => exact fun r => each r r
  | found v strict => exact still _ (.found v strict)
  | update f regular => exact still _ (.update f regular)
  | modify f regular => exact still _ (.modify f regular)
  | function routine scope => exact still _ (.function routine scope)
  | position position => exact steady_position position
  | enter invocation => exact still _ (.enter invocation)
  | evaluation text strict caller => exact still _ (.evaluation text strict caller)

theorem scripted_steady (x : Run α) (scripted : Scripted true x) : Steady m x := by
  induction scripted with
  | straight x straight => exact straight_steady still x straight
  | bind x f _ _ first second => exact steady_bind x f first second
  | running f _ each => exact steady_running f each
  | step => exact steady_step still
  | within env body _ inside => exact steady_within env body inside
  | catching block handler _ _ body rest => exact steady_catching block handler body rest
  | thenFinally block finalizer _ _ body rest => exact steady_finally block finalizer body rest
  | whileRounds labels test body update _ _ _ tests runs updates =>
    exact while_steady still labels test body update tests runs updates
  | doRounds labels body test _ _ runs tests => exact do_steady still labels body test runs tests
  | nameRounds labels id assign body _ _ assigns runs => exact names_steady still labels id assign body assigns runs

theorem evaluate_steady (strict : Bool) (e : Expr) : Steady m (evaluate strict e) := by
  exact straight_steady still _ (evaluate_straight strict e)

theorem execute_steady (strict : Bool) (s : Stmt) : Steady m (execute strict s) := by
  exact scripted_steady still _ (execute_scripted strict s)

theorem execute_all_steady (strict : Bool) (last : Option Value) (body : List Stmt) :
    Steady m (executeAll strict last body) := by
  exact scripted_steady still _ (execute_all_scripted strict last body)

theorem truth_steady (strict : Bool) (e : Expr) :
    Steady m (return (← evaluate strict e).toBoolean : Run Bool) := by
  exact straight_steady still _ (truth_straight strict e)

theorem test_optional_steady (strict : Bool) (e : Option Expr) : Steady m (testOptional strict e) := by
  exact straight_steady still _ (test_optional_straight strict e)

end

/-! Statements inside statements. -/

-- What is carried out: a statement, several in turn, what a statement does, or the clauses of a `switch` statement
-- after those that are skipped.
inductive Stage where
  | statement (s : Stmt)
  | sequence (body : List Stmt)
  | action (action : Action)
  | clauses (labels : List Label) (skipped : Nat) (clauses : List Program.Clause)

-- Some rounds of a loop, after each of which the loop goes on.
inductive Turns (m : Machine) {σ α : Type} (round : σ → Run (σ ⊕ α)) (start : σ) (r : Realm) : σ → Realm → Prop
  | none : Turns m round start r start r
  | more (state next : σ) (between s : Realm) (before : Turns m round start r state between)
      (went : round state m between = .ok (.inl next) s) : Turns m round start r next s

-- The realm in which the body of a `with` statement begins.
def Realm.withScope (r : Realm) (id : ObjectId) : Realm :=
  (r.withHeap (r.heap.addEnvironment ⟨.object id true, some r.running.lexicalEnv⟩).2).withRunning
    { r.running with lexicalEnv := r.heap.environments.size }

/-- The statement `t` begins in the realm `q` when a stage is carried out from another realm on. The number
counts the `with` statements and the catch clauses with an environment that are around `t` inside the stage. -/
inductive Begins (m : Machine) (strict : Bool) (t : Stmt) (q : Realm) : Stage → Realm → Nat → Prop
  | here : Begins m strict t q (.statement t) q 0
  | block (body : List Stmt) (r : Realm) (n : Nat) (inside : Begins m strict t q (.sequence body) r n) :
      Begins m strict t q (.statement (.block body)) r n
  | labelled (label : Label) (body : Stmt) (r : Realm) (n : Nat) (inside : Begins m strict t q (.statement body) r n) :
      Begins m strict t q (.statement (.labelled label body)) r n
  | step (position : Nat) (action : Action) (r s : Realm) (n : Nat) (counted : step m r = .ok () s)
      (inside : Begins m strict t q (.action action) (s.withRunning { s.running with position := position }) n) :
      Begins m strict t q (.statement (.step position action)) r n
  | first (s : Stmt) (rest : List Stmt) (r : Realm) (n : Nat) (inside : Begins m strict t q (.statement s) r n) :
      Begins m strict t q (.sequence (s :: rest)) r n
  | later (s : Stmt) (rest : List Stmt) (r r' : Realm) (c : Completion) (n : Nat)
      (ended : execute strict s m r = .ok c r') (on : c.jump = none)
      (inside : Begins m strict t q (.sequence rest) r' n) : Begins m strict t q (.sequence (s :: rest)) r n
  | yes (test : Expr) (yes : Stmt) (no : Option Stmt) (r s : Realm) (v : Value) (n : Nat)
      (tested : evaluate strict test m r = .ok v s) (holds : v.toBoolean = true)
      (inside : Begins m strict t q (.statement yes) s n) : Begins m strict t q (.action (.conditional test yes no)) r n
  | no (test : Expr) (yes no : Stmt) (r s : Realm) (v : Value) (n : Nat)
      (tested : evaluate strict test m r = .ok v s) (fails : v.toBoolean = false)
      (inside : Begins m strict t q (.statement no) s n) :
      Begins m strict t q (.action (.conditional test yes (some no))) r n
  | whileBody (labels : List Label) (test : Expr) (body : Stmt) (r between s s' : Realm) (value : Option Value) (n : Nat)
      (turns : Turns m (whileRound labels (return (← evaluate strict test).toBoolean) (execute strict body) (return ()))
        none r value between)
      (counted : Run.step m between = .ok () s)
      (tested : (return (← evaluate strict test).toBoolean : Run Bool) m s = .ok true s')
      (inside : Begins m strict t q (.statement body) s' n) : Begins m strict t q (.action (.whileLoop labels test body)) r n
  | doBody (labels : List Label) (body : Stmt) (test : Expr) (r between s : Realm) (value : Option Value) (n : Nat)
      (turns : Turns m (doRound labels (execute strict body) (return (← evaluate strict test).toBoolean)) none r value between)
      (counted : Run.step m between = .ok () s) (inside : Begins m strict t q (.statement body) s n) :
      Begins m strict t q (.action (.doLoop labels body test)) r n
  | forBody (labels : List Label) (init : LoopInit) (test update : Option Expr) (body : Stmt) (r start between s s' : Realm)
      (value : Option Value) (n : Nat) (started : startLoop strict init m r = .ok () start)
      (turns : Turns m (whileRound labels (testOptional strict test) (execute strict body) (evaluateOptional strict update))
        none start value between)
      (counted : Run.step m between = .ok () s) (tested : testOptional strict test m s = .ok true s')
      (inside : Begins m strict t q (.statement body) s' n) :
      Begins m strict t q (.action (.forLoop labels init test update body)) r n
  | forInBody (labels : List Label) (init : List Assignment) (target : Target) (object : Expr) (body : Stmt)
      (r r₁ r₂ start between s s' : Realm) (v : Value) (id : ObjectId) (names rest : Enumerator) (value : Option Value)
      (key : PropertyKey) (n : Nat) (initialized : assignAll strict init m r = .ok () r₁)
      (evaluated : evaluate strict object m r₁ = .ok v r₂) (object' : v.isNullish = false)
      (converted : toObject v m r₂ = .ok id start)
      (turns : Turns m (nameRound labels (fun name => do (← evaluateTarget strict target).write name strict)
        (execute strict body)) (Enumerator.start start.heap id false true, none) start (names, value) between)
      (named : names.next between.heap = (some key, rest)) (counted : Run.step m between = .ok () s)
      (assigned : (do (← evaluateTarget strict target).write (.string key.text) strict : Run Unit) m s = .ok () s')
      (inside : Begins m strict t q (.statement body) s' n) :
      Begins m strict t q (.action (.forIn labels init target object body)) r n
  | switch (labels : List Label) (subject : Expr) (selector : Selector) (otherwise : Option Nat)
      (clauses : List Program.Clause) (r s s' : Realm) (v : Value) (selected : Option Nat) (start n : Nat)
      (evaluated : evaluate strict subject m r = .ok v s) (chosen : select strict v selector m s = .ok selected s')
      (found : selected.or otherwise = some start)
      (inside : Begins m strict t q (.clauses labels start clauses) s' n) :
      Begins m strict t q (.action (.switching labels subject selector otherwise clauses)) r n
  | skipped (labels : List Label) (skipped : Nat) (clause : Program.Clause) (rest : List Program.Clause) (r : Realm)
      (n : Nat) (inside : Begins m strict t q (.clauses labels skipped rest) r n) :
      Begins m strict t q (.clauses labels (skipped + 1) (clause :: rest)) r n
  | clause (labels : List Label) (body : List Stmt) (rest : List Program.Clause) (r : Realm) (n : Nat)
      (inside : Begins m strict t q (.sequence body) r n) : Begins m strict t q (.clauses labels 0 (.mk body :: rest)) r n
  | through (labels : List Label) (body : List Stmt) (rest : List Program.Clause) (r s : Realm) (c : Completion) (n : Nat)
      (ended : executeAll strict none body m r = .ok c s) (on : c.jump = none)
      (inside : Begins m strict t q (.clauses labels 0 rest) s n) :
      Begins m strict t q (.clauses labels 0 (.mk body :: rest)) r n
  | guarded (block : List Stmt) (handler : Option Program.Handler) (finalizer : Option (List Stmt)) (r : Realm) (n : Nat)
      (inside : Begins m strict t q (.sequence block) r n) :
      Begins m strict t q (.action (.trying block handler finalizer)) r n
  | handled (block : List Stmt) (own : OwnName) (body : List Stmt) (finalizer : Option (List Stmt))
      (r s s' entered : Realm) (v : Value) (env : EnvironmentId) (n : Nat)
      (thrown : executeAll strict none block m r = .error (.thrown v) s)
      (opened : handlerEnv own s.running.lexicalEnv m s = .ok env s')
      (bound : bindThrown own v env m (s'.withRunning { s'.running with lexicalEnv := env }) = .ok () entered)
      (inside : Begins m strict t q (.sequence body) entered n) :
      Begins m strict t q (.action (.trying block (some (.mk own body)) finalizer)) r (if own.collapsed then n else n + 1)
  | finalized (block : List Stmt) (handler : Option Program.Handler) (body : List Stmt) (r s : Realm) (n : Nat)
      (visible : signalOf (executeGuarded strict (executeAll strict none block) handler m r) = none)
      (ended : s = endOf (executeGuarded strict (executeAll strict none block) handler m r))
      (inside : Begins m strict t q (.sequence body) s n) :
      Begins m strict t q (.action (.trying block handler (some body))) r n
  | withBody (object : Expr) (body : Stmt) (r s s' : Realm) (v : Value) (id : ObjectId) (n : Nat)
      (evaluated : evaluate strict object m r = .ok v s) (converted : toObject v m s = .ok id s')
      (inside : Begins m strict t q (.statement body) (s'.withScope id) n) :
      Begins m strict t q (.action (.withObject object body)) r (n + 1)

-- One environment leads to another through so many, all of which are new; `floor` is the number of the first new one.
inductive Heap.Nested (h : Heap) (floor : Nat) : Nat → EnvironmentId → EnvironmentId → Prop
  | none (env : EnvironmentId) : Nested h floor 0 env env
  | one (n : Nat) (inner between outer : EnvironmentId) (new : floor ≤ inner)
      (link : (h.environment inner).outer = some between) (rest : Nested h floor n between outer) :
      Nested h floor (n + 1) inner outer

namespace Heap

variable {h : Heap} {floor : Nat}

theorem nested_lower (lower n : Nat) (inner outer : EnvironmentId) (less : lower ≤ floor)
    (nested : h.Nested floor n inner outer) : h.Nested lower n inner outer := by
  induction nested with
  | none env => exact .none env
  | one n inner between outer new link _ hyp => exact .one n inner between outer (Nat.le_trans less new) link hyp

theorem nested_outside (n : Nat) (inner between outer : EnvironmentId) (nested : h.Nested floor n inner between)
    (new : floor ≤ between) (link : (h.environment between).outer = some outer) : h.Nested floor (n + 1) inner outer := by
  induction nested with
  | none env => exact .one 0 env outer outer new link (.none outer)
  | one n inner next _ new' link' _ hyp => exact .one _ inner next outer new' link' (hyp new link)

end Heap

-- The running code of a realm `q` is that of the realm `r`, in so many environments more.
structure Realm.Encloses (r q : Realm) (n : Nat) : Prop where
  function : q.running.function = r.running.function
  code : q.running.code = r.running.code
  variableEnv : q.running.variableEnv = r.running.variableEnv
  this : q.running.this = r.running.this
  frame : q.running.frame = r.running.frame
  waiting : q.waiting = r.waiting
  lexicalEnv : q.heap.Nested r.heap.environments.size n q.running.lexicalEnv r.running.lexicalEnv
  heap : r.heap.Extends q.heap

theorem encloses_here (r : Realm) : r.Encloses r 0 := by
  exact ⟨rfl, rfl, rfl, rfl, rfl, rfl, .none _, Heap.extends_refl r.heap⟩

theorem encloses_before (r s q : Realm) (n : Nat) (resumes : r.Resumes s) (encloses : s.Encloses q n) :
    r.Encloses q n := by
  have running := resumes.running
  refine ⟨encloses.function.trans ?_, encloses.code.trans ?_, encloses.variableEnv.trans ?_, encloses.this.trans ?_,
    encloses.frame.trans ?_, encloses.waiting.trans resumes.waiting, ?_,
    Heap.extends_trans _ _ _ resumes.heap encloses.heap⟩
  · rw [running]
  · rw [running]
  · rw [running]
  · rw [running]
  · rw [running]
  · have nested := Heap.nested_lower _ n _ _ resumes.heap.environments encloses.lexicalEnv
    rwa [running] at nested

-- A new environment is one more around everything that runs in it.
theorem encloses_scope (r s q : Realm) (n : Nat) (record : EnvironmentRecord)
    (is : s = (r.withHeap (r.heap.addEnvironment ⟨record, some r.running.lexicalEnv⟩).2).withRunning
      { r.running with lexicalEnv := r.heap.environments.size })
    (encloses : s.Encloses q n) : r.Encloses q (n + 1) := by
  subst is
  have grown : r.heap.Extends (r.heap.addEnvironment ⟨record, some r.running.lexicalEnv⟩).2 :=
    Heap.extends_environment r.heap _
  have known : r.heap.environments.size <
      (r.heap.addEnvironment ⟨record, some r.running.lexicalEnv⟩).2.environments.size := by
    change _ < (r.heap.environments.push _).size
    rw [Array.size_push]
    exact Nat.lt_succ_self _
  have link : (q.heap.environment r.heap.environments.size).outer = some r.running.lexicalEnv := by
    refine (encloses.heap.outer _ known).trans ?_
    change ((r.heap.environments.push _)[r.heap.environments.size]?.getD _).outer = _
    rw [Array.getElem?_push_size]
    rfl
  refine ⟨encloses.function, encloses.code, encloses.variableEnv, encloses.this, encloses.frame, encloses.waiting, ?_,
    Heap.extends_trans _ _ _ grown encloses.heap⟩
  have nested := Heap.nested_lower _ n _ _ grown.environments encloses.lexicalEnv
  exact Heap.nested_outside n _ _ _ nested (Nat.le_refl _) link

section

variable {m : Machine} (still : ∀ {α : Type} (x : Run α), Coded true true false x → Steady m x)
include still

omit still in
theorem turns_resume {σ α : Type} (round : σ → Run (σ ⊕ α)) (start state : σ) (r s : Realm)
    (steady : ∀ state, Steady m (round state)) (turns : Turns m round start r state s) : r.Resumes s := by
  induction turns with
  | none => exact resumes_refl r
  | more state next between s _ went hyp => exact resumes_trans _ _ _ hyp (steady_ok _ _ _ _ (steady state) went)

theorem begins_enclosed (strict : Bool) (t : Stmt) (q : Realm) (stage : Stage) (r : Realm) (n : Nat)
    (begins : Begins m strict t q stage r n) : r.Encloses q n := by
  induction begins with
  | here => exact encloses_here q
  | block body r n _ hyp => exact hyp
  | labelled label body r n _ hyp => exact hyp
  | step position action r s n counted _ hyp =>
    have resumes := resumes_trans _ _ _ (steady_ok _ _ _ _ (steady_step still) counted) (resumes_position s position)
    exact encloses_before _ _ _ _ resumes hyp
  | first s rest r n _ hyp => exact hyp
  | later s rest r r' c n ended _ _ hyp =>
    exact encloses_before _ _ _ _ (steady_ok _ _ _ _ (execute_steady still strict s) ended) hyp
  | yes test yes no r s v n tested _ _ hyp =>
    exact encloses_before _ _ _ _ (steady_ok _ _ _ _ (evaluate_steady still strict test) tested) hyp
  | no test yes no r s v n tested _ _ hyp =>
    exact encloses_before _ _ _ _ (steady_ok _ _ _ _ (evaluate_steady still strict test) tested) hyp
  | whileBody labels test body r between s s' value n turns counted tested _ hyp =>
    have rounds := turns_resume _ _ _ _ _ (while_round_steady still labels _ _ _ (truth_steady still strict test)
      (execute_steady still strict body) (steady_pure _)) turns
    have begun := resumes_trans _ _ _ (steady_ok _ _ _ _ (steady_step still) counted)
      (steady_ok _ _ _ _ (truth_steady still strict test) tested)
    exact encloses_before _ _ _ _ (resumes_trans _ _ _ rounds begun) hyp
  | doBody labels body test r between s value n turns counted _ hyp =>
    have rounds := turns_resume _ _ _ _ _ (do_round_steady still labels _ _ (execute_steady still strict body)
      (truth_steady still strict test)) turns
    exact encloses_before _ _ _ _ (resumes_trans _ _ _ rounds (steady_ok _ _ _ _ (steady_step still) counted)) hyp
  | forBody labels init test update body r start between s s' value n started turns counted tested _ hyp =>
    have initialized := steady_ok _ _ _ _ (straight_steady still _ (start_loop_straight strict init)) started
    have rounds := turns_resume _ _ _ _ _ (while_round_steady still labels _ _ _ (test_optional_steady still strict test)
      (execute_steady still strict body) (straight_steady still _ (evaluate_optional_straight strict update))) turns
    have begun := resumes_trans _ _ _ (steady_ok _ _ _ _ (steady_step still) counted)
      (steady_ok _ _ _ _ (test_optional_steady still strict test) tested)
    exact encloses_before _ _ _ _ (resumes_trans _ _ _ initialized (resumes_trans _ _ _ rounds begun)) hyp
  | forInBody labels init target object body r r₁ r₂ start between s s' v id names rest value key n initialized evaluated
      _ converted turns _ counted assigned _ hyp =>
      have assigns (name : Value) : Steady m (do (← evaluateTarget strict target).write name strict : Run Unit) :=
        straight_steady still _ (.bind _ _ (evaluate_target_straight strict target) fun p => write_place_straight _ _ _)
      have started := resumes_trans _ _ _
        (steady_ok _ _ _ _ (straight_steady still _ (assign_all_straight strict init)) initialized)
        (resumes_trans _ _ _ (steady_ok _ _ _ _ (evaluate_steady still strict object) evaluated)
          (steady_ok _ _ _ _ (still _ (.native _ (to_object_native v))) converted))
      have rounds := turns_resume _ _ _ _ _ (name_round_steady still labels _ _ assigns (execute_steady still strict body)) turns
      have begun := resumes_trans _ _ _ (steady_ok _ _ _ _ (steady_step still) counted)
        (steady_ok _ _ _ _ (assigns _) assigned)
      exact encloses_before _ _ _ _ (resumes_trans _ _ _ started (resumes_trans _ _ _ rounds begun)) hyp
  | switch labels subject selector otherwise clauses r s s' v selected start n evaluated chosen _ _ hyp =>
    have selects := resumes_trans _ _ _ (steady_ok _ _ _ _ (evaluate_steady still strict subject) evaluated)
      (steady_ok _ _ _ _ (straight_steady still _ (select_straight strict v selector)) chosen)
    exact encloses_before _ _ _ _ selects hyp
  | skipped labels skipped clause rest r n _ hyp => exact hyp
  | clause labels body rest r n _ hyp => exact hyp
  | through labels body rest r s c n ended _ _ hyp =>
    exact encloses_before _ _ _ _ (steady_ok _ _ _ _ (execute_all_steady still strict none body) ended) hyp
  | guarded block handler finalizer r n _ hyp => exact hyp
  | handled block own body finalizer r s s' entered v env n thrown opened bound _ hyp =>
    have before := steady_error _ _ _ _ (execute_all_steady still strict none block) thrown
    have inside := encloses_before _ _ _ _
      (steady_ok _ _ _ _ (straight_steady still _ (bind_thrown_straight own v env)) bound) hyp
    rw [handlerEnv] at opened
    cases collapsed : own.collapsed with
    | true =>
      rw [if_pos collapsed] at opened
      cases opened
      exact encloses_before _ _ _ _ before inside
    | false =>
      rw [if_neg (by rw [collapsed]; exact Bool.false_ne_true)] at opened
      cases opened
      exact encloses_before _ _ _ _ before (encloses_scope s _ q n (.declarative []) rfl inside)
  | finalized block handler body r s n _ ended _ hyp =>
    subst ended
    exact encloses_before _ _ _ _ (scripted_steady still _ (execute_guarded_scripted strict _ handler
      (execute_all_scripted strict none block)) r) hyp
  | withBody object body r s s' v id n evaluated converted _ hyp =>
    have before := resumes_trans _ _ _ (steady_ok _ _ _ _ (evaluate_steady still strict object) evaluated)
      (steady_ok _ _ _ _ (still _ (.native _ (to_object_native v))) converted)
    exact encloses_before _ _ _ _ before (encloses_scope s' _ q n (.object id true) rfl hyp)

end

-- Code that does not move its own place leaves everything as it was.
theorem machine_still (host : HostFunction) (hosted : host.Coded true true) (rounds d : Nat) {α : Type} (x : Run α)
    (coded : Coded true true false x) : Steady (machine host .resolved rounds d) x := by
  intro r
  obtain ⟨t, course, _⟩ := hosted_traced true true host hosted rounds d x false coded r
  have balanced := course_balanced host rounds d false x r t course
  have running := balanced.running rfl
  refine ⟨?_, balanced.waiting, chain_extends _ _ t (course_chain host rounds d false x r t course)⟩
  rw [running]

/-- Whatever a statement does and however it ends, in any realm, the running code is afterwards in the environments it
was in, with the same receiver and the same frame; and each statement that begins inside it runs in exactly
one new environment for each `with` statement and for each catch clause with an environment around it. -/
theorem environments_restored (host : HostFunction) (allowed : host.Public) (rounds d : Nat) (strict : Bool) (s : Stmt)
    (r : Realm) :
    (endOf (execute strict s (machine host .resolved rounds d) r)).running =
        { r.running with
          position := (endOf (execute strict s (machine host .resolved rounds d) r)).running.position } ∧
      (endOf (execute strict s (machine host .resolved rounds d) r)).waiting = r.waiting ∧
      ∀ t q n, Begins (machine host .resolved rounds d) strict t q (.statement s) r n → r.Encloses q n := by
  have still {α : Type} (x : Run α) (coded : Coded true true false x) : Steady (machine host .resolved rounds d) x :=
    machine_still host (public_host_coded host allowed) rounds d x coded
  have resumes := execute_steady still strict s r
  exact ⟨resumes.running, resumes.waiting, fun t q n begins => begins_enclosed still strict t q _ r n begins⟩

-- The body of a `with` statement around a catch clause that is around another `with` statement's.
theorem environments_restored_nested :
    let inner : Stmt := .step 4 .nothing
    let handler : Program.Handler := .mk ⟨"e", none, false⟩ [.step 3 (.withObject (.constant (.number 1.0)) inner)]
    let s : Stmt := .step 1 (.withObject (.constant (.boolean true))
      (.step 2 (.trying [.step 5 (.throwing .this)] (some handler) none)))
    let r : Realm := { heap := {}, config := {} }
    callingHost.Public ∧ ∃ q, Begins (machine callingHost .resolved 1 1) false inner q (.statement s) r 3 ∧ r.Encloses q 3 := by
  intro inner handler s r
  have begins : ∃ q, Begins (machine callingHost .resolved 1 1) false inner q (.statement s) r 3 := by
    exact ⟨_, .step 1 _ r _ 3 rfl (.withBody _ _ _ _ _ _ _ 2 rfl rfl (.step 2 _ _ _ 2 rfl
      (.handled _ ⟨"e", none, false⟩ _ none _ _ _ _ _ _ 1 rfl rfl rfl
        (.first _ _ _ 1 (.step 3 _ _ _ 1 rfl (.withBody _ _ _ _ _ _ _ 0 rfl rfl .here))))))⟩
  obtain ⟨q, begins⟩ := begins
  obtain ⟨_, _, each⟩ := environments_restored callingHost calling_host_public 1 1 false s r
  exact ⟨calling_host_public, q, begins, each inner q 3 begins⟩

end Ecma
