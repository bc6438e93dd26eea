import Ecma.Proofs.Eval.Entry

set_option autoImplicit false

/-!
Runs that forget how many steps have been counted. Of two runs from realms that differ in the count alone,
the one that starts with more steps may run out of them; otherwise both do the same.
-/

namespace Ecma

open Ecma.Program Run

-- The second result comes from a run that had counted more steps.
inductive Follows {α : Type} : EStateM.Result Interrupt Realm α → EStateM.Result Interrupt Realm α → Prop
  | ok (a : α) (s : Realm) (n : Nat) (later : s.steps ≤ n) : Follows (.ok a s) (.ok a (s.withSteps n))
  | error (e : Interrupt) (s : Realm) (n : Nat) (later : s.steps ≤ n) : Follows (.error e s) (.error e (s.withSteps n))
  | exceeding (first : EStateM.Result Interrupt Realm α) (s : Realm) : Follows first (.error .stepsExceeded s)

def Forgetful (m : Machine) {α : Type} (x : Run α) : Prop :=
  ∀ r n, r.steps ≤ n → Follows (x m r) (x m (r.withSteps n))

section

variable {m : Machine} {α β σ : Type}

theorem forgetful_pure (a : α) : Forgetful m (pure a) := by
  exact fun r n later => .ok a r n later

theorem forgetful_thrown (v : Value) : Forgetful m (throw (.thrown v) : Run α) := by
  exact fun r n later => .error _ r n later

theorem forgetful_given (x : Run α) (f : α → Run β) (first : Forgetful m x)
    (second : ∀ r a s, x m r = .ok a s → Forgetful m (f a)) : Forgetful m (x >>= f) := by
  intro r n later
  rw [bind_at, bind_at]
  have ends := first r n later
  cases ended : x m r with
  | ok a s =>
    rw [ended] at ends
    cases after : x m (r.withSteps n) with
    | ok b s' =>
      rw [after] at ends
      cases ends with
      | ok _ _ k later' => exact second r a s ended s k later'
    | error e s' =>
      rw [after] at ends
      cases ends with
      | exceeding => exact .exceeding _ s'
  | error e s =>
    rw [ended] at ends
    cases after : x m (r.withSteps n) with
    | ok b s' =>
      rw [after] at ends
      cases ends
    | error e' s' =>
      rw [after] at ends
      cases ends with
      | error _ _ k later' => exact .error e s k later'
      | exceeding => exact .exceeding _ s'

theorem forgetful_bind (x : Run α) (f : α → Run β) (first : Forgetful m x) (second : ∀ a, Forgetful m (f a)) :
    Forgetful m (x >>= f) := by
  exact forgetful_given x f first fun _ a _ _ => second a

theorem forgetful_look (f : Realm → Run α) (blind : Blind f) (each : ∀ r, Forgetful m (f r)) :
    Forgetful m (MonadState.get >>= f) := by
  intro r n later
  change Follows (f r m r) (f (r.withSteps n) m (r.withSteps n))
  rw [blind r n]
  exact each r r n later

theorem forgetful_heap (f : Heap → Run α) (each : ∀ h, Forgetful m (f h)) : Forgetful m (heap >>= f) := by
  exact forgetful_look (fun r => f r.heap) (fun _ _ => rfl) fun r => each r.heap

theorem forgetful_ite (c : Prop) [Decidable c] (x y : Run α) (yes : Forgetful m x) (no : Forgetful m y) :
    Forgetful m (if c then x else y) := by
  split
  · exact yes
  · exact no

theorem forgetful_update (f : Heap → α × Heap) : Forgetful m (updateHeap f) := by
  exact fun r n later => .ok (f r.heap).1 (r.withHeap (f r.heap).2) n later

theorem forgetful_modify_heap (f : Heap → Heap) : Forgetful m (modifyHeap f) := by
  exact fun r n later => .ok PUnit.unit (r.withHeap (f r.heap)) n later

theorem forgetful_beside (f : Realm → Realm) (stepless : Stepless f) : Forgetful m (modify f) := by
  intro r n later
  obtain ⟨k, later', same⟩ := stepless r n later
  change Follows (.ok PUnit.unit (f r)) (.ok PUnit.unit (f (r.withSteps n)))
  rw [same]
  exact .ok _ _ k later'

theorem forgetful_place (f : Context → Context) : Forgetful m (modifyRunning f) := by
  exact fun r n later => .ok PUnit.unit (r.withRunning (f r.running)) n later

-- Who has counted more runs out first.
theorem forgetful_step : Forgetful m step := by
  intro r n later
  by_cases room : ∀ limit, (r.withSteps n).config.stepsLimit = some limit → n < limit
  · have earlier : ∀ limit, r.config.stepsLimit = some limit → r.steps < limit :=
      fun limit limited => Nat.lt_of_le_of_lt later (room limit limited)
    rw [step_room m r earlier, step_room m (r.withSteps n) room]
    exact .ok _ r.counted (n + 1) (Nat.succ_le_succ later)
  · obtain ⟨limit, exceeded⟩ := not_forall.mp room
    obtain ⟨limited, exceeded⟩ := Classical.not_imp.mp exceeded
    rw [step_over m (r.withSteps n) limit limited (Nat.not_lt.mp exceeded)]
    exact .exceeding _ _

theorem forgetful_always (after : Realm → Realm) (run : Run α) (inside : Forgetful m run)
    (keeps : ∀ s k, after (s.withSteps k) = (after s).withSteps k ∧ (after s).steps = s.steps) :
    Forgetful m (always after run) := by
  intro r n later
  rw [always, always]
  have ends := inside r n later
  cases ended : run m (r.withSteps n) with
  | ok a s' =>
    rw [ended] at ends
    cases first : run m r with
    | ok b s =>
      rw [first] at ends
      cases ends with
      | ok _ _ k later' =>
        dsimp only
        rw [(keeps s k).1]
        exact .ok _ _ k ((keeps s k).2 ▸ later')
    | error e s =>
      rw [first] at ends
      cases ends
  | error e s' =>
    rw [ended] at ends
    cases first : run m r with
    | ok b s =>
      rw [first] at ends
      cases ends with
      | exceeding => exact .exceeding _ _
    | error e' s =>
      rw [first] at ends
      cases ends with
      | error _ _ k later' =>
        dsimp only
        rw [(keeps s k).1]
        exact .error _ _ k ((keeps s k).2 ▸ later')
      | exceeding => exact .exceeding _ _

theorem leave_with_steps (s : Realm) (k : Nat) :
    leaveContext (s.withSteps k) = (leaveContext s).withSteps k ∧ (leaveContext s).steps = s.steps := by
  refine ⟨?_, (leave_keeps s).2.2⟩
  obtain ⟨heap, config, running, waiting, steps, hosts, handlers, stdout, stderr⟩ := s
  cases waiting <;> rfl

theorem forgetful_catching (block : Run Completion) (handler : Value → Run Completion) (body : Forgetful m block)
    (rest : ∀ v, Forgetful m (handler v)) : Forgetful m (catching block handler) := by
  intro r n later
  have ends := body r n later
  rw [catching, catching]
  cases ended : block m r with
  | ok c s =>
    rw [ended] at ends
    generalize block m (r.withSteps n) = second at ends
    cases ends with
    | ok _ _ k later' => exact .ok c s k later'
    | exceeding => exact .exceeding _ _
  | error e s =>
    rw [ended] at ends
    generalize block m (r.withSteps n) = second at ends
    cases ends with
    | error _ _ k later' =>
      cases e with
      | thrown v => exact rest v s k later'
      | _ => exact .error _ s k later'
    | exceeding => exact .exceeding _ _

theorem forgetful_finally (block finalizer : Run Completion) (body : Forgetful m block)
    (rest : Forgetful m finalizer) : Forgetful m (thenFinally block finalizer) := by
  intro r n later
  have ends := body r n later
  rw [thenFinally, thenFinally]
  cases ended : block m r with
  | ok c s =>
    rw [ended] at ends
    generalize block m (r.withSteps n) = second at ends
    cases ends with
    | ok _ _ k later' =>
      dsimp only
      have last := rest s k later'
      generalize finalizer m s = one at last ⊢
      generalize finalizer m (s.withSteps k) = two at last ⊢
      cases last with
      | ok f s' k' later'' => exact .ok _ s' k' later''
      | error e s' k' later'' => exact .error e s' k' later''
      | exceeding => exact .exceeding _ _
    | exceeding => exact .exceeding _ _
  | error e s =>
    rw [ended] at ends
    generalize block m (r.withSteps n) = second at ends
    cases ends with
    | error _ _ k later' =>
      cases e with
      | thrown v =>
        dsimp only
        have last := rest s k later'
        generalize finalizer m s = one at last ⊢
        generalize finalizer m (s.withSteps k) = two at last ⊢
        cases last with
        | ok f s' k' later'' =>
          dsimp only
          split
          · exact .ok f s' k' later''
          · exact .error _ s' k' later''
        | error e s' k' later'' => exact .error e s' k' later''
        | exceeding => exact .exceeding _ _
      | _ => exact .error _ s k later'
    | exceeding => exact .exceeding _ _

theorem forgetful_rescuing (block : Run α) (handler : Interrupt → Option (Run α))
    (passes : handler .stepsExceeded = none) (body : Forgetful m block)
    (each : ∀ e x, handler e = some x → Forgetful m x) : Forgetful m (rescuing block handler) := by
  intro r n later
  have ends := body r n later
  rw [rescuing, rescuing]
  generalize block m r = first at ends ⊢
  generalize block m (r.withSteps n) = second at ends ⊢
  cases ends with
  | ok a s k later' => exact .ok a s k later'
  | error e s k later' =>
    dsimp only
    cases taken : handler e with
    | none => exact .error e s k later'
    | some x => exact each e x taken s k later'
  | exceeding =>
    dsimp only
    rw [passes]
    exact .exceeding _ _

/-! Loops. -/

theorem forgetful_rounds (round : σ → Run (σ ⊕ α)) (fuel : Nat) (state : σ)
    (each : ∀ state, Forgetful m (round state)) : Forgetful m (loopFrom round fuel state) := by
  induction fuel generalizing state with
  | zero => exact fun r n later => .error .exhausted r n later
  | succ fuel hyp =>
    refine forgetful_bind _ _ (each state) fun next => ?_
    cases next with
    | inl state => exact hyp state
    | inr result => exact forgetful_pure result

theorem forgetful_loop (state : σ) (round : σ → Run (σ ⊕ α)) (each : ∀ state, Forgetful m (round state)) :
    Forgetful m (loop state round) := by
  exact fun r n later => forgetful_rounds round m.rounds state each r n later

theorem forgetful_while (labels : List Label) (test : Run Bool) (body : Run Completion) (update : Run Unit)
    (tests : Forgetful m test) (runs : Forgetful m body) (updates : Forgetful m update) :
    Forgetful m (whileRounds labels test body update) := by
  refine forgetful_loop _ _ fun value => forgetful_bind _ _ forgetful_step fun _ => ?_
  refine forgetful_bind _ _ tests fun _ => forgetful_ite _ _ _ ?_ (forgetful_pure _)
  refine forgetful_bind _ _ runs fun c => ?_
  split
  · exact forgetful_bind _ _ updates fun _ => forgetful_pure _
  · exact forgetful_pure _

theorem forgetful_do (labels : List Label) (body : Run Completion) (test : Run Bool) (runs : Forgetful m body)
    (tests : Forgetful m test) : Forgetful m (doRounds labels body test) := by
  refine forgetful_loop _ _ fun value => forgetful_bind _ _ forgetful_step fun _ => ?_
  refine forgetful_bind _ _ runs fun c => ?_
  split
  · exact forgetful_bind _ _ tests fun _ => forgetful_ite _ _ _ (forgetful_pure _) (forgetful_pure _)
  · exact forgetful_pure _

theorem forgetful_names (labels : List Label) (id : ObjectId) (assign : Value → Run Unit) (body : Run Completion)
    (assigns : ∀ v, Forgetful m (assign v)) (runs : Forgetful m body) :
    Forgetful m (nameRounds labels id assign body) := by
  refine forgetful_heap _ fun h => forgetful_loop _ _ fun state => ?_
  obtain ⟨names, value⟩ := state
  refine forgetful_heap _ fun h => ?_
  split
  · exact forgetful_pure _
  · refine forgetful_bind _ _ forgetful_step fun _ => ?_
    refine forgetful_bind _ _ (assigns _) fun _ => forgetful_bind _ _ runs fun c => ?_
    split
    · exact forgetful_pure _
    · exact forgetful_pure _

/-! Functions. -/

theorem forgetful_object (kind : ObjectKind) (prototype : Option ObjectId) (properties : PropertyTable) :
    Forgetful m (newObject kind prototype properties) := by
  exact forgetful_update _

theorem forgetful_environment (record : EnvironmentRecord) (outer : Option EnvironmentId) :
    Forgetful m (newEnvironment record outer) := by
  exact forgetful_update _

theorem forgetful_function (routine : Routine) (scope : EnvironmentId) : Forgetful m (newFunction routine scope) := by
  refine forgetful_bind _ _ (forgetful_object _ _ _) fun f => ?_
  refine forgetful_bind _ _ (forgetful_object _ _ _) fun prototype => ?_
  exact forgetful_bind _ _ (forgetful_modify_heap _) fun _ => forgetful_pure _

theorem forgetful_error (kind : ErrorKind) (message : String) : Forgetful m (newError kind message) := by
  exact forgetful_look _ (fun _ _ => rfl) fun r => forgetful_object _ _ _

theorem forgetful_throwing (kind : ErrorKind) (message : String) :
    Forgetful m (Run.throwError kind message : Run α) := by
  exact forgetful_bind _ _ (forgetful_error _ _) fun _ => forgetful_thrown _

theorem forgetful_parsed (text : String) (result : Except Syntax.SyntaxError Syntax.Parsed) :
    Forgetful m (parsedOr text result) := by
  cases result with
  | ok parsed => exact forgetful_pure parsed
  | error e => exact forgetful_throwing _ _

theorem forgetful_function_of_texts (texts : List String) : Forgetful m (newFunctionOfTexts texts) := by
  refine forgetful_look _ (fun _ _ => rfl) fun r => ?_
  exact forgetful_bind _ _ (forgetful_parsed _ _) fun _ => forgetful_function _ _

/-! Contexts. -/

theorem forgetful_context (c : Context) (run : Run α) (inside : Forgetful m run) : Forgetful m (inContext c run) := by
  refine forgetful_look _ (fun _ _ => rfl) fun r => ?_
  dsimp only
  have entered : Forgetful m (modify (fun r => r.entering c) >>= fun _ => always leaveContext run) :=
    forgetful_bind _ _ (forgetful_beside _ fun _ n later => ⟨n, later, rfl⟩) fun _ =>
      forgetful_always _ _ inside leave_with_steps
  split
  · refine forgetful_bind _ _ (forgetful_error _ _) fun id => forgetful_bind _ _ ?_ fun _ => entered
    exact fun r n later => .error _ r n later
  · exact entered

theorem forgetful_within (env : EnvironmentId) (run : Run α) (inside : Forgetful m run) :
    Forgetful m (inEnvironment env run) := by
  refine forgetful_look (fun r => modifyRunning _ >>= fun _ => always _ run) (fun _ _ => rfl) fun r => ?_
  exact forgetful_bind _ _ (forgetful_place _) fun _ => forgetful_always _ _ inside fun _ _ => ⟨rfl, rfl⟩

/-! What enters code. -/

variable (enters : ∀ invocation, Forgetful m (enter invocation))
include enters

theorem forgetful_eval_code (text : String) (strict : Bool) (caller : Context) :
    Forgetful m (runEvalCode text strict caller) := by
  refine forgetful_look _ (fun _ _ => rfl) fun r => ?_
  refine forgetful_bind _ _ (forgetful_parsed _ _) fun parsed => forgetful_ite _ _ _ ?_ (enters _)
  exact forgetful_bind _ _ (forgetful_environment _ _) fun _ => enters _

theorem forgetful_native (limits : Bool) (x : Run α) (native : Native limits x) : Forgetful m x := by
  induction native with
  | pure a => exact forgetful_pure a
  | given x f _ _ first second => exact forgetful_given x f first fun r a s ended => second m r a s ended
  | throwing v => exact forgetful_thrown v
  | look f same _ each =>
    exact forgetful_look f (fun r n => same (r.withSteps n) r (Realm.same_view_refl _)) each
  | beside f _ stepless => exact forgetful_beside f stepless
  | newObject kind prototype properties => exact forgetful_object _ _ _
  | newArray items => exact forgetful_object _ _ _
  | define id key d other k _ _ _ otherwise after =>
    refine forgetful_heap _ fun h => forgetful_ite _ _ _ otherwise ?_
    exact forgetful_bind _ _ (forgetful_update _) after
  | defineLength id d length old => exact forgetful_update _
  | delete id key => exact forgetful_update _
  | preventExtensions id => exact forgetful_modify_heap _
  | setTraceLimit v => exact forgetful_modify_heap _
  | call f this args => exact enters _
  | construct f args => exact enters _
  | evaluation text => exact forgetful_eval_code enters text false globalContext
  | functionOfTexts texts => exact forgetful_function_of_texts texts

theorem forgetful_coded (moves : Bool) (x : Run α) (finds : ∀ v strict, Forgetful m (placeOf v strict))
    (coded : Coded false false moves x) : Forgetful m x := by
  induction coded with
  | uniform x allowed => cases allowed.1
  | native x native => exact forgetful_native enters _ x native
  | bind x f _ _ first second => exact forgetful_bind x f first second
  | look f blind _ each => exact forgetful_look f (blind.resolve_left Bool.false_ne_true) each
  | found v strict => exact finds v strict
  | update f => exact forgetful_update f
  | modify f => exact forgetful_modify_heap f
  | function routine scope => exact forgetful_function routine scope
  | place f => exact forgetful_place f
  | step => exact forgetful_step
  | within env body _ inside => exact forgetful_within env body inside
  | catching block handler _ _ body rest => exact forgetful_catching block handler body rest
  | thenFinally block finalizer _ _ body rest => exact forgetful_finally block finalizer body rest
  | whileRounds labels test body update _ _ _ tests runs updates =>
    exact forgetful_while labels test body update tests runs updates
  | doRounds labels body test _ _ runs tests => exact forgetful_do labels body test runs tests
  | nameRounds labels id assign body _ _ assigns runs => exact forgetful_names labels id assign body assigns runs
  | enter invocation => exact enters invocation
  | evaluation text strict caller => exact forgetful_eval_code enters text strict caller
  | rescuing block handler passes _ _ body each =>
    exact forgetful_rescuing block handler (passes.resolve_left Bool.false_ne_true).1 body each

end

/-! Entering code. -/

section

variable {host : HostFunction} {rounds d : Nat}

theorem forgetful_found (v : Variable) (strict : Bool) :
    Forgetful (machine host .resolved rounds d) (placeOf v strict) := by
  intro r n later
  rw [place_of_at, place_of_at]
  exact .ok _ r n later

variable (enters : ∀ invocation, Forgetful (machine host .resolved rounds d) (enter invocation))
include enters

theorem forgetful_call_script (routine : Routine) (f : ObjectId) (scope : EnvironmentId) (this : Value)
    (args : List Value) : Forgetful (machine host .resolved rounds d) (callScript routine f scope this args) := by
  exact forgetful_context _ _ (forgetful_coded enters true _ forgetful_found (activate_coded _ _ _ _ _))

variable (hosted : host.Coded false false)
include hosted

theorem forgetful_dispatch (invocation : Invocation) :
    Forgetful (machine host .resolved rounds d) (dispatch host invocation) := by
  cases invocation with
  | call f this args =>
    refine forgetful_heap _ fun h => forgetful_heap _ fun h => ?_
    split
    · exact forgetful_call_script enters _ _ _ _ _
    · exact forgetful_context _ _ (forgetful_native enters true _ (builtin_run_native _ _ _ fun _ => rfl))
    · refine forgetful_look _ (fun _ _ => rfl) fun r => ?_
      split
      · exact forgetful_context _ _ (forgetful_coded enters true _ forgetful_found (hosted _ _ _))
      · exact forgetful_pure _
    · exact forgetful_throwing _ _
  | construct f args =>
    refine forgetful_heap _ fun h => forgetful_heap _ fun h => ?_
    split
    · refine forgetful_bind _ _ (forgetful_native enters true _ (get_native _ _)) fun prototype => ?_
      refine forgetful_bind _ _ (forgetful_object _ _ _) fun id => ?_
      exact forgetful_bind _ _ (forgetful_call_script enters _ _ _ _ _) fun _ => forgetful_pure _
    · refine forgetful_ite _ _ _ ?_ (forgetful_throwing _ _)
      exact forgetful_context _ _ (forgetful_native enters true _ (builtin_construct_native _ _ fun _ => rfl))
    · exact forgetful_throwing _ _
    · exact forgetful_throwing _ _
  | code routine lexicalEnv variableEnv this deletable =>
    refine forgetful_context _ _ (forgetful_coded enters true _ forgetful_found ?_)
    refine .bind _ _ (straight_coded _ (declare_straight _ _ _)) fun _ => ?_
    exact .bind _ _ (scripted_coded _ (execute_all_scripted _ none _)) fun _ => coded_pure _

end

theorem forgetful_enter (host : HostFunction) (hosted : host.Coded false false) (rounds d : Nat)
    (invocation : Invocation) : Forgetful (machine host .resolved rounds d) (enter invocation) := by
  induction d generalizing invocation with
  | zero => exact fun r n later => .error .exhausted r n later
  | succ d hyp => exact fun r n later => forgetful_dispatch hyp hosted invocation r n later

theorem hosted_forgetful {α : Type} (host : HostFunction) (hosted : host.Coded false false) (rounds d : Nat)
    (x : Run α) (moves : Bool) (coded : Coded false false moves x) : Forgetful (machine host .resolved rounds d) x := by
  exact forgetful_coded (forgetful_enter host hosted rounds d) moves x forgetful_found coded

end Ecma
