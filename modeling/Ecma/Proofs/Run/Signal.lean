import Ecma.Engine
import Ecma.Proofs.Eval.Entry

set_option autoImplicit false

/-!
What becomes of an interrupt that scripts cannot catch. From the moment it is raised, contexts are left and
environments restored, and nothing else happens before it has reached the host: either it is what the run
ends with, or a function of the host has taken it.
-/

namespace Ecma

open Ecma.Program Run

-- Only the contexts differ.
def Realm.OnlyContexts (r s : Realm) : Prop :=
  ∃ c waiting, s = { r with running := c, waiting := waiting }

theorem only_contexts_refl (r : Realm) : r.OnlyContexts r := by
  exact ⟨r.running, r.waiting, rfl⟩

theorem only_contexts_trans (r s s' : Realm) (first : r.OnlyContexts s) (second : s.OnlyContexts s') :
    r.OnlyContexts s' := by
  obtain ⟨_, _, rfl⟩ := first
  obtain ⟨c, waiting, rfl⟩ := second
  exact ⟨c, waiting, rfl⟩

theorem leave_only_contexts (r : Realm) : r.OnlyContexts (leaveContext r) := by
  rw [leaveContext]
  split
  · exact ⟨_, r.waiting, rfl⟩
  · exact ⟨_, _, rfl⟩

theorem leave_contexts_only (count : Nat) (r : Realm) : r.OnlyContexts (leaveContexts count r) := by
  induction count generalizing r with
  | zero => exact only_contexts_refl r
  | succ count hyp => exact only_contexts_trans r _ _ (leave_only_contexts r) (hyp _)

def Moment.IsQuiet (m : Moment) : Prop :=
  m.kind = .leave ∨ m.kind = .restore

-- What happens after a signal was raised in a realm, and what the run ends with.
inductive Delivered (e : Interrupt) (r : Realm) (after : List Moment) {α : Type} :
    EStateM.Result Interrupt Realm α → Prop
  | ended (s : Realm) (quiet : ∀ m ∈ after, m.IsQuiet) (same : r.OnlyContexts s) : Delivered e r after (.error e s)
  | taken (result : EStateM.Result Interrupt Realm α) (between rest : List Moment) (s : Realm)
      (is : after = between ++ ⟨s, .rescue e, s⟩ :: rest) (quiet : ∀ m ∈ between, m.IsQuiet)
      (same : r.OnlyContexts s) : Delivered e r after result

section

variable {α β : Type} {e : Interrupt} {r : Realm} {after : List Moment}

theorem delivered_ok (a : α) (s : Realm) (delivered : Delivered e r after (.ok a s)) (more : List Moment)
    (result : EStateM.Result Interrupt Realm β) : Delivered e r (after ++ more) result := by
  cases delivered with
  | taken _ between rest s' is quiet same =>
    exact .taken _ between (rest ++ more) s' (by rw [is, List.append_assoc, List.cons_append]) quiet same

-- The run is over, and so is what it is a part of.
theorem delivered_error (e' : Interrupt) (s : Realm)
    (delivered : Delivered e r after (.error e' s : EStateM.Result Interrupt Realm α)) :
    Delivered e r after (.error e' s : EStateM.Result Interrupt Realm β) := by
  cases delivered with
  | ended _ quiet same => exact .ended s quiet same
  | taken _ between rest s' is quiet same => exact .taken _ between rest s' is quiet same

-- One more quiet moment at the end of the run.
theorem delivered_quiet (m : Moment) (quiet : m.IsQuiet) (f : Realm → Realm) (only : ∀ s : Realm, s.OnlyContexts (f s))
    (result : EStateM.Result Interrupt Realm α) (delivered : Delivered e r after result) :
    Delivered e r (after ++ [m]) (match result with
      | .ok a s => .ok a (f s)
      | .error e s => .error e (f s)) := by
  cases delivered with
  | ended s before same =>
    refine .ended (f s) (fun n member => ?_) (only_contexts_trans r s _ same (only s))
    rcases List.mem_append.mp member with older | last
    · exact before n older
    · exact List.mem_singleton.mp last ▸ quiet
  | taken _ between rest s' is before same =>
    exact .taken _ between (rest ++ [m]) s' (by rw [is, List.append_assoc, List.cons_append]) before same

-- What the interrupt of a part means for the whole, if the part ended in another way.
theorem delivered_taken (result : EStateM.Result Interrupt Realm α) (delivered : Delivered e r after result)
    (other : ∀ s, result ≠ .error e s) (more : List Moment) (whole : EStateM.Result Interrupt Realm β) :
    Delivered e r (after ++ more) whole := by
  cases delivered with
  | ended s _ _ => exact absurd rfl (other s)
  | taken _ between rest s' is quiet same =>
    exact .taken _ between (rest ++ more) s' (by rw [is, List.append_assoc, List.cons_append]) quiet same

end

/-! Where a moment is in a list of several parts. -/

theorem moment_in_append (t t' before after : List Moment) (m : Moment)
    (is : t ++ t' = before ++ m :: after) :
    (∃ rest, t = before ++ m :: rest ∧ after = rest ++ t') ∨
      ∃ rest, t' = rest ++ m :: after := by
  rcases List.append_eq_append_iff.mp is with ⟨rest, first, second⟩ | ⟨rest, first, second⟩
  · exact .inr ⟨rest, second⟩
  · cases rest with
    | nil => exact .inr ⟨[], second.symm⟩
    | cons n rest =>
      cases second
      exact .inl ⟨rest, first, rfl⟩

theorem moment_in_cons (n m : Moment) (t before after : List Moment) (is : n :: t = before ++ m :: after) :
    m = n ∧ after = t ∨ ∃ rest, t = rest ++ m :: after := by
  cases before with
  | nil =>
    cases is
    exact .inl ⟨rfl, rfl⟩
  | cons n' rest =>
    cases is
    exact .inr ⟨rest, rfl⟩

theorem moment_in_single (n m : Moment) (before after : List Moment) (is : [n] = before ++ m :: after) :
    m = n ∧ after = [] := by
  rcases moment_in_cons n m [] before after is with here | ⟨rest, later⟩
  · exact here
  · cases rest <;> cases later

theorem signal_not_thrown (kind : Happening) (e : Interrupt) (signal : kind.signal? = some e) (v : Value) :
    e ≠ .thrown v := by
  cases kind <;> cases signal <;> exact Interrupt.noConfusion

section

variable {α : Type} (m : Machine) (r : Realm)

theorem finally_error (block finalizer : Run Completion) (e : Interrupt) (s : Realm)
    (visible : signalOf (block m r) = none) (ended : finalizer m (endOf (block m r)) = .error e s) :
    thenFinally block finalizer m r = .error e s := by
  rw [thenFinally]
  cases found : block m r with
  | ok c s' =>
    rw [found] at ended
    dsimp only [endOf] at ended ⊢
    rw [ended]
  | error e' s' =>
    cases e' with
    | thrown v =>
      rw [found] at ended
      dsimp only [endOf] at ended ⊢
      rw [ended]
    | _ =>
      rw [found] at visible
      cases visible

end

theorem course_delivers (host : HostFunction) (rounds : Nat) {α : Type} (d : Nat) (moves : Bool) (x : Run α)
    (r : Realm) (t : List Moment) (course : Course host rounds d moves x r t) (before after : List Moment)
    (m : Moment) (e : Interrupt) (is : t = before ++ m :: after) (signal : m.kind.signal? = some e) :
    Delivered e m.after after (x (machine host .resolved rounds d) r) := by
  induction course generalizing before after with
  | pure d moves a r => exact absurd is.symm (by simp)
  | get d moves r => exact absurd is.symm (by simp)
  | read d moves r => exact absurd is.symm (by simp)
  | found d moves v strict r => exact absurd is.symm (by simp)
  | thrown d moves v r => exact absurd is.symm (by simp)
  | bind d moves x f r s a t t' first ended second hyp hyp' =>
    rw [bind_at, ended]
    rcases moment_in_append t t' before after m is with ⟨rest, here, rfl⟩ | ⟨rest, here⟩
    · have part := hyp before rest here
      rw [ended] at part
      exact delivered_ok a s part t' _
    · exact hyp' rest after here
  | broken d moves x f r s e' t first ended hyp =>
    have part := hyp before after is
    rw [ended] at part
    rw [bind_at, ended]
    exact delivered_error e' s part
  | change d moves f r changes =>
    obtain ⟨rfl, rfl⟩ := moment_in_single _ m before after is
    cases signal
  | place d f r same =>
    obtain ⟨rfl, rfl⟩ := moment_in_single _ m before after is
    cases signal
  | count d moves r room =>
    obtain ⟨rfl, rfl⟩ := moment_in_single _ m before after is
    cases signal
  | exceed d moves r limit limited exceeded =>
    obtain ⟨rfl, rfl⟩ := moment_in_single _ m before after is
    cases signal
    rw [step_over _ r limit limited exceeded]
    exact .ended _ (fun _ member => absurd member List.not_mem_nil) (only_contexts_refl _)
  | context d moves c run r t room body hyp =>
    rcases moment_in_cons _ m _ before after is with ⟨rfl, _⟩ | ⟨rest, inside⟩
    · cases signal
    rw [in_context_room _ r c run room]
    rcases moment_in_append t _ rest after m inside with ⟨later, here, rfl⟩ | ⟨later, here⟩
    · exact delivered_quiet _ (.inl rfl) leaveContext leave_only_contexts _ (hyp rest later here)
    · obtain ⟨rfl, rfl⟩ := moment_in_single _ m later after here
      cases signal
  | refuse d moves c run r s id full made =>
    obtain ⟨rfl, rfl⟩ := moment_in_single _ m before after is
    cases signal
    rw [new_error_at] at made
    cases made
    rw [in_context_full _ r c run full]
    exact .ended _ (fun _ member => absurd member List.not_mem_nil) (only_contexts_refl _)
  | within d env run r s t body ended hyp =>
    rcases moment_in_cons _ m _ before after is with ⟨rfl, _⟩ | ⟨rest, inside⟩
    · cases signal
    rw [in_environment_at]
    rcases moment_in_append t _ rest after m inside with ⟨later, here, rfl⟩ | ⟨later, here⟩
    · exact delivered_quiet _ (.inr rfl)
        (fun s => s.withRunning { s.running with lexicalEnv := r.running.lexicalEnv })
        (fun s => ⟨_, s.waiting, rfl⟩) _ (hyp rest later here)
    · obtain ⟨rfl, rfl⟩ := moment_in_single _ m later after here
      cases signal
  | uncaught d moves block handler r t body other hyp =>
    rw [catching_other _ r block handler other]
    exact hyp before after is
  | caught d moves block handler r s v t t' body ended rest hyp hyp' =>
    rw [catching_thrown _ r s block handler v ended]
    rcases moment_in_append t _ before after m is with ⟨later, here, rfl⟩ | ⟨later, here⟩
    · refine delivered_taken _ (hyp before later here) (fun s' failed => ?_) _ _
      cases ended.symm.trans failed
      exact signal_not_thrown m.kind _ signal v rfl
    · rcases moment_in_cons _ m _ later after here with ⟨rfl, _⟩ | ⟨rest', inside⟩
      · cases signal
      · exact hyp' rest' after inside
  | unfinished d moves block finalizer r e' t body raised hyp =>
    rw [finally_signal _ r block finalizer e' raised]
    exact hyp before after is
  | finished d moves block finalizer r s t t' body visible ended rest hyp hyp' =>
    rcases moment_in_append t _ before after m is with ⟨later, here, rfl⟩ | ⟨later, here⟩
    · refine delivered_taken _ (hyp before later here) (fun s' failed => ?_) _ _
      rw [failed] at visible
      cases e with
      | thrown v => exact signal_not_thrown m.kind _ signal v rfl
      | _ => cases visible
    · rcases moment_in_cons _ m _ later after here with ⟨rfl, _⟩ | ⟨rest', inside⟩
      · cases signal
      · have part := hyp' rest' after inside
        rw [ended] at part
        cases ended' : finalizer (machine host .resolved rounds d)
            (endOf (block (machine host .resolved rounds d) r)) with
        | ok c s' =>
          rw [ended'] at part
          have whole := delivered_ok c s' part [] (thenFinally block finalizer
            (machine host .resolved rounds d) r)
          rwa [List.append_nil] at whole
        | error e' s' =>
          rw [finally_error _ r block finalizer e' s' visible ended']
          rw [ended'] at part
          exact part
  | enter d moves invocation r t body hyp => exact hyp before after is
  | bottom moves invocation r =>
    obtain ⟨rfl, rfl⟩ := moment_in_single _ m before after is
    cases signal
    exact .ended _ (fun _ member => absurd member List.not_mem_nil) (only_contexts_refl _)
  | exhausted d moves r =>
    obtain ⟨rfl, rfl⟩ := moment_in_single _ m before after is
    cases signal
    exact .ended _ (fun _ member => absurd member List.not_mem_nil) (only_contexts_refl _)
  | passed d moves block handler r t body other hyp =>
    rw [rescuing_other _ r block handler other]
    exact hyp before after is
  | rescued d moves block handler x r s e' t t' body ended taken rest hyp hyp' =>
    rw [rescuing_taken _ r s block handler e' x ended taken]
    rcases moment_in_append t _ before after m is with ⟨later, here, rfl⟩ | ⟨later, here⟩
    · have part := hyp before later here
      rw [ended] at part
      cases part with
      | ended _ quiet same => exact .taken _ later t' s rfl quiet same
      | taken _ between more s' is' quiet same =>
        exact .taken _ between _ s' (by rw [is', List.append_assoc, List.cons_append]) quiet same
    · rcases moment_in_cons _ m _ later after here with ⟨rfl, _⟩ | ⟨rest', inside⟩
      · cases signal
      · exact hyp' rest' after inside

/-! Entrances. -/

-- What the host is told about an interrupt that scripts cannot catch.
def Interrupt.failure? : Interrupt → Option Failure
  | .thrown _ => none
  | .stackOverflow v => some (.stackOverflow v)
  | .stepsExceeded => some .stepsExceeded
  | .exhausted => some .exhausted

theorem finish_signal (host : HostFunction) (depth : Nat) (e : Interrupt) (s : Realm)
    (signal : ∀ v, e ≠ .thrown v) : ∃ failure, e.failure? = some failure ∧
      Realm.finish host depth .resolved (.error e s) = (.error failure, unwindTo depth s) := by
  cases e with
  | thrown v => exact absurd rfl (signal v)
  | stackOverflow v => exact ⟨_, rfl, rfl⟩
  | stepsExceeded => exact ⟨_, rfl, rfl⟩
  | exhausted => exact ⟨_, rfl, rfl⟩

-- A program in which a signal is raised ends with it, if no function of the host has taken it.
theorem program_reports (host : HostFunction) (text filename : String) (r : Realm) (parsed : Syntax.Parsed)
    (parses : Syntax.parseProgram text filename r.config.collapse = .ok parsed) (before after : List Moment)
    (m : Moment) (e : Interrupt)
    (course : Course host boundless boundless false (Realm.runProgram (compile parsed)) r.resetSteps
      (before ++ m :: after))
    (signal : m.kind.signal? = some e) (kept : ∀ n ∈ after, n.kind ≠ .rescue e) :
    ∃ failure s, e.failure? = some failure ∧
      Realm.evaluateProgram host text filename r = (.error failure, s) ∧ m.after.OnlyContexts s := by
  have delivered := course_delivers host boundless boundless false _ _ _ course before after m e rfl signal
  have whole : Realm.evaluateProgram host text filename r = Realm.finish host r.depth .resolved
      (Realm.runProgram (compile parsed) (machine host .resolved boundless boundless) r.resetSteps) := by
    delta Realm.evaluateProgram
    rw [parses]
    rfl
  rw [whole]
  generalize Realm.runProgram (compile parsed) (machine host .resolved boundless boundless) r.resetSteps = result
    at delivered
  cases delivered with
  | taken _ between rest s is quiet same =>
    have member : (⟨s, .rescue e, s⟩ : Moment) ∈ after := by
      rw [is]
      exact List.mem_append_right between List.mem_cons_self
    exact absurd rfl (kept _ member)
  | ended s quiet same =>
    obtain ⟨failure, told, finished⟩ := finish_signal host r.depth e s (signal_not_thrown m.kind e signal)
    exact ⟨failure, _, told, finished, only_contexts_trans _ s _ same (leave_contexts_only _ s)⟩

-- A signal reaches the host at once: after the moment at which it is raised, contexts are left and environments
-- restored, and no catch clause, no finally block, no statement and no activation begins. The heap with its
-- environments and frames is the one of that moment, and the host is told the same signal.
theorem signal_reaches_host (host : HostFunction) (allowed : host.Public) (rounds d : Nat) (x : Run Value)
    (entrance : Entrance x) (r : Realm) :
    (∃ t, Course host rounds d false x r t) ∧
      (∀ t, Course host rounds d false x r t → Chain r t (endOf (x (machine host .resolved rounds d) r)) ∧
        ∀ before m after e, t = before ++ m :: after → m.kind.signal? = some e →
          Delivered e m.after after (x (machine host .resolved rounds d) r)) ∧
      ∀ text filename parsed, Syntax.parseProgram text filename r.config.collapse = .ok parsed →
        ∀ before m after e, Course host boundless boundless false (Realm.runProgram (compile parsed)) r.resetSteps
          (before ++ m :: after) → m.kind.signal? = some e → (∀ n ∈ after, n.kind ≠ .rescue e) →
          ∃ failure s, e.failure? = some failure ∧
            Realm.evaluateProgram host text filename r = (.error failure, s) ∧ m.after.OnlyContexts s := by
  refine ⟨entrance_traced host allowed rounds d x entrance r, fun t course => ⟨?_, ?_⟩, ?_⟩
  · exact course_chain host rounds d false x r t course
  · exact fun before m after e is signal =>
      course_delivers host rounds d false x r t course before after m e is signal
  · exact fun text filename parsed parses before m after e course signal kept =>
      program_reports host text filename r parsed parses before after m e course signal kept

-- The first statement is one too many.
theorem signal_reaches_host_at_once :
    ∃ (r : Realm) (m : Moment), Delivered .stepsExceeded m.after [⟨m.after, .leave, leaveContext m.after⟩]
      (Realm.runProgram (.mk default [] [.step 0 .nothing]) (machine callingHost .resolved 1 1) r) ∧
      m.kind = .exceed ∧ r.config.stepsLimit = some 0 := by
  let r : Realm := { heap := {}, config := { stepsLimit := some 0 } }
  let c : Context := { code := some default, this := .object Intrinsic.global }
  obtain ⟨_, each, _⟩ := signal_reaches_host callingHost calling_host_public 1 1
    (Realm.runProgram (.mk default [] [.step 0 .nothing])) (.program _) r
  have statement : Course callingHost 1 0 true (executeAll false none [.step 0 .nothing]) (r.entering c)
      [⟨r.entering c, .exceed, (r.entering c).counted⟩] := by
    have first : Course callingHost 1 0 true (execute false (.step 0 .nothing)) (r.entering c)
        [⟨r.entering c, .exceed, (r.entering c).counted⟩] := by
      rw [execute_step]
      exact .broken 0 true _ _ _ (r.entering c).counted .stepsExceeded _ (.exceed 0 true _ 0 rfl (Nat.le_refl 0)) rfl
    rw [execute_all_cons]
    exact .broken 0 true _ _ _ (r.entering c).counted .stepsExceeded _ first rfl
  have declared : Course callingHost 1 0 true (declare (.mk default [] [.step 0 .nothing]) 0 false)
      (r.entering c) [] :=
    .bind 0 true _ _ _ (r.entering c) () [] [] (.pure 0 true () _) rfl (.pure 0 true () _)
  have body := Course.bind 0 true _
    (fun _ => executeAll false none [.step 0 .nothing] >>= fun c => pure c.result) _ (r.entering c) () [] _ declared rfl
    (.broken 0 true _ (fun c => pure c.result) _ (r.entering c).counted .stepsExceeded _ statement rfl)
  have course := Course.context 0 false c _ r _ (Nat.lt_of_lt_of_le Nat.zero_lt_one (by decide)) body
  exact ⟨r, ⟨r.entering c, .exceed, (r.entering c).counted⟩,
    (each _ (.enter 0 false _ r _ course)).2 [_] _ _ .stepsExceeded rfl rfl, rfl, rfl⟩

end Ecma
