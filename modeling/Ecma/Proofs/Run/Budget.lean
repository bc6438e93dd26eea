import Ecma.Proofs.Run.Course
import Ecma.Proofs.Run.Signal

set_option autoImplicit false

/-!
An entrance gives back the contexts it found. How many wait stays within the limit, and an activation is
refused where the limit is reached and nowhere else.
-/

namespace Ecma

open Ecma.Program Run

/-! Depth. -/

theorem leave_depth (r : Realm) : (leaveContext r).depth ≤ r.depth := by
  rw [leaveContext]
  split
  · exact Nat.le_refl _
  · next c rest waiting =>
    rw [Realm.depth, Realm.depth, waiting, List.length_cons]
    exact Nat.le_succ _

-- The number of waiting contexts grows by an activation only, and only below the limit.
theorem lawful_depth (m : Moment) (lawful : m.Lawful) :
    m.after.depth ≤ max m.before.depth m.before.config.depthLimit := by
  cases lawful with
  | change r s changes =>
    have same := (changes_balanced false r s changes).waiting
    rw [Realm.depth, same]
    exact Nat.le_max_left _ _
  | enter r c room =>
    have more : (r.entering c).depth = r.depth + 1 := rfl
    dsimp only
    omega
  | leave r => exact Nat.le_trans (leave_depth r) (Nat.le_max_left _ _)
  | _ => exact Nat.le_max_left _ _

theorem chain_depth (r s : Realm) (t : List Moment) (chain : Chain r t s) (limit bound : Nat)
    (start : r.config.depthLimit = limit) (constant : ∀ m ∈ t, m.after.config.depthLimit = limit)
    (within : limit ≤ bound) (below : r.depth ≤ bound) :
    ∀ m ∈ t, m.Lawful ∧ m.before.config.depthLimit = limit ∧ m.before.depth ≤ bound ∧ m.after.depth ≤ bound := by
  induction chain with
  | nil r => exact fun m member => absurd member List.not_mem_nil
  | cons m t s lawful rest hyp =>
    have here := constant m List.mem_cons_self
    have after : m.after.depth ≤ bound := by
      have grown := lawful_depth m lawful
      omega
    intro n member
    rcases List.mem_cons.mp member with same | later
    · exact same ▸ ⟨lawful, start, below, after⟩
    · exact hyp here (fun n member => constant n (List.mem_cons_of_mem m member)) after n later

-- An end that a finalizer does not hide is the finalizer's own.
theorem finally_raised (m : Machine) (r s : Realm) (block finalizer : Run Completion) (e : Interrupt)
    (signal : ∀ v, e ≠ .thrown v) (visible : signalOf (block m r) = none)
    (raised : thenFinally block finalizer m r = .error e s) :
    finalizer m (endOf (block m r)) = .error e s := by
  cases ended : finalizer m (endOf (block m r)) with
  | error e s' =>
    rw [finally_error m r block finalizer e s' visible ended] at raised
    exact raised
  | ok f s' =>
    rw [thenFinally] at raised
    cases found : block m r with
    | ok c s'' =>
      rw [found] at raised ended
      dsimp only [endOf] at raised ended
      rw [ended] at raised
      cases raised
    | error e s'' =>
      rw [found] at raised ended visible
      cases e with
      | thrown v' =>
        dsimp only [endOf] at raised ended
        rw [ended] at raised
        by_cases jumped : f.jump.isSome = true
        · simp only [if_pos jumped] at raised
          cases raised
        · simp only [if_neg jumped] at raised
          cases raised
          exact absurd rfl (signal v')
      | _ => cases visible

-- A run ends with an interrupt that scripts cannot catch only if something has raised it.
theorem signal_raised (host : HostFunction) (rounds : Nat) {α : Type} (d : Nat) (moves : Bool) (x : Run α)
    (r s : Realm) (e : Interrupt) (signal : ∀ v, e ≠ .thrown v) (t : List Moment)
    (course : Course host rounds d moves x r t) (raised : x (machine host .resolved rounds d) r = .error e s) :
    ∃ m ∈ t, m.kind.signal? = some e := by
  have left (t t' : List Moment) (found : ∃ m ∈ t, m.kind.signal? = some e) : ∃ m ∈ t ++ t', m.kind.signal? = some e := by
    obtain ⟨m, member, kind⟩ := found
    exact ⟨m, List.mem_append_left t' member, kind⟩
  have right (t t' : List Moment) (found : ∃ m ∈ t', m.kind.signal? = some e) : ∃ m ∈ t ++ t', m.kind.signal? = some e := by
    obtain ⟨m, member, kind⟩ := found
    exact ⟨m, List.mem_append_right t member, kind⟩
  induction course generalizing s with
  | pure d moves a r => cases raised
  | get d moves r => cases raised
  | read d moves r => cases raised
  | found d moves v strict r =>
    rw [place_of_at] at raised
    cases raised
  | thrown d moves v r =>
    cases raised
    exact absurd rfl (signal v)
  | bind d moves x f r s' a t t' first ended second hyp hyp' =>
    rw [bind_at, ended] at raised
    exact right t t' (hyp' s raised)
  | broken d moves x f r s' e t first ended hyp =>
    rw [bind_at, ended] at raised
    cases raised
    exact hyp _ ended
  | change d moves f r changes => cases raised
  | place d f r same => cases raised
  | count d moves r room =>
    rw [step_room _ r room] at raised
    cases raised
  | exceed d moves r limit limited past =>
    rw [step_over _ r limit limited past] at raised
    cases raised
    exact ⟨_, List.mem_cons_self, rfl⟩
  | context d moves c run r t room body hyp =>
    rw [in_context_room _ r c run room] at raised
    cases ended : run (machine host .resolved rounds d) (r.entering c) with
    | ok a s' =>
      rw [ended] at raised
      cases raised
    | error e s' =>
      rw [ended] at raised
      cases raised
      exact right [_] _ (left t _ (hyp _ ended))
  | refuse d moves c run r s' id full made =>
    rw [in_context_full _ r c run full] at raised
    rw [new_error_at] at made
    cases made
    cases raised
    exact ⟨_, List.mem_cons_self, rfl⟩
  | within d env run r s' t body ended hyp =>
    rw [in_environment_at] at raised
    cases found : run (machine host .resolved rounds d)
        (r.withRunning { r.running with lexicalEnv := env }) with
    | ok a s'' =>
      rw [found] at raised
      cases raised
    | error e s'' =>
      rw [found] at raised
      cases raised
      exact right [_] _ (left t _ (hyp _ found))
  | uncaught d moves block handler r t body other hyp =>
    rw [catching_other _ r block handler other] at raised
    exact hyp s raised
  | caught d moves block handler r s' v t t' body ended rest hyp hyp' =>
    rw [catching_thrown _ r s' block handler v ended] at raised
    exact right t _ (right [_] t' (hyp' s raised))
  | unfinished d moves block finalizer r e t body signal hyp =>
    rw [finally_signal _ r block finalizer e signal] at raised
    exact hyp s raised
  | finished d moves block finalizer r s' t t' body visible ended rest hyp hyp' =>
    have last := finally_raised _ r s block finalizer e signal visible raised
    rw [← ended] at last
    exact right t _ (right [_] t' (hyp' s last))
  | enter d moves invocation r t body hyp => exact hyp s raised
  | bottom moves invocation r =>
    cases raised
    exact ⟨_, List.mem_cons_self, rfl⟩
  | exhausted d moves r =>
    cases raised
    exact ⟨_, List.mem_cons_self, rfl⟩
  | passed d moves block handler r t body other hyp =>
    rw [rescuing_other _ r block handler other] at raised
    exact hyp s raised
  | rescued d moves block handler x r s' e t t' body ended taken rest hyp hyp' =>
    rw [rescuing_taken _ r s' block handler e x ended taken] at raised
    exact right t _ (right [_] t' (hyp' s raised))

theorem overflow_refused (kind : Happening) (v : Value) (signal : kind.signal? = some (.stackOverflow v)) :
    kind = .refuse v := by
  cases kind with
  | refuse w =>
    cases signal
    rfl
  | _ => cases signal

/-! Entrances. -/

-- Whatever the outcome, an entrance gives back the contexts it found, so that nothing is left to unwind; and
-- as long as no script sets another limit, activations are refused at the limit and nowhere else, before
-- they change anything: what a refusal leaves behind is the error it raises.
theorem entrance_balanced (host : HostFunction) (allowed : host.Public) (rounds d : Nat) (x : Run Value)
    (entrance : Entrance x) (r : Realm) :
    (endOf (x (machine host .resolved rounds d) r)).waiting = r.waiting ∧
      (endOf (x (machine host .resolved rounds d) r)).running = r.running ∧
      unwindTo r.depth (endOf (x (machine host .resolved rounds d) r)) =
        endOf (x (machine host .resolved rounds d) r) ∧
      (∃ t, Course host rounds d false x r t) ∧
      ∀ t, Course host rounds d false x r t → Chain r t (endOf (x (machine host .resolved rounds d) r)) ∧
        ((∀ m ∈ t, m.after.config.depthLimit = r.config.depthLimit) → ∀ m ∈ t,
          m.after.depth ≤ max r.depth r.config.depthLimit ∧
          (m.kind = .enter → m.before.depth < r.config.depthLimit) ∧
          (∀ v, m.kind = .refuse v → r.config.depthLimit ≤ m.before.depth ∧
            (r.depth ≤ r.config.depthLimit → m.before.depth = r.config.depthLimit))) ∧
        (∀ m ∈ t, ∀ v, m.kind = .refuse v → ∃ o frames, o.kind = .error frames ∧
          v = .object m.before.heap.objects.size ∧ m.after = m.before.withHeap (m.before.heap.addObject o).2) ∧
        (∀ before m after v, t = before ++ m :: after → m.kind = .refuse v →
          Delivered (.stackOverflow v) m.after after (x (machine host .resolved rounds d) r)) ∧
        ∀ v s, x (machine host .resolved rounds d) r = .error (.stackOverflow v) s → ∃ m ∈ t, m.kind = .refuse v := by
  obtain ⟨t, course⟩ := entrance_traced host allowed rounds d x entrance r
  have balanced := course_balanced host rounds d false x r t course
  refine ⟨balanced.waiting, balanced.running rfl, ?_, ⟨t, course⟩, fun t course => ?_⟩
  · rw [unwindTo, Realm.depth, Realm.depth, balanced.waiting, Nat.sub_self]
    rfl
  have chain := course_chain host rounds d false x r t course
  refine ⟨chain, fun constant m member => ?_, fun m member v refused => ?_,
    fun before m after v is refused => ?_, fun v s exceeded => ?_⟩
  · have most := Nat.le_max_right r.depth r.config.depthLimit
    have least := Nat.le_max_left r.depth r.config.depthLimit
    obtain ⟨lawful, limit, below, after⟩ := chain_depth r _ t chain r.config.depthLimit _ rfl constant most least
      m member
    refine ⟨after, fun entered => ?_, fun v refused => ?_⟩
    · cases lawful with
      | enter s c room => exact limit ▸ room
      | _ => cases entered
    · cases lawful with
      | refuse s o frames isError full =>
        have reached : r.config.depthLimit ≤ s.depth := limit ▸ full
        refine ⟨reached, fun start => Nat.le_antisymm ?_ reached⟩
        rwa [Nat.max_eq_right start] at below
      | _ => cases refused
  · cases chain_lawful r _ t chain m member with
    | refuse s o frames isError full =>
      cases refused
      exact ⟨o, frames, isError, rfl, rfl⟩
    | _ => cases refused
  · exact course_delivers host rounds d false x r t course before after m (.stackOverflow v) is (by rw [refused]; rfl)
  · obtain ⟨m, member, signal⟩ := signal_raised host rounds d false x r s (.stackOverflow v) nofun t course exceeded
    exact ⟨m, member, overflow_refused m.kind v signal⟩

-- Where no context may wait, no code is entered, and the contexts stay as they are.
theorem entrance_balanced_cramped :
    callingHost.Public ∧ Entrance (Realm.runProgram default) ∧
      ∃ t s, Course callingHost 1 1 false (Realm.runProgram default) { heap := {}, config := { depthLimit := 0 } } t ∧
        Realm.runProgram default (machine callingHost .resolved 1 1) { heap := {}, config := { depthLimit := 0 } } =
          .error (.stackOverflow (.object 0)) s ∧
        s.waiting = [] ∧ ∃ m ∈ t, m.kind = .refuse (.object 0) := by
  have refused : Realm.runProgram default (machine callingHost .resolved 1 1)
      { heap := {}, config := { depthLimit := 0 } } = .error (.stackOverflow (.object 0))
        (Realm.withError { heap := {}, config := { depthLimit := 0 } } .rangeError "Maximum call stack size exceeded") := by
    rfl
  obtain ⟨waiting, _, _, ⟨t, course⟩, each⟩ := entrance_balanced callingHost calling_host_public 1 1
    (Realm.runProgram default) (.program default) { heap := {}, config := { depthLimit := 0 } }
  obtain ⟨_, _, _, _, exceeded⟩ := each t course
  rw [refused] at waiting
  exact ⟨calling_host_public, .program default, t, _, course, refused, waiting, exceeded _ _ refused⟩

end Ecma

/-!
Runs that are held to a budget of steps and contexts. As long as nobody changes the limits, a run counts at
most the steps that are left and one more, that one just when it runs out of them; and then no bound of a
machine is reached that allows more rounds than steps and twice as many levels as contexts.
-/

namespace Ecma

open Ecma.Program Run

def Moment.isStep (m : Moment) : Bool :=
  match m.kind with
  | .count => true
  | .exceed => true
  | _ => false

-- How often a statement or a round of a loop asks for a step, granted or not.
def stepCalls (t : List Moment) : Nat :=
  t.countP Moment.isStep

-- How a run ends that is held to a limit of steps, with what it has counted.
structure Kept {α : Type} (limit : Nat) (r : Realm) (t : List Moment)
    (result : EStateM.Result Interrupt Realm α) : Prop where
  bounded : ∀ m ∈ t, m.kind ≠ .exhaust
  ended : ∀ s, result ≠ .error .exhausted s
  config : (endOf result).config = r.config
  steps : (endOf result).steps = r.steps + stepCalls t
  within : (∀ s, result ≠ .error .stepsExceeded s) → r.steps + stepCalls t ≤ limit
  exceeding : ∀ s, result = .error .stepsExceeded s → r.steps + stepCalls t = limit + 1

section

variable {α : Type} {host : HostFunction} {rounds d : Nat} {moves : Bool} {x : Run α} {r : Realm} {t : List Moment}
  (course : Course host rounds d moves x r t) (steady : ∀ m ∈ t, m.Steady)
include course steady

end

end Ecma
