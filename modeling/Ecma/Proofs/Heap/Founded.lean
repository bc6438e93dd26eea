import Ecma.Eval.Machine
import Ecma.Proofs.Heap.Enumerator
import Ecma.Proofs.Heap.Grounded
import Ecma.Proofs.Run.Result

set_option autoImplicit false

/-!
In a grounded heap links lead down, so every loop along them ends. The searches of a heap ask of each link whether
it leads down before they go along; in a grounded heap they go along the links as they are.
-/

namespace Ecma

/-! Turns of an enumerator. -/

namespace Enumerator

-- A turn that goes on leads down to a prototype, or leaves fewer keys.
theorem moves_less (h : Heap) (e e' : Enumerator) (moves : e.turn h = .moves e') :
    Prod.Lex (· < ·) (· < ·) (e'.current.getD 0, e'.pending.length) (e.current.getD 0, e.pending.length) := by
  rw [turn] at moves
  split at moves
  · cases moves
  · next id here =>
    rw [here]
    split at moves
    · next done =>
      split at moves
      · cases moves
      · next p link =>
        cases moves
        refine .left _ _ (Heap.prototype_less h id p ?_)
        split at link
        · cases link
        · exact link
    · next key rest pending =>
      rw [pending]
      have fewer : rest.length < (key :: rest).length := Nat.lt_succ_self _
      split at moves
      · cases moves
        rw [here]
        exact .right _ fewer
      · split at moves
        · cases moves
          rw [here]
          exact .right _ fewer
        · split at moves
          · cases moves
          · cases moves
            rw [here]
            exact .right _ fewer

theorem turns_founded (h : Heap) : WellFounded fun e' e : Enumerator => e.turn h = .moves e' := by
  have lex : WellFounded (Prod.Lex (· < · : Nat → Nat → Prop) (· < · : Nat → Nat → Prop)) :=
    (Prod.lex Nat.lt_wfRel Nat.lt_wfRel).wf
  exact Subrelation.wf (moves_less h _ _) (InvImage.wf (fun e : Enumerator => (e.current.getD 0, e.pending.length)) lex)

end Enumerator

namespace Heap

variable (h : Heap)

/-! Links. -/

-- A function, and the one that it is bound to.
def Targets (f target : ObjectId) : Prop :=
  ∃ receiver args, h.callable? f = some (.bound target receiver args)

-- Each link leads to what was made before its holder.
structure Descends : Prop where
  prototype : ∀ id link, (h.object id).prototype = some link → link < id
  target : ∀ f target, h.Targets f target → target < f
  outer : ∀ env link, (h.environment env).outer = some link → link < env

-- There is no way along links that goes on for ever, and none that comes back.
structure Founded : Prop where
  prototypes : WellFounded fun link id => (h.object id).prototype = some link
  targets : WellFounded fun target f => h.Targets f target
  outers : WellFounded fun link env => (h.environment env).outer = some link

theorem descends_founded (descends : h.Descends) : h.Founded := by
  have less : WellFounded (· < · : Nat → Nat → Prop) := Nat.lt_wfRel.wf
  exact ⟨Subrelation.wf (descends.prototype _ _) less, Subrelation.wf (descends.target _ _) less,
    Subrelation.wf (descends.outer _ _) less⟩

theorem grounded_descends (grounded : h.Grounded) : h.Descends := by
  refine ⟨grounded.prototype, fun f target bound => ?_, grounded.outer⟩
  obtain ⟨receiver, args, found⟩ := bound
  exact grounded.target f target receiver args found

/-! Loops along links. -/

-- The loops of the engine go along the links to the end, without any other check.
structure Loops : Prop where
  property : ∀ id key, h.property? id key =
    (h.own? id key).or ((h.object id).prototype.bind fun link => h.property? link key)
  canPut : ∀ id key, canPut h id key = match h.own? id key with
    | some (.accessor _ setter _ _) => setter.isSome
    | some (.data _ w _ _) => w
    | none =>
      match (h.object id).prototype.bind fun link => h.property? link key with
      | some (.accessor _ setter _ _) => setter.isSome
      | some (.data _ w _ _) => (h.object id).extensible && w
      | none => (h.object id).extensible
  inherits : ∀ id ancestor, h.inherits id ancestor = match (h.object id).prototype with
    | some link => link == ancestor || h.inherits link ancestor
    | none => false
  enumerator : ∀ e : Enumerator, e.next h = match e.turn h with
    | .moves e' => e'.next h
    | .reports key e' => (some key, e')
    | .finishes e' => (none, e')
  prototype : ∀ id, h.prototype? id = (h.object id).prototype
  turns : WellFounded fun e' e : Enumerator => e.turn h = .moves e'
  findBinding : ∀ env name, h.findBinding env name =
    if h.hasBinding env name then some env
    else (h.environment env).outer.bind fun link => h.findBinding link name
  unbind : ∀ f receiver args, h.unbind f receiver args = match h.callable? f with
    | some (.bound target receiver' args') => h.unbind target receiver' (args' ++ args)
    | _ => (f, receiver, args)
  call : ∀ (host : HostFunction) (machine : Machine) (r : Realm) f this args target receiver args', r.heap = h →
    h.callable? f = some (.bound target receiver args') →
    dispatch host (.call f this args) machine r = dispatch host (.call target receiver (args' ++ args)) machine r
  construct : ∀ (host : HostFunction) (machine : Machine) (r : Realm) f args target receiver args', r.heap = h →
    h.callable? f = some (.bound target receiver args') →
    dispatch host (.construct f args) machine r = dispatch host (.construct target (args' ++ args)) machine r
  hasInstance : ∀ (machine : Machine) (r : Realm) f v target receiver args', r.heap = h →
    h.callable? f = some (.bound target receiver args') → hasInstance f v machine r = hasInstance target v machine r

theorem below_same (id : Nat) (given : Option Nat) (less : ∀ link, given = some link → link < id) :
    below id given = given := by
  cases given with
  | none => rfl
  | some link => rw [below, Option.filter_some, if_pos (decide_eq_true (less link rfl))]

/-! Functions that are bound to others. -/

-- The function at the end does not depend on what is handed on.
theorem unbind_from_end (steps : Nat) (f : ObjectId) (receiver receiver' : Value) (args args' : List Value) :
    (h.unbindFrom steps f receiver args).1 = (h.unbindFrom steps f receiver' args').1 := by
  induction steps generalizing f receiver receiver' args args' with
  | zero => rfl
  | succ steps hyp =>
    rw [unbindFrom, unbindFrom]
    split
    · exact hyp _ _ _ _ _
    · rfl

theorem unbind_from_args (steps : Nat) (f : ObjectId) (receiver receiver' : Value) (args : List Value) :
    (h.unbindFrom steps f receiver args).2.2 = (h.unbindFrom steps f receiver' args).2.2 := by
  cases steps with
  | zero => rfl
  | succ steps =>
    rw [unbindFrom, unbindFrom]
    split <;> rfl

section

variable (descends : h.Descends)
include descends

theorem prototype_link (id : ObjectId) : h.prototype? id = (h.object id).prototype := by
  exact below_same id _ (descends.prototype id)

theorem outer_link (env : EnvironmentId) : h.outer? env = (h.environment env).outer := by
  exact below_same env _ (descends.outer env)

theorem property_follow (id : ObjectId) (key : PropertyKey) : h.property? id key =
    (h.own? id key).or ((h.object id).prototype.bind fun link => h.property? link key) := by
  rw [property_step, prototype_link h descends]

theorem inherits_follow (id ancestor : ObjectId) : h.inherits id ancestor = match (h.object id).prototype with
    | some link => link == ancestor || h.inherits link ancestor
    | none => false := by
  rw [Heap.inherits, prototype_chain_step, prototype_link h descends]
  cases (h.object id).prototype with
  | none => rfl
  | some link =>
    dsimp only
    rw [List.tail_cons, Option.elim_some, Heap.inherits, prototype_chain_step, List.contains_cons, List.tail_cons,
      Bool.beq_comm]

theorem unbind_from_enough (steps : Nat) (f : ObjectId) (receiver : Value) (args : List Value) (enough : f < steps) :
    h.unbindFrom steps f receiver args = h.unbindFrom (f + 1) f receiver args := by
  induction f using Nat.strongRecOn generalizing steps receiver args with
  | _ f hyp =>
    cases steps with
    | zero => exact absurd enough (Nat.not_lt_zero f)
    | succ steps =>
      rw [unbindFrom, unbindFrom]
      split
      · next target receiver' args' found =>
        have less : target < f := descends.target f target ⟨receiver', args', found⟩
        rw [hyp target less steps receiver' _ (Nat.lt_of_lt_of_le less (Nat.le_of_lt_succ enough)),
          hyp target less f receiver' _ less]
      · rfl

theorem unbind_follow (f : ObjectId) (receiver : Value) (args : List Value) :
    h.unbind f receiver args = match h.callable? f with
      | some (.bound target receiver' args') => h.unbind target receiver' (args' ++ args)
      | _ => (f, receiver, args) := by
  rw [unbind, unbindFrom]
  cases found : h.callable? f with
  | none => rfl
  | some code =>
    cases code with
    | bound target receiver' args' =>
      have less : target < f := descends.target f target ⟨receiver', args', found⟩
      exact unbind_from_enough h descends f target receiver' _ less
    | _ => rfl

theorem unbind_bound (f : ObjectId) (receiver : Value) (args : List Value) (target : ObjectId) (receiver' : Value)
    (args' : List Value) (bound : h.callable? f = some (.bound target receiver' args')) :
    h.unbind f receiver args = h.unbind target receiver' (args' ++ args) := by
  rw [unbind_follow h descends, bound]

omit h descends in
theorem call_unbinds (host : HostFunction) (machine : Machine) (r : Realm) (f g : ObjectId) (this receiver : Value)
    (args args' : List Value) (same : r.heap.unbind f this args = r.heap.unbind g receiver args') :
    dispatch host (.call f this args) machine r = dispatch host (.call g receiver args') machine r := by
  rw [dispatch, dispatch, Run.heap_at, Run.heap_at, same]

omit h descends in
theorem construct_unbinds (host : HostFunction) (machine : Machine) (r : Realm) (f g : ObjectId) (args args' : List Value)
    (same : (r.heap.unbind f .undefined args).1 = (r.heap.unbind g .undefined args').1)
    (same' : (r.heap.unbind f .undefined args).2.2 = (r.heap.unbind g .undefined args').2.2) :
    dispatch host (.construct f args) machine r = dispatch host (.construct g args') machine r := by
  rw [dispatch, dispatch, Run.heap_at, Run.heap_at]
  dsimp only
  rw [same, same']

omit h descends in
theorem has_instance_unbinds (machine : Machine) (r : Realm) (f g : ObjectId) (v : Value)
    (same : (r.heap.unbind f .undefined []).1 = (r.heap.unbind g .undefined []).1) :
    hasInstance f v machine r = hasInstance g v machine r := by
  rw [Ecma.hasInstance, Ecma.hasInstance, Run.heap_at, Run.heap_at]
  dsimp only
  rw [same]

theorem descends_loops : h.Loops := by
  refine ⟨property_follow h descends, fun id key => ?_, inherits_follow h descends, Enumerator.next_turn h,
    prototype_link h descends, Enumerator.turns_founded h, fun env name => ?_, unbind_follow h descends, ?_, ?_, ?_⟩
  · have same := canPut.eq_def h id key
    rw [prototype_link h descends] at same
    exact same
  · rw [find_binding_step, outer_link h descends]
  · rintro host machine r f this args target receiver args' rfl bound
    exact call_unbinds host machine r f target this receiver args _ (unbind_bound _ descends f this args _ _ _ bound)
  · rintro host machine r f args target receiver args' rfl bound
    have whole := unbind_bound _ descends f .undefined args _ _ _ bound
    refine construct_unbinds host machine r f target args _ ?_ ?_
    · rw [whole]
      exact unbind_from_end _ _ _ _ _ _ _
    · rw [whole]
      exact unbind_from_args _ _ _ _ _ _
  · rintro machine r f v target receiver args' rfl bound
    refine has_instance_unbinds machine r f target v ?_
    rw [unbind_bound _ descends f .undefined [] _ _ _ bound]
    exact unbind_from_end _ _ _ _ _ _ _

end

end Heap

end Ecma
