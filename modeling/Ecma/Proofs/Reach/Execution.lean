import Ecma.Engine
import Ecma.Proofs.Eval.Grounded
import Ecma.Proofs.Reach.Blind

set_option autoImplicit false

/-!
Entering code that belongs to a part of the heap is blind to what is beyond, on machines of all depths.
-/

namespace Ecma

open Ecma.Program Run

variable {w : Reach} {m : Machine} {c : Context} (fits : m.Fits w)

/-! Activations. -/

include fits in
theorem activate_roaming (routine : Routine) (f : ObjectId) (scope : EnvironmentId) (this : Value) (args : List Value)
    (plain : routine.Plain) (own : w.object f) (inside : w.environment scope) (near : this.Near w)
    (all : Values.Near w args) : Roaming w m c (activate routine f scope this args) (Value.Near w) := by
  unfold activate
  extract_lets header rest
  have activated (env : EnvironmentId) (inside : w.environment env) : Roaming w m c (rest env) (Value.Near w) := by
    refine roaming_bind _ _ _ _ (still_blind fits (receiver_of_tame header this near)) fun this receiver => ?_
    have framed : Oblivious w m c (updateHeap fun h => h.addFrame (Array.replicate header.slots .undefined)) w.frame := by
      refine blind_update _ _ fun h k alike => ⟨⟨alike.frames, ?_⟩, alike.newFrame _ (Nat.le_refl _)⟩
      refine Heap.alike_frame h k alike _ fun v member => ?_
      rw [(Array.mem_replicate.mp member).2]
      trivial
    refine roaming_bind _ _ _ _ framed fun frame room => ?_
    -- from here on the code of the function runs in its own frame
    refine roaming_move _ { c with lexicalEnv := env, variableEnv := env, this := this, frame := frame } _ _
      (fun _ => rfl) fun _ => ?_
    have inside' : Context.Near w { c with lexicalEnv := env, variableEnv := env, this := this, frame := frame } :=
      ⟨receiver, inside, inside, room⟩
    have run : Tame w.part true (instantiate routine f frame env args >>= fun _ =>
        executeAll header.strict none routine.body >>= fun x => pure (returned x)) Value.In := by
      refine tame_then _ _ _ _ (instantiate_tame _ _ _ _ _ plain own room inside all) fun _ w' _ => ?_
      refine tame_after _ _ _ _ (execute_all_tame header.strict none routine.body w' (functions_plain routine plain).2
        (OptionalValue.in_none _)) fun _ x _ held _ upto => (returned_in x held).more upto
    exact code_blind fits inside' run
  split
  · exact roaming_bind _ _ w.environment _ (blind_pure _ _ inside) activated
  · exact roaming_bind _ _ _ _ (still_blind fits (new_scope_tame _ inside)) activated

/-! Entering code. -/

/-- Functions of the host are blind to what is beyond any part that they are called from. -/
def HostFunction.Oblivious (host : HostFunction) : Prop :=
  ∀ w m c word this args, Machine.Fits w m → Context.Near w c → this.Near w → Values.Near w args →
    Ecma.Oblivious w m c (host word this args) (Value.Near w)

section

variable {host : HostFunction} (hosted : host.Oblivious)
include fits

theorem native_context_blind (f : ObjectId) (body : Run Value)
    (inside : ∀ c, c.Near w → Oblivious w m c body (Value.Near w)) :
    Oblivious w m c (inNativeContext f body) (Value.Near w) := by
  exact blind_context _ _ _ fits (roaming_blind _ _ (inside _ (near_outer w _ trivial rfl rfl rfl)))

theorem call_script_blind (routine : Routine) (f : ObjectId) (scope : EnvironmentId) (this : Value) (args : List Value)
    (code : (Callable.script routine scope).Near w) (own : w.object f) (near : this.Near w) (all : Values.Near w args) :
    Oblivious w m c (callScript routine f scope this args) (Value.Near w) := by
  exact blind_context _ _ _ fits (activate_roaming fits routine f scope this args code.1 own code.2 near all)

theorem run_code_blind (routine : Routine) (lexicalEnv variableEnv : EnvironmentId) (this : Value) (deletable : Bool)
    (near : (Invocation.code routine lexicalEnv variableEnv this deletable).Near w) :
    Oblivious w m c (runCode routine lexicalEnv variableEnv this deletable) (Value.Near w) := by
  obtain ⟨plain, lexical, «variable», receiver⟩ := near
  refine blind_context _ _ _ fits (roaming_blind _ _ ?_)
  exact code_blind fits ⟨receiver, lexical, «variable», w.base⟩
    (code_body_tame routine variableEnv deletable plain «variable»)

include hosted in
theorem call_unbound_blind (f : ObjectId) (this : Value) (args : List Value) (own : w.object f) (near : this.Near w)
    (all : Values.Near w args) : Oblivious w m c (callUnbound host f this args) (Value.Near w) := by
  refine blind_heap _ _ fun h k alike => ?_
  rw [Heap.callable_alike h k alike.part f own]
  refine ⟨rfl, ?_⟩
  split
  · next routine scope found =>
    exact call_script_blind fits routine f scope this args (Heap.callable_in h k alike.part f own _ found) own near all
  · next b found =>
    exact native_context_blind fits f _ fun c _ => still_blind fits (builtin_run_tame b this args near all)
  · refine blind_look _ _ fun waiting r s alike => ?_
    have hosts : s.hosts = r.hosts := by
      rw [alike.same]
      rfl
    rw [hosts]
    refine ⟨rfl, ?_⟩
    split
    · next word found =>
      exact native_context_blind fits f _ fun c inside => hosted w m c word this args fits inside near all
    · exact blind_pure _ _ trivial
  · exact still_blind fits (tame_refused _ Value.In)

theorem construct_script_blind (routine : Routine) (f : ObjectId) (scope : EnvironmentId) (args : List Value)
    (code : (Callable.script routine scope).Near w) (own : w.object f) (all : Values.Near w args) :
    Oblivious w m c (constructScript routine f scope args) (Value.Near w) := by
  refine blind_bind _ _ _ _ (still_blind fits (get_tame f _ own)) fun prototype near => ?_
  have link : w.object (prototype.object?.getD Intrinsic.objectPrototype) := by
    cases prototype with
    | object id => exact near
    | _ => exact w.intrinsic Intrinsic.objectPrototype (by decide)
  refine blind_bind _ _ _ _ (blind_names .ordinary _ [] rfl (fun link' same => Option.some.inj same ▸ link) nofun nofun)
    fun id made => ?_
  refine blind_after _ _ _ _ (call_script_blind fits routine f scope (.object id) args code own made all)
    fun result given => ?_
  split
  · exact given
  · exact made

theorem construct_unbound_blind (f : ObjectId) (args : List Value) (own : w.object f) (all : Values.Near w args) :
    Oblivious w m c (constructUnbound f args) (Value.Near w) := by
  refine blind_heap _ _ fun h k alike => ?_
  rw [Heap.callable_alike h k alike.part f own]
  refine ⟨rfl, ?_⟩
  split
  · next routine scope found =>
    exact construct_script_blind fits routine f scope args (Heap.callable_in h k alike.part f own _ found) own all
  · next b found =>
    split
    · exact native_context_blind fits f _ fun c _ => still_blind fits (builtin_construct_tame b args all)
    · exact still_blind fits (tame_refused _ Value.In)
  · exact still_blind fits (tame_refused _ Value.In)
  · exact still_blind fits (tame_refused _ Value.In)

include hosted in
theorem dispatch_blind (invocation : Invocation) (near : invocation.Near w) :
    Oblivious w m c (dispatch host invocation) (Value.Near w) := by
  have unbound (f : ObjectId) (this : Value) (args : List Value) (own : w.object f) (near : this.Near w)
      (all : Values.Near w args) (x : ObjectId × Value × List Value → Run Value)
      (each : ∀ f this args, w.object f → this.Near w → Values.Near w args →
        Oblivious w m c (x (f, this, args)) (Value.Near w)) :
      Oblivious w m c (heap >>= fun h => x (h.unbind f this args)) (Value.Near w) := by
    refine blind_heap _ _ fun h k alike => ?_
    obtain ⟨same, own', near', all'⟩ := Heap.unbind_alike h k alike.part (f + 1) f this args own near all
    exact ⟨congrArg x same, each _ _ _ own' near' all'⟩
  cases invocation with
  | call f this args =>
    exact unbound f this args near.1 near.2.1 near.2.2 (fun found => callUnbound host found.1 found.2.1 found.2.2)
      fun f this args own receiver all => call_unbound_blind fits hosted f this args own receiver all
  | construct f args =>
    exact unbound f .undefined args near.1 trivial near.2 (fun found => constructUnbound found.1 found.2.2)
      fun f this args own receiver all => construct_unbound_blind fits f args own all
  | code routine lexicalEnv variableEnv this deletable =>
    exact run_code_blind fits routine lexicalEnv variableEnv this deletable near

omit fits in
include hosted in
theorem machine_fits (w : Reach) (rounds d : Nat) : (machine host .resolved rounds d).Fits w := by
  induction d with
  | zero => exact ⟨rfl, fun c invocation _ waiting r s alike => .error _ r s trivial alike⟩
  | succ d hyp =>
    exact ⟨rfl, fun c invocation near waiting r s alike => dispatch_blind hyp hosted invocation near waiting r s alike⟩

end

end Ecma
