import Ecma.Engine
import Ecma.Proofs.Eval.Entry
import Ecma.Proofs.Eval.Tame
import Ecma.Proofs.Run.Orderly

set_option autoImplicit false

/-!
Activations of functions, and global and eval code, are careful with the realm, so that entering code leads from
one grounded realm to the next.
-/

namespace Ecma

open Ecma.Program Run

variable {w : Extent} {moves : Bool}

/-! Activations. -/

theorem activate_careful (routine : Routine) (f : ObjectId) (scope : EnvironmentId) (this : Value) (args : List Value)
    (plain : routine.Plain) (has : w.Has f) (encloses : w.Encloses scope) (held : this.Within w)
    (all : Values.Within w args) : Careful w true (activate routine f scope this args) Value.Within := by
  unfold activate
  extract_lets header rest
  have activated (env : EnvironmentId) (w₁ : Extent) (upto₁ : w.Upto w₁) (inside : w₁.Encloses env) :
      Careful w₁ true (rest env) Value.Within := by
    have received : Careful w₁ true (receiverOf header this) Value.Within :=
      part_careful (receiver_of_tame _ _ (held.more upto₁))
    refine .bind _ _ _ _ received fun this w₂ upto₂ receiver => ?_
    have framed : Careful w₂ true (updateHeap fun h => h.addFrame (Array.replicate header.slots .undefined)) Anything := by
      refine .update _ _ (fun h => .frame h _) (fun h grounded _ => ?_) fun _ _ _ => trivial
      refine Heap.orderly_frame h grounded _ fun v member => ?_
      cases (Array.mem_replicate.mp member).2
      trivial
    refine careful_then _ _ _ _ framed fun frame w₃ upto₃ => ?_
    have more := upto₂.trans upto₃
    have placed : Careful w₃ true (modifyRunning fun c =>
        { c with lexicalEnv := env, variableEnv := env, this := this, frame := frame }) Anything := by
      refine .place _ (fun _ => ⟨rfl, rfl⟩) fun w' c on _ => ?_
      have inside := inside.more (more.trans on)
      exact ⟨(receiver.more upto₃).more on, inside, inside⟩
    refine careful_then _ _ _ _ placed fun _ w₄ upto₄ => ?_
    have more := more.trans upto₄
    have instantiated : Tame w₄.part true (instantiate routine f frame env args) Vague :=
      instantiate_tame _ _ _ _ _ plain (Extent.Has.more has (upto₁.trans more)) trivial (inside.more more)
        (Values.Within.more (upto₁.trans more) all)
    refine careful_then _ _ _ _ (part_careful instantiated) fun _ w₅ _ => ?_
    have executed := execute_all_tame header.strict none routine.body w₅.part (functions_plain routine plain).2
      (OptionalValue.in_none _)
    refine careful_after _ _ _ _ (part_careful executed) fun w₆ c _ given w₇ on => ?_
    exact Value.Within.more (returned_in c given) on
  split
  · exact .bind _ _ Extent.Encloses _ (.pure _ _ fun _ upto => encloses.more upto) fun env w₁ upto inside =>
      activated env w₁ upto inside
  · exact .bind _ _ _ _ (part_careful (new_scope_tame _ encloses)) fun env w₁ upto inside => activated env w₁ upto inside

theorem code_body_careful (routine : Routine) (env : EnvironmentId) (deletable : Bool) (plain : routine.Plain)
    (encloses : w.Encloses env) : Careful w true (declare routine env deletable >>= fun _ =>
      executeAll routine.header.strict none routine.body >>= fun c => pure c.result) Value.Within := by
  exact part_careful (code_body_tame routine env deletable plain encloses)

/-! Entering code. -/

-- Functions of the host put nothing into the realm but what there is.
def HostFunction.Careful (host : HostFunction) : Prop :=
  ∀ word this args w, this.Within w → Values.Within w args → Ecma.Careful w true (host word this args) Value.Within

section

variable {host : HostFunction} {rounds d : Nat} {moves : Bool} {r : Realm}
  (enters : ∀ moves invocation s, s.Grounded → invocation.Within s.extent →
    Orderly host rounds d moves (enter invocation) Value.Within s)
include enters

-- A context that starts in the global environment.
theorem outer_context_orderly (c : Context) (run : Run Value) (grounded : r.Grounded) (this : c.this.Within r.extent)
    (lexical : c.lexicalEnv = Intrinsic.globalEnvironment) («variable» : c.variableEnv = Intrinsic.globalEnvironment)
    (careful : Careful r.extent true run Value.Within) :
    Orderly host rounds d moves (inContext c run) Value.Within r := by
  have within : c.Within r.extent := ⟨this, lexical ▸ grounded.global, «variable» ▸ grounded.global⟩
  exact orderly_context c run _ grounded within
    (careful_orderly enters run _ careful (grounded_entering c grounded within) (.refl _))

theorem call_script_orderly (routine : Routine) (f : ObjectId) (scope : EnvironmentId) (this : Value)
    (args : List Value) (grounded : r.Grounded) (code : (Callable.script routine scope).Within r.extent)
    (has : r.extent.Has f) (receiver : this.Within r.extent) (all : Values.Within r.extent args) :
    Orderly host rounds d moves (callScript routine f scope this args) Value.Within r := by
  exact outer_context_orderly enters _ _ grounded trivial rfl rfl
    (activate_careful routine f scope this args code.1 has code.2 receiver all)

theorem run_code_orderly (routine : Routine) (lexicalEnv variableEnv : EnvironmentId) (this : Value) (deletable : Bool)
    (grounded : r.Grounded) (within : (Invocation.code routine lexicalEnv variableEnv this deletable).Within r.extent) :
    Orderly host rounds d moves (runCode routine lexicalEnv variableEnv this deletable) Value.Within r := by
  obtain ⟨plain, lexical, «variable», receiver⟩ := within
  refine orderly_context _ _ _ grounded ⟨receiver, lexical, «variable»⟩ ?_
  exact careful_orderly enters _ _ (code_body_careful routine variableEnv deletable plain «variable»)
    (grounded_entering _ grounded ⟨receiver, lexical, «variable»⟩) (.refl _)

theorem call_unbound_orderly (hosted : host.Careful) (f : ObjectId) (this : Value) (args : List Value)
    (grounded : r.Grounded) (has : r.extent.Has f) (receiver : this.Within r.extent)
    (all : Values.Within r.extent args) :
    Orderly host rounds d moves (callUnbound host f this args) Value.Within r := by
  refine orderly_heap _ _ ?_
  split
  · next routine scope found =>
    have code := Heap.callable_within r.heap grounded.heap f _ found
    exact call_script_orderly enters routine f scope this args grounded code has receiver all
  · next b found =>
    exact outer_context_orderly enters _ _ grounded trivial rfl rfl (part_careful (builtin_run_tame b this args receiver all))
  · refine orderly_look _ _ ?_
    split
    · next word found =>
      exact outer_context_orderly enters _ _ grounded trivial rfl rfl (hosted word this args r.extent receiver all)
    · exact orderly_pure _ _ grounded trivial
  · exact orderly_error _ _ _ grounded

theorem construct_script_orderly (routine : Routine) (f : ObjectId) (scope : EnvironmentId) (args : List Value)
    (grounded : r.Grounded) (code : (Callable.script routine scope).Within r.extent) (has : r.extent.Has f)
    (all : Values.Within r.extent args) :
    Orderly host rounds d moves (constructScript routine f scope args) Value.Within r := by
  have read : Careful r.extent moves (get f (.name "prototype")) Value.Within :=
    part_careful (get_tame f _ has)
  refine orderly_bind _ _ _ _ (careful_orderly enters _ _ read grounded (.refl _)) fun prototype s upto after held => ?_
  have made : Careful s.extent moves
      (newObject .ordinary (some (prototype.object?.getD Intrinsic.objectPrototype))) Extent.Has := by
    refine part_careful (tame_bare .ordinary _ [] rfl rfl (fun link same => ?_) nofun nofun
      List.nodup_nil)
    cases same
    cases prototype with
    | object id => exact held
    | _ => exact after.intrinsic Intrinsic.objectPrototype (by decide)
  refine orderly_bind _ _ _ _ (careful_orderly enters _ _ made after (.refl _)) fun id s' upto' after' made => ?_
  have more := upto.trans upto'
  refine orderly_bind _ _ _ _ (call_script_orderly enters routine f scope (.object id) args after' (code.more more)
    (has.more more) made (Values.Within.more more all)) fun result s'' upto'' after'' given => ?_
  refine orderly_pure _ _ after'' ?_
  split
  · exact given
  · exact Extent.Has.more made upto''

theorem construct_unbound_orderly (f : ObjectId) (args : List Value) (grounded : r.Grounded) (has : r.extent.Has f)
    (all : Values.Within r.extent args) :
    Orderly host rounds d moves (constructUnbound f args) Value.Within r := by
  refine orderly_heap _ _ ?_
  split
  · next routine scope found =>
    have code := Heap.callable_within r.heap grounded.heap f _ found
    exact construct_script_orderly enters routine f scope args grounded code has all
  · next b found =>
    split
    · exact outer_context_orderly enters _ _ grounded trivial rfl rfl (part_careful (builtin_construct_tame b args all))
    · exact orderly_error _ _ _ grounded
  · exact orderly_error _ _ _ grounded
  · exact orderly_error _ _ _ grounded

theorem dispatch_orderly (hosted : host.Careful) (invocation : Invocation) (grounded : r.Grounded)
    (within : invocation.Within r.extent) :
    Orderly host rounds d moves (dispatch host invocation) Value.Within r := by
  cases invocation with
  | call f this args =>
    obtain ⟨has, receiver, all⟩ := within
    refine orderly_heap _ _ ?_
    obtain ⟨has', receiver', all'⟩ := Heap.unbind_from_within r.heap grounded.heap (f + 1) f this args has receiver all
    exact call_unbound_orderly enters hosted _ _ _ grounded has' receiver' all'
  | construct f args =>
    obtain ⟨has, all⟩ := within
    refine orderly_heap _ _ ?_
    obtain ⟨has', _, all'⟩ := Heap.unbind_from_within r.heap grounded.heap (f + 1) f .undefined args has trivial all
    exact construct_unbound_orderly enters _ _ grounded has' all'
  | code routine lexicalEnv variableEnv this deletable =>
    exact run_code_orderly enters _ _ _ _ _ grounded within

end

-- On a machine of any depth.
theorem enter_orderly (host : HostFunction) (hosted : host.Careful) (rounds d : Nat) (moves : Bool)
    (invocation : Invocation) (r : Realm) (grounded : r.Grounded) (within : invocation.Within r.extent) :
    Orderly host rounds d moves (enter invocation) Value.Within r := by
  induction d generalizing moves invocation r with
  | zero =>
    exact ⟨_, .bottom moves invocation r, orderly_single _ (orderly_aside _ grounded grounded rfl), grounded, trivial⟩
  | succ d hyp =>
    have enters (moves : Bool) (invocation : Invocation) (s : Realm) (grounded : s.Grounded)
        (within : invocation.Within s.extent) :
        Orderly host rounds d moves (enter invocation) Value.Within s := hyp moves invocation s grounded within
    obtain ⟨t, course, each, settled⟩ : Orderly host rounds d false (dispatch host invocation) Value.Within r :=
      dispatch_orderly enters hosted invocation grounded within
    exact ⟨t, .enter d moves invocation r t course, each, settled⟩

theorem hosted_orderly {α : Type} (host : HostFunction) (hosted : host.Careful) (rounds d : Nat) (x : Run α)
    (gives : Fact α) (r : Realm) (careful : Careful r.extent moves x gives) (grounded : r.Grounded) :
    Orderly host rounds d moves x gives r := by
  exact careful_orderly (fun moves invocation s => enter_orderly host hosted rounds d moves invocation s) x gives careful
    grounded (.refl _)

theorem calling_host_tame {w : Region} (word : String) (this : Value) (args : List Value) (receiver : this.In w)
    (all : Values.In w args) : Tame w moves (callingHost word this args) Value.In := by
  exact call_tame _ _ _ (head_in args all) receiver (tail_in args all)

theorem calling_host_careful : callingHost.Careful := by
  exact fun word this args w receiver all =>
    part_careful (calling_host_tame word this args receiver all)

end Ecma
