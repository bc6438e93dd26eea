import Ecma.Engine
import Ecma.Proofs.Eval.Activation
import Ecma.Proofs.Run.Traced

set_option autoImplicit false

/-!
The function that changes limits has a course in which each change is one that a number asks for.
-/

namespace Ecma

open Ecma.Program Run

-- The function runs that changes limits.
def Realm.Setting (g : ObjectId) (r : Realm) : Prop :=
  r.running.function = some g ∧ r.heap.callable? g = some (.builtin (.global .setSystemProperty))

section

variable {raw : Bool} {host : HostFunction} {rounds d floor : Nat} {moves : Bool} {α β : Type} {r : Realm} {g : ObjectId}

theorem course_setting (x : Run α) (t : List Moment) (course : Course host rounds d moves x r t)
    (setting : r.Setting g) : (endOf (x (machine host .resolved rounds d) r)).Setting g := by
  obtain ⟨running, found⟩ := setting
  have chain := course_chain host rounds d moves x r t course
  refine ⟨(course_balanced host rounds d moves x r t course).code.1.trans running, ?_⟩
  rw [(chain_extends _ _ t chain).callable g (Heap.callable_known _ _ _ found)]
  exact found

-- What leaves the limits alone, in the same realm.
theorem relimited_traced (x : Run α) (traced : Traced raw false host rounds d floor moves x r) :
    Relimited raw false true host rounds d floor moves x r := by
  obtain ⟨t, course, account⟩ := traced
  exact ⟨t, course, ⟨account.regular, nofun, nofun, account.spent⟩, account.limited⟩

theorem relimited_pure (a : α) : Relimited raw false true host rounds d floor moves (pure a) r := by
  exact relimited_traced _ (traced_pure a)

theorem relimited_bind (x : Run α) (f : α → Run β) (setting : r.Setting g)
    (first : Relimited raw false true host rounds d floor moves x r)
    (second : ∀ a s, x (machine host .resolved rounds d) r = .ok a s → s.Setting g → s.depth = r.depth →
      Relimited raw false true host rounds d floor moves (f a) s) :
    Relimited raw false true host rounds d floor moves (x >>= f) r := by
  obtain ⟨t, course, account, limited⟩ := first
  have still := course_setting x t course setting
  have depth := course_depth x t course
  cases ended : x (machine host .resolved rounds d) r with
  | error e s => exact ⟨t, .broken d moves x f r s e t course ended, account, limited⟩
  | ok a s =>
    rw [ended] at still depth
    obtain ⟨t', rest, account', limited'⟩ := second a s ended still depth
    refine ⟨_, .bind d moves x f r s a t t' course ended rest, account_append t t' account account',
      fun strict m member => ?_⟩
    exact (List.mem_append.mp member).elim (limited strict m) (limited' strict m)

theorem relimited_beside (f : Realm → Realm) (outward : Outward f)
    (limited : (⟨r, .change, f r⟩ : Moment).Limited host) :
    Relimited raw false true host rounds d floor moves (modify f) r := by
  refine ⟨_, .change d moves (fun s => (PUnit.unit, f s)) r
    (.beside r _ (outward.heap r) (outward.running r) (outward.waiting r) (outward.hosts r) (outward.steps r)), ?_,
    fun _ m member => List.mem_singleton.mp member ▸ limited⟩
  exact account_single _ (fun _ => .inl (outward.heap r)) nofun nofun fun exhausted => by cases exhausted

-- A limit is set to what the number asks for.
theorem relimited_config (f : Config → Config) (v : Value) (x : Float) (before : Realm)
    (number : toNumber v (machine host .resolved rounds d) before = .ok x r) (setting : r.Setting g)
    (asked : r.config.Asked x (f r.config)) (collapse : ∀ c, (f c).collapse = c.collapse)
    (face : ∀ c, (f c).face = f c.face) : Relimited raw false true host rounds d floor moves (modifyConfig f) r := by
  exact relimited_beside _ (config_outward f collapse face) (.inr ⟨x, asked, ⟨g, setting⟩, ⟨rounds, d, v, before, number⟩⟩)

section

variable (enters : ∀ moves invocation s, s.depth = r.depth →
  Traced raw false host rounds d floor moves (enter invocation) s)
include enters

theorem relimited_native (x : Run α) (native : Native false x) :
    Relimited raw false true host rounds d floor moves x r := by
  exact relimited_traced x (traced_native enters x false native id rfl)

-- The number is that of the value, at this moment.
theorem relimited_number (v : Value) (f : Float → Run Unit) (setting : r.Setting g)
    (rest : ∀ x s, toNumber v (machine host .resolved rounds d) r = .ok x s → s.Setting g →
      Relimited raw false true host rounds d floor moves (f x) s) :
    Relimited raw false true host rounds d floor moves (toNumber v >>= f) r := by
  exact relimited_bind _ _ setting (relimited_native enters _ (to_number_native v)) fun x s number still _ => rest x s number still

theorem change_limit_relimited (name : String) (v : Value) (setting : r.Setting g) :
    Relimited raw false true host rounds d floor moves (changeLimit name v) r := by
  unfold changeLimit
  split
  · refine relimited_number enters v _ setting fun x s number still => ?_
    refine relimited_bind _ _ still (relimited_config _ v x r number still .steps (fun _ => rfl) fun _ => rfl) ?_
    exact fun _ s' _ _ _ => relimited_beside _ forget_steps_outward (.inl rfl)
  · refine relimited_number enters v _ setting fun x s number still => ?_
    cases given : limitOf x with
    | none => exact relimited_pure _
    | some limit =>
      exact relimited_config _ v x r number still (.depth limit given) (fun _ => rfl) fun _ => rfl
  · refine relimited_number enters v _ setting fun x s number still => ?_
    rw [setTraceLimit]
    split
    · refine relimited_bind _ _ still (relimited_config _ v x r number still (.trace _) (fun _ => rfl) fun _ => rfl) ?_
      exact fun _ s' _ _ _ => relimited_traced _ (traced_modify_heap _ (.override _ _))
    · exact relimited_pure _
  · exact relimited_pure _

theorem set_property_relimited (this : Value) (args : List Value) (setting : r.Setting g) :
    Relimited raw false true host rounds d floor moves (Builtin.run (.global .setSystemProperty) this args) r := by
  refine relimited_bind (toText (argument args 0)) _ setting (relimited_native enters _ (to_text_native _))
    fun name s ended still depth => ?_
  refine relimited_bind (changeLimit name (argument args 1)) _ still ?_ fun _ s' _ _ _ => relimited_pure _
  exact change_limit_relimited (fun moves invocation s' same => enters moves invocation s' (same.trans depth)) name _ still

end

end

end Ecma

/-!
Entering code has a course, on a machine of any depth. The functions of the host have one if they use nothing
but what the realm offers them.
-/

namespace Ecma

open Ecma.Program Run

/-! The host. -/

-- Runs that use nothing but what the realm offers: they look at it, do what scripts can do, enter code, and
-- may take what these throw.
inductive Public : {α : Type} → Run α → Prop
  | uniform {α : Type} (x : Run α) (uniform : Uniform x) : Public x
  | bind {α β : Type} (x : Run α) (f : α → Run β) (first : Public x) (second : ∀ a, Public (f a)) :
      Public (x >>= f)
  | look {α : Type} (f : Realm → Run α) (each : ∀ r, Public (f r)) : Public (MonadState.get >>= f)
  | enter (invocation : Invocation) : Public (enter invocation)
  | evaluation (v : Value) (strict : Bool) (caller : Context) : Public (evaluateText v strict caller)
  | rescuing {α : Type} (block : Run α) (handler : Interrupt → Option (Run α)) (first : Public block)
      (each : ∀ e x, handler e = some x → Public x) : Public (rescuing block handler)

def HostFunction.Public (host : HostFunction) : Prop :=
  ∀ word this args, Ecma.Public (host word this args)

-- What can be said of a function of the host by how it is made.
def HostFunction.Coded (host : HostFunction) (raw free : Bool) : Prop :=
  ∀ word this args, Ecma.Coded raw free true (host word this args)

theorem public_coded {α : Type} (x : Run α) (allowed : Public x) (moves : Bool) : Coded true true moves x := by
  induction allowed with
  | uniform x uniform => exact .uniform x ⟨rfl, rfl⟩ uniform
  | bind x f _ _ first second => exact .bind x f first second
  | look f _ each => exact .look f (.inl rfl) each
  | enter invocation => exact .enter invocation
  | evaluation v strict caller => exact coded_evaluation v strict caller
  | rescuing block handler _ _ first each => exact .rescuing block handler (.inl rfl) first each

theorem public_host_coded (host : HostFunction) (allowed : host.Public) : host.Coded true true := by
  exact fun word this args => public_coded _ (allowed word this args) true

/-! Entering code. -/

section

variable {raw free : Bool} {host : HostFunction} {rounds d : Nat} {moves : Bool} {r : Realm}
  (enters : ∀ moves invocation r, Traced raw free host rounds d (d + 2 * r.depth - 1) moves (enter invocation) r)
include enters

-- An activation takes one level of the machine and one context.
theorem body_enters (c : Context) (moves : Bool) (invocation : Invocation) (s : Realm)
    (same : s.depth = (r.entering c).depth) :
    Traced raw free host rounds d (d + 1 + 2 * r.depth) moves (enter invocation) s := by
  have entered := enters moves invocation s
  rw [same] at entered
  refine traced_less _ _ ?_ entered
  change d + 1 + 2 * r.depth ≤ d + 2 * (r.depth + 1) - 1
  omega

theorem coded_context {α : Type} (c : Context) (run : Run α) (coded : Coded raw free true run) :
    Traced raw free host rounds d (d + 1 + 2 * r.depth) moves (inContext c run) r := by
  refine traced_context c run free (fun kept strict => ?_) ?_
  · rw [kept] at strict
    cases strict
  · exact traced_relimited run (coded_traced (body_enters enters c) run coded rfl)

-- The function that changes limits is known by its context.
theorem native_context (f : ObjectId) (b : Builtin) (run : Run Value)
    (native : ∀ limits, (b = .global .setSystemProperty → limits = true) → Native limits run)
    (sets : b = .global .setSystemProperty → ∃ this args, run = b.run this args)
    (found : r.heap.callable? f = some (.builtin b)) :
    Traced raw free host rounds d (d + 1 + 2 * r.depth) moves (inContext { function := some f } run) r := by
  by_cases setter : b = .global .setSystemProperty
  · subst setter
    obtain ⟨this, args, rfl⟩ := sets rfl
    refine traced_context _ _ true (fun _ _ => ⟨rfl, f, rfl, found⟩) ?_
    cases free with
    | true => exact traced_relimited _ (traced_native (body_enters enters _) _ true (native true fun _ => rfl) nofun rfl)
    | false => exact set_property_relimited (body_enters enters _) this args ⟨rfl, found⟩
  · exact coded_context enters _ run (.native run (native free fun same => absurd same setter))

theorem call_script_traced (routine : Routine) (f : ObjectId) (scope : EnvironmentId) (this : Value)
    (args : List Value) :
    Traced raw free host rounds d (d + 1 + 2 * r.depth) moves (callScript routine f scope this args) r := by
  exact coded_context enters _ _ (activate_coded _ _ _ _ _)

theorem run_code_traced (routine : Routine) (lexicalEnv variableEnv : EnvironmentId) (this : Value)
    (deletable : Bool) : Traced raw free host rounds d (d + 1 + 2 * r.depth) moves
      (runCode routine lexicalEnv variableEnv this deletable) r := by
  refine coded_context enters _ _ (.bind _ _ (straight_coded _ (declare_straight _ _ _)) fun _ => ?_)
  exact .bind _ _ (scripted_coded _ (execute_all_scripted _ none _)) fun _ => coded_pure _

variable (hosted : host.Coded raw free)
include hosted

theorem call_unbound_traced (f : ObjectId) (this : Value) (args : List Value) :
    Traced raw free host rounds d (d + 1 + 2 * r.depth) moves (callUnbound host f this args) r := by
  refine traced_heap _ ?_
  split
  · exact call_script_traced enters _ _ _ _ _
  · next b found => exact native_context enters f b _ (fun _ allowed => builtin_run_native b _ _ allowed) (fun _ => ⟨this, args, rfl⟩) found
  · refine traced_look _ ?_
    split
    · exact coded_context enters _ _ (hosted _ _ _)
    · exact traced_pure _
  · exact traced_error _ _

omit hosted in
-- A constructor reads its prototype before it has a context of its own.
theorem construct_unbound_traced (f : ObjectId) (args : List Value)
    (calls : ∀ moves f this args s, s.depth = r.depth →
      Traced raw free host rounds d (d + 2 * r.depth) moves (enter (.call f this args)) s) :
    Traced raw free host rounds d (d + 2 * r.depth) moves (constructUnbound f args) r := by
  have lower : d + 2 * r.depth ≤ d + 1 + 2 * r.depth := by
    omega
  refine traced_heap _ ?_
  split
  · next routine scope found =>
    refine traced_bind _ _ (traced_get calls _ _ rfl) fun prototype s same => ?_
    refine traced_bind _ _ (traced_bare_object _ _ _ rfl) fun id s' same' => ?_
    refine traced_bind _ _ ?_ fun _ _ _ => traced_pure _
    have called : Traced raw free host rounds d (d + 1 + 2 * s'.depth) moves
        (callScript routine f scope (.object id) args) s' :=
      call_script_traced enters _ _ _ _ _
    rw [same', same] at called
    exact traced_less _ _ lower called
  · next b found =>
    by_cases constructs : b.signature.isConstructor = true
    · rw [if_pos constructs]
      refine traced_less _ _ lower (native_context enters f b _ (fun _ allowed => builtin_construct_native b _ allowed)
        (fun setter => ?_) found)
      rw [setter] at constructs
      cases constructs
    · rw [if_neg constructs]
      exact traced_error _ _
  · exact traced_error _ _
  · exact traced_error _ _

end

-- Entering code reaches the bottom of the machine only in as many contexts as half its depth.
theorem enter_traced (raw free : Bool) (host : HostFunction) (hosted : host.Coded raw free) (rounds d : Nat) :
    (∀ moves invocation r, Traced raw free host rounds d (d + 2 * r.depth - 1) moves (enter invocation) r) ∧
      ∀ moves f this args r, Traced raw free host rounds d (d + 2 * r.depth) moves (enter (.call f this args)) r := by
  induction d with
  | zero =>
    have bottom (moves : Bool) (invocation : Invocation) (r : Realm) :
        Traced raw free host rounds 0 (0 + 2 * r.depth) moves (enter invocation) r := by
      refine ⟨_, .bottom moves invocation r, ?_⟩
      exact account_single _ (fun _ => .inl rfl) (fun _ _ => ⟨rfl, Nat.le_refl _, nofun, nofun⟩) (fun _ => .inl rfl)
        fun _ => .inr (by simp)
    exact ⟨fun moves invocation r => traced_less _ _ (Nat.sub_le _ _) (bottom moves invocation r),
      fun moves f this args r => bottom moves _ r⟩
  | succ d hyp =>
    obtain ⟨enters, calls⟩ := hyp
    have level (floor : Nat) (moves : Bool) (invocation : Invocation) (r : Realm)
        (dispatched : Traced raw free host rounds d floor false (dispatch host invocation) r) :
        Traced raw free host rounds (d + 1) floor moves (enter invocation) r := by
      obtain ⟨t, course, account⟩ := dispatched
      exact ⟨t, .enter d moves invocation r t course, account⟩
    have called (moves : Bool) (f : ObjectId) (this : Value) (args : List Value) (r : Realm) :
        Traced raw free host rounds (d + 1) (d + 1 + 2 * r.depth) moves (enter (.call f this args)) r :=
      level _ moves _ r (traced_heap _ (call_unbound_traced enters hosted _ _ _))
    refine ⟨fun moves invocation r => ?_, called⟩
    cases invocation with
    | call f this args => exact traced_less _ _ (Nat.sub_le _ _) (called moves f this args r)
    | construct f args =>
      have least : d + 1 + 2 * r.depth - 1 = d + 2 * r.depth := by
        omega
      rw [least]
      refine level _ moves _ r (traced_heap _ (construct_unbound_traced enters _ _ fun moves f this args s same => ?_))
      rw [← same]
      exact calls moves f this args s
    | code routine lexicalEnv variableEnv this deletable =>
      exact level _ moves _ r (traced_less _ _ (Nat.sub_le _ _) (run_code_traced enters _ _ _ _ _))

theorem hosted_traced {α : Type} (raw free : Bool) (host : HostFunction) (hosted : host.Coded raw free)
    (rounds d : Nat) (x : Run α) (moves : Bool) (coded : Coded raw free moves x) (r : Realm) :
    Traced raw free host rounds d (d + 2 * r.depth - 1) moves x r := by
  refine coded_traced (fun moves invocation s same => ?_) x coded rfl
  rw [← same]
  exact (enter_traced raw free host hosted rounds d).1 moves invocation s

theorem public_traced {α : Type} (host : HostFunction) (allowed : host.Public) (rounds d : Nat) (x : Run α)
    (free : Public x) (moves : Bool) (r : Realm) :
    Traced true true host rounds d (d + 2 * r.depth - 1) moves x r := by
  exact hosted_traced true true host (public_host_coded host allowed) rounds d x moves (public_coded x free moves) r

-- The ways in which the engine and the host enter code.
inductive Entrance : Run Value → Prop
  | call (f this : Value) (args : List Value) : Entrance (call f this args)
  | construct (f : Value) (args : List Value) : Entrance (construct f args)
  | evaluation (v : Value) (strict : Bool) (caller : Context) : Entrance (evaluateText v strict caller)
  | program (routine : Routine) : Entrance (Realm.runProgram routine)
  | global (name : String) : Entrance (Realm.readGlobal name)

theorem entrance_public (x : Run Value) (entrance : Entrance x) : Public x := by
  cases entrance with
  | call f this args => exact .uniform _ (call_native f this args).uniform
  | construct f args => exact .uniform _ (construct_native f args).uniform
  | evaluation v strict caller => exact .evaluation v strict caller
  | program routine => exact .enter _
  | global name => exact .uniform _ (get_native _ _).uniform

theorem entrance_traced (host : HostFunction) (allowed : host.Public) (rounds d : Nat) (x : Run Value)
    (entrance : Entrance x) (r : Realm) : ∃ t, Course host rounds d false x r t := by
  obtain ⟨t, course, _⟩ := public_traced host allowed rounds d x (entrance_public x entrance) false r
  exact ⟨t, course⟩

-- A host whose only function calls its first argument.
def callingHost : HostFunction := fun _ this args =>
  call (args.headD .undefined) this args.tail

theorem calling_host_public : callingHost.Public := by
  exact fun _ _ _ => .uniform _ (call_native _ _ _).uniform

end Ecma
