import Ecma.Proofs.Run.Careful
import Ecma.Proofs.Run.Traced

set_option autoImplicit false

/-!
The course of a careful run leads from one grounded realm to the next, if entering code does.
-/

namespace Ecma

open Ecma.Program Run

/-! Moments. -/

structure Moment.Orderly (m : Moment) : Prop where
  before : m.before.Grounded
  after : m.after.Grounded
  ages : m.before.heap.Ages m.after.heap

def Settled {α : Type} (gives : Fact α) : EStateM.Result Interrupt Realm α → Prop
  | .ok a s => s.Grounded ∧ gives s.extent a
  | .error e s => s.Grounded ∧ e.Within s.extent

-- A run with a course through grounded realms, which gives what it is said to give.
def Orderly (host : HostFunction) (rounds d : Nat) (moves : Bool) {α : Type} (x : Run α) (gives : Fact α) (r : Realm) :
    Prop :=
  ∃ t, Course host rounds d moves x r t ∧ (∀ m ∈ t, m.Orderly) ∧ Settled gives (x (machine host .resolved rounds d) r)

section

variable {host : HostFunction} {rounds d : Nat} {moves : Bool} {α β σ : Type} {r : Realm}

theorem settled_grounded (gives : Fact α) (result : EStateM.Result Interrupt Realm α) (settled : Settled gives result) :
    (endOf result).Grounded := by
  cases result with
  | ok a s => exact settled.1
  | error e s => exact settled.1

theorem course_upto (x : Run α) (t : List Moment) (course : Course host rounds d moves x r t) :
    r.extent.Upto (endOf (x (machine host .resolved rounds d) r)).extent := by
  have grown := chain_extends _ _ t (course_chain host rounds d moves x r t course)
  exact ⟨grown.objects, grown.environments⟩

theorem orderly_nil : ∀ m ∈ ([] : List Moment), m.Orderly := by
  exact fun m member => absurd member List.not_mem_nil

theorem orderly_append (t t' : List Moment) (first : ∀ m ∈ t, m.Orderly) (second : ∀ m ∈ t', m.Orderly) :
    ∀ m ∈ t ++ t', m.Orderly := by
  exact fun m member => (List.mem_append.mp member).elim (first m) (second m)

theorem orderly_cons (m : Moment) (t : List Moment) (first : m.Orderly) (rest : ∀ m ∈ t, m.Orderly) :
    ∀ n ∈ m :: t, n.Orderly := by
  exact List.forall_mem_cons.mpr ⟨first, rest⟩

theorem orderly_single (m : Moment) (orderly : m.Orderly) : ∀ n ∈ [m], n.Orderly := by
  exact orderly_cons m [] orderly orderly_nil

-- A moment that leaves the heap alone.
theorem orderly_aside (m : Moment) (before : m.before.Grounded) (after : m.after.Grounded)
    (heap : m.after.heap = m.before.heap) : m.Orderly := by
  refine ⟨before, after, ?_⟩
  rw [heap]
  exact Heap.ages_refl m.before.heap

theorem grounded_running (c : Context) (grounded : r.Grounded) (within : c.Within r.extent) :
    (r.withRunning c).Grounded := by
  exact ⟨grounded.heap, within, grounded.waiting, grounded.handlers⟩

theorem grounded_counted (grounded : r.Grounded) : r.counted.Grounded := by
  exact ⟨grounded.heap, grounded.running, grounded.waiting, grounded.handlers⟩

theorem grounded_entering (c : Context) (grounded : r.Grounded) (within : c.Within r.extent) :
    (r.entering c).Grounded := by
  exact ⟨grounded.heap, within, List.forall_mem_cons.mpr ⟨grounded.running, grounded.waiting⟩, grounded.handlers⟩

theorem default_within (w : Extent) (global : 0 < w.environments) : Context.Within w {} := by
  exact ⟨trivial, global, global⟩

theorem grounded_leave (grounded : r.Grounded) : (leaveContext r).Grounded := by
  rw [leaveContext]
  split
  · exact ⟨grounded.heap, default_within _ grounded.heap.global, grounded.waiting, grounded.handlers⟩
  · next c rest waiting =>
    have within := grounded.waiting
    rw [waiting] at within
    obtain ⟨first, others⟩ := List.forall_mem_cons.mp within
    exact ⟨grounded.heap, first, others, grounded.handlers⟩

theorem grounded_heap (h : Heap) (grounded : r.Grounded) (orderly : r.heap.Orderly h) (upto : r.extent.Upto h.extent) :
    (r.withHeap h).Grounded := by
  exact ⟨orderly.grounded, grounded.running.more upto, fun c member => (grounded.waiting c member).more upto,
    fun entry member => (grounded.handlers entry member).more upto⟩

theorem edit_upto (h k : Heap) (edit : Heap.Edit h k) : h.extent.Upto k.extent := by
  have grown := Heap.edit_extends h k edit
  exact ⟨grown.objects, grown.environments⟩

/-! Runs that are put together. -/

theorem orderly_pure (a : α) (gives : Fact α) (grounded : r.Grounded) (held : gives r.extent a) :
    Orderly host rounds d moves (pure a) gives r := by
  exact ⟨_, .pure d moves a r, orderly_nil, grounded, held⟩

theorem orderly_imp (x : Run α) (gives gives' : Fact α) (orderly : Orderly host rounds d moves x gives r)
    (imp : ∀ w a, r.extent.Upto w → gives w a → gives' w a) : Orderly host rounds d moves x gives' r := by
  obtain ⟨t, course, each, settled⟩ := orderly
  have upto := course_upto x t course
  refine ⟨t, course, each, ?_⟩
  cases ended : x (machine host .resolved rounds d) r with
  | ok a s =>
    rw [ended] at settled upto
    exact ⟨settled.1, imp _ a upto settled.2⟩
  | error e s =>
    rw [ended] at settled
    exact settled

theorem orderly_given (x : Run α) (f : α → Run β) (gives : Fact α) (gives' : Fact β)
    (first : Orderly host rounds d moves x gives r)
    (second : ∀ a s, x (machine host .resolved rounds d) r = .ok a s → r.extent.Upto s.extent → s.Grounded →
      gives s.extent a → Orderly host rounds d moves (f a) gives' s) :
    Orderly host rounds d moves (x >>= f) gives' r := by
  obtain ⟨t, course, each, settled⟩ := first
  have upto := course_upto x t course
  cases ended : x (machine host .resolved rounds d) r with
  | ok a s =>
    rw [ended] at settled upto
    obtain ⟨t', rest, each', settled'⟩ := second a s ended upto settled.1 settled.2
    refine ⟨_, .bind d moves x f r s a t t' course ended rest, orderly_append t t' each each', ?_⟩
    rw [bind_at, ended]
    exact settled'
  | error e s =>
    rw [ended] at settled
    refine ⟨t, .broken d moves x f r s e t course ended, each, ?_⟩
    rw [bind_at, ended]
    exact settled

theorem orderly_bind (x : Run α) (f : α → Run β) (gives : Fact α) (gives' : Fact β)
    (first : Orderly host rounds d moves x gives r)
    (second : ∀ a s, r.extent.Upto s.extent → s.Grounded → gives s.extent a →
      Orderly host rounds d moves (f a) gives' s) : Orderly host rounds d moves (x >>= f) gives' r := by
  exact orderly_given x f gives gives' first fun a s _ => second a s

theorem orderly_look (f : Realm → Run α) (gives : Fact α) (rest : Orderly host rounds d moves (f r) gives r) :
    Orderly host rounds d moves (MonadState.get >>= f) gives r := by
  obtain ⟨t, course, each, settled⟩ := rest
  exact ⟨_, .bind d moves _ f r r r [] t (.get d moves r) rfl course, each, settled⟩

theorem orderly_heap (f : Heap → Run α) (gives : Fact α) (rest : Orderly host rounds d moves (f r.heap) gives r) :
    Orderly host rounds d moves (heap >>= f) gives r := by
  exact orderly_look (fun s => f s.heap) gives rest

theorem orderly_edit (f : Heap → α × Heap) (gives : Fact α) (edit : Heap.Edit r.heap (f r.heap).2)
    (grounded : r.Grounded) (orderly : r.heap.Orderly (f r.heap).2)
    (held : gives (f r.heap).2.extent (f r.heap).1) : Orderly host rounds d moves (updateHeap f) gives r := by
  have after := grounded_heap _ grounded orderly (edit_upto _ _ edit)
  refine ⟨_, .change d moves (fun s => ((f s.heap).1, s.withHeap (f s.heap).2)) r (.heap r _ edit), ?_, after, held⟩
  exact orderly_single _ ⟨grounded, after, orderly.ages⟩

theorem orderly_update (f : Heap → α × Heap) (gives : Fact α) (regular : r.heap.Regular (f r.heap).2)
    (grounded : r.Grounded) (orderly : r.heap.Orderly (f r.heap).2)
    (held : gives (f r.heap).2.extent (f r.heap).1) : Orderly host rounds d moves (updateHeap f) gives r := by
  exact orderly_edit f gives (Heap.regular_edit _ _ regular) grounded orderly held

theorem orderly_modify_heap (f : Heap → Heap) (regular : r.heap.Regular (f r.heap)) (grounded : r.Grounded)
    (orderly : r.heap.Orderly (f r.heap)) : Orderly host rounds d moves (modifyHeap f) Anything r := by
  exact orderly_update (fun h => (PUnit.unit, f h)) Anything regular grounded orderly trivial

theorem orderly_beside (f : Realm → Realm) (outward : Outward f) (grounded : r.Grounded)
    (handlers : Dictionary.All (Value.Within r.extent) (f r).handlers) :
    Orderly host rounds d moves (modify f) Anything r := by
  have extent : (f r).extent = r.extent := by
    rw [Realm.extent, Realm.extent, outward.heap r]
  have after : (f r).Grounded := by
    refine ⟨outward.heap r ▸ grounded.heap, ?_, ?_, ?_⟩
    · rw [extent, outward.running r]
      exact grounded.running
    · rw [extent, outward.waiting r]
      exact grounded.waiting
    · rw [extent]
      exact handlers
  refine ⟨_, .change d moves (fun s => (PUnit.unit, f s)) r (.beside r _ (outward.heap r) (outward.running r)
    (outward.waiting r) (outward.hosts r) (outward.steps r)), ?_, after, trivial⟩
  exact orderly_single _ (orderly_aside _ grounded after (outward.heap r))

theorem orderly_object (o : Object) (regular : r.heap.Regular (r.heap.addObject o).2) (grounded : r.Grounded)
    (admits : Heap.Admits r.extent o) : Orderly host rounds d moves (updateHeap fun h => h.addObject o) Extent.Has r := by
  refine orderly_update _ _ regular grounded (Heap.orderly_object r.heap grounded.heap o admits) ?_
  change r.heap.objects.size < (r.heap.objects.push o).size
  rw [Array.size_push]
  exact Nat.lt_succ_self _

theorem orderly_names (kind : ObjectKind) (prototype : ObjectId) (names : Dictionary Descriptor) (grounded : r.Grounded)
    (plain : kind.isArray = false) (unmapped : ∀ mapped, kind ≠ .arguments mapped) (link : prototype ≤ 16)
    (callable : ∀ f, kind.callable? = some f → f.Within r.extent)
    (held : Dictionary.All (Descriptor.All (Value.Within r.extent)) names) (distinct : names.keys.Nodup) :
    Orderly host rounds d moves (newObject kind (some prototype) (.ofNames names)) Extent.Has r := by
  refine orderly_object _ ?_ grounded (Heap.admits_names r.extent kind _ names (fun link' same => ?_) callable held distinct)
  · cases kind with
    | arguments mapped => exact absurd rfl (unmapped mapped)
    | _ => exact .object _ _ plain fun i a mapped => by cases mapped
  · cases same
    exact Nat.lt_of_le_of_lt link grounded.heap.intrinsics

theorem orderly_error (kind : ErrorKind) (message : String) (gives : Fact α) (grounded : r.Grounded) :
    Orderly host rounds d moves (Run.throwError kind message : Run α) gives r := by
  refine orderly_bind _ _ Extent.Has gives ?_ fun id s upto after has => ?_
  · refine orderly_look _ _ (orderly_names _ _ _ grounded rfl nofun (by cases kind <;> decide) nofun ?_ ?_)
    · split
      · exact nofun
      · exact fun entry member => List.mem_singleton.mp member ▸ (Descriptor.all_data _ _ _ _).mpr trivial
    · split
      · exact List.nodup_nil
      · exact List.nodup_singleton _
  · exact ⟨_, .thrown d moves _ s, orderly_nil, after, has⟩

/-! Functions. -/

-- What a function of a script gets beside its length.
theorem function_names (strict : Bool) (prototype : ObjectId) :
    Dictionary.keys (("prototype", Descriptor.lasting (.object prototype)) ::
      (if strict then poisoned ["caller", "arguments"] else [])) =
        "prototype" :: (if strict then ["caller", "arguments"] else []) := by
  cases strict <;> rfl

theorem orderly_function (routine : Routine) (scope : EnvironmentId) (grounded : r.Grounded) (plain : routine.Plain)
    (encloses : r.extent.Encloses scope) : Orderly host rounds d moves (newFunction routine scope) Extent.Has r := by
  have held (v : Value) (primitive : v.isObject = false) (s : Realm) (name : String) (w e c : Bool) :
      Dictionary.All (Descriptor.All (Value.Within s.extent)) [(name, .data v w e c)] :=
    fun entry member => List.mem_singleton.mp member ▸ (Descriptor.all_data _ _ _ _).mpr (within_primitive _ v primitive)
  refine orderly_given _ _ Extent.Has _ (orderly_names _ _ _ grounded rfl nofun (by decide) (fun f same => ?_)
    (held _ rfl r _ _ _ _) (List.nodup_singleton _)) fun f s made upto after has => ?_
  · cases same
    exact ⟨plain, encloses⟩
  cases made
  refine orderly_given _ _ Extent.Has _ (orderly_names _ _ _ after rfl nofun (by decide) nofun ?_ (List.nodup_singleton _))
    fun prototype s made upto' after' has' => ?_
  · exact fun entry member => List.mem_singleton.mp member ▸ (Descriptor.all_data _ _ _ _).mpr has
  cases made
  have object := new_function_object r.heap
    { kind := .function (.script routine scope), prototype := some Intrinsic.functionPrototype
      properties := .ofNames [("length", .final (.ofNat routine.header.params.length))] }
    { kind := .ordinary, prototype := some Intrinsic.objectPrototype
      properties := .ofNames [("constructor", .hidden (.object r.heap.objects.size))] }
  refine orderly_bind _ _ Anything _ (orderly_modify_heap _ (.append _ _ _ ?_ ?_) after'
    (Heap.orderly_shift _ after'.heap _ (.append _ _ _ ?_ ?_ ?_))) fun _ s'' upto'' after'' _ =>
      orderly_pure _ _ after'' ((has.more upto').more upto'')
  · exact congrArg (fun o : Object => o.kind.callable?.isSome) object
  · exact congrArg Object.extensible object
  · refine (Dictionary.all_cons _ _ _).mpr ⟨(Descriptor.all_data _ _ _ _).mpr has', ?_⟩
    split
    · exact poisoned_all (after'.intrinsic Intrinsic.throwTypeError (by decide)) _
    · exact nofun
  · have own : Heap.ownNames _ r.heap.objects.size = ["length"] :=
      congrArg (fun o : Object => o.properties.names.keys) object
    intro name new old
    rw [function_names] at new
    cases List.mem_singleton.mp (Eq.mp (congrArg (fun names => name ∈ names) own) old)
    revert new
    cases routine.header.strict <;> decide
  · rw [function_names]
    cases routine.header.strict <;> decide

/-! Places, steps and contexts. -/

theorem placed_within (v : Variable) (strict : Bool) (grounded : r.Grounded) : (r.placeOf v strict).Within r.extent := by
  have named (links : Nat) : (Reference.ofName r.heap (r.heap.skip links r.running.lexicalEnv) v.name strict).Within
      r.extent := by
    rw [Reference.ofName]
    split
    · next env found =>
      exact Heap.find_binding_encloses r.heap _ env v.name _
        (Heap.skip_encloses r.heap links _ _ grounded.running.lexical) found
    · trivial
  unfold Realm.placeOf Variable.reference
  cases v.resolution with
  | slot index => trivial
  | fixed links => exact Heap.skip_encloses r.heap links _ _ grounded.running.lexical
  | global => exact grounded.heap.global
  | dynamic links => exact named links

theorem orderly_found (v : Variable) (strict : Bool) (grounded : r.Grounded) :
    Orderly host rounds d moves (placeOf v strict) Place.Within r := by
  refine ⟨_, .found d moves v strict r, orderly_nil, ?_⟩
  rw [place_of_at]
  exact ⟨grounded, placed_within v strict grounded⟩

theorem orderly_place (f : Context → Context) (same : r.running.SameCode (f r.running)) (grounded : r.Grounded)
    (held : (f r.running).Within r.extent) : Orderly host rounds d true (modifyRunning f) Anything r := by
  have after := grounded_running (f r.running) grounded held
  exact ⟨_, .place d f r same, orderly_single _ (orderly_aside _ grounded after rfl), after, trivial⟩

theorem orderly_step (grounded : r.Grounded) : Orderly host rounds d moves step Anything r := by
  have after := grounded_counted grounded
  by_cases room : ∀ limit, r.config.stepsLimit = some limit → r.steps < limit
  · refine ⟨_, .count d moves r room, orderly_single _ (orderly_aside _ grounded after rfl), ?_⟩
    rw [step_room _ r room]
    exact ⟨after, trivial⟩
  · obtain ⟨limit, exceeded⟩ := not_forall.mp room
    obtain ⟨limited, exceeded⟩ := Classical.not_imp.mp exceeded
    have exceeding := Nat.not_lt.mp exceeded
    refine ⟨_, .exceed d moves r limit limited exceeding, orderly_single _ (orderly_aside _ grounded after rfl), ?_⟩
    rw [step_over _ r limit limited exceeding]
    exact ⟨after, trivial⟩

-- What a run gives still leads to what there is once its context is left.
theorem settled_leave (gives : Fact α) (run : Run α)
    (settled : Settled gives (run (machine host .resolved rounds d) r)) :
    Settled gives (always leaveContext run (machine host .resolved rounds d) r) := by
  rw [always]
  generalize run (machine host .resolved rounds d) r = result at settled
  cases result with
  | ok a s =>
    refine ⟨grounded_leave settled.1, ?_⟩
    rw [Realm.extent, (leave_keeps s).1]
    exact settled.2
  | error e s =>
    refine ⟨grounded_leave settled.1, ?_⟩
    rw [Realm.extent, (leave_keeps s).1]
    exact settled.2

theorem orderly_context (c : Context) (run : Run α) (gives : Fact α) (grounded : r.Grounded) (within : c.Within r.extent)
    (body : Orderly host rounds d true run gives (r.entering c)) :
    Orderly host rounds d moves (inContext c run) gives r := by
  by_cases room : r.depth < r.config.depthLimit
  · obtain ⟨t, course, each, settled⟩ := body
    have ended := settled_grounded gives _ settled
    refine ⟨_, .context d moves c run r t room course, orderly_cons _ _ ?_ (orderly_append _ _ each ?_), ?_⟩
    · exact orderly_aside _ grounded (grounded_entering c grounded within) rfl
    · exact orderly_single _ (orderly_aside _ ended (grounded_leave ended) (leave_keeps _).1)
    · rw [in_context_room _ r c run room]
      exact settled_leave gives run settled
  · have full := Nat.not_lt.mp room
    obtain ⟨t, made, each, settled⟩ : Orderly host rounds d moves
        (newError .rangeError "Maximum call stack size exceeded") Extent.Has r :=
      orderly_look _ _ (orderly_names _ _ _ grounded rfl nofun (by decide) nofun
        (fun entry member => List.mem_singleton.mp member ▸ (Descriptor.all_data _ _ _ _).mpr trivial)
        (List.nodup_singleton _))
    rw [new_error_at] at settled
    refine ⟨_, .refuse d moves c run r _ _ full (new_error_at _ _ _ _), orderly_single _ ⟨grounded, settled.1, ?_⟩, ?_⟩
    · exact fun id known => by
        rw [Heap.ownNames, Heap.ownNames]
        exact (congrArg (fun o : Object => o.properties.names.keys) (Heap.object_add_known r.heap _ id known)) ▸ later_refl _
    · rw [in_context_full _ r c run full]
      exact settled

theorem orderly_within (env : EnvironmentId) (run : Run α) (gives : Fact α) (grounded : r.Grounded)
    (encloses : r.extent.Encloses env)
    (body : Orderly host rounds d true run gives (r.withRunning { r.running with lexicalEnv := env })) :
    Orderly host rounds d true (inEnvironment env run) gives r := by
  obtain ⟨t, course, each, settled⟩ := body
  have upto := course_upto run t course
  have entered : (r.withRunning { r.running with lexicalEnv := env }).Grounded :=
    grounded_running _ grounded ⟨grounded.running.this, encloses, grounded.running.variable⟩
  have restored (s : Realm) (within : s.Grounded) (more : r.extent.Upto s.extent) :
      (s.withRunning { s.running with lexicalEnv := r.running.lexicalEnv }).Grounded :=
    grounded_running _ within ⟨within.running.this, grounded.running.lexical.more more, within.running.variable⟩
  have ended := settled_grounded gives _ settled
  refine ⟨_, .within d env run r _ t course rfl, orderly_cons _ _ ?_ (orderly_append _ _ each ?_), ?_⟩
  · exact orderly_aside _ grounded entered rfl
  · exact orderly_single _ (orderly_aside _ ended (restored _ ended upto) rfl)
  · rw [in_environment_at]
    generalize run (machine host .resolved rounds d) (r.withRunning { r.running with lexicalEnv := env }) = result
      at settled upto
    cases result with
    | ok a s => exact ⟨restored s settled.1 upto, settled.2⟩
    | error e s => exact ⟨restored s settled.1 upto, settled.2⟩

/-! Interrupts. -/

theorem orderly_catching (block : Run Completion) (handler : Value → Run Completion)
    (body : Orderly host rounds d moves block Completion.Within r)
    (rest : ∀ v s, r.extent.Upto s.extent → s.Grounded → v.Within s.extent →
      Orderly host rounds d moves (handler v) Completion.Within s) :
    Orderly host rounds d moves (catching block handler) Completion.Within r := by
  obtain ⟨t, course, each, settled⟩ := body
  by_cases thrown : ∃ v s, block (machine host .resolved rounds d) r = .error (.thrown v) s
  · obtain ⟨v, s, ended⟩ := thrown
    have upto := course_upto block t course
    rw [ended] at settled upto
    obtain ⟨t', course', each', settled'⟩ := rest v s upto settled.1 settled.2
    refine ⟨_, .caught d moves block handler r s v t t' course ended course', orderly_append _ _ each ?_, ?_⟩
    · exact orderly_cons _ _ (orderly_aside _ settled.1 settled.1 rfl) each'
    · rw [catching_thrown _ r s block handler v ended]
      exact settled'
  · have other (v : Value) (s : Realm) : block (machine host .resolved rounds d) r ≠ .error (.thrown v) s :=
      fun ended => thrown ⟨v, s, ended⟩
    refine ⟨t, .uncaught d moves block handler r t course other, each, ?_⟩
    rw [catching_other _ r block handler other]
    exact settled

theorem settled_finally (block finalizer : Run Completion)
    (body : Settled Completion.Within (block (machine host .resolved rounds d) r))
    (rest : signalOf (block (machine host .resolved rounds d) r) = none → Settled Completion.Within
      (finalizer (machine host .resolved rounds d) (endOf (block (machine host .resolved rounds d) r))))
    (upto : (endOf (block (machine host .resolved rounds d) r)).extent.Upto
      (endOf (finalizer (machine host .resolved rounds d)
        (endOf (block (machine host .resolved rounds d) r)))).extent) :
    Settled Completion.Within (thenFinally block finalizer (machine host .resolved rounds d) r) := by
  rw [thenFinally]
  generalize block (machine host .resolved rounds d) r = result at body rest upto
  cases result with
  | ok c s =>
    have settled := rest rfl
    dsimp only [endOf] at settled upto ⊢
    generalize finalizer (machine host .resolved rounds d) s = last at settled upto
    cases last with
    | ok f s' =>
      refine ⟨settled.1, ?_⟩
      split
      · exact settled.2
      · exact OptionalValue.Within.more upto body.2
    | error e s' => exact settled
  | error e s =>
    cases e with
    | thrown v =>
      have settled := rest rfl
      dsimp only [endOf] at settled upto ⊢
      generalize finalizer (machine host .resolved rounds d) s = last at settled upto
      cases last with
      | ok f s' =>
        dsimp only
        split
        · exact settled
        · exact ⟨settled.1, Value.Within.more body.2 upto⟩
      | error e s' => exact settled
    | _ => exact body

theorem orderly_finally (block finalizer : Run Completion)
    (body : Orderly host rounds d moves block Completion.Within r)
    (rest : ∀ s, r.extent.Upto s.extent → s.Grounded → Orderly host rounds d moves finalizer Completion.Within s) :
    Orderly host rounds d moves (thenFinally block finalizer) Completion.Within r := by
  obtain ⟨t, course, each, settled⟩ := body
  have upto := course_upto block t course
  have ended := settled_grounded _ _ settled
  obtain ⟨t', course', each', settled'⟩ := rest _ upto ended
  have whole := settled_finally block finalizer settled (fun _ => settled') (course_upto finalizer t' course')
  cases visible : signalOf (block (machine host .resolved rounds d) r) with
  | some e => exact ⟨t, .unfinished d moves block finalizer r e t course visible, each, whole⟩
  | none =>
    refine ⟨_, .finished d moves block finalizer r _ t t' course visible rfl course', orderly_append _ _ each ?_, whole⟩
    exact orderly_cons _ _ (orderly_aside _ ended ended rfl) each'

theorem orderly_rescuing (block : Run α) (handler : Interrupt → Option (Run α)) (gives : Fact α)
    (body : Orderly host rounds d moves block gives r)
    (each : ∀ e x s, r.extent.Upto s.extent → s.Grounded → e.Within s.extent → handler e = some x →
      Orderly host rounds d moves x gives s) : Orderly host rounds d moves (rescuing block handler) gives r := by
  obtain ⟨t, course, moments, settled⟩ := body
  have upto := course_upto block t course
  cases ended : block (machine host .resolved rounds d) r with
  | ok a s =>
    refine ⟨t, .passed d moves block handler r t course fun e s' failed => ?_, moments, ?_⟩
    · cases ended.symm.trans failed
    · simp only [rescuing, ended]
      rwa [ended] at settled
  | error e s =>
    rw [ended] at settled upto
    cases taken : handler e with
    | none =>
      refine ⟨t, .passed d moves block handler r t course fun e' s' failed => ?_, moments, ?_⟩
      · cases ended.symm.trans failed
        exact taken
      · simp only [rescuing, ended, taken]
        exact settled
    | some x =>
      obtain ⟨t', course', moments', settled'⟩ := each e x s upto settled.1 settled.2 taken
      refine ⟨_, .rescued d moves block handler x r s e t t' course ended taken course',
        orderly_append _ _ moments (orderly_cons _ _ (orderly_aside _ settled.1 settled.1 rfl) moments'), ?_⟩
      simp only [rescuing, ended, taken]
      exact settled'

/-! Loops. -/

-- What a round gives: the state of the next round, or the result.
def RoundGives (holds : Fact σ) (gives : Fact α) : Fact (σ ⊕ α) := fun w next =>
  match next with
  | .inl state => holds w state
  | .inr result => gives w result

theorem orderly_rounds (round : σ → Run (σ ⊕ α)) (holds : Fact σ) (gives : Fact α) (fuel : Nat) (state : σ)
    (grounded : r.Grounded) (held : holds r.extent state)
    (each : ∀ state s, r.extent.Upto s.extent → s.Grounded → holds s.extent state →
      Orderly host rounds d moves (round state) (RoundGives holds gives) s) :
    Orderly host rounds d moves (loopFrom round fuel state) gives r := by
  induction fuel generalizing state r with
  | zero =>
    exact ⟨_, .exhausted d moves r, orderly_single _ (orderly_aside _ grounded grounded rfl), grounded, trivial⟩
  | succ fuel hyp =>
    refine orderly_bind _ _ (RoundGives holds gives) _ (each state r (.refl _) grounded held) ?_
    intro next s upto after given
    cases next with
    | inl state' => exact hyp state' after given fun state'' s' upto' => each state'' s' (upto.trans upto')
    | inr result => exact orderly_pure result gives after given

theorem orderly_loop (round : σ → Run (σ ⊕ α)) (holds : Fact σ) (gives : Fact α) (state : σ)
    (grounded : r.Grounded) (held : holds r.extent state)
    (each : ∀ state s, r.extent.Upto s.extent → s.Grounded → holds s.extent state →
      Orderly host rounds d moves (round state) (RoundGives holds gives) s) :
    Orderly host rounds d moves (loop state round) gives r := by
  obtain ⟨t, course, moments, settled⟩ := orderly_rounds round holds gives _ state grounded held each
  refine ⟨_, .bind d moves MonadReader.read (fun m => loopFrom round m.rounds state) r r
    (machine host .resolved rounds d) [] t (.read d moves r) rfl course, moments, settled⟩

-- The value of a loop is that of a body, or the one from before.
theorem end_round_within (w : Extent) (labels : List Label) (value : Option Value) (c : Completion)
    (held : OptionalValue.Within w value) (within : c.Within w) :
    RoundGives OptionalValue.Within Completion.Within w (endRound labels value c) := by
  have either : OptionalValue.Within w (c.value.or value) := by
    intro v found
    rcases Option.or_eq_some_iff.mp found with own | ⟨_, before⟩
    · exact within v own
    · exact held v before
  have pass : OptionalValue.Within w (c.value.or (c.value.or value)) := by
    intro v found
    rcases Option.or_eq_some_iff.mp found with own | ⟨_, before⟩
    · exact within v own
    · exact either v before
  unfold endRound
  dsimp only
  split
  · exact either
  · exact either
  · exact pass

theorem orderly_while (labels : List Label) (test : Run Bool) (body : Run Completion) (update : Run Unit)
    (grounded : r.Grounded)
    (tests : ∀ s, r.extent.Upto s.extent → s.Grounded → Orderly host rounds d moves test Anything s)
    (runs : ∀ s, r.extent.Upto s.extent → s.Grounded → Orderly host rounds d moves body Completion.Within s)
    (updates : ∀ s, r.extent.Upto s.extent → s.Grounded → Orderly host rounds d moves update Anything s) :
    Orderly host rounds d moves (whileRounds labels test body update) Completion.Within r := by
  refine orderly_loop _ OptionalValue.Within _ _ grounded (OptionalValue.within_none _) fun value s upto after held => ?_
  refine orderly_bind _ _ Anything _ (orderly_step after) fun _ s₁ upto₁ after₁ _ => ?_
  have here₁ := upto.trans upto₁
  refine orderly_bind _ _ Anything _ (tests s₁ here₁ after₁) fun again s₂ upto₂ after₂ _ => ?_
  have here₂ := here₁.trans upto₂
  have held₂ := held.more (upto₁.trans upto₂)
  split
  · refine orderly_bind _ _ Completion.Within _ (runs s₂ here₂ after₂) fun c s₃ upto₃ after₃ within => ?_
    have ended := end_round_within _ labels value c (held₂.more upto₃) within
    split
    · next next same =>
      rw [same] at ended
      refine orderly_bind _ _ Anything _ (updates s₃ (here₂.trans upto₃) after₃) fun _ s₄ upto₄ after₄ _ => ?_
      exact orderly_pure _ _ after₄ (OptionalValue.Within.more upto₄ ended)
    · next result same =>
      rw [same] at ended
      exact orderly_pure _ _ after₃ ended
  · exact orderly_pure _ _ after₂ held₂

theorem orderly_do (labels : List Label) (body : Run Completion) (test : Run Bool) (grounded : r.Grounded)
    (runs : ∀ s, r.extent.Upto s.extent → s.Grounded → Orderly host rounds d moves body Completion.Within s)
    (tests : ∀ s, r.extent.Upto s.extent → s.Grounded → Orderly host rounds d moves test Anything s) :
    Orderly host rounds d moves (doRounds labels body test) Completion.Within r := by
  refine orderly_loop _ OptionalValue.Within _ _ grounded (OptionalValue.within_none _) fun value s upto after held => ?_
  refine orderly_bind _ _ Anything _ (orderly_step after) fun _ s₁ upto₁ after₁ _ => ?_
  have here₁ := upto.trans upto₁
  refine orderly_bind _ _ Completion.Within _ (runs s₁ here₁ after₁) fun c s₂ upto₂ after₂ within => ?_
  have ended := end_round_within _ labels value c (held.more (upto₁.trans upto₂)) within
  split
  · next next same =>
    rw [same] at ended
    refine orderly_bind _ _ Anything _ (tests s₂ (here₁.trans upto₂) after₂) fun again s₃ upto₃ after₃ _ => ?_
    have last : OptionalValue.Within s₃.extent next := OptionalValue.Within.more upto₃ ended
    split
    · exact orderly_pure _ _ after₃ last
    · exact orderly_pure _ _ after₃ last
  · next result same =>
    rw [same] at ended
    exact orderly_pure _ _ after₂ ended

theorem orderly_name_rounds (labels : List Label) (id : ObjectId) (assign : Value → Run Unit) (body : Run Completion)
    (grounded : r.Grounded)
    (assigns : ∀ name s, r.extent.Upto s.extent → s.Grounded →
      Orderly host rounds d moves (assign (.string name)) Anything s)
    (runs : ∀ s, r.extent.Upto s.extent → s.Grounded → Orderly host rounds d moves body Completion.Within s) :
    Orderly host rounds d moves (nameRounds labels id assign body) Completion.Within r := by
  refine orderly_heap _ _ ?_
  refine orderly_loop _ (fun w state => OptionalValue.Within w state.2) _ _ grounded (OptionalValue.within_none _)
    fun state s upto after held => ?_
  obtain ⟨names, value⟩ := state
  refine orderly_heap _ _ ?_
  split
  · exact orderly_pure _ _ after held
  · next key names' _ =>
    refine orderly_bind _ _ Anything _ (orderly_step after) fun _ s₁ upto₁ after₁ _ => ?_
    have here₁ := upto.trans upto₁
    refine orderly_bind _ _ Anything _ (assigns _ s₁ here₁ after₁) fun _ s₂ upto₂ after₂ _ => ?_
    refine orderly_bind _ _ Completion.Within _ (runs s₂ (here₁.trans upto₂) after₂) fun c s₃ upto₃ after₃ within => ?_
    have ended := end_round_within _ labels value c (OptionalValue.Within.more ((upto₁.trans upto₂).trans upto₃) held) within
    split
    · next next same =>
      rw [same] at ended
      exact orderly_pure _ _ after₃ ended
    · next result same =>
      rw [same] at ended
      exact orderly_pure _ _ after₃ ended

/-! Careful runs. -/

-- What follows after a define.
theorem orderly_definition (id : ObjectId) (key : PropertyKey) (definition : Definition) (other : Run α) (k : Bool → Run α)
    (gives : Fact α) (grounded : r.Grounded) (oneKind : definition.OneKind) (held : definition.Within r.extent)
    (otherwise : Orderly host rounds d moves other gives r)
    (after : ∀ accepted s, r.extent.Upto s.extent → s.Grounded → Orderly host rounds d moves (k accepted) gives s) :
    Orderly host rounds d moves (heap >>= fun h =>
      if h.isArray id && key == .length && definition.value.isSome then other
      else updateHeap (fun h => h.define id key definition) >>= k) gives r := by
  refine orderly_heap _ _ ?_
  by_cases length : (r.heap.isArray id && key == .length && definition.value.isSome) = true
  · rw [if_pos length]
    exact otherwise
  · rw [if_neg length]
    refine orderly_bind _ _ Anything _ (orderly_update _ _ (.define _ id key definition oneKind fun isArray isLength => ?_)
      grounded (Heap.orderly_define r.heap grounded.heap id key definition held) trivial) fun accepted s upto after' _ =>
        after accepted s upto after'
    simpa [isArray, isLength] using length

end

section

variable {host : HostFunction} {rounds d : Nat} {moves : Bool} {α : Type} {r : Realm} {w : Extent}

theorem careful_orderly (enters : ∀ moves invocation s, s.Grounded → invocation.Within s.extent →
      Orderly host rounds d moves (enter invocation) Value.Within s)
    (x : Run α) (gives : Fact α) (careful : Careful w moves x gives) (grounded : r.Grounded) (upto : w.Upto r.extent) :
    Orderly host rounds d moves x gives r := by
  induction careful generalizing r with
  | pure a gives held => exact orderly_pure a gives grounded (held r.extent upto)
  | imp x gives gives' _ imp hyp =>
    exact orderly_imp x gives gives' (hyp grounded upto) fun w' a more => imp w' a (upto.trans more)
  | bind x f gives gives' _ _ first second =>
    exact orderly_bind x f gives gives' (first grounded upto) fun a s more after held =>
      second a s.extent (upto.trans more) held after (.refl _)
  | here x gives _ each => exact each r grounded upto grounded (.refl _)
  | throwing v gives held => exact ⟨_, .thrown d _ v r, orderly_nil, grounded, held.more upto⟩
  | look f gives _ each => exact orderly_look f gives (each r grounded upto grounded (.refl _))
  | found v strict => exact orderly_found v strict grounded
  | beside f outward handlers => exact orderly_beside f outward grounded (handlers r grounded upto)
  | update f gives regular orderly held =>
    exact orderly_update f gives (regular r.heap) grounded (orderly r.heap grounded.heap upto) (held r.heap grounded.heap upto)
  | define id key definition other k gives oneKind held _ _ otherwise after =>
    exact orderly_definition id key definition other k gives grounded oneKind (Definition.Within.more upto held)
      (otherwise grounded upto) fun accepted s more after' =>
        after accepted s.extent (upto.trans more) after' (.refl _)
  | function routine scope plain encloses => exact orderly_function routine scope grounded plain (encloses.more upto)
  | place f same held => exact orderly_place f (same _) grounded (held r.extent _ upto grounded.running)
  | step => exact orderly_step grounded
  | within env body gives encloses _ inside =>
    refine orderly_within env body gives grounded (encloses.more upto) (inside ?_ upto)
    exact grounded_running _ grounded ⟨grounded.running.this, encloses.more upto, grounded.running.variable⟩
  | catching block handler _ _ body rest =>
    exact orderly_catching block handler (body grounded upto) fun v s more after held =>
      rest v s.extent (upto.trans more) held after (.refl _)
  | thenFinally block finalizer _ _ body rest =>
    exact orderly_finally block finalizer (body grounded upto) fun s more after =>
      rest s.extent (upto.trans more) after (.refl _)
  | whileRounds labels test body update _ _ _ tests runs updates =>
    exact orderly_while labels test body update grounded
      (fun s more after => tests s.extent (upto.trans more) after (.refl _))
      (fun s more after => runs s.extent (upto.trans more) after (.refl _))
      fun s more after => updates s.extent (upto.trans more) after (.refl _)
  | doRounds labels body test _ _ runs tests =>
    exact orderly_do labels body test grounded
      (fun s more after => runs s.extent (upto.trans more) after (.refl _))
      fun s more after => tests s.extent (upto.trans more) after (.refl _)
  | nameRounds labels id assign body _ _ assigns runs =>
    exact orderly_name_rounds labels id assign body grounded
      (fun name s more after => assigns name s.extent (upto.trans more) after (.refl _))
      fun s more after => runs s.extent (upto.trans more) after (.refl _)
  | enter invocation held => exact enters _ invocation r grounded (Invocation.Within.more upto held)
  | rescuing block handler gives _ _ body each =>
    exact orderly_rescuing block handler gives (body grounded upto) fun e x s more after held taken =>
      each e x s.extent (upto.trans more) held taken after (.refl _)

end

end Ecma
