import Ecma.Proofs.Reach.Look
import Ecma.Proofs.Run.Tame

set_option autoImplicit false

/-!
Runs that are blind to what is beyond a part of the heap. In two realms whose heaps agree on the part they do the
same, and the heaps agree on it afterwards.
-/

namespace Ecma

open Ecma.Program Ecma.Syntax Run

/-! What belongs to the part. -/

-- Nothing has to be known of what a run gives.
def Whatever {α : Type} (_ : α) : Prop :=
  True

section

variable (w : Reach)

def Values.Near (vs : List Value) : Prop :=
  ∀ v ∈ vs, v.Near w

def Interrupt.Near : Interrupt → Prop
  | .thrown v => v.Near w
  | .stackOverflow v => v.Near w
  | _ => True

structure Context.Near (c : Context) : Prop where
  this : c.this.Near w
  lexical : w.environment c.lexicalEnv
  «variable» : w.environment c.variableEnv
  frame : w.frame c.frame

def Invocation.Near : Invocation → Prop
  | .call f this args => w.object f ∧ this.Near w ∧ Values.Near w args
  | .construct f args => w.object f ∧ Values.Near w args
  | .code routine lexicalEnv variableEnv this _ =>
    routine.Plain ∧ w.environment lexicalEnv ∧ w.environment variableEnv ∧ this.Near w

end

theorem near_outer (w : Reach) (c : Context) (this : c.this.Near w) (lexical : c.lexicalEnv = Intrinsic.globalEnvironment)
    («variable» : c.variableEnv = Intrinsic.globalEnvironment) (frame : c.frame = 0) : c.Near w := by
  exact ⟨this, lexical ▸ w.global, «variable» ▸ w.global, frame ▸ w.base⟩

/-! Two realms. -/

/-- Realms that differ in their heaps only, which agree on a part. The place in the running code is of no
importance. -/
structure Realm.Alike (w : Reach) (c : Context) (waiting : List Context) (r s : Realm) : Prop where
  heap : r.heap.Alike w s.heap
  same : s = r.withHeap s.heap
  running : ∃ position, r.running = { c with position := position }
  waiting : r.waiting = waiting
  handlers : Dictionary.All (Value.Near w) r.handlers

/-- Both runs end in the same way, in realms that are alike. -/
inductive Ends {α : Type} (w : Reach) (gives : α → Prop) (c : Context) (waiting : List Context) :
    EStateM.Result Interrupt Realm α → EStateM.Result Interrupt Realm α → Prop
  | ok (a : α) (r s : Realm) (held : gives a) (alike : r.Alike w c waiting s) : Ends w gives c waiting (.ok a r) (.ok a s)
  | error (e : Interrupt) (r s : Realm) (near : e.Near w) (alike : r.Alike w c waiting s) :
      Ends w gives c waiting (.error e r) (.error e s)

theorem ends_ok {α : Type} (w : Reach) (gives : α → Prop) (c : Context) (waiting : List Context) (a b : α) (r s : Realm)
    (ends : Ends w gives c waiting (.ok a r) (.ok b s)) : b = a ∧ gives a ∧ r.Alike w c waiting s := by
  cases ends with
  | ok _ _ _ held alike => exact ⟨rfl, held, alike⟩

/-- A run in a context does the same in realms that are alike, and comes back to the context. -/
def Oblivious {α : Type} (w : Reach) (m : Machine) (c : Context) (x : Run α) (gives : α → Prop) : Prop :=
  ∀ waiting r s, r.Alike w c waiting s → Ends w gives c waiting (x m r) (x m s)

-- A run that may end in another context.
def Roaming {α : Type} (w : Reach) (m : Machine) (c : Context) (x : Run α) (gives : α → Prop) : Prop :=
  ∀ waiting r s, r.Alike w c waiting s → ∃ c', Ends w gives c' waiting (x m r) (x m s)

/-- A machine that finds names by resolution and enters blindly whatever belongs to the part. -/
structure Machine.Fits (w : Reach) (m : Machine) : Prop where
  lookup : m.lookup = Lookup.resolved
  enter : ∀ c invocation, invocation.Near w → Oblivious w m c (Run.enter invocation) (Value.Near w)

section

variable {w : Reach} {c : Context} {waiting : List Context} (r s : Realm) (alike : r.Alike w c waiting s)
include alike

theorem alike_heap (h k : Heap) (after : h.Alike w k) : (r.withHeap h).Alike w c waiting (s.withHeap k) := by
  refine ⟨after, ?_, alike.running, alike.waiting, alike.handlers⟩
  rw [alike.same]
  rfl

-- In a context of the part.
theorem alike_context (near : c.Near w) : r.running.In w.part := by
  obtain ⟨position, running⟩ := alike.running
  rw [running]
  exact ⟨near.this, near.lexical, near.variable, near.frame⟩

end

section

variable {w : Reach} {m : Machine} {c : Context} {α β σ : Type}

/-! Making runs of others. -/

theorem blind_pure (a : α) (gives : α → Prop) (held : gives a) : Oblivious w m c (pure a) gives := by
  exact fun waiting r s alike => .ok a r s held alike

theorem blind_imp (x : Run α) (gives gives' : α → Prop) (blind : Oblivious w m c x gives)
    (imp : ∀ a, gives a → gives' a) : Oblivious w m c x gives' := by
  intro waiting r s alike
  have ends := blind waiting r s alike
  generalize x m r = first at ends ⊢
  generalize x m s = second at ends ⊢
  cases ends with
  | ok a r' s' held after => exact .ok a r' s' (imp a held) after
  | error e r' s' near after => exact .error e r' s' near after

theorem blind_bind (x : Run α) (f : α → Run β) (gives : α → Prop) (gives' : β → Prop) (first : Oblivious w m c x gives)
    (second : ∀ a, gives a → Oblivious w m c (f a) gives') : Oblivious w m c (x >>= f) gives' := by
  intro waiting r s alike
  rw [bind_at, bind_at]
  have ends := first waiting r s alike
  generalize x m r = result at ends ⊢
  generalize x m s = result' at ends ⊢
  cases ends with
  | ok a r' s' held after => exact second a held waiting r' s' after
  | error e r' s' near after => exact .error e r' s' near after

theorem blind_then (x : Run α) (f : α → Run β) (gives : α → Prop) (gives' : β → Prop) (first : Oblivious w m c x gives)
    (second : ∀ a, Oblivious w m c (f a) gives') : Oblivious w m c (x >>= f) gives' := by
  exact blind_bind x f gives gives' first fun a _ => second a

theorem blind_after (x : Run α) (f : α → β) (gives : α → Prop) (gives' : β → Prop) (first : Oblivious w m c x gives)
    (imp : ∀ a, gives a → gives' (f a)) : Oblivious w m c (x >>= fun a => pure (f a)) gives' := by
  exact blind_bind x _ gives gives' first fun a held => blind_pure (f a) _ (imp a held)

/-! Looking at the realm. -/

theorem blind_look (f : Realm → Run α) (gives : α → Prop)
    (each : ∀ waiting r s, r.Alike w c waiting s → f s = f r ∧ Oblivious w m c (f r) gives) :
    Oblivious w m c (MonadState.get >>= f) gives := by
  intro waiting r s alike
  obtain ⟨same, blind⟩ := each waiting r s alike
  change Ends w gives c waiting (f r m r) (f s m s)
  rw [same]
  exact blind waiting r s alike

theorem blind_heap (f : Heap → Run α) (gives : α → Prop)
    (each : ∀ h k, h.Alike w k → f k = f h ∧ Oblivious w m c (f h) gives) : Oblivious w m c (heap >>= f) gives := by
  have whole : (heap >>= f) = ((MonadState.get : Run Realm) >>= fun r => f r.heap) := by
    rfl
  rw [whole]
  exact blind_look _ _ fun waiting r s alike => each r.heap s.heap alike.heap

/-! Changing it. -/

theorem blind_update (f : Heap → α × Heap) (gives : α → Prop)
    (each : ∀ h k, h.Alike w k → Heap.Joint w (f h) (f k) ∧ gives (f h).1) : Oblivious w m c (updateHeap f) gives := by
  intro waiting r s alike
  obtain ⟨⟨same, after⟩, held⟩ := each r.heap s.heap alike.heap
  change Ends w gives c waiting (.ok (f r.heap).1 (r.withHeap (f r.heap).2)) (.ok (f s.heap).1 (s.withHeap (f s.heap).2))
  rw [same]
  exact .ok _ _ _ held (alike_heap r s alike _ _ after)

theorem blind_modify_heap (f : Heap → Heap) (each : ∀ h k, h.Alike w k → (f h).Alike w (f k)) :
    Oblivious w m c (modifyHeap f) Whatever := by
  exact blind_update (fun h => (PUnit.unit, f h)) _ fun h k alike => ⟨⟨rfl, each h k alike⟩, trivial⟩

-- A change beside the heap and the contexts.
theorem blind_beside (f : Realm → Realm) (beside : ∀ r h, f (Realm.withHeap r h) = (f r).withHeap h)
    (running : ∀ r, (f r).running = r.running) (waiting : ∀ r, (f r).waiting = r.waiting)
    (handlers : ∀ r, Dictionary.All (Value.Near w) r.handlers → Dictionary.All (Value.Near w) (f r).handlers) :
    Oblivious w m c (modify f) Whatever := by
  intro waits r s alike
  have heap (r : Realm) : (f r).heap = r.heap := by
    have same : f r = (f r).withHeap r.heap := beside r r.heap
    rw [same]
    rfl
  refine .ok PUnit.unit (f r) (f s) trivial ⟨?_, ?_, ?_, ?_, handlers r alike.handlers⟩
  · rw [heap, heap]
    exact alike.heap
  · rw [heap, alike.same, beside]
    rfl
  · rw [running]
    exact alike.running
  · rw [waiting]
    exact alike.waiting

theorem blind_throw (v : Value) (gives : α → Prop) (near : v.Near w) :
    Oblivious w m c (throw (.thrown v) : Run α) gives := by
  exact fun waiting r s alike => .error _ r s near alike

/-! Objects. -/

theorem alias_alike (h k : Heap) (alike : h.Alike w k) (a : Alias) (near : a.In w.part) :
    h.SameContent k a ∧ (h.readAlias a).Near w := by
  cases a with
  | slot frame index =>
    refine ⟨?_, (Heap.slot_alike h k alike.part frame index near).2⟩
    rw [Heap.SameContent, alike.frame frame near]
  | binding env name =>
    rw [Heap.SameContent, Heap.read_binding, Heap.binding_environment, Heap.binding_environment,
      alike.environment env near]
    exact ⟨rfl, near_binding w _ (alike.around env near) name⟩

theorem blind_new (o : Object) (near : o.Near w) (mapped : ∀ i a, o.kind.mapped.lookup i = some a → a.In w.part) :
    Oblivious w m c (updateHeap fun h => h.addObject o) w.object := by
  refine blind_update _ _ fun h k alike => ⟨⟨alike.objects, ?_⟩, alike.newObject _ (Nat.le_refl _)⟩
  exact Heap.alike_object h k alike o near fun i a found => alias_alike h k alike a (mapped i a found)

theorem blind_names (kind : ObjectKind) (prototype : Option ObjectId) (names : Dictionary Descriptor)
    (unmapped : kind.mapped = []) (link : ∀ link, prototype = some link → w.object link)
    (callable : ∀ f, kind.callable? = some f → f.Near w)
    (near : Dictionary.All (Descriptor.All (Value.Near w)) names) :
    Oblivious w m c (newObject kind prototype (.ofNames names)) w.object := by
  refine blind_new _ ⟨link, callable, PropertyTable.all_of_names names near⟩ fun i a found => ?_
  rw [unmapped] at found
  cases found

theorem near_intrinsic (prototype : ObjectId) (first : prototype ≤ 16) (link : ObjectId)
    (same : some prototype = some link) : w.object link := by
  cases same
  exact w.intrinsic prototype first

/-! Places. -/

theorem blind_position (position : Nat) : Oblivious w m c (setPosition position) Whatever := by
  intro waiting r s alike
  have moved (r : Realm) :
      setPosition position m r = .ok PUnit.unit (r.withRunning { r.running with position := position }) :=
    rfl
  rw [moved, moved]
  refine .ok _ _ _ trivial ⟨alike.heap, ?_, ⟨position, ?_⟩, alike.waiting, alike.handlers⟩
  · rw [alike.same]
    rfl
  · obtain ⟨before, is⟩ := alike.running
    change { r.running with position := position } = _
    rw [is]

theorem blind_step : Oblivious w m c step Whatever := by
  intro waiting r s alike
  obtain ⟨k, rfl⟩ : ∃ k, s = r.withHeap k := ⟨_, alike.same⟩
  have counted : r.counted.Alike w c waiting (r.withHeap k).counted :=
    ⟨alike.heap, rfl, alike.running, alike.waiting, alike.handlers⟩
  by_cases room : ∀ limit, r.config.stepsLimit = some limit → r.steps < limit
  · rw [step_room m r room, step_room m (r.withHeap k) room]
    exact .ok _ _ _ trivial counted
  · simp only [not_forall, Nat.not_lt] at room
    obtain ⟨limit, limited, exceeded⟩ := room
    rw [step_over m r limit limited exceeded, step_over m (r.withHeap k) limit limited exceeded]
    exact .error _ _ _ trivial counted

-- The place of a name, seen from an environment of the part.
theorem blind_place_of (fits : m.Fits w) (near : c.Near w) (v : Variable) (strict : Bool) :
    Oblivious w m c (placeOf v strict) (Place.In w.part) := by
  intro waiting r s alike
  obtain ⟨position, running⟩ := alike.running
  have inside : w.environment r.running.lexicalEnv := by
    rw [running]
    exact near.lexical
  have named (env : EnvironmentId) (around : w.environment env) :
      Reference.ofName s.heap env v.name strict = Reference.ofName r.heap env v.name strict ∧
        (Reference.ofName r.heap env v.name strict).In w.part := by
    obtain ⟨same, found⟩ := Heap.find_binding_alike r.heap s.heap alike.heap.part env v.name around
    rw [Reference.ofName, Reference.ofName, same]
    refine ⟨rfl, ?_⟩
    cases there : r.heap.findBinding env v.name with
    | none => trivial
    | some link => exact found link there
  have places : s.placeOf v strict = r.placeOf v strict ∧ (r.placeOf v strict).In w.part := by
    rw [Realm.placeOf, Realm.placeOf, Variable.reference, Variable.reference, same_running r s alike.same]
    cases v.resolution with
    | slot index => exact ⟨rfl, trivial⟩
    | global => exact ⟨rfl, w.global⟩
    | fixed links =>
      obtain ⟨same, link⟩ := Heap.skip_alike r.heap s.heap alike.heap.part links _ inside
      dsimp only
      rw [same]
      exact ⟨rfl, link⟩
    | dynamic links =>
      obtain ⟨same, link⟩ := Heap.skip_alike r.heap s.heap alike.heap.part links _ inside
      dsimp only
      rw [same, (named _ link).1]
      exact ⟨rfl, (named _ link).2⟩
  rw [placeOf, placeOf, fits.lookup, Lookup.resolved, Lookup.resolved, places.1]
  exact .ok _ r s places.2 alike

/-! Environments and contexts. -/

theorem blind_environment (env : EnvironmentId) (x : Run α) (gives : α → Prop)
    (inside : Oblivious w m { c with lexicalEnv := env } x gives) : Oblivious w m c (inEnvironment env x) gives := by
  intro waiting r s alike
  obtain ⟨position, running⟩ := alike.running
  have there : (r.withRunning { r.running with lexicalEnv := env }).Alike w { c with lexicalEnv := env } waiting
      (s.withRunning { s.running with lexicalEnv := env }) := by
    refine ⟨alike.heap, ?_, ⟨position, ?_⟩, alike.waiting, alike.handlers⟩
    · rw [alike.same]
      rfl
    · change { r.running with lexicalEnv := env } = _
      rw [running]
  have back (r' s' : Realm) (after : r'.Alike w { c with lexicalEnv := env } waiting s') :
      (r'.withRunning { r'.running with lexicalEnv := r.running.lexicalEnv }).Alike w c waiting
        (s'.withRunning { s'.running with lexicalEnv := r.running.lexicalEnv }) := by
    obtain ⟨position', running'⟩ := after.running
    refine ⟨after.heap, ?_, ⟨position', ?_⟩, after.waiting, after.handlers⟩
    · rw [after.same]
      rfl
    · change { r'.running with lexicalEnv := r.running.lexicalEnv } = _
      rw [running', running]
  have ends := inside waiting _ _ there
  rw [in_environment_at, in_environment_at, same_running r s alike.same]
  rw [same_running r s alike.same] at ends
  generalize x m (r.withRunning { r.running with lexicalEnv := env }) = result at ends ⊢
  generalize x m (s.withRunning { r.running with lexicalEnv := env }) = result' at ends ⊢
  cases ends with
  | ok a r' s' held after => exact .ok a _ _ held (back r' s' after)
  | error e r' s' near after => exact .error e _ _ near (back r' s' after)

/-! Taking what is thrown. -/

theorem blind_catching (block : Run Completion) (handler : Value → Run Completion)
    (body : Oblivious w m c block (Completion.In w.part))
    (rest : ∀ v, v.Near w → Oblivious w m c (handler v) (Completion.In w.part)) :
    Oblivious w m c (catching block handler) (Completion.In w.part) := by
  intro waiting r s alike
  have ends := body waiting r s alike
  rw [catching, catching]
  generalize block m r = result at ends ⊢
  generalize block m s = result' at ends ⊢
  cases ends with
  | ok a r' s' held after => exact .ok a r' s' held after
  | error e r' s' near after =>
    cases e with
    | thrown v => exact rest v near waiting r' s' after
    | _ => exact .error _ r' s' near after

theorem blind_finally (block finalizer : Run Completion) (body : Oblivious w m c block (Completion.In w.part))
    (rest : Oblivious w m c finalizer (Completion.In w.part)) :
    Oblivious w m c (thenFinally block finalizer) (Completion.In w.part) := by
  intro waiting r s alike
  have ends := body waiting r s alike
  rw [thenFinally, thenFinally]
  generalize block m r = result at ends ⊢
  generalize block m s = result' at ends ⊢
  cases ends with
  | ok a r' s' held after =>
    have ends := rest waiting r' s' after
    dsimp only
    generalize finalizer m r' = result at ends ⊢
    generalize finalizer m s' = result' at ends ⊢
    cases ends with
    | error e r'' s'' near after' => exact .error e r'' s'' near after'
    | ok f r'' s'' held' after' =>
      refine .ok _ r'' s'' ?_ after'
      split
      · exact held'
      · exact held
  | error e r' s' near after =>
    cases e with
    | thrown v =>
      have ends := rest waiting r' s' after
      dsimp only
      generalize finalizer m r' = result at ends ⊢
      generalize finalizer m s' = result' at ends ⊢
      cases ends with
      | error e r'' s'' near' after' => exact .error e r'' s'' near' after'
      | ok f r'' s'' held' after' =>
        dsimp only
        split
        · exact .ok f r'' s'' held' after'
        · exact .error _ r'' s'' near after'
    | _ => exact .error _ r' s' near after

/-! Loops. -/

-- What a round gives: the state of the next round, or the result.
def Round.Gives (holds : σ → Prop) (gives : α → Prop) : σ ⊕ α → Prop
  | .inl state => holds state
  | .inr result => gives result

theorem blind_rounds (round : σ → Run (σ ⊕ α)) (holds : σ → Prop) (gives : α → Prop) (fuel : Nat) (state : σ)
    (held : holds state) (each : ∀ state, holds state → Oblivious w m c (round state) (Round.Gives holds gives)) :
    Oblivious w m c (loopFrom round fuel state) gives := by
  induction fuel generalizing state with
  | zero => exact fun waiting r s alike => .error _ r s trivial alike
  | succ fuel hyp =>
    refine blind_bind _ _ (Round.Gives holds gives) _ (each state held) fun next given => ?_
    cases next with
    | inl state' => exact hyp state' given
    | inr result => exact blind_pure result gives given

theorem blind_loop (round : σ → Run (σ ⊕ α)) (holds : σ → Prop) (gives : α → Prop) (state : σ)
    (held : holds state) (each : ∀ state, holds state → Oblivious w m c (round state) (Round.Gives holds gives)) :
    Oblivious w m c (loop state round) gives := by
  exact blind_rounds round holds gives m.rounds state held each

-- The value of a loop is that of a body, or the one from before.
theorem near_round (labels : List Label) (value : Option Value) (x : Completion) (near : OptionalValue.In w.part value)
    (given : x.In w.part) : Round.Gives (OptionalValue.In w.part) (Completion.In w.part) (endRound labels value x) := by
  have either := or_in x.value value given near
  unfold endRound
  dsimp only
  split
  · exact either
  · exact either
  · exact or_in _ _ given either

section

variable (labels : List Label) (test : Run Bool) (body : Run Completion)
  (tests : Oblivious w m c test Whatever) (runs : Oblivious w m c body (Completion.In w.part))
include runs

section

include tests

theorem blind_while (update : Run Unit) (updates : Oblivious w m c update Whatever) :
    Oblivious w m c (whileRounds labels test body update) (Completion.In w.part) := by
  refine blind_loop _ (OptionalValue.In w.part) _ _ (OptionalValue.in_none w.part) fun value held => ?_
  refine blind_then _ _ _ _ blind_step fun _ => blind_then _ _ _ _ tests fun again => ?_
  split
  · refine blind_bind _ _ _ _ runs fun x given => ?_
    have ended := near_round labels value x held given
    split
    · next next same =>
      rw [same] at ended
      exact blind_then _ _ _ _ updates fun _ => blind_pure _ _ ended
    · next result same =>
      rw [same] at ended
      exact blind_pure _ _ ended
  · exact blind_pure _ _ held

theorem blind_do : Oblivious w m c (doRounds labels body test) (Completion.In w.part) := by
  refine blind_loop _ (OptionalValue.In w.part) _ _ (OptionalValue.in_none w.part) fun value held => ?_
  refine blind_then _ _ _ _ blind_step fun _ => blind_bind _ _ _ _ runs fun x given => ?_
  have ended := near_round labels value x held given
  split
  · next next same =>
    rw [same] at ended
    refine blind_then _ _ _ _ tests fun again => ?_
    split
    · exact blind_pure _ _ ended
    · exact blind_pure _ _ ended
  · next result same =>
    rw [same] at ended
    exact blind_pure _ _ ended

end

theorem blind_name_rounds (id : ObjectId) (inside : w.object id) (assign : Value → Run Unit)
    (assigns : ∀ s, Oblivious w m c (assign (.string s)) Whatever) :
    Oblivious w m c (nameRounds labels id assign body) (Completion.In w.part) := by
  refine blind_heap _ _ fun h k alike => ⟨?_, ?_⟩
  · rw [Enumerator.start, Enumerator.start, Heap.own_keys_alike h k alike.part id inside]
  refine blind_loop _ (fun (state : Enumerator × Option Value) =>
    (∀ id, state.1.current = some id → w.object id) ∧ OptionalValue.In w.part state.2) _ _
    ⟨fun id' same => ?_, OptionalValue.in_none w.part⟩
    fun state held => ?_
  · cases same
    exact inside
  obtain ⟨names, value⟩ := state
  refine blind_heap _ _ fun h k alike => ?_
  obtain ⟨same, rest⟩ := Heap.next_from_alike h k alike.part (names.current.getD 0 + 1) names held.1
  rw [Enumerator.next, Enumerator.next, same]
  refine ⟨rfl, ?_⟩
  generalize Enumerator.nextFrom h (names.current.getD 0 + 1) names = found at rest
  obtain ⟨key, names'⟩ := found
  cases key with
  | none => exact blind_pure _ _ held.2
  | some key =>
    refine blind_then _ _ _ _ blind_step fun _ => blind_then _ _ _ _ (assigns _) fun _ => ?_
    refine blind_bind _ _ _ _ runs fun x given => ?_
    have ended := near_round labels value x held.2 given
    split
    · next next same =>
      rw [same] at ended
      exact blind_pure _ _ ⟨rest, ended⟩
    · next result same =>
      rw [same] at ended
      exact blind_pure _ _ ended

end

/-! Functions. -/

theorem blind_function (routine : Routine) (scope : EnvironmentId) (plain : routine.Plain)
    (inside : w.environment scope) : Oblivious w m c (newFunction routine scope) w.object := by
  have made : Oblivious w m c (newObject (.function (.script routine scope)) (some Intrinsic.functionPrototype)
      (.ofNames [("length", .final (.ofNat routine.header.params.length))])) w.object := by
    refine blind_names _ _ _ rfl (near_intrinsic _ (by decide)) (fun f same => ?_) ?_
    · cases same
      exact ⟨plain, inside⟩
    · exact names_single _ _ ((Descriptor.all_data _ _ _ _).mpr trivial)
  refine blind_bind _ _ _ _ made fun f own => ?_
  have constructed : Oblivious w m c (newObject .ordinary (some Intrinsic.objectPrototype)
      (.ofNames [("constructor", .hidden (.object f))])) w.object :=
    blind_names _ _ _ rfl (near_intrinsic _ (by decide)) nofun (names_single _ _ ((Descriptor.all_data _ _ _ _).mpr own))
  refine blind_bind _ _ _ _ constructed fun prototype link => ?_
  refine blind_then _ _ Whatever _ ?_ fun _ => blind_pure f _ own
  refine blind_modify_heap _ fun h k alike => Heap.append_alike h k alike f own _ ?_
  refine (Dictionary.all_cons _ _ _).mpr ⟨(Descriptor.all_data _ _ _ _).mpr link, ?_⟩
  split
  · exact poisoned_all (w.intrinsic Intrinsic.throwTypeError (by decide)) _
  · exact nofun

end

/-! Runs that stay in the part. -/

theorem Realm.Alike.part {w : Reach} {c : Context} {waiting : List Context} {r s : Realm}
    (alike : r.Alike w c waiting s) : r.AlikeIn w.part s := by
  exact ⟨alike.heap.part, alike.same, alike.handlers⟩

theorem tame_blind {α : Type} {p : Region} {moves : Bool} {x : Run α} {gives : Notion α} (tame : Tame p moves x gives)
    {w : Reach} {m : Machine} (fits : m.Fits w) (upto : p.Upto w.part) (c : Context) (near : moves = true → c.Near w) :
    Oblivious w m c x (gives w.part) := by
  induction tame generalizing c with
  | pure a gives held => exact blind_pure a _ (held w.part upto)
  | imp x gives gives' _ imp hyp => exact blind_imp _ _ _ (hyp upto c near) fun a => imp w.part a upto
  | bind x f gives gives' _ _ first second =>
    exact blind_bind _ _ _ _ (first upto c near) fun a held => second a w.part upto held (.refl _) c near
  | here x gives _ each =>
    exact fun waiting r s alike =>
      each r.heap s.heap w.part upto alike.heap.part (.refl _) c near waiting r s alike
  | throwing v gives held => exact blind_throw v _ (held.more upto)
  | look f gives same _ each =>
    exact blind_look _ _ fun waiting r s alike =>
      ⟨same r s w.part upto alike.part, each r s w.part upto alike.part (.refl _) c near⟩
  | running f gives _ each =>
    refine blind_look (fun r => f r.running) _ fun waiting r s alike => ⟨congrArg f (same_running r s alike.same), ?_⟩
    exact each r.running w.part upto (alike_context r s alike (near rfl)) (.refl _) c near
  | found v strict => exact blind_place_of fits (near rfl) v strict
  | beside f outward apart handlers =>
    exact blind_beside f apart outward.running outward.waiting fun r all => handlers r w.part upto all
  | object o _ inside _ mapped =>
    have inside := inside.more upto
    exact blind_new o ⟨inside.prototype, inside.callable, inside.table⟩ fun i a found => (mapped i a found).more upto
  | function routine scope plain inside => exact blind_function routine scope plain (upto.environment scope inside)
  | environment e inside empty =>
    have inside := inside.more upto
    refine blind_update _ _ fun h k alike => ⟨⟨alike.environments, ?_⟩, alike.newEnvironment _ (Nat.le_refl _)⟩
    refine Heap.alike_environment h k alike e ⟨inside.outer, fun b same => ?_, inside.record⟩
    rw [empty b same]
    exact nofun
  | define id key d other k gives _ inside held _ _ otherwise after =>
    have inside := upto.object id inside
    refine blind_heap _ _ fun h h' alike => ⟨by rw [Heap.is_array_alike h h' alike.part id inside], ?_⟩
    split
    · exact otherwise upto c near
    · refine blind_bind _ _ Whatever _ (blind_update _ _ fun h h' alike => ⟨?_, trivial⟩) fun accepted _ =>
        after accepted w.part upto (.refl _) c near
      exact Heap.define_joint h h' alike id inside key d (held.more upto)
  | length id d length old _ _ inside =>
    exact blind_update _ _ fun h k alike => ⟨Heap.length_joint h k alike id (upto.object id inside) d length old, trivial⟩
  | delete id key inside =>
    exact blind_update _ _ fun h k alike => ⟨Heap.delete_joint h k alike id (upto.object id inside) key, trivial⟩
  | close id inside => exact blind_modify_heap _ fun h k alike => Heap.close_alike h k alike id (upto.object id inside)
  | override v primitive =>
    exact blind_modify_heap _ fun h k alike => Heap.store_alike h k alike _ (w.intrinsic _ (by decide)) _ _
      ((Descriptor.all_data _ _ _ _).mpr (near_primitive w v primitive))
  | bindings env f inside keeps =>
    refine blind_modify_heap _ fun h k alike =>
      Heap.alike_bindings h k alike env f (upto.environment env inside) fun b all => ?_
    have kept := keeps w.part True b upto fun entry member => ⟨(all entry member).value, fun _ => (all entry member).blank⟩
    exact fun entry member => ⟨(kept entry member).value, (kept entry member).blank trivial⟩
  | slot index v held =>
    refine blind_look (fun r => modifyHeap fun h => h.setSlot r.running.frame index v) _ fun waiting r s alike => ⟨?_, ?_⟩
    · rw [same_running r s alike.same]
    · exact blind_modify_heap _ fun h k alike => Heap.alike_slot h k alike _ index v (held.more upto)
  | position position => exact blind_position position
  | step => exact blind_step
  | within env body gives around _ inside =>
    have near := near rfl
    exact blind_environment env body _ (inside upto _ fun _ =>
      ⟨near.this, upto.environment env around, near.variable, near.frame⟩)
  | catching block handler _ _ body rest =>
    exact blind_catching _ _ (body upto c near) fun v held => rest v w.part upto held (.refl _) c near
  | thenFinally block finalizer _ _ body rest =>
    exact blind_finally _ _ (body upto c near) (rest w.part upto (.refl _) c near)
  | whileRounds labels test body update _ _ _ tests runs updates =>
    exact blind_while labels _ _ (tests w.part upto (.refl _) c near) (runs w.part upto (.refl _) c near) _
      (updates w.part upto (.refl _) c near)
  | doRounds labels body test _ _ runs tests =>
    exact blind_do labels _ _ (tests w.part upto (.refl _) c near) (runs w.part upto (.refl _) c near)
  | nameRounds labels id assign body inside _ _ assigns runs =>
    exact blind_name_rounds labels _ (runs w.part upto (.refl _) c near) id (upto.object id inside) _ fun s =>
      assigns s w.part upto (.refl _) c near
  | enter invocation held => exact fits.enter c invocation (Invocation.In.more upto held)

-- Whatever the context is, if the run does not look at it.
theorem still_blind {α : Type} {x : Run α} {gives : Notion α} {w : Reach} {m : Machine} {c : Context} (fits : m.Fits w)
    (tame : Tame w.part false x gives) : Oblivious w m c x (gives w.part) := by
  exact tame_blind tame fits (.refl _) c nofun

theorem code_blind {α : Type} {x : Run α} {gives : Notion α} {w : Reach} {m : Machine} {c : Context} (fits : m.Fits w)
    (near : c.Near w) (tame : Tame w.part true x gives) : Oblivious w m c x (gives w.part) := by
  exact tame_blind tame fits (.refl _) c fun _ => near

/-! Contexts of their own. -/

section

variable {w : Reach} {m : Machine} {c : Context} {α β : Type}

theorem blind_context (c' : Context) (x : Run α) (gives : α → Prop) (fits : m.Fits w) (inside : Roaming w m c' x gives) :
    Oblivious w m c (inContext c' x) gives := by
  intro waiting r s alike
  have depth : s.depth = r.depth := congrArg List.length (same_waiting r s alike.same)
  by_cases room : r.depth < r.config.depthLimit
  · have room' : s.depth < s.config.depthLimit := by
      rw [depth, same_config r s alike.same]
      exact room
    obtain ⟨position, running⟩ := alike.running
    have there : (r.entering c').Alike w c' (r.running :: waiting) (s.entering c') := by
      refine ⟨alike.heap, ?_, ⟨c'.position, rfl⟩, congrArg _ alike.waiting, alike.handlers⟩
      rw [alike.same]
      rfl
    have back (c'' : Context) (r' s' : Realm) (after : r'.Alike w c'' (r.running :: waiting) s') :
        (leaveContext r').Alike w c waiting (leaveContext s') := by
      have left : leaveContext r' = { r' with running := r.running, waiting := waiting } := by
        rw [leaveContext, after.waiting]
      have left' : leaveContext s' = { s' with running := r.running, waiting := waiting } := by
        rw [leaveContext, same_waiting r' s' after.same, after.waiting]
      rw [left, left']
      refine ⟨after.heap, ?_, ⟨position, running⟩, rfl, after.handlers⟩
      rw [after.same]
      rfl
    rw [in_context_room m r c' x room, in_context_room m s c' x room']
    obtain ⟨c'', ends⟩ := inside _ _ _ there
    generalize x m (r.entering c') = result at ends ⊢
    generalize x m (s.entering c') = result' at ends ⊢
    cases ends with
    | ok a r' s' held after => exact .ok a _ _ held (back c'' r' s' after)
    | error e r' s' near after => exact .error e _ _ near (back c'' r' s' after)
  · have full := Nat.not_lt.mp room
    have full' : s.config.depthLimit ≤ s.depth := by
      rw [depth, same_config r s alike.same]
      exact full
    have error : Tame w.part false (newError .rangeError "Maximum call stack size exceeded") Region.object :=
      tame_error_from _ _ (by decide) fun v given => by cases given; trivial
    have made := still_blind fits error waiting r s alike
    rw [new_error_at, new_error_at] at made
    obtain ⟨same, inside, after⟩ := ends_ok _ _ _ _ _ _ _ _ made
    rw [in_context_full m r c' x full, in_context_full m s c' x full', same]
    exact .error _ _ _ inside after

theorem roaming_blind (x : Run α) (gives : α → Prop) (blind : Oblivious w m c x gives) : Roaming w m c x gives := by
  exact fun waiting r s alike => ⟨c, blind waiting r s alike⟩

theorem roaming_bind (x : Run α) (f : α → Run β) (gives : α → Prop) (gives' : β → Prop) (first : Oblivious w m c x gives)
    (second : ∀ a, gives a → Roaming w m c (f a) gives') : Roaming w m c (x >>= f) gives' := by
  intro waiting r s alike
  rw [bind_at, bind_at]
  have ends := first waiting r s alike
  generalize x m r = result at ends ⊢
  generalize x m s = result' at ends ⊢
  cases ends with
  | ok a r' s' held after => exact second a held waiting r' s' after
  | error e r' s' near after => exact ⟨c, .error e r' s' near after⟩

-- Going to another context for good.
theorem roaming_move (f : Context → Context) (c' : Context) (x : PUnit → Run α) (gives : α → Prop)
    (same : ∀ position, f { c with position := position } = { c' with position := position })
    (second : ∀ u, Oblivious w m c' (x u) gives) : Roaming w m c (modifyRunning f >>= x) gives := by
  intro waiting r s alike
  obtain ⟨position, running⟩ := alike.running
  refine ⟨c', second PUnit.unit waiting (r.withRunning (f r.running)) (s.withRunning (f s.running)) ?_⟩
  refine ⟨alike.heap, ?_, ⟨position, ?_⟩, alike.waiting, alike.handlers⟩
  · rw [alike.same]
    rfl
  · change f r.running = _
    rw [running]
    exact same position

end

end Ecma
