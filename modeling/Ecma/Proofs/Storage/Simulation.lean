import Ecma.Proofs.Program.Compilation
import Ecma.Proofs.Storage.Operation
import Ecma.Proofs.Storage.Outward

set_option autoImplicit false

/-!
When two runs do the same. They start in related realms and end in related realms, in a world that has
only grown, with results that belong together. Each run is also made on another machine, whose lookups
may be of any kind as long as they find what resolution promises; that makes no difference.
-/

namespace Ecma.Storage

open Ecma.Program Ecma.Scope Run

/-! Realms. -/

structure Related (W : World) (live : List Link) (owed : List (EnvironmentId × String)) (r₁ r₂ : Realm) :
    Prop where
  heap : HeapRelated W live owed r₁.heap r₂.heap
  collapse₁ : r₁.config.collapse = true
  collapse₂ : r₂.config.collapse = false
  config : r₁.config.face = r₂.config.face
  running : r₁.running.frame? = r₂.running.frame?
  waiting : r₁.waiting.map Context.frame? = r₂.waiting.map Context.frame?
  steps : r₁.steps = r₂.steps
  hosts : r₁.hosts = r₂.hosts
  handlers : r₁.handlers = r₂.handlers
  stdout : r₁.stdout = r₂.stdout
  stderr : r₁.stderr = r₂.stderr

theorem realms_same_view (W : World) (live : List Link) (owed : List (EnvironmentId × String))
    (r₁ r₂ : Realm) (related : Related W live owed r₁ r₂) : r₁.SameView r₂ := by
  exact ⟨heaps_same_view W live owed _ _ related.heap, related.config, related.running, related.waiting,
    related.steps, related.hosts, related.handlers, related.stdout, related.stderr⟩

theorem related_with_heap (W V : World) (live live' : List Link) (owed left : List (EnvironmentId × String))
    (r₁ r₂ : Realm) (h₁ h₂ : Heap) (related : Related W live owed r₁ r₂)
    (heap : HeapRelated V live' left h₁ h₂) :
    Related V live' left { r₁ with heap := h₁ } { r₂ with heap := h₂ } := by
  exact ⟨heap, related.collapse₁, related.collapse₂, related.config, related.running, related.waiting,
    related.steps, related.hosts, related.handlers, related.stdout, related.stderr⟩

/-! Where two runs stand. -/

/-- The contexts of two runs: those that are running, whose position may change, and those that wait. -/
structure Stand where
  context₁ : Context
  context₂ : Context
  waiting₁ : List Context
  waiting₂ : List Context

namespace Stand

def Holds (s : Stand) (r₁ r₂ : Realm) : Prop :=
  (∃ p, r₁.running = { s.context₁ with position := p } ∧ r₂.running = { s.context₂ with position := p }) ∧
    r₁.waiting = s.waiting₁ ∧ r₂.waiting = s.waiting₂

/-- Only the contexts that wait are as they were. -/
def Waits (s : Stand) (r₁ r₂ : Realm) : Prop :=
  r₁.waiting = s.waiting₁ ∧ r₂.waiting = s.waiting₂

end Stand

/-! Machines. -/

/-- The machines of two runs, and for each run another machine to make it on. -/
structure Machines where
  first : Machine
  other₁ : Machine
  second : Machine
  other₂ : Machine

variable {α β γ δ : Type}

/-- What two runs end with. -/
def Ends (after : World → Realm → Realm → Prop) (Q : World → α → β → Prop) :
    EStateM.Result Interrupt Realm α → EStateM.Result Interrupt Realm β → Prop
  | .ok a r₁, .ok b r₂ => ∃ V, after V r₁ r₂ ∧ Q V a b
  | .error e₁ r₁, .error e₂ r₂ => e₁ = e₂ ∧ ∃ V, after V r₁ r₂
  | _, _ => False

def Reaches (W : World) (live : List Link) (after : Realm → Realm → Prop) (V : World) (r₁ r₂ : Realm) : Prop :=
  W.Below V ∧ Related V live [] r₁ r₂ ∧ after r₁ r₂

/-- Two runs do the same from where they stand. -/
def Simulates (M : Machines) (W : World) (live : List Link) (s : Stand) (after : Realm → Realm → Prop)
    (x₁ : Run α) (x₂ : Run β) (Q : World → α → β → Prop) : Prop :=
  ∀ r₁ r₂, Related W live [] r₁ r₂ → s.Holds r₁ r₂ →
    x₁ M.other₁ r₁ = x₁ M.first r₁ ∧ x₂ M.other₂ r₂ = x₂ M.second r₂ ∧
      Ends (Reaches W live after) Q (x₁ M.first r₁) (x₂ M.second r₂)

/-- Two runs do the same and come back to where they stand. -/
def Sim (M : Machines) (W : World) (live : List Link) (s : Stand) (x₁ : Run α) (x₂ : Run β)
    (Q : World → α → β → Prop) : Prop :=
  Simulates M W live s s.Holds x₁ x₂ Q

/-- The results are equal. -/
def Same (_ : World) (a b : α) : Prop :=
  a = b

theorem ends_mono (after after' : World → Realm → Realm → Prop) (Q Q' : World → α → β → Prop)
    (x₁ : EStateM.Result Interrupt Realm α) (x₂ : EStateM.Result Interrupt Realm β)
    (states : ∀ V r₁ r₂, after V r₁ r₂ → after' V r₁ r₂)
    (results : ∀ V r₁ r₂ a b, after V r₁ r₂ → Q V a b → Q' V a b) (ends : Ends after Q x₁ x₂) :
    Ends after' Q' x₁ x₂ := by
  cases x₁ with
  | ok a r₁ =>
    cases x₂ with
    | ok b r₂ =>
      obtain ⟨V, state, result⟩ := ends
      exact ⟨V, states V r₁ r₂ state, results V r₁ r₂ a b state result⟩
    | error e r₂ => cases ends
  | error e₁ r₁ =>
    cases x₂ with
    | ok b r₂ => cases ends
    | error e₂ r₂ =>
      obtain ⟨same, V, state⟩ := ends
      exact ⟨same, V, states V r₁ r₂ state⟩

section

variable (M : Machines) (W : World) (live : List Link) (s : Stand) (after : Realm → Realm → Prop)

theorem sim_weaken (x₁ : Run α) (x₂ : Run β) (Q Q' : World → α → β → Prop)
    (sim : Simulates M W live s after x₁ x₂ Q) (results : ∀ V a b, W.Below V → Q V a b → Q' V a b) :
    Simulates M W live s after x₁ x₂ Q' := by
  intro r₁ r₂ related holds
  obtain ⟨same₁, same₂, ends⟩ := sim r₁ r₂ related holds
  exact ⟨same₁, same₂, ends_mono _ _ _ _ _ _ (fun _ _ _ => id)
    (fun V _ _ a b reaches => results V a b reaches.1) ends⟩

theorem sim_waits (x₁ : Run α) (x₂ : Run β) (Q : World → α → β → Prop) (sim : Sim M W live s x₁ x₂ Q) :
    Simulates M W live s s.Waits x₁ x₂ Q := by
  intro r₁ r₂ related holds
  obtain ⟨same₁, same₂, ends⟩ := sim r₁ r₂ related holds
  exact ⟨same₁, same₂, ends_mono _ _ _ _ _ _
    (fun V k₁ k₂ reaches => ⟨reaches.1, reaches.2.1, reaches.2.2.2⟩) (fun _ _ _ _ _ _ => id) ends⟩

theorem sim_pure (Q : World → α → β → Prop) (a : α) (b : β) (result : Q W a b) :
    Sim M W live s (pure a) (pure b) Q := by
  intro r₁ r₂ related holds
  exact ⟨rfl, rfl, W, ⟨W.below_refl, related, holds⟩, result⟩

theorem sim_throw (Q : World → α → β → Prop) (e : Interrupt) :
    Sim M W live s (throw e) (throw e) Q := by
  intro r₁ r₂ related holds
  exact ⟨rfl, rfl, rfl, W, W.below_refl, related, holds⟩

/-- One thing after another. The second may leave other contexts behind. -/
theorem simulates_bind (x₁ : Run α) (x₂ : Run β) (f₁ : α → Run γ) (f₂ : β → Run δ)
    (Q : World → α → β → Prop) (R : World → γ → δ → Prop) (leaves : ∀ r₁ r₂, s.Holds r₁ r₂ → after r₁ r₂)
    (first : Sim M W live s x₁ x₂ Q)
    (second : ∀ V a b, W.Below V → Q V a b → Simulates M V live s after (f₁ a) (f₂ b) R) :
    Simulates M W live s after (x₁ >>= f₁) (x₂ >>= f₂) R := by
  intro r₁ r₂ related holds
  obtain ⟨same₁, same₂, ends⟩ := first r₁ r₂ related holds
  rw [bind_at, bind_at, bind_at, bind_at, same₁, same₂]
  cases found₁ : x₁ M.first r₁ with
  | ok a k₁ =>
    cases found₂ : x₂ M.second r₂ with
    | ok b k₂ =>
      rw [found₁, found₂] at ends
      obtain ⟨V, ⟨below, related', holds'⟩, result⟩ := ends
      obtain ⟨then₁, then₂, ends'⟩ := second V a b below result k₁ k₂ related' holds'
      refine ⟨then₁, then₂, ends_mono _ _ _ _ _ _ ?_ (fun _ _ _ _ _ _ => id) ends'⟩
      exact fun U l₁ l₂ reaches => ⟨World.below_trans W V U below reaches.1, reaches.2⟩
    | error e k₂ =>
      rw [found₁, found₂] at ends
      cases ends
  | error e₁ k₁ =>
    cases found₂ : x₂ M.second r₂ with
    | ok b k₂ =>
      rw [found₁, found₂] at ends
      cases ends
    | error e₂ k₂ =>
      rw [found₁, found₂] at ends
      obtain ⟨same, V, below, related', holds'⟩ := ends
      exact ⟨rfl, rfl, same, V, below, related', leaves k₁ k₂ holds'⟩

theorem sim_bind (x₁ : Run α) (x₂ : Run β) (f₁ : α → Run γ) (f₂ : β → Run δ)
    (Q : World → α → β → Prop) (R : World → γ → δ → Prop) (first : Sim M W live s x₁ x₂ Q)
    (second : ∀ V a b, W.Below V → Q V a b → Sim M V live s (f₁ a) (f₂ b) R) :
    Sim M W live s (x₁ >>= f₁) (x₂ >>= f₂) R := by
  exact simulates_bind M W live s s.Holds x₁ x₂ f₁ f₂ Q R (fun _ _ => id) first second

/-- The case of equal first results. -/
theorem sim_bind_same (x₁ x₂ : Run α) (f₁ : α → Run γ) (f₂ : α → Run δ) (R : World → γ → δ → Prop)
    (first : Sim M W live s x₁ x₂ Same) (second : ∀ V a, W.Below V → Sim M V live s (f₁ a) (f₂ a) R) :
    Sim M W live s (x₁ >>= f₁) (x₂ >>= f₂) R := by
  refine sim_bind M W live s x₁ x₂ f₁ f₂ Same R first fun V a b below same => ?_
  cases same
  exact second V a below

theorem sim_discard (x₁ : Run α) (x₂ : Run β) (Q : World → α → β → Prop) (sim : Sim M W live s x₁ x₂ Q) :
    Sim M W live s (discard x₁ : Run PUnit) (discard x₂ : Run PUnit) Same := by
  have whole (x : Run α) : (discard x : Run PUnit) = (fun _ => PUnit.unit) <$> x := by
    rfl
  have whole' (x : Run β) : (discard x : Run PUnit) = (fun _ => PUnit.unit) <$> x := by
    rfl
  rw [whole, whole', ← bind_pure_comp, ← bind_pure_comp]
  exact sim_bind M W live s x₁ x₂ _ _ Q Same sim fun V a b _ _ => sim_pure M V live s Same _ _ rfl

/-- What follows depends on the realms; when they look the same, it is the same. -/
theorem simulates_look (f₁ : Realm → Run α) (f₂ : Realm → Run β) (Q : World → α → β → Prop)
    (each : ∀ r₁ r₂, Related W live [] r₁ r₂ → s.Holds r₁ r₂ → Simulates M W live s after (f₁ r₁) (f₂ r₂) Q) :
    Simulates M W live s after (MonadState.get >>= f₁) (MonadState.get >>= f₂) Q := by
  intro r₁ r₂ related holds
  exact each r₁ r₂ related holds r₁ r₂ related holds

theorem simulates_heap (f₁ : Heap → Run α) (f₂ : Heap → Run β) (Q : World → α → β → Prop)
    (each : ∀ h₁ h₂, HeapRelated W live [] h₁ h₂ → Simulates M W live s after (f₁ h₁) (f₂ h₂) Q) :
    Simulates M W live s after (heap >>= f₁) (heap >>= f₂) Q := by
  intro r₁ r₂ related holds
  exact each r₁.heap r₂.heap related.heap r₁ r₂ related holds

theorem sim_heap (f₁ : Heap → Run α) (f₂ : Heap → Run β) (Q : World → α → β → Prop)
    (each : ∀ h₁ h₂, HeapRelated W live [] h₁ h₂ → Sim M W live s (f₁ h₁) (f₂ h₂) Q) :
    Sim M W live s (heap >>= f₁) (heap >>= f₂) Q := by
  exact simulates_heap M W live s s.Holds f₁ f₂ Q each

/-- What is read of the running contexts, at any position. -/
theorem simulates_running (f₁ : Context → Run α) (f₂ : Context → Run β) (Q : World → α → β → Prop)
    (each : ∀ p, Simulates M W live s after (f₁ { s.context₁ with position := p })
      (f₂ { s.context₂ with position := p }) Q) :
    Simulates M W live s after (running >>= f₁) (running >>= f₂) Q := by
  intro r₁ r₂ related holds
  obtain ⟨⟨p, first, second⟩, waits⟩ := holds
  have result := each p r₁ r₂ related ⟨⟨p, first, second⟩, waits⟩
  rw [← first, ← second] at result
  exact result

theorem sim_running (f₁ : Context → Run α) (f₂ : Context → Run β) (Q : World → α → β → Prop)
    (each : ∀ p, Sim M W live s (f₁ { s.context₁ with position := p })
      (f₂ { s.context₂ with position := p }) Q) : Sim M W live s (running >>= f₁) (running >>= f₂) Q := by
  exact simulates_running M W live s s.Holds f₁ f₂ Q each

theorem sim_update (f₁ : Heap → α × Heap) (f₂ : Heap → β × Heap) (Q : World → α → β → Prop)
    (each : ∀ h₁ h₂, HeapRelated W live [] h₁ h₂ → ∃ V, W.Below V ∧
      HeapRelated V live [] (f₁ h₁).2 (f₂ h₂).2 ∧ Q V (f₁ h₁).1 (f₂ h₂).1) :
    Sim M W live s (updateHeap f₁) (updateHeap f₂) Q := by
  intro r₁ r₂ related holds
  obtain ⟨V, below, heap, result⟩ := each r₁.heap r₂.heap related.heap
  exact ⟨rfl, rfl, V, ⟨below, related_with_heap W V live live [] [] r₁ r₂ _ _ related heap, holds⟩, result⟩

theorem sim_update_agree (f₁ f₂ : Heap → α × Heap)
    (each : ∀ h₁ h₂, HeapRelated W live [] h₁ h₂ → Agree W live (f₁ h₁) (f₂ h₂)) :
    Sim M W live s (updateHeap f₁) (updateHeap f₂) Same := by
  refine sim_update M W live s f₁ f₂ Same fun h₁ h₂ related => ?_
  obtain ⟨answers, heaps⟩ := each h₁ h₂ related
  exact ⟨W, W.below_refl, heaps, answers⟩

theorem sim_modify (f₁ f₂ : Heap → Heap)
    (each : ∀ h₁ h₂, HeapRelated W live [] h₁ h₂ → ∃ V, W.Below V ∧ HeapRelated V live [] (f₁ h₁) (f₂ h₂)) :
    Sim M W live s (modifyHeap f₁) (modifyHeap f₂) Same := by
  intro r₁ r₂ related holds
  obtain ⟨V, below, heap⟩ := each r₁.heap r₂.heap related.heap
  exact ⟨rfl, rfl, V, ⟨below, related_with_heap W V live live [] [] r₁ r₂ _ _ related heap, holds⟩, rfl⟩

theorem frame_at (c₁ c₂ : Context) (p : Nat) (same : c₁.frame? = c₂.frame?) :
    ({ c₁ with position := p } : Context).frame? = ({ c₂ with position := p } : Context).frame? := by
  unfold Context.frame? at *
  cases code₁ : c₁.code with
  | none =>
    cases code₂ : c₂.code with
    | none => rfl
    | some header =>
      rw [code₁, code₂] at same
      cases same
  | some header₁ =>
    cases code₂ : c₂.code with
    | none =>
      rw [code₁, code₂] at same
      cases same
    | some header₂ =>
      rw [code₁, code₂] at same
      injection same with frames
      injection frames with functions names sources positions
      change some (StackFrame.mk c₁.function header₁.name header₁.source p) =
        some (StackFrame.mk c₂.function header₂.name header₂.source p)
      rw [functions, names, sources]

theorem sim_set_position (position : Nat) :
    Sim M W live s (setPosition position) (setPosition position) Same := by
  intro r₁ r₂ related holds
  obtain ⟨⟨p, first, second⟩, waits⟩ := holds
  refine ⟨rfl, rfl, W, ⟨W.below_refl, { related with running := ?_ }, ⟨position, ?_, ?_⟩, waits⟩, rfl⟩
  · exact frame_at _ _ position related.running
  · change { r₁.running with position := position } = _
    rw [first]
  · change { r₂.running with position := position } = _
    rw [second]

theorem sim_step : Sim M W live s step step Same := by
  intro r₁ r₂ related holds
  refine ⟨(step_at _ r₁).trans (step_at _ r₁).symm, (step_at _ r₂).trans (step_at _ r₂).symm, ?_⟩
  have steps : r₁.steps + 1 = r₂.steps + 1 := congrArg (· + 1) related.steps
  have limits : r₁.config.stepsLimit = r₂.config.stepsLimit :=
    Realm.steps_limit_same r₁ r₂ (realms_same_view W live [] r₁ r₂ related)
  have related' : Related W live [] { r₁ with steps := r₁.steps + 1 } { r₂ with steps := r₂.steps + 1 } :=
    { related with steps := steps }
  rw [step_at, step_at, ← limits, ← steps]
  rw [← steps] at related'
  cases r₁.config.stepsLimit with
  | none => exact ⟨W, ⟨W.below_refl, related', holds⟩, rfl⟩
  | some limit =>
    dsimp only
    split
    · exact ⟨rfl, W, W.below_refl, related', holds⟩
    · exact ⟨W, ⟨W.below_refl, related', holds⟩, rfl⟩

end

end Ecma.Storage

/-!
Changes of the heap that both runs make without fail: new objects, environments and frames, and bindings
that are made while others are still owed.
-/

namespace Ecma.Storage

open Ecma.Program Ecma.Scope Ecma.Syntax Run

variable {α β γ δ : Type}

/-- Two runs come to an end on whatever machine, and leave related realms. -/
def Settles (W : World) (live : List Link) (owed left : List (EnvironmentId × String)) (s s' : Stand)
    (x₁ : Run α) (x₂ : Run β) (Q : World → α → β → Prop) : Prop :=
  ∀ r₁ r₂, Related W live owed r₁ r₂ → s.Holds r₁ r₂ → ∃ a b k₁ k₂ V,
    (∀ m, x₁ m r₁ = .ok a k₁) ∧ (∀ m, x₂ m r₂ = .ok b k₂) ∧ W.Below V ∧ Related V live left k₁ k₂ ∧
      s'.Holds k₁ k₂ ∧ Q V a b

/-- Equal results, and no new links. -/
def World.Unlinked (W V : World) (a b : α) : Prop :=
  V.links = W.links ∧ a = b

section

variable (M : Machines) (W : World) (live : List Link) (owed between left : List (EnvironmentId × String))
  (s s' s'' : Stand)

theorem settles_pure (Q : World → α → β → Prop) (a : α) (b : β) (result : Q W a b) :
    Settles W live owed owed s s (pure a) (pure b) Q := by
  intro r₁ r₂ related holds
  exact ⟨a, b, r₁, r₂, W, fun _ => rfl, fun _ => rfl, W.below_refl, related, holds, result⟩

theorem settles_bind (x₁ : Run α) (x₂ : Run β) (f₁ : α → Run γ) (f₂ : β → Run δ) (Q : World → α → β → Prop)
    (R : World → γ → δ → Prop) (first : Settles W live owed between s s' x₁ x₂ Q)
    (second : ∀ V a b, W.Below V → Q V a b → Settles V live between left s' s'' (f₁ a) (f₂ b) R) :
    Settles W live owed left s s'' (x₁ >>= f₁) (x₂ >>= f₂) R := by
  intro r₁ r₂ related holds
  obtain ⟨a, b, k₁, k₂, V, same₁, same₂, below, after, stands, result⟩ := first r₁ r₂ related holds
  obtain ⟨c, d, l₁, l₂, U, same₁', same₂', below', after', stands', result'⟩ :=
    second V a b below result k₁ k₂ after stands
  refine ⟨c, d, l₁, l₂, U, fun m => ?_, fun m => ?_, World.below_trans W V U below below', after', stands', result'⟩
  · rw [bind_at, same₁]
    exact same₁' m
  · rw [bind_at, same₂]
    exact same₂' m

theorem settles_weaken (x₁ : Run α) (x₂ : Run β) (Q R : World → α → β → Prop)
    (settles : Settles W live owed left s s' x₁ x₂ Q) (weaker : ∀ V a b, W.Below V → Q V a b → R V a b) :
    Settles W live owed left s s' x₁ x₂ R := by
  intro r₁ r₂ related holds
  obtain ⟨a, b, k₁, k₂, V, first, second, below, after, stands, result⟩ := settles r₁ r₂ related holds
  exact ⟨a, b, k₁, k₂, V, first, second, below, after, stands, weaker V a b below result⟩

theorem settles_running (f₁ : Context → Run α) (f₂ : Context → Run β) (Q : World → α → β → Prop)
    (each : ∀ p, Settles W live owed left s s' (f₁ { s.context₁ with position := p })
      (f₂ { s.context₂ with position := p }) Q) :
    Settles W live owed left s s' (running >>= f₁) (running >>= f₂) Q := by
  intro r₁ r₂ related holds
  obtain ⟨⟨p, first, second⟩, waits⟩ := holds
  have result := each p r₁ r₂ related ⟨⟨p, first, second⟩, waits⟩
  rw [← first, ← second] at result
  exact result

theorem settles_update (f₁ : Heap → α × Heap) (f₂ : Heap → β × Heap) (Q : World → α → β → Prop)
    (each : ∀ h₁ h₂, HeapRelated W live owed h₁ h₂ → ∃ V, W.Below V ∧
      HeapRelated V live left (f₁ h₁).2 (f₂ h₂).2 ∧ Q V (f₁ h₁).1 (f₂ h₂).1) :
    Settles W live owed left s s (updateHeap f₁) (updateHeap f₂) Q := by
  intro r₁ r₂ related holds
  obtain ⟨V, below, heaps, result⟩ := each r₁.heap r₂.heap related.heap
  exact ⟨_, _, _, _, V, fun _ => rfl, fun _ => rfl, below,
    related_with_heap W V live live owed left r₁ r₂ _ _ related heaps, holds, result⟩

theorem settles_modify (f₁ f₂ : Heap → Heap)
    (each : ∀ h₁ h₂, HeapRelated W live owed h₁ h₂ → HeapRelated W live left (f₁ h₁) (f₂ h₂)) :
    Settles W live owed left s s (modifyHeap f₁) (modifyHeap f₂) W.Unlinked := by
  intro r₁ r₂ related holds
  exact ⟨_, _, _, _, W, fun _ => rfl, fun _ => rfl, W.below_refl,
    related_with_heap W W live live owed left r₁ r₂ _ _ related (each _ _ related.heap), holds, rfl, rfl⟩

theorem settles_object (kind₁ kind₂ : ObjectKind) (prototype : Option ObjectId) (properties : PropertyTable)
    (kinds : KindRelated W kind₁ kind₂) (plain : kind₂.mapped = []) :
    Settles W live owed owed s s (newObject kind₁ prototype properties) (newObject kind₂ prototype properties)
      W.Unlinked := by
  refine settles_update W live owed owed s _ _ _ fun h₁ h₂ related => ?_
  refine ⟨W, W.below_refl, ?_, rfl, related.objects⟩
  exact add_plain_related W live owed h₁ h₂ related _ _ ⟨kinds, rfl, rfl, rfl⟩ plain

/-! From what settles to what may fail. -/

/-- Two runs do the same from where they stand, while bindings may be owed; in the end some of the catch
clauses that were running may have ended. -/
def Begins (M : Machines) (W : World) (live : List Link) (owed : List (EnvironmentId × String)) (s : Stand)
    (less : List Link) (after : Realm → Realm → Prop) (x₁ : Run α) (x₂ : Run β) (Q : World → α → β → Prop) : Prop :=
  ∀ r₁ r₂, Related W live owed r₁ r₂ → s.Holds r₁ r₂ →
    x₁ M.other₁ r₁ = x₁ M.first r₁ ∧ x₂ M.other₂ r₂ = x₂ M.second r₂ ∧
      Ends (Reaches W less after) Q (x₁ M.first r₁) (x₂ M.second r₂)

variable (less : List Link) (after after' : Realm → Realm → Prop)

theorem begins_simulates (x₁ : Run α) (x₂ : Run β) (Q : World → α → β → Prop)
    (begins : Begins M W live [] s live after x₁ x₂ Q) : Simulates M W live s after x₁ x₂ Q := by
  exact begins

theorem simulates_begins (x₁ : Run α) (x₂ : Run β) (Q : World → α → β → Prop) (fewer : ∀ l ∈ less, l ∈ live)
    (simulates : Simulates M W live s after x₁ x₂ Q) : Begins M W live [] s less after x₁ x₂ Q := by
  intro r₁ r₂ related holds
  obtain ⟨same₁, same₂, ends⟩ := simulates r₁ r₂ related holds
  refine ⟨same₁, same₂, ends_mono _ _ _ _ _ _ (fun V k₁ k₂ reaches => ?_) (fun _ _ _ _ _ _ => id) ends⟩
  obtain ⟨below, related', holds'⟩ := reaches
  exact ⟨below, { related' with heap := fewer_live_related V live [] _ _ related'.heap less fewer }, holds'⟩

theorem begins_settles (x₁ : Run α) (x₂ : Run β) (f₁ : α → Run γ) (f₂ : β → Run δ) (Q : World → α → β → Prop)
    (R : World → γ → δ → Prop) (first : Settles W live owed left s s' x₁ x₂ Q)
    (second : ∀ V a b, W.Below V → Q V a b → Begins M V live left s' less after (f₁ a) (f₂ b) R) :
    Begins M W live owed s less after (x₁ >>= f₁) (x₂ >>= f₂) R := by
  intro r₁ r₂ related holds
  obtain ⟨a, b, k₁, k₂, V, same₁, same₂, below, related', holds', result⟩ := first r₁ r₂ related holds
  obtain ⟨then₁, then₂, ends⟩ := second V a b below result k₁ k₂ related' holds'
  rw [bind_at, bind_at, bind_at, bind_at, same₁, same₁, same₂, same₂]
  refine ⟨then₁, then₂, ends_mono _ _ _ _ _ _ ?_ (fun _ _ _ _ _ _ => id) ends⟩
  exact fun U l₁ l₂ reaches => ⟨World.below_trans W V U below reaches.1, reaches.2⟩

/-- Whatever the end is, the realms change afterwards. -/
theorem begins_always (g₁ g₂ : Realm → Realm) (x₁ : Run α) (x₂ : Run β) (Q : World → α → β → Prop)
    (changes : ∀ V r₁ r₂, Related V less [] r₁ r₂ → after r₁ r₂ →
      Related V less [] (g₁ r₁) (g₂ r₂) ∧ after' (g₁ r₁) (g₂ r₂))
    (begins : Begins M W live owed s less after x₁ x₂ Q) :
    Begins M W live owed s less after' (always g₁ x₁) (always g₂ x₂) Q := by
  intro r₁ r₂ related holds
  obtain ⟨same₁, same₂, ends⟩ := begins r₁ r₂ related holds
  rw [always, always, always, always, same₁, same₂]
  refine ⟨rfl, rfl, ?_⟩
  cases found₁ : x₁ M.first r₁ with
  | ok a k₁ =>
    cases found₂ : x₂ M.second r₂ with
    | ok b k₂ =>
      rw [found₁, found₂] at ends
      obtain ⟨V, ⟨below, related', holds'⟩, result⟩ := ends
      exact ⟨V, ⟨below, changes V k₁ k₂ related' holds'⟩, result⟩
    | error e k₂ =>
      rw [found₁, found₂] at ends
      cases ends
  | error e₁ k₁ =>
    cases found₂ : x₂ M.second r₂ with
    | ok b k₂ =>
      rw [found₁, found₂] at ends
      cases ends
    | error e₂ k₂ =>
      rw [found₁, found₂] at ends
      obtain ⟨same, V, below, related', holds'⟩ := ends
      exact ⟨same, V, below, changes V k₁ k₂ related' holds'⟩

theorem settles_sim (x₁ : Run α) (x₂ : Run β) (Q : World → α → β → Prop)
    (settles : Settles W live [] [] s s x₁ x₂ Q) : Sim M W live s x₁ x₂ Q := by
  intro r₁ r₂ related holds
  obtain ⟨a, b, k₁, k₂, V, first, second, below, after, stands, result⟩ := settles r₁ r₂ related holds
  refine ⟨(first _).trans (first _).symm, (second _).trans (second _).symm, ?_⟩
  rw [first, second]
  exact ⟨V, ⟨below, after, stands⟩, result⟩

end

/-! Functions. -/

theorem header_labels (c : Surroundings) (labels : List String) (h : Syntax.Header) :
    ({ c with labels := labels } : Surroundings).header h = c.header h := by
  rfl

-- No label around a unit of code can be reached from inside.
theorem code_labels (c : Surroundings) (labels : List String) (code : Syntax.Code) :
    compileCode { c with labels := labels } code = compileCode c code := by
  obtain ⟨h, functions, body⟩ := code
  rw [compileCode, compileCode, header_labels]

theorem related_function_settles (W : World) (live : List Link) (owed : List (EnvironmentId × String)) (s : Stand)
    (routine₁ routine₂ : Routine) (e₁ e₂ : EnvironmentId)
    (params : routine₁.header.params = routine₂.header.params)
    (strict : routine₁.header.strict = routine₂.header.strict)
    (kinds : KindRelated W (.function (.script routine₁ e₁)) (.function (.script routine₂ e₂))) :
    Settles W live owed owed s s (newFunction routine₁ e₁) (newFunction routine₂ e₂) W.Unlinked := by
  delta newFunction
  dsimp only
  rw [params, strict]
  refine settles_bind W live owed owed owed s s s _ _ _ _ W.Unlinked _
    (settles_object W live owed s _ _ _ _ kinds rfl) fun V f g _ first => ?_
  obtain ⟨same, rfl⟩ := first
  refine settles_bind V live owed owed owed s s s _ _ _ _ V.Unlinked _
    (settles_object V live owed s _ _ _ _ (.plain _ rfl) rfl) fun U a b _ second => ?_
  obtain ⟨same', rfl⟩ := second
  refine settles_bind U live owed owed owed s s s _ _ _ _ U.Unlinked _
    (settles_modify U live owed owed s _ _ fun h₁ h₂ related =>
      modify_properties_related U live owed h₁ h₂ related _ _) fun T _ _ _ third => ?_
  exact settles_pure T live owed s _ f f ⟨third.1.trans (same'.trans same), rfl⟩

/-- A function of a script, made in both runs. -/
theorem new_function_settles (W : World) (live : List Link) (owed : List (EnvironmentId × String)) (s : Stand)
    (t : Scope.Tree) (text : String) (labels : List String) (code : Syntax.Code) (outer : ScopeId)
    (e₁ e₂ : EnvironmentId) (formed : t.WellFormed) (fitted : code.Scoped t outer)
    (chain : Chain W t outer e₁ e₂) :
    Settles W live owed owed s s (newFunction (compileCode ⟨t.analyze true, text, labels⟩ code) e₁)
      (newFunction (compileCode ⟨t.analyze false, text, labels⟩ code) e₂) W.Unlinked := by
  have related := KindRelated.script (W := W) t text code outer e₁ e₂ formed fitted chain
  rw [← code_labels ⟨t.analyze true, text, labels⟩ [], ← code_labels ⟨t.analyze false, text, labels⟩ []]
  refine related_function_settles W live owed s _ _ e₁ e₂ ?_ ?_ related
  · rw [compiled_header, compiled_header]
    rfl
  · rw [compiled_header, compiled_header]
    rfl

/-! Environments. -/

section

variable (W : World) (live : List Link) (owed : List (EnvironmentId × String)) (h₁ h₂ : Heap)
  (related : HeapRelated W live owed h₁ h₂)
include related

theorem open_known (e₁ e₂ : EnvironmentId) (plain : Open W e₁ e₂) :
    e₁ < h₁.environments.size ∧ e₂ < h₂.environments.size := by
  cases plain with
  | outermost _ _ info found twin =>
    exact ⟨twin_known W live owed h₁ h₂ related e₁ e₂ info found twin,
      has_known W live owed h₁ h₂ related e₂ info found⟩
  | inside _ _ _ _ info found twin =>
    exact ⟨twin_known W live owed h₁ h₂ related e₁ e₂ info found twin,
      has_known W live owed h₁ h₂ related e₂ info found⟩

theorem chain_known (t : Scope.Tree) (s : ScopeId) (e₁ e₂ : EnvironmentId) (chain : Chain W t s e₁ e₂) :
    e₁ < h₁.environments.size ∧ e₂ < h₂.environments.size := by
  induction chain with
  | root s e₁ e₂ kind global rest => exact open_known W live owed h₁ h₂ related e₁ e₂ rest
  | bare s o e₁ e₂ f₂ info outer collapsed found fits around₂ rest hyp =>
    exact ⟨hyp.1, has_known W live owed h₁ h₂ related e₂ info found⟩
  | full s o e₁ e₂ f₁ f₂ info outer collapsed found fits twin around₁ around₂ rest hyp =>
    exact ⟨twin_known W live owed h₁ h₂ related e₁ e₂ info found twin,
      has_known W live owed h₁ h₂ related e₂ info found⟩

end

/-- The environment that the second run makes next. -/
def World.next (W : World) : EnvironmentId :=
  W.infos.length

section

variable (W : World) (live : List Link) (s : Stand) (shape : Shape) (names : List String)
  (record : EnvironmentRecord) (o₁ o₂ : EnvironmentId)
  (known : ∀ h₁ h₂, HeapRelated W live [] h₁ h₂ → o₁ < h₁.environments.size ∧ o₂ < h₂.environments.size)
  (describes : shape.Describes (fun name => name ∈ names) record)

-- Names that are owed to the new environment.
theorem owed_names (name : String) : (W.next, name) ∈ names.map (W.next, ·) ↔ name ∈ names := by
  constructor
  · intro member
    obtain ⟨other, there, same⟩ := List.mem_map.mp member
    rw [← (Prod.mk.inj same).2]
    exact there
  · exact fun member => List.mem_map_of_mem member

theorem owed_describes (describes : shape.Describes (fun name => name ∈ names) record) :
    shape.Describes (fun name => (W.next, name) ∈ names.map (W.next, ·)) record := by
  rw [show (fun name => (W.next, name) ∈ names.map (W.next, ·)) = fun name => name ∈ names from
    funext fun name => propext (owed_names W names name)]
  exact describes

theorem owed_new (entry : EnvironmentId × String) (member : entry ∈ names.map (W.next, ·)) : entry.1 = W.next := by
  obtain ⟨name, _, same⟩ := List.mem_map.mp member
  rw [← same]

include known describes

/-- An environment in both runs. -/
theorem both_environments_settle :
    Settles W live [] (names.map (W.next, ·)) s s
      (newEnvironment (without shape.hidden record) (some o₁)) (newEnvironment record (some o₂))
      (fun V e₁ e₂ => V.links = W.links ∧ e₂ = W.next ∧ V.Has e₂ ⟨shape, some e₁, some o₁, some o₂⟩) := by
  refine settles_update W live [] _ s _ _ _ fun h₁ h₂ related => ?_
  obtain ⟨known₁, known₂⟩ := known h₁ h₂ related
  have next : h₂.environments.size = W.next := related.environments
  refine ⟨W.addInfo ⟨shape, some h₁.environments.size, some o₁, some o₂⟩, W.add_info_below _, ?_, rfl, next, ?_⟩
  · refine add_environment_related W live [] h₁ h₂ related _ record _ _ rfl rfl ?_ ?_ ?_ ?_ ?_ ?_ ?_
    · intro e env found
      change (h₁.environments.push _)[e]? = some env
      rw [Array.getElem?_push, if_neg, found]
      exact Nat.ne_of_lt (Array.getElem?_eq_some_iff.mp found).1
    · intro e₁ same
      cases same
      refine ⟨Nat.le_refl _, ?_⟩
      change (h₁.environments.push _)[h₁.environments.size]? = _
      rw [Array.getElem?_push, if_pos rfl]
    · intro e₁ o same around
      cases same
      cases around
      exact known₁
    · intro o around
      cases around
      exact known₂
    · rw [next]
      exact owed_describes W shape names record describes
    · exact fun entry member => by cases member
    · exact fun entry member => Or.inr ((owed_new W names entry member).trans next.symm)
  · change (W.addInfo _).Has h₂.environments.size _
    rw [next]
    exact W.add_info_has _

/-- An environment in the second run only. -/
theorem hidden_environment_settles :
    Settles W live [] (names.map (W.next, ·)) s s (pure o₁) (newEnvironment record (some o₂))
      (fun V e₁ e₂ => V.links = W.links ∧ e₁ = o₁ ∧ e₂ = W.next ∧ V.Has e₂ ⟨shape, none, none, some o₂⟩) := by
  intro r₁ r₂ related holds
  have known₂ := (known r₁.heap r₂.heap related.heap).2
  have next : r₂.heap.environments.size = W.next := related.heap.environments
  refine ⟨o₁, r₂.heap.environments.size, r₁, { r₂ with heap := (r₂.heap.addEnvironment ⟨record, some o₂⟩).2 },
    W.addInfo ⟨shape, none, none, some o₂⟩, fun _ => rfl, fun _ => rfl, W.add_info_below _, ?_, holds, rfl, rfl, next, ?_⟩
  · refine related_with_heap W _ live live [] _ r₁ r₂ _ _ related ?_
    refine add_environment_related W live [] _ _ related.heap _ record _ _ rfl rfl ?_ ?_ ?_ ?_ ?_ ?_ ?_
    · exact fun _ _ => id
    · exact fun _ same => by cases same
    · exact fun _ _ same => by cases same
    · intro o around
      cases around
      exact known₂
    · rw [next]
      exact owed_describes W shape names record describes
    · exact fun entry member => by cases member
    · exact fun entry member => Or.inr ((owed_new W names entry member).trans next.symm)
  · rw [next]
    exact W.add_info_has _

end

/-- An environment in which all names mean the same. -/
theorem open_environment_settles (W : World) (live : List Link) (s : Stand) (shape : Shape)
    (record : EnvironmentRecord) (o₁ o₂ : EnvironmentId) (plain : Open W o₁ o₂) (hidden : shape.hidden = [])
    (free : shape.upper = none) (describes : shape.Describes (fun name => name ∈ []) record) :
    Settles W live [] [] s s (newEnvironment record (some o₁)) (newEnvironment record (some o₂))
      fun V e₁ e₂ => Open V e₁ e₂ ∧ ∃ info, V.Has e₂ info ∧ info.shape = shape := by
  have settles := both_environments_settle W live s shape [] record o₁ o₂
    (fun h₁ h₂ related => open_known W live [] h₁ h₂ related o₁ o₂ plain) describes
  have bare : without shape.hidden record = record := by
    rw [hidden]
    cases record with
    | object id receiver => rfl
    | declarative b => rw [without, Dictionary.without_nothing]
  rw [bare] at settles
  refine settles_weaken W live [] _ s s _ _ _ _ settles fun V e₁ e₂ below made => ⟨?_, _, made.2.2, rfl⟩
  exact .inside e₁ e₂ o₁ o₂ _ made.2.2 rfl hidden free rfl rfl (open_grown W V below o₁ o₂ plain)

theorem new_scope_settles (W : World) (live : List Link) (s : Stand) (o₁ o₂ : EnvironmentId)
    (plain : Open W o₁ o₂) :
    Settles W live [] [] s s (newScope o₁) (newScope o₂) fun V e₁ e₂ => Open V e₁ e₂ ∧ V.Loose e₂ := by
  refine settles_weaken W live [] _ s s _ _ _ _ (open_environment_settles W live s (.bindings [] none [] []) _ o₁ o₂ plain
    rfl rfl ?_) fun V e₁ e₂ _ made => ⟨made.1, ?_⟩
  · exact ⟨[], rfl, fun _ contra => (by cases contra), fun _ contra => (by cases contra), fun _ contra => (by cases contra),
      fun _ contra => (by cases contra)⟩
  · obtain ⟨info, has, shape⟩ := made.2
    exact .inr ⟨info, _, _, _, has, shape⟩

end Ecma.Storage
