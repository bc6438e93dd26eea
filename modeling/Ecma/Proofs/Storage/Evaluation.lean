import Ecma.Proofs.Eval.Expression
import Ecma.Proofs.Storage.Compiled

set_option autoImplicit false

/-!
Evaluating the same expression in two runs, with slots and without: the values are the same, and so is
all that can be seen of the realms.
-/

namespace Ecma.Storage

open Ecma.Program Ecma.Scope Ecma.Syntax Run

/-! Places of targets. -/

theorem place_grown (W V : World) (below : W.Below V) (live : List Link) (frame : FrameId) (strict : Bool)
    (writable : Prop) (p₁ p₂ : Place) (places : PlaceRelated W live frame strict writable p₁ p₂) :
    PlaceRelated V live frame strict writable p₁ p₂ := by
  cases places with
  | slot l member here lasting =>
    refine .slot l ?_ here lasting
    rcases List.mem_append.mp member with permanent | temporary
    · exact List.mem_append_left _ (below.links l permanent)
    · exact List.mem_append_right _ temporary
  | environment e₁ e₂ name twins => exact .environment e₁ e₂ name (twins_grown W V below name e₁ e₂ twins)
  | nowhere name => exact .nowhere name
  | property base key => exact .property base key
  | nothing => exact .nothing

/-- The places that a target leads to in two runs. -/
structure TargetRelated (live : List Link) (frame : FrameId) (p : Setting) (t : Target) (W : World) (p₁ p₂ : Place) :
    Prop where
  places : PlaceRelated W live frame p.strict (Assigns p t) p₁ p₂
  references : Deletes p t → ∀ r, p₁ = .reference r → p.strict = false
  slots : Deletes p t → ∀ index, p₁ = .slot index → p.strict = false

theorem perform_native (limits : Bool) (operation : Operation) (a b : Value) : Native limits (perform operation a b) := by
  cases operation with
  | generic op => exact operate_native op a b
  | numeric op =>
    rw [perform]
    split
    · exact .pure _
    · exact operate_native op a b
  | _ => exact .pure _

section

variable (M : Machines) (fit : M.Fit) (W : World) (live : List Link) (p : Setting) (s : Stand)
include fit

theorem native_sim {α : Type} (x : Run α) (native : Native true x) : Sim M W live s x x Same := by
  exact uniform_sim M W live s fit x native.uniform

/-! Calls. -/

theorem call_at_sim (site : Site) (f this : Value) (args : List Value) :
    Sim M W live s (callAt site f this args) (callAt site f this args) Same := by
  refine sim_bind_same M W live s _ _ _ _ Same (sim_set_position M W live s _) fun V _ _ => ?_
  refine sim_heap M V live s _ _ Same fun h₁ h₂ related => ?_
  rw [Heap.is_callable_same h₁ h₂ (heaps_same_view V live [] h₁ h₂ related)]
  split
  · exact throw_type_error_sim M V live s _ _
  · exact native_sim M fit V live s _ (call_native _ _ _)

theorem construct_at_sim (site : Site) (f : Value) (args : List Value) :
    Sim M W live s (constructAt site f args) (constructAt site f args) Same := by
  refine sim_bind_same M W live s _ _ _ _ Same (sim_set_position M W live s _) fun V _ _ => ?_
  refine sim_heap M V live s _ _ Same fun h₁ h₂ related => ?_
  rw [Heap.is_callable_same h₁ h₂ (heaps_same_view V live [] h₁ h₂ related)]
  split
  · exact throw_type_error_sim M V live s _ _
  · exact native_sim M fit V live s _ (construct_native _ _)

theorem update_place_sim (op : UpdateOp) (before : Bool) (strict : Bool) (writable : Prop) (may : writable)
    (p₁ p₂ : Place) (places : PlaceRelated W live s.context₁.frame strict writable p₁ p₂) :
    Sim M W live s (updatePlace op before p₁ strict) (updatePlace op before p₂ strict) Same := by
  refine sim_bind_same M W live s _ _ _ _ Same (place_read_sim M W live s fit strict writable p₁ p₂ places)
    fun V v below => ?_
  refine sim_bind_same M V live s _ _ _ _ Same (native_sim M fit V live s _ (to_number_native v)) fun U x below' => ?_
  have later := place_grown V U below' live _ strict writable p₁ p₂ (place_grown W V below live _ strict writable p₁ p₂ places)
  exact sim_bind_same M U live s _ _ _ _ Same (place_write_sim M U live s fit strict writable p₁ p₂ later _ may)
    fun T _ _ => sim_pure M T live s Same _ _ rfl

variable (standing : Standing W live p s)
include standing

theorem direct_eval_sim (args : List Value) (direct : (p.tree.scope p.scope).directEval = true) :
    Sim M W live s (directEval args p.strict) (directEval args p.strict) Same := by
  have formed := standing.formed
  have passed := (Tree.analyze_analysed p.tree formed true).directEval p.scope direct
  refine sim_running M W live s _ _ Same fun position => ?_
  cases args.headD .undefined with
  | string text =>
    exact evaluation_sim M W live s fit text p.strict _ _ standing.this
      (direct_eval_open p.tree formed W p.scope _ _ standing.chain passed) (standing.opened passed).1
      (standing.opened passed).2
  | _ => exact sim_pure M W live s Same _ _ rfl

theorem call_named_sim (site : Site) (name : String) (f this : Value) (args : List Value)
    (evaluates : name = "eval" → (p.tree.scope p.scope).directEval = true) :
    Sim M W live s (callNamed site name f this args p.strict) (callNamed site name f this args p.strict) Same := by
  rw [callNamed]
  split
  next both =>
    have named : name = "eval" := by
      simp only [Bool.and_eq_true, beq_iff_eq] at both
      exact both.1
    refine sim_bind_same M W live s _ _ _ _ Same (sim_set_position M W live s _) fun V _ below => ?_
    exact direct_eval_sim M fit V live p s (standing_grown W V below live p s standing) args (evaluates named)
  next => exact call_at_sim M fit W live s site f this args

theorem place_of_sim (v₁ v₂ : Variable) (names : NamePaired p v₁ v₂) :
    Sim M W live s (placeOf v₁ p.strict) (placeOf v₂ p.strict)
      (fun V => PlaceRelated V live s.context₁.frame p.strict (p.strict = true → v₁.name ≠ "arguments")) := by
  obtain ⟨name, referred, arguments⟩ := names
  exact name_sim M W live s fit p standing name referred arguments

omit fit in
theorem new_function_sim (r₁ r₂ : Routine) (routines : RoutinePaired p.tree p.scope r₁ r₂) :
    Sim M W live s (newNamedFunction r₁ none) (newNamedFunction r₂ none) Same := by
  obtain ⟨text, code, fitted⟩ := routines
  refine sim_running M W live s _ _ Same fun position => ?_
  refine sim_bind M W live s _ _ _ _ _ Same (settles_sim M W live s _ _ _
    (new_function_settles W live [] s p.tree text [] code p.scope _ _ standing.formed fitted standing.chain))
    fun V f g _ made => ?_
  obtain ⟨_, rfl⟩ := made
  exact sim_pure M V live s Same _ _ rfl

end

/-! Runs at the same place of a text. -/

/-- Two runs do the same wherever they stand at the same place of a text. -/
def Alike {α : Type} (M : Machines) (p : Setting) (x₁ x₂ : Run α) : Prop :=
  ∀ W live s, Standing W live p s → Sim M W live s x₁ x₂ Same

section

variable {α β : Type} (M : Machines) (p : Setting)

theorem alike_pure (a : α) : Alike M p (pure a) (pure a) := by
  exact fun W live s _ => sim_pure M W live s Same a a rfl

theorem alike_throw (e : Interrupt) : Alike M p (throw e : Run α) (throw e) := by
  exact fun W live s _ => sim_throw M W live s Same e

theorem alike_bind (x₁ x₂ : Run α) (f₁ f₂ : α → Run β) (first : Alike M p x₁ x₂)
    (second : ∀ a, Alike M p (f₁ a) (f₂ a)) : Alike M p (x₁ >>= f₁) (x₂ >>= f₂) := by
  intro W live s standing
  exact sim_bind_same M W live s _ _ _ _ Same (first W live s standing) fun V a below =>
    second a V live s (standing_grown W V below live p s standing)

theorem alike_ite (c : Prop) [Decidable c] (x₁ x₂ y₁ y₂ : Run α) (yes : Alike M p x₁ x₂) (no : Alike M p y₁ y₂) :
    Alike M p (if c then x₁ else y₁) (if c then x₂ else y₂) := by
  exact fun W live s standing => sim_ite M W live s c _ _ _ _ Same (yes W live s standing) (no W live s standing)

theorem alike_discard (x₁ x₂ : Run α) (alike : Alike M p x₁ x₂) :
    Alike M p (discard x₁ : Run PUnit) (discard x₂ : Run PUnit) := by
  exact fun W live s standing => sim_discard M W live s x₁ x₂ Same (alike W live s standing)

theorem alike_native (fit : M.Fit) (x : Run α) (native : Native true x) : Alike M p x x := by
  exact fun W live s _ => native_sim M fit W live s x native

/-- What is seen of the heap is the same. -/
theorem alike_heap (f₁ f₂ : Heap → Run α) (same : ∀ h₁ h₂, h₁.SameView h₂ → f₁ h₁ = f₁ h₂)
    (each : ∀ h, Alike M p (f₁ h) (f₂ h)) : Alike M p (heap >>= f₁) (heap >>= f₂) := by
  intro W live s standing
  refine sim_heap M W live s f₁ f₂ Same fun h₁ h₂ related => ?_
  rw [same h₁ h₂ (heaps_same_view W live [] h₁ h₂ related)]
  exact each h₂ W live s standing

end

/-! Expressions. -/

section

variable (M : Machines) (fit : M.Fit) (p : Setting)
include fit

theorem read_variable_alike (v₁ v₂ : Variable) (names : NamePaired p v₁ v₂) :
    Alike M p (readVariable v₁ p.strict) (readVariable v₂ p.strict) := by
  intro W live s standing
  exact sim_bind M W live s _ _ _ _ _ Same (place_of_sim M fit W live p s standing v₁ v₂ names) fun V p₁ p₂ _ places =>
    place_read_sim M V live s fit p.strict _ p₁ p₂ places

theorem call_at_alike (site : Site) (f this : Value) (args : List Value) :
    Alike M p (callAt site f this args) (callAt site f this args) := by
  exact fun W live s _ => call_at_sim M fit W live s site f this args

mutual

theorem evaluate_alike (e₁ e₂ : Expr) (paired : ExprPaired p e₁ e₂) :
    Alike M p (evaluate p.strict e₁) (evaluate p.strict e₂) := by
  cases e₁ with
  | constant v =>
    cases paired
    rw [evaluate]
    exact alike_pure M p v
  | this =>
    cases paired
    rw [evaluate]
    intro W live s standing
    refine sim_running M W live s _ _ Same fun position => ?_
    exact sim_pure M W live s Same _ _ standing.this
  | «variable» v₁ =>
    cases paired with
    | «variable» _ v₂ names =>
      rw [evaluate, evaluate]
      exact read_variable_alike M fit p v₁ v₂ names
  | array es =>
    cases paired with
    | array _ fs elements =>
      rw [evaluate, evaluate]
      refine alike_bind M p _ _ _ _ (evaluate_elements_alike es fs elements) fun items => ?_
      exact alike_bind M p _ _ _ _ (alike_native M p fit _ (.newArray _)) fun _ => alike_pure M p _
  | object ps =>
    cases paired with
    | object _ qs properties =>
      rw [evaluate, evaluate]
      refine alike_bind M p _ _ _ _ (alike_native M p fit _ (.newObject _ _ _ rfl)) fun id => ?_
      exact alike_bind M p _ _ _ _ (evaluate_properties_alike id ps qs properties) fun _ => alike_pure M p _
  | function r₁ own =>
    cases paired with
    | function _ r₂ routines =>
      rw [evaluate, evaluate]
      exact fun W live s standing => new_function_sim M W live p s standing r₁ r₂ routines
    | named scope _ r₂ o₁ o₂ owns routines =>
      obtain ⟨name, opened, defs⟩ := owns
      obtain ⟨text, code, fitted⟩ := routines
      rw [evaluate, evaluate]
      exact fun W live s standing =>
        named_function_sim M W live p s standing scope name opened defs text code fitted
  | member f₁ k₁ =>
    cases paired with
    | member _ f₂ _ k₂ objects keys =>
      rw [evaluate, evaluate]
      refine alike_bind M p _ _ _ _ (evaluate_alike f₁ f₂ objects) fun base => ?_
      refine alike_bind M p _ _ _ _ (evaluate_key_alike k₁ k₂ keys) fun key => ?_
      exact alike_native M p fit _ (get_of_native _ _)
  | callMember site f₁ k₁ as =>
    cases paired with
    | callMember _ _ f₂ _ k₂ _ bs objects keys arguments =>
      rw [evaluate, evaluate]
      refine alike_bind M p _ _ _ _ (evaluate_alike f₁ f₂ objects) fun base => ?_
      refine alike_bind M p _ _ _ _ (evaluate_key_alike k₁ k₂ keys) fun key => ?_
      refine alike_bind M p _ _ _ _ (alike_native M p fit _ (get_of_native _ _)) fun f => ?_
      exact alike_bind M p _ _ _ _ (evaluate_all_alike as bs arguments) fun args => call_at_alike M fit p _ _ _ _
  | callVariable site v₁ as =>
    cases paired with
    | callVariable _ _ v₂ _ bs names evaluates arguments =>
      rw [evaluate, evaluate]
      intro W live s standing
      refine sim_bind M W live s _ _ _ _ _ Same (place_of_sim M fit W live p s standing v₁ v₂ names)
        fun V p₁ p₂ below places => ?_
      refine sim_bind_same M V live s _ _ _ _ Same (place_read_sim M V live s fit p.strict _ p₁ p₂ places)
        fun U f below' => ?_
      refine sim_heap M U live s _ _ Same fun h₁ h₂ related => ?_
      rw [place_receiver U live s p.strict _ p₁ p₂ (place_grown V U below' _ _ _ _ p₁ p₂ places) h₁ h₂ related]
      have stands := standing_grown W U (World.below_trans W V U below below') live p s standing
      refine sim_bind_same M U live s _ _ _ _ Same (evaluate_all_alike as bs arguments U live s stands)
        fun T args grown => ?_
      obtain ⟨name, _, _⟩ := names
      exact call_named_sim M fit T live p s (standing_grown U T grown live p s stands) site name f _ args evaluates
  | call site f₁ as =>
    cases paired with
    | call _ _ f₂ _ bs callees arguments =>
      rw [evaluate, evaluate]
      refine alike_bind M p _ _ _ _ (evaluate_alike f₁ f₂ callees) fun f => ?_
      exact alike_bind M p _ _ _ _ (evaluate_all_alike as bs arguments) fun args => call_at_alike M fit p _ _ _ _
  | construct site f₁ as =>
    cases paired with
    | construct _ _ f₂ _ bs callees arguments =>
      rw [evaluate, evaluate]
      refine alike_bind M p _ _ _ _ (evaluate_alike f₁ f₂ callees) fun f => ?_
      exact alike_bind M p _ _ _ _ (evaluate_all_alike as bs arguments) fun args W live s _ =>
        construct_at_sim M fit W live s site f args
  | typeOfVariable v₁ =>
    cases paired with
    | typeOfVariable _ v₂ names =>
      rw [evaluate, evaluate]
      intro W live s standing
      exact sim_bind M W live s _ _ _ _ _ Same (place_of_sim M fit W live p s standing v₁ v₂ names)
        fun V p₁ p₂ _ places => place_type_sim M V live s fit p.strict _ p₁ p₂ places
  | typeOf f₁ =>
    cases paired with
    | typeOf _ f₂ operands =>
      rw [evaluate, evaluate]
      refine alike_bind M p _ _ _ _ (evaluate_alike f₁ f₂ operands) fun v => ?_
      refine alike_heap M p _ _ (fun h₁ h₂ same => ?_) fun h => alike_pure M p _
      rw [Heap.type_of_same h₁ h₂ same]
  | delete t₁ =>
    cases paired with
    | delete _ t₂ targets may =>
      rw [evaluate, evaluate]
      intro W live s standing
      refine sim_bind M W live s _ _ _ _ _ Same (evaluate_target_sim t₁ t₂ targets W live s standing)
        fun V p₁ p₂ _ places => ?_
      refine sim_bind_same M V live s _ _ _ _ Same ?_ fun U gone _ => sim_pure M U live s Same _ _ rfl
      exact place_delete_sim M V live s fit p.strict _ p₁ p₂ places.places (places.references may) (places.slots may)
  | void f₁ =>
    cases paired with
    | void _ f₂ operands =>
      rw [evaluate, evaluate]
      exact alike_bind M p _ _ _ _ (alike_discard M p _ _ (evaluate_alike f₁ f₂ operands)) fun _ => alike_pure M p _
  | not f₁ =>
    cases paired with
    | not _ f₂ operands =>
      rw [evaluate, evaluate]
      exact alike_bind M p _ _ _ _ (evaluate_alike f₁ f₂ operands) fun _ => alike_pure M p _
  | sign op primitive f₁ =>
    cases paired with
    | sign _ _ _ f₂ operands =>
      rw [evaluate, evaluate]
      refine alike_bind M p _ _ _ _ (evaluate_alike f₁ f₂ operands) fun v => ?_
      refine alike_ite M p _ _ _ _ _ (alike_pure M p _) ?_
      exact alike_bind M p _ _ _ _ (alike_native M p fit _ (to_number_native _)) fun _ => alike_pure M p _
  | update op before t₁ =>
    cases paired with
    | update _ _ _ t₂ targets may =>
      rw [evaluate, evaluate]
      intro W live s standing
      exact sim_bind M W live s _ _ _ _ _ Same (evaluate_target_sim t₁ t₂ targets W live s standing)
        fun V p₁ p₂ _ places => update_place_sim M fit V live s op before p.strict _ may p₁ p₂ places.places
  | binary operation f₁ g₁ =>
    cases paired with
    | binary _ _ f₂ _ g₂ lefts rights =>
      rw [evaluate, evaluate]
      refine alike_bind M p _ _ _ _ (evaluate_alike f₁ f₂ lefts) fun a => ?_
      refine alike_bind M p _ _ _ _ (evaluate_alike g₁ g₂ rights) fun b => ?_
      exact alike_native M p fit _ (perform_native _ _ _ _)
  | logical op f₁ g₁ =>
    cases paired with
    | logical _ _ f₂ _ g₂ lefts rights =>
      rw [evaluate, evaluate]
      refine alike_bind M p _ _ _ _ (evaluate_alike f₁ f₂ lefts) fun v => ?_
      exact alike_ite M p _ _ _ _ _ (evaluate_alike g₁ g₂ rights) (alike_pure M p _)
  | conditional f₁ g₁ h₁ =>
    cases paired with
    | conditional _ f₂ _ g₂ _ h₂ tests yes no =>
      rw [evaluate, evaluate]
      refine alike_bind M p _ _ _ _ (evaluate_alike f₁ f₂ tests) fun v => ?_
      exact alike_ite M p _ _ _ _ _ (evaluate_alike g₁ g₂ yes) (evaluate_alike h₁ h₂ no)
  | assign t₁ f₁ =>
    cases paired with
    | assign _ t₂ _ f₂ targets may values =>
      rw [evaluate, evaluate]
      intro W live s standing
      refine sim_bind M W live s _ _ _ _ _ Same (evaluate_target_sim t₁ t₂ targets W live s standing)
        fun V p₁ p₂ below places => ?_
      have stands := standing_grown W V below live p s standing
      refine sim_bind_same M V live s _ _ _ _ Same (evaluate_alike f₁ f₂ values V live s stands) fun U v below' => ?_
      have later := place_grown V U below' _ _ _ _ p₁ p₂ places.places
      exact sim_bind_same M U live s _ _ _ _ Same (place_write_sim M U live s fit p.strict _ p₁ p₂ later v may)
        fun T _ _ => sim_pure M T live s Same _ _ rfl
  | compound op t₁ f₁ =>
    cases paired with
    | compound _ _ t₂ _ f₂ targets may values =>
      rw [evaluate, evaluate]
      intro W live s standing
      refine sim_bind M W live s _ _ _ _ _ Same (evaluate_target_sim t₁ t₂ targets W live s standing)
        fun V p₁ p₂ below places => ?_
      refine sim_bind_same M V live s _ _ _ _ Same (place_read_sim M V live s fit p.strict _ p₁ p₂ places.places)
        fun U old below' => ?_
      have stands := standing_grown W U (World.below_trans W V U below below') live p s standing
      refine sim_bind_same M U live s _ _ _ _ Same (evaluate_alike f₁ f₂ values U live s stands)
        fun T operand grown => ?_
      refine sim_bind_same M T live s _ _ _ _ Same (native_sim M fit T live s _ (operate_native _ _ _))
        fun S v grown' => ?_
      have up := World.below_trans V T S (World.below_trans V U T below' grown) grown'
      have later := place_grown V S up _ _ _ _ p₁ p₂ places.places
      exact sim_bind_same M S live s _ _ _ _ Same (place_write_sim M S live s fit p.strict _ p₁ p₂ later v may)
        fun R _ _ => sim_pure M R live s Same _ _ rfl
  | sequence as =>
    cases paired with
    | sequence _ bs items =>
      rw [evaluate, evaluate]
      exact evaluate_last_alike .undefined as bs items
termination_by structural e₁

theorem evaluate_key_alike (k₁ k₂ : Key) (paired : KeyPaired p k₁ k₂) :
    Alike M p (evaluateKey p.strict k₁) (evaluateKey p.strict k₂) := by
  cases k₁ with
  | known key =>
    cases paired
    rw [evaluateKey]
    exact alike_pure M p key
  | computed f₁ =>
    cases paired with
    | computed _ f₂ keys =>
      rw [evaluateKey, evaluateKey]
      exact alike_bind M p _ _ _ _ (evaluate_alike f₁ f₂ keys) fun v =>
        alike_native M p fit _ (to_property_key_native _)
termination_by structural k₁

theorem evaluate_target_sim (t₁ t₂ : Target) (paired : TargetPaired p t₁ t₂) (W : World) (live : List Link) (s : Stand)
    (standing : Standing W live p s) :
    Sim M W live s (evaluateTarget p.strict t₁) (evaluateTarget p.strict t₂)
      (TargetRelated live s.context₁.frame p t₁) := by
  cases t₁ with
  | «variable» v₁ =>
    cases paired with
    | «variable» _ v₂ names =>
      rw [evaluateTarget, evaluateTarget]
      refine sim_weaken M W live s s.Holds _ _ _ _ (place_of_sim M fit W live p s standing v₁ v₂ names)
        fun V p₁ p₂ _ places => ?_
      exact ⟨places, fun may _ _ => may, fun may _ _ => may⟩
  | member f₁ k₁ =>
    cases paired with
    | member _ f₂ _ k₂ objects keys =>
      rw [evaluateTarget, evaluateTarget]
      refine sim_bind_same M W live s _ _ _ _ _ (evaluate_alike f₁ f₂ objects W live s standing)
        fun V base below => ?_
      refine sim_bind_same M V live s _ _ _ _ _
        (evaluate_key_alike k₁ k₂ keys V live s (standing_grown W V below live p s standing)) fun U key _ => ?_
      refine sim_pure M U live s _ _ _ ⟨.property base key, fun _ r is => ?_, fun _ index is => ?_⟩
      · cases is
      · cases is
  | value f₁ =>
    cases paired with
    | value _ f₂ values =>
      rw [evaluateTarget, evaluateTarget]
      refine sim_bind_same M W live s _ _ _ _ _ (alike_discard M p _ _ (evaluate_alike f₁ f₂ values) W live s standing)
        fun V _ _ => ?_
      refine sim_pure M V live s _ _ _ ⟨.nothing, fun _ r is => ?_, fun _ index is => ?_⟩
      · cases is
      · cases is
termination_by structural t₁

theorem evaluate_all_alike (as bs : List Expr) (paired : List.Forall₂ (ExprPaired p) as bs) :
    Alike M p (evaluateAll p.strict as) (evaluateAll p.strict bs) := by
  cases as with
  | nil =>
    cases paired
    rw [evaluateAll]
    exact alike_pure M p _
  | cons a rest =>
    cases paired with
    | @cons _ b _ rest' first others =>
      rw [evaluateAll, evaluateAll]
      refine alike_bind M p _ _ _ _ (evaluate_alike a b first) fun v => ?_
      exact alike_bind M p _ _ _ _ (evaluate_all_alike rest rest' others) fun _ => alike_pure M p _
termination_by structural as

theorem evaluate_last_alike (last : Value) (as bs : List Expr) (paired : List.Forall₂ (ExprPaired p) as bs) :
    Alike M p (evaluateLast p.strict last as) (evaluateLast p.strict last bs) := by
  cases as with
  | nil =>
    cases paired
    rw [evaluateLast]
    exact alike_pure M p _
  | cons a rest =>
    cases paired with
    | @cons _ b _ rest' first others =>
      rw [evaluateLast, evaluateLast]
      exact alike_bind M p _ _ _ _ (evaluate_alike a b first) fun v => evaluate_last_alike v rest rest' others
termination_by structural as

theorem evaluate_elements_alike (es fs : List Program.Element) (paired : List.Forall₂ (ElementPaired p) es fs) :
    Alike M p (evaluateElements p.strict es) (evaluateElements p.strict fs) := by
  cases es with
  | nil =>
    cases paired
    rw [evaluateElements]
    exact alike_pure M p _
  | cons e rest =>
    cases paired with
    | @cons _ f _ rest' first others =>
      cases e with
      | hole =>
        cases first
        rw [evaluateElements, evaluateElements]
        exact alike_bind M p _ _ _ _ (evaluate_elements_alike rest rest' others) fun _ => alike_pure M p _
      | item e₁ =>
        cases first with
        | item _ e₂ items =>
          rw [evaluateElements, evaluateElements]
          refine alike_bind M p _ _ _ _ (evaluate_alike e₁ e₂ items) fun v => ?_
          exact alike_bind M p _ _ _ _ (evaluate_elements_alike rest rest' others) fun _ => alike_pure M p _
termination_by structural es

theorem evaluate_properties_alike (id : ObjectId) (ps qs : List Program.Property)
    (paired : List.Forall₂ (PropertyPaired p) ps qs) :
    Alike M p (evaluateProperties p.strict id ps) (evaluateProperties p.strict id qs) := by
  cases ps with
  | nil =>
    cases paired
    rw [evaluateProperties]
    exact alike_pure M p _
  | cons property rest =>
    cases property with
    | mk key kind e₁ =>
      cases paired with
      | @cons _ _ _ rest' first others =>
        cases first with
        | mk _ _ _ e₂ values =>
          rw [evaluateProperties, evaluateProperties]
          refine alike_bind M p _ _ _ _ (evaluate_alike e₁ e₂ values) fun v => ?_
          have defined : Native true (defineOwn id key (propertyDefinition kind v) false) :=
            define_own_native _ _ _ _ (property_one_kind kind v)
          refine alike_bind M p _ _ _ _ (alike_discard M p _ _ (alike_native M p fit _ defined)) fun _ => ?_
          exact evaluate_properties_alike id rest rest' others
termination_by structural ps

end

end

end Ecma.Storage
