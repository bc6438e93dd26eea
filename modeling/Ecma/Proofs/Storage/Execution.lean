import Ecma.Proofs.Eval.Activation
import Ecma.Proofs.Storage.Evaluation

set_option autoImplicit false

/-!
Executing the same statement in two runs, with slots and without: the completions are the same, the jumps
included.
-/

namespace Ecma.Storage

open Ecma.Program Ecma.Scope Ecma.Syntax Run

/-! Ends of runs. -/

section

variable {α : Type} (M : Machines) (W : World) (live : List Link) (s : Stand) (x₁ x₂ : Run α)

/-- Both runs end with a result, in related realms. -/
structure Returns (r₁ r₂ : Realm) (V : World) (a : α) (k₁ k₂ : Realm) : Prop where
  below : W.Below V
  related : Related V live [] k₁ k₂
  holds : s.Holds k₁ k₂
  first : x₁ M.first r₁ = .ok a k₁
  other₁ : x₁ M.other₁ r₁ = .ok a k₁
  second : x₂ M.second r₂ = .ok a k₂
  other₂ : x₂ M.other₂ r₂ = .ok a k₂

/-- Both runs are interrupted, in related realms. -/
structure Breaks (r₁ r₂ : Realm) (V : World) (e : Interrupt) (k₁ k₂ : Realm) : Prop where
  below : W.Below V
  related : Related V live [] k₁ k₂
  holds : s.Holds k₁ k₂
  first : x₁ M.first r₁ = .error e k₁
  other₁ : x₁ M.other₁ r₁ = .error e k₁
  second : x₂ M.second r₂ = .error e k₂
  other₂ : x₂ M.other₂ r₂ = .error e k₂

theorem sim_ends (sim : Sim M W live s x₁ x₂ Same) (r₁ r₂ : Realm) (related : Related W live [] r₁ r₂)
    (holds : s.Holds r₁ r₂) :
    (∃ V a k₁ k₂, Returns M W live s x₁ x₂ r₁ r₂ V a k₁ k₂) ∨
      ∃ V e k₁ k₂, Breaks M W live s x₁ x₂ r₁ r₂ V e k₁ k₂ := by
  obtain ⟨same₁, same₂, ends⟩ := sim r₁ r₂ related holds
  cases found₁ : x₁ M.first r₁ with
  | ok a k₁ =>
    cases found₂ : x₂ M.second r₂ with
    | ok b k₂ =>
      rw [found₁, found₂] at ends
      obtain ⟨V, ⟨below, related', holds'⟩, rfl⟩ := ends
      exact Or.inl ⟨V, a, k₁, k₂, below, related', holds', found₁, same₁.trans found₁, found₂, same₂.trans found₂⟩
    | error e k₂ =>
      rw [found₁, found₂] at ends
      cases ends
  | error e₁ k₁ =>
    cases found₂ : x₂ M.second r₂ with
    | ok b k₂ =>
      rw [found₁, found₂] at ends
      cases ends
    | error e₂ k₂ =>
      rw [found₁, found₂] at ends
      obtain ⟨rfl, V, below, related', holds'⟩ := ends
      exact Or.inr ⟨V, e₁, k₁, k₂, below, related', holds', found₁, same₁.trans found₁, found₂, same₂.trans found₂⟩

end

/-! Loops. -/

section

variable {α σ : Type} (M : Machines) (p : Setting)

theorem loop_from_alike (round₁ round₂ : σ → Run (σ ⊕ α)) (rounds : Nat) (state : σ)
    (each : ∀ state, Alike M p (round₁ state) (round₂ state)) :
    Alike M p (loopFrom round₁ rounds state) (loopFrom round₂ rounds state) := by
  induction rounds generalizing state with
  | zero => exact alike_throw M p .exhausted
  | succ rounds hyp =>
    rw [loopFrom, loopFrom]
    refine alike_bind M p _ _ _ _ (each state) fun ended => ?_
    cases ended with
    | inl state => exact hyp state
    | inr result => exact alike_pure M p result

theorem loop_at (state : σ) (round : σ → Run (σ ⊕ α)) (m : Machine) (r : Realm) :
    loop state round m r = loopFrom round m.rounds state m r := by
  rfl

variable (fit : M.Fit)
include fit

theorem loop_alike (state : σ) (round₁ round₂ : σ → Run (σ ⊕ α))
    (each : ∀ state, Alike M p (round₁ state) (round₂ state)) : Alike M p (loop state round₁) (loop state round₂) := by
  intro W live s standing r₁ r₂ related holds
  rw [loop_at, loop_at, loop_at, loop_at, fit.rounds₂, fit.rounds₁, fit.rounds]
  exact loop_from_alike M p round₁ round₂ M.first.rounds state each W live s standing r₁ r₂ related holds

theorem while_alike (labels : List Label) (test₁ test₂ : Run Bool) (body₁ body₂ : Run Completion) (update₁ update₂ : Run Unit)
    (tests : Alike M p test₁ test₂) (bodies : Alike M p body₁ body₂) (updates : Alike M p update₁ update₂) :
    Alike M p (whileRounds labels test₁ body₁ update₁) (whileRounds labels test₂ body₂ update₂) := by
  refine loop_alike M p fit _ _ _ fun value => ?_
  refine alike_bind M p _ _ _ _ (fun W live s _ => sim_step M W live s) fun _ => ?_
  refine alike_bind M p _ _ _ _ tests fun more => alike_ite M p _ _ _ _ _ ?_ (alike_pure M p _)
  refine alike_bind M p _ _ _ _ bodies fun c => ?_
  cases endRound labels value c with
  | inl value => exact alike_bind M p _ _ _ _ updates fun _ => alike_pure M p _
  | inr c => exact alike_pure M p _

theorem do_alike (labels : List Label) (body₁ body₂ : Run Completion) (test₁ test₂ : Run Bool)
    (bodies : Alike M p body₁ body₂) (tests : Alike M p test₁ test₂) :
    Alike M p (doRounds labels body₁ test₁) (doRounds labels body₂ test₂) := by
  refine loop_alike M p fit _ _ _ fun value => ?_
  refine alike_bind M p _ _ _ _ (fun W live s _ => sim_step M W live s) fun _ => ?_
  refine alike_bind M p _ _ _ _ bodies fun c => ?_
  cases endRound labels value c with
  | inl value =>
    exact alike_bind M p _ _ _ _ tests fun more => alike_ite M p _ _ _ _ _ (alike_pure M p _) (alike_pure M p _)
  | inr c => exact alike_pure M p _

theorem names_alike (labels : List Label) (id : ObjectId) (assign₁ assign₂ : Value → Run Unit) (body₁ body₂ : Run Completion)
    (assigns : ∀ v, Alike M p (assign₁ v) (assign₂ v)) (bodies : Alike M p body₁ body₂) :
    Alike M p (nameRounds labels id assign₁ body₁) (nameRounds labels id assign₂ body₂) := by
  refine alike_heap M p _ _ (fun h₁ h₂ same => by rw [Heap.start_same h₁ h₂ same]) fun h => ?_
  refine loop_alike M p fit _ _ _ fun state => ?_
  obtain ⟨names, value⟩ := state
  refine alike_heap M p _ _ (fun h₁ h₂ same => by rw [Heap.next_same h₁ h₂ same]) fun h => ?_
  split
  · exact alike_pure M p _
  · refine alike_bind M p _ _ _ _ (fun W live s _ => sim_step M W live s) fun _ => ?_
    refine alike_bind M p _ _ _ _ (assigns _) fun _ => ?_
    refine alike_bind M p _ _ _ _ bodies fun c => ?_
    cases endRound labels value c with
    | inl value => exact alike_pure M p _
    | inr c => exact alike_pure M p _

end

/-! What takes an end. -/

section

variable (M : Machines) (p : Setting)

-- The end of a part that comes later is an end of the whole.
theorem ends_later {α β : Type} (W V : World) (live : List Link) (s : Stand) (Q : World → α → β → Prop)
    (x₁ : EStateM.Result Interrupt Realm α) (x₂ : EStateM.Result Interrupt Realm β) (below : W.Below V)
    (ends : Ends (Reaches V live s.Holds) Q x₁ x₂) : Ends (Reaches W live s.Holds) Q x₁ x₂ := by
  exact ends_mono _ _ _ _ _ _ (fun U _ _ reaches => ⟨World.below_trans W V U below reaches.1, reaches.2⟩)
    (fun _ _ _ _ _ _ => id) ends

theorem catching_alike (block₁ block₂ : Run Completion) (handler₁ handler₂ : Value → Run Completion)
    (blocks : Alike M p block₁ block₂) (handlers : ∀ v, Alike M p (handler₁ v) (handler₂ v)) :
    Alike M p (catching block₁ handler₁) (catching block₂ handler₂) := by
  intro W live s standing r₁ r₂ related holds
  rw [catching, catching, catching, catching]
  rcases sim_ends M W live s _ _ (blocks W live s standing) r₁ r₂ related holds with
    ⟨V, c, k₁, k₂, ended⟩ | ⟨V, e, k₁, k₂, ended⟩
  · rw [ended.first, ended.other₁, ended.second, ended.other₂]
    exact ⟨rfl, rfl, V, ⟨ended.below, ended.related, ended.holds⟩, rfl⟩
  · rw [ended.first, ended.other₁, ended.second, ended.other₂]
    cases e with
    | thrown v =>
      have stands := standing_grown W V ended.below live p s standing
      obtain ⟨then₁, then₂, ends⟩ := handlers v V live s stands k₁ k₂ ended.related ended.holds
      exact ⟨then₁, then₂, ends_later W V live s Same _ _ ended.below ends⟩
    | _ => exact ⟨rfl, rfl, rfl, V, ended.below, ended.related, ended.holds⟩

theorem finally_alike (block₁ block₂ finalizer₁ finalizer₂ : Run Completion) (blocks : Alike M p block₁ block₂)
    (finalizers : Alike M p finalizer₁ finalizer₂) :
    Alike M p (thenFinally block₁ finalizer₁) (thenFinally block₂ finalizer₂) := by
  intro W live s standing r₁ r₂ related holds
  rw [thenFinally, thenFinally, thenFinally, thenFinally]
  have after (V : World) (k₁ k₂ : Realm) (below : W.Below V) (related : Related V live [] k₁ k₂) (holds : s.Holds k₁ k₂) :=
    sim_ends M V live s _ _ (finalizers V live s (standing_grown W V below live p s standing)) k₁ k₂ related holds
  rcases sim_ends M W live s _ _ (blocks W live s standing) r₁ r₂ related holds with
    ⟨V, c, k₁, k₂, ended⟩ | ⟨V, e, k₁, k₂, ended⟩
  · rw [ended.first, ended.other₁, ended.second, ended.other₂]
    dsimp only
    rcases after V k₁ k₂ ended.below ended.related ended.holds with ⟨U, f, l₁, l₂, last⟩ | ⟨U, e, l₁, l₂, last⟩
    · rw [last.first, last.other₁, last.second, last.other₂]
      exact ⟨rfl, rfl, U, ⟨World.below_trans W V U ended.below last.below, last.related, last.holds⟩, rfl⟩
    · rw [last.first, last.other₁, last.second, last.other₂]
      exact ⟨rfl, rfl, rfl, U, World.below_trans W V U ended.below last.below, last.related, last.holds⟩
  · rw [ended.first, ended.other₁, ended.second, ended.other₂]
    cases e with
    | thrown v =>
      dsimp only
      rcases after V k₁ k₂ ended.below ended.related ended.holds with ⟨U, f, l₁, l₂, last⟩ | ⟨U, e, l₁, l₂, last⟩
      · rw [last.first, last.other₁, last.second, last.other₂]
        have up := World.below_trans W V U ended.below last.below
        dsimp only
        split
        · exact ⟨rfl, rfl, U, ⟨up, last.related, last.holds⟩, rfl⟩
        · exact ⟨rfl, rfl, rfl, U, up, last.related, last.holds⟩
      · rw [last.first, last.other₁, last.second, last.other₂]
        exact ⟨rfl, rfl, rfl, U, World.below_trans W V U ended.below last.below, last.related, last.holds⟩
    | _ => exact ⟨rfl, rfl, rfl, V, ended.below, ended.related, ended.holds⟩

/-! Statements around. -/

variable {α : Type} (x₁ x₂ : Run α)

theorem alike_in_loop (alike : Alike M p.inLoop x₁ x₂) : Alike M p x₁ x₂ := by
  exact fun W live s standing => alike W live s { standing with }

theorem alike_in_switch (alike : Alike M p.inSwitch x₁ x₂) : Alike M p x₁ x₂ := by
  exact fun W live s standing => alike W live s { standing with }

theorem alike_under (label : String) (loop : Bool) (alike : Alike M (p.under label loop) x₁ x₂) : Alike M p x₁ x₂ := by
  exact fun W live s standing => alike W live s { standing with }

end

/-! Statements. -/

section

variable (M : Machines) (fit : M.Fit)
include fit

theorem assign_all_alike (p : Setting) (as bs : List Assignment) (paired : List.Forall₂ (AssignmentPaired p) as bs) :
    Alike M p (assignAll p.strict as) (assignAll p.strict bs) := by
  induction paired with
  | nil =>
    rw [assignAll]
    exact alike_pure M p _
  | @cons a b rest rest' first _ hyp =>
    obtain ⟨v₁, v₂, e₁, e₂, names, may, values⟩ := first
    rw [assignAll, assignAll]
    intro W live s standing
    refine sim_bind M W live s _ _ _ _ _ Same (place_of_sim M fit W live p s standing v₁ v₂ names)
      fun V p₁ p₂ below places => ?_
    have stands := standing_grown W V below live p s standing
    refine sim_bind_same M V live s _ _ _ _ Same (evaluate_alike M fit p e₁ e₂ values V live s stands) fun U v below' => ?_
    have later := place_grown V U below' _ _ _ _ p₁ p₂ places
    exact sim_bind_same M U live s _ _ _ _ Same (place_write_sim M U live s fit p.strict _ p₁ p₂ later v may)
      fun T _ below'' => hyp T live s (standing_grown U T below'' live p s (standing_grown V U below' live p s stands))

theorem start_loop_alike (p : Setting) (i j : LoopInit) (paired : InitPaired p i j) :
    Alike M p (startLoop p.strict i) (startLoop p.strict j) := by
  cases paired with
  | none =>
    rw [startLoop]
    exact alike_pure M p _
  | «variables» as bs assignments =>
    rw [startLoop, startLoop]
    exact assign_all_alike M fit p as bs assignments
  | expression e₁ e₂ values =>
    rw [startLoop, startLoop]
    exact alike_discard M p _ _ (evaluate_alike M fit p e₁ e₂ values)

theorem truth_alike (p : Setting) (e₁ e₂ : Expr) (paired : ExprPaired p e₁ e₂) :
    Alike M p (evaluate p.strict e₁ >>= fun v => pure v.toBoolean) (evaluate p.strict e₂ >>= fun v => pure v.toBoolean) := by
  exact alike_bind M p _ _ _ _ (evaluate_alike M fit p e₁ e₂ paired) fun _ => alike_pure M p _

theorem test_optional_alike (p : Setting) (e₁ e₂ : Option Expr) (paired : Option.Rel (ExprPaired p) e₁ e₂) :
    Alike M p (testOptional p.strict e₁) (testOptional p.strict e₂) := by
  cases paired with
  | none =>
    rw [testOptional]
    exact alike_pure M p _
  | some tests =>
    rw [testOptional, testOptional]
    exact truth_alike M fit p _ _ tests

theorem evaluate_optional_alike (p : Setting) (e₁ e₂ : Option Expr) (paired : Option.Rel (ExprPaired p) e₁ e₂) :
    Alike M p (evaluateOptional p.strict e₁) (evaluateOptional p.strict e₂) := by
  cases paired with
  | none =>
    rw [evaluateOptional]
    exact alike_pure M p _
  | some values =>
    rw [evaluateOptional, evaluateOptional]
    exact alike_discard M p _ _ (evaluate_alike M fit p _ _ values)

theorem select_test_alike (p : Setting) (v : Value) (as bs : List Test) (paired : List.Forall₂ (TestPaired p) as bs) :
    Alike M p (selectTest p.strict v as) (selectTest p.strict v bs) := by
  induction paired with
  | nil =>
    rw [selectTest]
    exact alike_pure M p _
  | @cons a b rest rest' first _ hyp =>
    obtain ⟨clause, e₁, e₂, tests⟩ := first
    rw [selectTest, selectTest]
    refine alike_bind M p _ _ _ _ (evaluate_alike M fit p e₁ e₂ tests) fun t => ?_
    exact alike_ite M p _ _ _ _ _ (alike_pure M p _) hyp

theorem select_alike (p : Setting) (v : Value) (x y : Selector) (paired : SelectorPaired p x y) :
    Alike M p (select p.strict v x) (select p.strict v y) := by
  cases paired with
  | direct table =>
    rw [select]
    exact alike_pure M p _
  | tests as bs tests =>
    rw [select, select]
    exact select_test_alike M fit p v as bs tests

theorem assign_target_alike (p : Setting) (t₁ t₂ : Target) (targets : TargetPaired p t₁ t₂) (may : Assigns p t₁) (v : Value) :
    Alike M p (evaluateTarget p.strict t₁ >>= fun q => q.write v p.strict)
      (evaluateTarget p.strict t₂ >>= fun q => q.write v p.strict) := by
  intro W live s standing
  exact sim_bind M W live s _ _ _ _ _ Same (evaluate_target_sim M fit p t₁ t₂ targets W live s standing)
    fun V p₁ p₂ _ places => place_write_sim M V live s fit p.strict _ p₁ p₂ places.places v may

mutual

theorem execute_alike (p : Setting) (a b : Stmt) (paired : StmtPaired p a b) :
    Alike M p (execute p.strict a) (execute p.strict b) := by
  cases a with
  | block as =>
    cases paired with
    | block _ _ bs bodies =>
      rw [execute, execute]
      exact execute_all_alike p none as bs bodies
  | labelled id a =>
    cases paired with
    | labelled _ _ label loop _ b bodies =>
      rw [execute, execute]
      refine alike_bind M p _ _ _ _ ?_ fun c => alike_pure M p _
      exact alike_under M p _ _ label loop (execute_alike (p.under label loop) a b bodies)
  | step position a =>
    cases paired with
    | step _ _ _ b actions =>
      rw [execute_step, execute_step]
      refine alike_bind M p _ _ _ _ (fun W live s _ => sim_step M W live s) fun _ => ?_
      refine alike_bind M p _ _ _ _ (fun W live s _ => sim_set_position M W live s position) fun _ => ?_
      exact act_alike p a b actions
termination_by structural a

theorem execute_all_alike (p : Setting) (last : Option Value) (as bs : List Stmt) (paired : StmtsPaired p as bs) :
    Alike M p (executeAll p.strict last as) (executeAll p.strict last bs) := by
  cases as with
  | nil =>
    cases paired
    rw [executeAll]
    exact alike_pure M p _
  | cons a rest =>
    cases paired with
    | cons _ _ b _ rest' first others =>
      rw [execute_all_cons, execute_all_cons]
      refine alike_bind M p _ _ _ _ (execute_alike p a b first) fun c => ?_
      exact alike_ite M p _ _ _ _ _ (alike_pure M p _) (execute_all_alike p _ rest rest' others)
termination_by structural as

theorem act_alike (p : Setting) (a b : Action) (paired : ActionPaired p a b) :
    Alike M p (act p.strict a) (act p.strict b) := by
  cases a with
  | nothing =>
    cases paired
    rw [act]
    exact alike_pure M p _
  | expression e₁ =>
    cases paired with
    | expression _ _ e₂ values =>
      rw [act, act]
      exact alike_bind M p _ _ _ _ (evaluate_alike M fit p e₁ e₂ values) fun _ => alike_pure M p _
  | «variables» as =>
    cases paired with
    | «variables» _ _ bs assignments =>
      rw [act, act]
      exact alike_bind M p _ _ _ _ (assign_all_alike M fit p as bs assignments) fun _ => alike_pure M p _
  | returning e₁ =>
    cases paired with
    | returning _ _ e₂ values =>
      cases values with
      | none =>
        rw [act]
        exact alike_pure M p _
      | some values =>
        rw [act, act]
        exact alike_bind M p _ _ _ _ (evaluate_alike M fit p _ _ values) fun _ => alike_pure M p _
  | breaking label =>
    cases paired
    rw [act]
    exact alike_pure M p _
  | continuing label =>
    cases paired
    rw [act]
    exact alike_pure M p _
  | conditional e₁ a c =>
    cases paired with
    | conditional _ _ e₂ _ b _ d tests yes no =>
      rw [act, act]
      refine alike_bind M p _ _ _ _ (evaluate_alike M fit p e₁ e₂ tests) fun v => ?_
      exact alike_ite M p _ _ _ _ _ (execute_alike p a b yes) (execute_optional_alike p c d no)
  | throwing e₁ =>
    cases paired with
    | throwing _ _ e₂ values =>
      rw [act, act]
      exact alike_bind M p _ _ _ _ (evaluate_alike M fit p e₁ e₂ values) fun _ => alike_throw M p _
  | whileLoop labels e₁ a =>
    cases paired with
    | whileLoop _ _ _ e₂ _ b tests bodies =>
      rw [act, act]
      exact while_alike M p fit labels _ _ _ _ _ _ (truth_alike M fit p e₁ e₂ tests)
        (alike_in_loop M p _ _ (execute_alike p.inLoop a b bodies)) (alike_pure M p _)
  | doLoop labels a e₁ =>
    cases paired with
    | doLoop _ _ _ e₂ _ b tests bodies =>
      rw [act, act]
      exact do_alike M p fit labels _ _ _ _ (alike_in_loop M p _ _ (execute_alike p.inLoop a b bodies))
        (truth_alike M fit p e₁ e₂ tests)
  | forLoop labels i e₁ f₁ a =>
    cases paired with
    | forLoop _ _ _ j _ e₂ _ f₂ _ b inits tests updates bodies =>
      rw [act, act]
      refine alike_bind M p _ _ _ _ (start_loop_alike M fit p i j inits) fun _ => ?_
      exact while_alike M p fit labels _ _ _ _ _ _ (test_optional_alike M fit p e₁ e₂ tests)
        (alike_in_loop M p _ _ (execute_alike p.inLoop a b bodies)) (evaluate_optional_alike M fit p f₁ f₂ updates)
  | forIn labels as t₁ e₁ a =>
    cases paired with
    | forIn _ _ _ bs _ t₂ _ e₂ _ b inits targets may objects bodies =>
      rw [act, act]
      refine alike_bind M p _ _ _ _ (assign_all_alike M fit p as bs inits) fun _ => ?_
      refine alike_bind M p _ _ _ _ (evaluate_alike M fit p e₁ e₂ objects) fun v => ?_
      refine alike_ite M p _ _ _ _ _ (alike_pure M p _) ?_
      refine alike_bind M p _ _ _ _ (alike_native M p fit _ (to_object_native _)) fun id => ?_
      exact names_alike M p fit labels id _ _ _ _ (fun v => assign_target_alike M fit p t₁ t₂ targets may v)
        (alike_in_loop M p _ _ (execute_alike p.inLoop a b bodies))
  | switching labels e₁ x otherwise as =>
    cases paired with
    | switching _ _ _ e₂ _ y _ _ bs subjects selectors clauses =>
      rw [act, act]
      refine alike_bind M p _ _ _ _ (evaluate_alike M fit p e₁ e₂ subjects) fun v => ?_
      refine alike_bind M p _ _ _ _
        (alike_in_switch M p _ _ (select_alike M fit p.inSwitch v x y selectors)) fun selected => ?_
      cases selected.or otherwise with
      | none => exact alike_pure M p _
      | some start =>
        exact alike_in_switch M p _ _ (execute_clauses_alike p.inSwitch labels start none as bs clauses)
  | trying as h f =>
    cases paired with
    | trying _ _ bs _ k _ g blocks handlers finalizers =>
      rw [act, act]
      refine execute_finally_alike p _ _ f g finalizers ?_
      exact execute_guarded_alike p _ _ h k handlers (execute_all_alike p none as bs blocks)
  | withObject e₁ a =>
    cases paired with
    | withObject _ scope _ e₂ _ b objects opened bodies =>
      rw [act, act]
      refine alike_bind M p _ _ _ _ (evaluate_alike M fit p e₁ e₂ objects) fun v => ?_
      refine alike_bind M p _ _ _ _ (alike_native M p fit _ (to_object_native _)) fun id => ?_
      intro W live s standing
      exact with_sim M W live p s standing scope opened id _ _ Same fun V s' _ stands =>
        execute_alike (p.inside scope) a b bodies V live s' stands
termination_by structural a

theorem execute_optional_alike (p : Setting) (a b : Option Stmt) (paired : AlternativePaired p a b) :
    Alike M p (executeOptional p.strict a) (executeOptional p.strict b) := by
  cases a with
  | none =>
    cases paired
    rw [executeOptional]
    exact alike_pure M p _
  | some a =>
    cases paired with
    | some _ _ b bodies =>
      rw [executeOptional, executeOptional]
      exact execute_alike p a b bodies
termination_by structural a

theorem execute_clauses_alike (p : Setting) (labels : List Label) (skipped : Nat) (last : Option Value)
    (as bs : List Program.Clause) (paired : ClausesPaired p as bs) :
    Alike M p (executeClauses p.strict labels skipped last as) (executeClauses p.strict labels skipped last bs) := by
  cases as with
  | nil =>
    cases paired
    rw [executeClauses]
    exact alike_pure M p _
  | cons clause rest =>
    cases clause with
    | mk body =>
      cases paired with
      | cons _ _ body' _ rest' first others =>
        cases skipped with
        | succ skipped =>
          rw [executeClauses, executeClauses]
          exact execute_clauses_alike p labels skipped last rest rest' others
        | zero =>
          rw [executeClauses, executeClauses]
          refine alike_bind M p _ _ _ _ (execute_all_alike p none body body' first) fun c => ?_
          refine alike_ite M p _ _ _ _ _ (alike_pure M p _) ?_
          refine alike_ite M p _ _ _ _ _ (alike_pure M p _) ?_
          exact execute_clauses_alike p labels 0 _ rest rest' others
termination_by structural as

theorem execute_guarded_alike (p : Setting) (block₁ block₂ : Run Completion) (h k : Option Program.Handler)
    (paired : HandlerPaired p h k) (blocks : Alike M p block₁ block₂) :
    Alike M p (executeGuarded p.strict block₁ h) (executeGuarded p.strict block₂ k) := by
  cases h with
  | none =>
    cases paired
    rw [executeGuarded, executeGuarded]
    exact blocks
  | some handler =>
    cases handler with
    | mk own as =>
      cases paired with
      | some _ scope _ o₂ _ bs owns bodies =>
        obtain ⟨name, opened, defs⟩ := owns
        rw [executeGuarded, executeGuarded]
        refine catching_alike M p _ _ _ _ blocks fun v W live s standing => ?_
        exact handler_sim M W live p s standing scope name opened defs v _ _ Same fun V more s' _ stands =>
          execute_all_alike (p.inside scope) none as bs bodies V more s' stands
termination_by structural h

theorem execute_finally_alike (p : Setting) (block₁ block₂ : Run Completion) (f g : Option (List Stmt))
    (paired : FinalizerPaired p f g) (blocks : Alike M p block₁ block₂) :
    Alike M p (executeFinally p.strict block₁ f) (executeFinally p.strict block₂ g) := by
  cases f with
  | none =>
    cases paired
    rw [executeFinally, executeFinally]
    exact blocks
  | some as =>
    cases paired with
    | some _ _ bs bodies =>
      rw [executeFinally, executeFinally]
      exact finally_alike M p _ _ _ _ blocks (execute_all_alike p none as bs bodies)
termination_by structural f

end

end

end Ecma.Storage
