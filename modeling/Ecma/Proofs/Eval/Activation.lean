import Ecma.Eval.Activation
import Ecma.Eval.Declaration
import Ecma.Proofs.Eval.Arguments
import Ecma.Proofs.Eval.Expression

set_option autoImplicit false

/-!
Statements are put together from expressions in the ways of statements.
-/

namespace Ecma

open Ecma.Program Ecma.Syntax Run

theorem execute_step (strict : Bool) (position : Nat) (action : Action) :
    execute strict (.step position action) = step >>= fun _ => setPosition position >>= fun _ => act strict action := by
  rw [execute]

theorem execute_all_cons (strict : Bool) (last : Option Value) (s : Stmt) (rest : List Stmt) :
    executeAll strict last (s :: rest) = execute strict s >>= fun c =>
      if c.jump.isSome then pure (c.orValue last) else executeAll strict (c.value.or last) rest := by
  rw [executeAll]

/-! Handlers of catch clauses. -/

-- Where the handler of a catch clause runs: in an environment of its own, or in that around it.
def handlerEnv (own : OwnName) (outer : EnvironmentId) : Run EnvironmentId :=
  if own.collapsed then pure outer else newScope outer

-- Gives what was thrown to the name of a catch clause.
def bindThrown (own : OwnName) (thrown : Value) (env : EnvironmentId) : Run Unit :=
  match own.slot with
  | some index => setSlot index thrown
  | none => do
    createBinding env own.name false
    setBinding env own.name thrown false

theorem run_handler_is {α : Type} (own : OwnName) (thrown : Value) (body : Run α) :
    runHandler own thrown body = running >>= fun c =>
      handlerEnv own c.lexicalEnv >>= fun env => inEnvironment env (bindThrown own thrown env >>= fun _ => body) := by
  obtain ⟨name, slot, collapsed⟩ := own
  cases slot with
  | some index => cases collapsed <;> rfl
  | none =>
    simp only [bindThrown, bind_assoc]
    cases collapsed <;> rfl

section

variable {free : Bool}

theorem handler_env_straight (own : OwnName) (outer : EnvironmentId) : Straight free true (handlerEnv own outer) := by
  exact straight_ite _ _ _ (straight_pure _) (straight_scope _)

theorem bind_thrown_straight (own : OwnName) (thrown : Value) (env : EnvironmentId) :
    Straight free true (bindThrown own thrown env) := by
  rw [bindThrown]
  split
  · exact set_slot_straight _ _
  · exact .bind _ _ (create_binding_straight _ _ _) fun _ => set_binding_straight _ _ _ _

theorem run_handler_scripted {α : Type} (own : OwnName) (thrown : Value) (body : Run α)
    (runs : Scripted free body) : Scripted free (runHandler own thrown body) := by
  rw [run_handler_is]
  refine .running _ fun c => .bind _ _ (.straight _ (handler_env_straight own _)) fun env => ?_
  exact .within _ _ (.bind _ _ (.straight _ (bind_thrown_straight own thrown env)) fun _ => runs)

/-! Statements. -/

mutual

theorem execute_scripted (strict : Bool) (s : Stmt) : Scripted free (execute strict s) := by
  cases s with
  | block body =>
    rw [execute]
    exact execute_all_scripted strict none body
  | labelled label body =>
    rw [execute]
    exact .bind _ _ (execute_scripted strict body) fun _ => scripted_pure _
  | step position action =>
    rw [execute_step]
    refine .bind _ _ .step fun _ => ?_
    exact .bind _ _ (.straight _ (.position _)) fun _ => act_scripted strict action

theorem execute_all_scripted (strict : Bool) (last : Option Value) (body : List Stmt) :
    Scripted free (executeAll strict last body) := by
  cases body with
  | nil =>
    rw [executeAll]
    exact scripted_pure _
  | cons s rest =>
    rw [execute_all_cons]
    refine .bind _ _ (execute_scripted strict s) fun c => ?_
    exact scripted_ite _ _ _ (scripted_pure _) (execute_all_scripted strict _ rest)

theorem act_scripted (strict : Bool) (action : Action) : Scripted free (act strict action) := by
  cases action with
  | nothing =>
    rw [act]
    exact scripted_pure _
  | expression e =>
    rw [act]
    exact .bind _ _ (.straight _ (evaluate_straight strict e)) fun _ => scripted_pure _
  | «variables» assignments =>
    rw [act]
    exact .bind _ _ (.straight _ (assign_all_straight strict assignments)) fun _ => scripted_pure _
  | returning e =>
    cases e with
    | none =>
      rw [act]
      exact scripted_pure _
    | some e =>
      rw [act]
      exact .bind _ _ (.straight _ (evaluate_straight strict e)) fun _ => scripted_pure _
  | breaking label =>
    rw [act]
    exact scripted_pure _
  | continuing label =>
    rw [act]
    exact scripted_pure _
  | conditional test yes no =>
    rw [act]
    refine .bind _ _ (.straight _ (evaluate_straight strict test)) fun v => ?_
    exact scripted_ite _ _ _ (execute_scripted strict yes) (execute_optional_scripted strict no)
  | throwing e =>
    rw [act]
    exact .bind _ _ (.straight _ (evaluate_straight strict e)) fun _ => .straight _ (.native _ (.throwing _))
  | whileLoop labels test body =>
    rw [act]
    exact .whileRounds labels _ _ _ (.straight _ (truth_straight strict test)) (execute_scripted strict body)
      (scripted_pure _)
  | doLoop labels body test =>
    rw [act]
    exact .doRounds labels _ _ (execute_scripted strict body) (.straight _ (truth_straight strict test))
  | forLoop labels init test update body =>
    rw [act]
    refine .bind _ _ (.straight _ (start_loop_straight strict init)) fun _ => ?_
    exact .whileRounds labels _ _ _ (.straight _ (test_optional_straight strict test)) (execute_scripted strict body)
      (.straight _ (evaluate_optional_straight strict update))
  | forIn labels init target object body =>
    rw [act]
    refine .bind _ _ (.straight _ (assign_all_straight strict init)) fun _ => ?_
    refine .bind _ _ (.straight _ (evaluate_straight strict object)) fun v => ?_
    refine scripted_ite _ _ _ (scripted_pure _) ?_
    refine .bind _ _ (.straight _ (.native _ (to_object_native _))) fun id => ?_
    refine .nameRounds labels id _ _ (fun name => ?_) (execute_scripted strict body)
    exact .straight _ (.bind _ _ (evaluate_target_straight strict target) fun p => write_place_straight _ _ _)
  | switching labels subject selector otherwise clauses =>
    rw [act]
    refine .bind _ _ (.straight _ (evaluate_straight strict subject)) fun v => ?_
    refine .bind _ _ (.straight _ (select_straight strict v selector)) fun selected => ?_
    split
    · exact scripted_pure _
    · exact execute_clauses_scripted strict labels _ none clauses
  | trying block handler finalizer =>
    rw [act]
    refine execute_finally_scripted strict _ finalizer ?_
    exact execute_guarded_scripted strict _ handler (execute_all_scripted strict none block)
  | withObject object body =>
    rw [act]
    refine .bind _ _ (.straight _ (evaluate_straight strict object)) fun v => ?_
    refine .bind _ _ (.straight _ (.native _ (to_object_native _))) fun id => ?_
    refine .running _ fun c => ?_
    refine .bind _ _ (.straight _ (.update _ fun h => .environment h _)) fun env => ?_
    exact .within _ _ (execute_scripted strict body)

theorem execute_optional_scripted (strict : Bool) (s : Option Stmt) :
    Scripted free (executeOptional strict s) := by
  cases s with
  | none =>
    rw [executeOptional]
    exact scripted_pure _
  | some s =>
    rw [executeOptional]
    exact execute_scripted strict s

theorem execute_clauses_scripted (strict : Bool) (labels : List Label) (skipped : Nat) (last : Option Value)
    (clauses : List Program.Clause) :
    Scripted free (executeClauses strict labels skipped last clauses) := by
  cases clauses with
  | nil =>
    rw [executeClauses]
    exact scripted_pure _
  | cons clause rest =>
    cases clause with
    | mk body =>
      cases skipped with
      | succ skipped =>
        rw [executeClauses]
        exact execute_clauses_scripted strict labels skipped last rest
      | zero =>
        rw [executeClauses]
        refine .bind _ _ (execute_all_scripted strict none body) fun c => ?_
        refine scripted_ite _ _ _ (scripted_pure _) (scripted_ite _ _ _ (scripted_pure _) ?_)
        exact execute_clauses_scripted strict labels 0 _ rest

theorem execute_guarded_scripted (strict : Bool) (block : Run Completion) (handler : Option Program.Handler)
    (body : Scripted free block) :
    Scripted free (executeGuarded strict block handler) := by
  cases handler with
  | none =>
    rw [executeGuarded]
    exact body
  | some handler =>
    cases handler with
    | mk own stmts =>
      rw [executeGuarded]
      refine .catching _ _ body fun v => ?_
      exact run_handler_scripted own v _ (execute_all_scripted strict none stmts)

theorem execute_finally_scripted (strict : Bool) (block : Run Completion) (finalizer : Option (List Stmt))
    (body : Scripted free block) :
    Scripted free (executeFinally strict block finalizer) := by
  cases finalizer with
  | none =>
    rw [executeFinally]
    exact body
  | some stmts =>
    rw [executeFinally]
    exact .thenFinally _ _ body (execute_all_scripted strict none stmts)

end

end

end Ecma

/-!
Activations of functions, and global and eval code, are coded.
-/

namespace Ecma

open Ecma.Program Run

section

variable {raw free moves : Bool}

/-! Activations. -/

-- Only elements that got an argument stand for parameters.
theorem mapped_from_inside (header : Header) (frame : FrameId) (env : EnvironmentId) (start i : Nat)
    (names : List String) (a : Alias) (found : (mappedFrom header frame env start names).lookup i = some a) :
    i < start + names.length := by
  obtain ⟨j, name, rfl, ⟨there, _⟩, _⟩ := (mapped_from_lookup header frame env start i names a).mp found
  exact Nat.add_lt_add_left (List.getElem?_eq_some_iff.mp there).1 start

-- Each element that stands for a parameter is there and can be written.
theorem new_arguments_writable (header : Header) (frame : FrameId) (env : EnvironmentId) (args : List Value)
    (prototype : Option ObjectId) (names : Dictionary Descriptor) :
    Object.Writable
      { kind := .arguments (if header.strict then [] else mappedFrom header frame env 0 (header.params.take args.length))
        prototype := prototype, properties := .ofElements names (args.map some) } := by
  intro i a mapped
  have inside : i < args.length := by
    simp only [ObjectKind.mapped] at mapped
    split at mapped
    · cases mapped
    · have bound := mapped_from_inside header frame env 0 i _ a mapped
      rw [List.length_take] at bound
      omega
  exact ⟨args[i], true, true, PropertyTable.find_element _ args i inside⟩

theorem new_arguments_straight (header : Header) (f : ObjectId) (frame : FrameId) (env : EnvironmentId)
    (args : List Value) : Straight free moves (newArguments header f frame env args) := by
  exact .update _ fun h => .object h _ rfl (new_arguments_writable header frame env args _ _)

theorem bind_name_straight (header : Header) (env : EnvironmentId) (name : String) (v : Value) :
    Straight free moves (bindName header env name v) := by
  unfold bindName
  split
  · exact set_slot_straight _ _
  · refine straight_heap _ fun h => ?_
    refine straight_ite _ _ _ ?_ (set_binding_straight _ _ _ _)
    exact .bind _ _ (create_binding_straight _ _ _) fun _ => set_binding_straight _ _ _ _

theorem bind_params_straight (header : Header) (env : EnvironmentId) (names : List String) (args : List Value) :
    Straight free moves (bindParams header env names args) := by
  induction names generalizing args with
  | nil => exact straight_pure _
  | cons name names hyp => exact .bind _ _ (bind_name_straight _ _ _ _) fun _ => hyp _

theorem bind_functions_straight (header : Header) (env : EnvironmentId) (routines : List Routine) :
    Straight free moves (bindFunctions header env routines) := by
  induction routines with
  | nil => exact straight_pure _
  | cons routine rest hyp =>
    refine .bind _ _ (.function _ _) fun f => ?_
    split
    · exact .bind _ _ (bind_name_straight _ _ _ _) fun _ => hyp
    · exact hyp

theorem bind_arguments_straight (header : Header) (env : EnvironmentId) (id : ObjectId) :
    Straight free moves (bindArguments header env id) := by
  unfold bindArguments
  split
  · exact set_slot_straight _ _
  · exact straight_heap _ fun h => straight_ite _ _ _ (bind_constant_straight _ _ _) (bind_name_straight _ _ _ _)

theorem bind_variables_straight (header : Header) (env : EnvironmentId) (names : List String) :
    Straight free moves (bindVariables header env names) := by
  induction names with
  | nil => exact straight_pure _
  | cons name rest hyp =>
    refine straight_heap _ fun h => straight_ite _ _ _ ?_ hyp
    refine .bind _ _ (create_binding_straight _ _ _) fun _ => ?_
    exact .bind _ _ (set_binding_straight _ _ _ _) fun _ => hyp

theorem instantiate_straight (routine : Routine) (f : ObjectId) (frame : FrameId) (env : EnvironmentId)
    (args : List Value) : Straight free moves (instantiate routine f frame env args) := by
  refine .bind _ _ (bind_params_straight _ _ _ _) fun _ => ?_
  refine .bind _ _ (bind_functions_straight _ _ _) fun _ => ?_
  refine straight_ite _ _ _ ?_ (bind_variables_straight _ _ _)
  refine .bind _ _ (new_arguments_straight _ _ _ _ _) fun id => ?_
  exact .bind _ _ (bind_arguments_straight _ _ _) fun _ => bind_variables_straight _ _ _

theorem receiver_of_straight (header : Header) (this : Value) :
    Straight free moves (receiverOf header this) := by
  refine straight_ite _ _ _ (straight_pure _) ?_
  split
  · exact straight_pure _
  · exact straight_pure _
  · exact .bind _ _ (.native _ (to_object_native _)) fun _ => straight_pure _

theorem activate_coded (routine : Routine) (f : ObjectId) (scope : EnvironmentId) (this : Value)
    (args : List Value) : Coded raw free true (activate routine f scope this args) := by
  unfold activate
  extract_lets header rest
  have activated (env : EnvironmentId) : Coded raw free true (rest env) := by
    refine .bind _ _ (straight_coded _ (receiver_of_straight _ _)) fun this => ?_
    refine .bind _ _ (.update _ fun h => .frame h _) fun frame => ?_
    refine .bind _ _ (.place _ fun _ => ⟨rfl, rfl⟩) fun _ => ?_
    refine .bind _ _ (straight_coded _ (instantiate_straight _ _ _ _ _)) fun _ => ?_
    exact .bind _ _ (scripted_coded _ (execute_all_scripted _ none _)) fun _ => coded_pure _
  split
  · exact activated _
  · exact .bind _ _ (coded_scope _) fun env => activated env

/-! Global and eval code. -/

theorem redeclare_global_straight (name : String) (deletable : Bool) :
    Straight free moves (redeclareGlobal name deletable) := by
  refine straight_heap _ fun h => ?_
  split
  · exact straight_pure _
  · refine straight_ite _ _ _ ?_ (straight_ite _ _ _ (straight_error _ _) (straight_pure _))
    exact .native _ (native_discard _ (define_own_native _ _ _ _ fun _ => rfl))

theorem declare_function_straight (env : EnvironmentId) (strict deletable : Bool) (name : String)
    (f : ObjectId) : Straight free moves (declareFunction env strict deletable name f) := by
  refine straight_heap _ fun h => straight_ite _ _ _ ?_ (straight_ite _ _ _ ?_ (set_binding_straight _ _ _ _))
  · exact .bind _ _ (create_binding_straight _ _ _) fun _ => set_binding_straight _ _ _ _
  · exact .bind _ _ (redeclare_global_straight _ _) fun _ => set_binding_straight _ _ _ _

theorem declare_functions_straight (env : EnvironmentId) (strict deletable : Bool) (routines : List Routine) :
    Straight free moves (declareFunctions env strict deletable routines) := by
  induction routines with
  | nil => exact straight_pure _
  | cons routine rest hyp =>
    unfold declareFunctions
    split
    · refine .bind _ _ (.function _ _) fun f => ?_
      exact .bind _ _ (declare_function_straight _ _ _ _ _) fun _ => hyp
    · exact hyp

theorem declare_variables_straight (env : EnvironmentId) (strict deletable : Bool) (names : List String) :
    Straight free moves (declareVariables env strict deletable names) := by
  induction names with
  | nil => exact straight_pure _
  | cons name rest hyp =>
    refine straight_heap _ fun h => straight_ite _ _ _ ?_ hyp
    refine .bind _ _ (create_binding_straight _ _ _) fun _ => ?_
    exact .bind _ _ (set_binding_straight _ _ _ _) fun _ => hyp

theorem declare_straight (routine : Routine) (env : EnvironmentId) (deletable : Bool) :
    Straight free moves (declare routine env deletable) := by
  exact .bind _ _ (declare_functions_straight _ _ _ _) fun _ => declare_variables_straight _ _ _ _

end

end Ecma
