import Ecma.Proofs.Program.Compilation
import Ecma.Proofs.Program.Selection
import Ecma.Proofs.Statement.Jump
import Ecma.Proofs.Syntax.Part

set_option autoImplicit false
set_option linter.unusedSectionVars false

/-!
Compiled statements do what the statements mean, and no jump goes past its target. The induction is on the
syntax tree; what goes through it is how the endings with numbers deliver those with names.
-/

namespace Ecma

open Ecma.Program Ecma.Syntax Run

/-! Parts of statements. -/

section

variable {m : Machine} (constructs : m.ConstructsObjects) (s : Surroundings) (strict : Bool)
include constructs

theorem value_agrees (e : Expression) : evaluate strict (compileExpr s e).expr m = (meaning s strict e).value m := by
  exact (expression_renders m s strict constructs e).value

theorem declarators_agree (declarators : List Declarator) :
    assignAll strict (compileDeclarators s declarators) m = declaratorsMeaning s strict declarators m := by
  induction declarators with
  | nil =>
    rw [compileDeclarators, assignAll]
    rfl
  | cons declarator rest hyp =>
    obtain ⟨span, id, init⟩ := declarator
    cases init with
    | none =>
      rw [compileDeclarators, declaratorsMeaning]
      exact hyp
    | some init =>
      rw [compileDeclarators, assignAll, declaratorsMeaning]
      refine bind_second _ _ _ m fun p => ?_
      refine bind_agree _ _ _ _ m (value_agrees constructs s strict init) fun v _ _ _ => ?_
      exact bind_second _ _ _ m fun _ => hyp

theorem test_agrees (e : Expression) :
    (do
      let v ← evaluate strict (compileExpr s e).expr
      return v.toBoolean) m = testMeaning s strict e m := by
  exact bind_same _ _ _ m (value_agrees constructs s strict e)

theorem optional_test_agrees (e : Option Expression) :
    testOptional strict (compileOptional s e) m = optionalTestMeaning s strict e m := by
  cases e with
  | none =>
    rw [compileOptional, testOptional]
    rfl
  | some e =>
    rw [compileOptional, testOptional]
    exact test_agrees constructs s strict e

theorem optional_agrees (e : Option Expression) :
    evaluateOptional strict (compileOptional s e) m = optionalMeaning s strict e m := by
  cases e with
  | none =>
    rw [compileOptional, evaluateOptional]
    rfl
  | some e =>
    rw [compileOptional, evaluateOptional]
    exact discard_same _ _ m (value_agrees constructs s strict e)

theorem init_agrees (init : ForInit) :
    startLoop strict (compileInit s init) m = initMeaning s strict init m := by
  cases init with
  | none =>
    rw [compileInit, startLoop]
    rfl
  | «variables» declarators =>
    rw [compileInit, startLoop]
    exact declarators_agree constructs s strict declarators
  | expression e =>
    rw [compileInit, startLoop]
    exact discard_same _ _ m (value_agrees constructs s strict e)

theorem for_target_agrees (target : ForTarget) :
    assignAll strict (compileForTarget s target).1 m = forTargetInit s strict target m ∧
      evaluateTarget strict (compileForTarget s target).2 m = forTargetPlace s strict target m := by
  cases target with
  | «variable» declarator =>
    obtain ⟨span, id, init⟩ := declarator
    cases init with
    | none =>
      rw [compileForTarget, evaluate_name_target, assignAll]
      exact ⟨rfl, rfl⟩
    | some init =>
      have assigns := declarators_agree constructs s strict [.mk span id (some init)]
      rw [compileDeclarators, compileDeclarators] at assigns
      rw [compileForTarget, evaluate_name_target]
      exact ⟨assigns, rfl⟩
  | expression e =>
    rw [compileForTarget, assignAll]
    exact ⟨rfl, (expression_renders m s strict constructs e).target⟩

/-! The clause of a `switch` statement. -/

omit constructs in
theorem compile_test (clause : Nat) (span : Span) (test : Expression) (body : List Statement)
    (rest : List Syntax.Clause) : (compileTests s clause (.mk span (some test) body :: rest)).1 =
      (clause, compileExpr s test) :: (compileTests s (clause + 1) rest).1 := by
  rw [compileTests]

omit constructs in
theorem default_agrees (clause : Nat) (clauses : List Syntax.Clause) :
    (compileTests s clause clauses).2 = defaultClause clause clauses := by
  induction clauses generalizing clause with
  | nil =>
    rw [compileTests]
    rfl
  | cons first rest hyp =>
    obtain ⟨span, test, body⟩ := first
    cases test with
    | none =>
      rw [compileTests]
      rfl
    | some test =>
      rw [compileTests]
      exact hyp (clause + 1)

theorem tests_agree (v : Value) (clause : Nat) (clauses : List Syntax.Clause) :
    selectTest strict v ((compileTests s clause clauses).1.map fun test => .mk test.1 test.2.expr) m =
      selectMeaning s strict v clause clauses m := by
  induction clauses generalizing clause with
  | nil =>
    rw [compileTests, List.map_nil, selectTest]
    rfl
  | cons first rest hyp =>
    obtain ⟨span, test, body⟩ := first
    cases test with
    | none =>
      rw [compileTests]
      exact hyp (clause + 1)
    | some test =>
      rw [compile_test, selectMeaning]
      change selectTest strict v (.mk clause (compileExpr s test).expr :: _) m = _
      rw [selectTest]
      refine bind_agree _ _ _ _ m (value_agrees constructs s strict test) fun t _ _ _ => ?_
      split
      · rfl
      · exact hyp (clause + 1)

-- A table of constants finds what evaluating them in turn finds.
theorem constants_agree (v : Value) (clause : Nat) (clauses : List Syntax.Clause) (vs : List (Nat × Value))
    (known : constants? (compileTests s clause clauses).1 = some vs) :
    (pure (findClause (directTable vs) v) : Run (Option Nat)) m = selectMeaning s strict v clause clauses m := by
  induction clauses generalizing clause vs with
  | nil =>
    rw [compileTests] at known
    cases known
    rw [findClause]
    cases switchKey? v <;> rfl
  | cons first rest hyp =>
    obtain ⟨span, test, body⟩ := first
    cases test with
    | none =>
      rw [compileTests] at known
      exact hyp (clause + 1) vs known
    | some test =>
      have renders := expression_renders m s strict constructs test
      rw [compile_test, constants?] at known
      split at known
      · rename_i c others constant remaining
        cases known
        have value := constant_value m strict _ _ renders c constant
        have primitive := renders.constant c (value_of_constant _ c constant)
        rw [selectMeaning, bind_same _ (pure c) _ m value, bind_pure_at, find_clause_cons v c clause others primitive]
        split
        · rfl
        · exact hyp (clause + 1) others remaining
      · cases known

theorem select_agrees (v : Value) (clauses : List Syntax.Clause) :
    select strict v (chooseSelector (compileTests s 0 clauses).1) m = selectMeaning s strict v 0 clauses m := by
  rw [chooseSelector]
  split
  · rename_i vs known
    rw [select]
    exact constants_agree constructs s strict v 0 clauses vs known
  · rw [select]
    exact tests_agree constructs s strict v 0 clauses

end

/-! Loops, errors and contexts. -/

section

variable {m : Machine} (g : Goals) (own : List String) (ids : List Label)

-- What comes after a round, when the loop goes on in the same way.
theorem round_agrees {σ : Type} (last : Option Value) (body : Run Completion) (body' : Run Ending)
    (again : Option Value → Run (σ ⊕ Completion)) (again' : Option Value → Run (σ ⊕ Ending))
    (owns : Owns g own ids true) (bodies : Agrees m (Delivers g.inLoop []) body body')
    (goes : ∀ value, Agrees m (Sum.LiftRel Eq (Delivers g own)) (again value) (again' value)) :
    Agrees m (Sum.LiftRel Eq (Delivers g own))
      (body >>= fun c => match endRound ids last c with
        | .inl value => again value
        | .inr c => pure (.inr c))
      (body' >>= fun w => match w.afterRound own last with
        | .inl value => again' value
        | .inr w => pure (.inr w)) := by
  refine agrees_bind _ _ _ _ _ _ bodies fun c w delivers => ?_
  have rounds := round_delivers g own ids last c w owns delivers
  generalize endRound ids last c = left at rounds
  generalize w.afterRound own last = right at rounds
  cases rounds with
  | inl same =>
    cases same
    exact goes _
  | inr holds => exact agrees_pure _ _ _ (.inr holds)

theorem while_agrees (test test' : Run Bool) (body : Run Completion) (body' : Run Ending)
    (update update' : Run Unit) (owns : Owns g own ids true) (tests : test m = test' m)
    (bodies : Agrees m (Delivers g.inLoop []) body body') (updates : update m = update' m) :
    Agrees m (Delivers g own) (whileRounds ids test body update) (whileMeaning own test' body' update') := by
  refine agrees_loop _ _ _ none fun value => ?_
  refine agrees_next _ _ _ _ fun _ => agrees_after _ _ _ _ _ tests fun more => ?_
  refine agrees_ite _ _ _ _ _ _ ?_ (agrees_pure _ _ _ (.inr (delivers_value g own value)))
  refine round_agrees g own ids value body body' _ _ owns bodies fun value => ?_
  exact agrees_after _ _ _ _ _ updates fun _ => agrees_pure _ _ _ (.inl rfl)

theorem do_agrees (test test' : Run Bool) (body : Run Completion) (body' : Run Ending)
    (owns : Owns g own ids true) (tests : test m = test' m)
    (bodies : Agrees m (Delivers g.inLoop []) body body') :
    Agrees m (Delivers g own) (doRounds ids body test) (doMeaning own body' test') := by
  refine agrees_loop _ _ _ none fun value => agrees_next _ _ _ _ fun _ => ?_
  refine round_agrees g own ids value body body' _ _ owns bodies fun value => ?_
  refine agrees_after _ _ _ _ _ tests fun more => agrees_ite _ _ _ _ _ _ ?_ ?_
  · exact agrees_pure _ _ _ (.inl rfl)
  · exact agrees_pure _ _ _ (.inr (delivers_value g own value))

theorem names_agree (id : ObjectId) (assign assign' : Value → Run Unit) (body : Run Completion)
    (body' : Run Ending) (owns : Owns g own ids true) (assigns : ∀ v, assign v m = assign' v m)
    (bodies : Agrees m (Delivers g.inLoop []) body body') :
    Agrees m (Delivers g own) (nameRounds ids id assign body) (namesMeaning own id assign' body') := by
  refine agrees_next _ _ _ _ fun h => agrees_loop _ _ _ _ fun state => ?_
  obtain ⟨names, value⟩ := state
  refine agrees_next _ _ _ _ fun h => ?_
  generalize names.next h = found
  obtain ⟨key, names⟩ := found
  cases key with
  | none => exact agrees_pure _ _ _ (.inr (delivers_value g own value))
  | some key =>
    refine agrees_next _ _ _ _ fun _ => agrees_after _ _ _ _ _ (assigns _) fun _ => ?_
    refine round_agrees g own ids value body body' _ _ owns bodies fun value => ?_
    exact agrees_pure _ _ _ (.inl rfl)

theorem caught_agrees (block : Run Completion) (block' : Run Ending) (handler : Value → Run Completion)
    (handler' : Value → Run Ending) (blocks : Agrees m (Delivers g []) block block')
    (handlers : ∀ v, Agrees m (Delivers g []) (handler v) (handler' v)) :
    Agrees m (Delivers g []) (catching block handler) (caughtBy block' handler') := by
  intro r
  rw [catching, caughtBy]
  have alike := blocks r
  generalize block m r = left at alike
  generalize block' m r = right at alike
  cases alike with
  | ok c w s delivers => exact .ok c w s delivers
  | error e s =>
    cases e with
    | thrown v => exact handlers v s
    | _ => exact .error _ s

theorem finished_agrees (block finalizer : Run Completion) (block' finalizer' : Run Ending)
    (blocks : Agrees m (Delivers g []) block block') (finalizers : Agrees m (Delivers g []) finalizer finalizer') :
    Agrees m (Delivers g []) (thenFinally block finalizer) (finishedBy block' finalizer') := by
  have jumps (c : Completion) (w : Ending) (delivers : Delivers g [] c w) : c.jump.isSome = w.jump.isSome := by
    rw [delivers_exact g c w delivers, Ending.numbered, Option.isSome_map]
  intro r
  rw [thenFinally, finishedBy]
  have alike := blocks r
  generalize block m r = left at alike
  generalize block' m r = right at alike
  cases alike with
  | ok c w s delivers =>
    have last := finalizers s
    dsimp only
    generalize finalizer m s = left at last
    generalize finalizer' m s = right at last
    cases last with
    | ok f v s' after =>
      dsimp only
      rw [jumps f v after]
      split
      · exact .ok f v s' after
      · exact .ok c w s' delivers
    | error e s' => exact .error e s'
  | error e s =>
    cases e with
    | thrown v =>
      have last := finalizers s
      dsimp only
      generalize finalizer m s = left at last
      generalize finalizer' m s = right at last
      cases last with
      | ok f w s' after =>
        dsimp only
        rw [jumps f w after]
        split
        · exact .ok f w s' after
        · exact .error _ s'
      | error e s' => exact .error e s'
    | _ => exact .error _ s

theorem run_handler_agrees (name : OwnName) (thrown : Value) (body : Run Completion) (body' : Run Ending)
    (bodies : Agrees m (Delivers g []) body body') :
    Agrees m (Delivers g []) (runHandler name thrown body) (runHandler name thrown body') := by
  refine agrees_next _ _ _ _ fun c => agrees_ite _ _ _ _ _ _ ?_ ?_
  all_goals
    refine agrees_next _ _ _ _ fun env => agrees_within _ _ _ _ ?_
    cases name.slot with
    | some index => exact agrees_next _ _ _ _ fun _ => bodies
    | none => exact agrees_next _ _ _ _ fun _ => agrees_next _ _ _ _ fun _ => bodies

theorem at_step_agrees (strict : Bool) (span : Span) (action : Action) (run : Run Ending)
    (acts : Agrees m (Delivers g own) (act strict action) run) :
    Agrees m (Delivers g own) (execute strict (.step span.start action)) (atStep span run) := by
  rw [execute]
  exact agrees_next _ _ _ _ fun _ => agrees_next _ _ _ _ fun _ => acts

-- A step that is no loop.
theorem plain_step_agrees (strict : Bool) (span : Span) (action : Action) (run : Run Ending)
    (owns : Owns g own ids false) (acts : Agrees m (Delivers g []) (act strict action) run) :
    Agrees m (Delivers g own) (execute strict (.step span.start action)) (atStep span run) := by
  refine at_step_agrees g own strict span action run ?_
  exact agrees_weaker _ _ _ _ acts fun c w delivers => delivers_plain g own ids c w owns delivers

end

/-! Every statement. -/

section

variable {m : Machine} (constructs : m.ConstructsObjects) (strict : Bool)
include constructs

mutual

theorem statement_agrees (p : Setting) (s : Surroundings) (own : List String) (ids : List Label)
    (statement : Statement) (names : s.labels = p.goals.names) (owns : Owns p.goals own ids statement.isLoop)
    (fits : statement.Scoped p) :
    Agrees m (Delivers p.goals own) (execute strict (compileStmt s ids statement))
      (statementMeaning s strict own statement) := by
  cases statement with
  | block span body =>
    rw [compileStmt, execute, statementMeaning]
    exact agrees_weaker _ _ _ _ (statements_agree p s none body names fits) fun c w delivers =>
      delivers_plain p.goals own ids c w owns delivers
  | labelled span label body =>
    rw [compileStmt, execute, statementMeaning]
    refine agrees_bind _ _ _ _ _ _ (statement_agrees (p.under label body.isLoop) (s.enter label) (own ++ [label])
      (ids ++ [s.labels.length]) body ?_ ?_ fits.2) fun c w delivers => ?_
    · exact congrArg (label :: ·) names
    · rw [names]
      exact owns_under p.goals own ids _ owns label fits.1
    · rw [names]
      exact agrees_pure _ _ _ (label_delivers p.goals own _ label c w delivers)
  | expression span e =>
    rw [compileStmt, statementMeaning]
    refine plain_step_agrees p.goals own ids strict span _ _ owns ?_
    rw [act]
    exact agrees_after _ _ _ _ _ (value_agrees constructs s strict e) fun v =>
      agrees_pure _ _ _ (delivers_value p.goals [] (some v))
  | «variables» span declarators =>
    rw [compileStmt, statementMeaning]
    refine plain_step_agrees p.goals own ids strict span _ _ owns ?_
    rw [act]
    exact agrees_after _ _ _ _ _ (declarators_agree constructs s strict declarators) fun _ =>
      agrees_pure _ _ _ (delivers_value p.goals [] none)
  | function span =>
    rw [compileStmt, statementMeaning]
    refine plain_step_agrees p.goals own ids strict span _ _ owns ?_
    rw [act]
    exact agrees_pure _ _ _ (delivers_value p.goals [] none)
  | empty span =>
    rw [compileStmt, statementMeaning]
    refine plain_step_agrees p.goals own ids strict span _ _ owns ?_
    rw [act]
    exact agrees_pure _ _ _ (delivers_value p.goals [] none)
  | debugger span =>
    rw [compileStmt, statementMeaning]
    refine plain_step_agrees p.goals own ids strict span _ _ owns ?_
    rw [act]
    exact agrees_pure _ _ _ (delivers_value p.goals [] none)
  | returning span value =>
    cases value with
    | none =>
      rw [compileStmt, statementMeaning]
      refine plain_step_agrees p.goals own ids strict span _ _ owns ?_
      rw [compileOptional, act]
      exact agrees_pure _ _ _ (delivers_jump p.goals [] _ .returning fits.1)
    | some e =>
      rw [compileStmt, statementMeaning]
      refine plain_step_agrees p.goals own ids strict span _ _ owns ?_
      rw [compileOptional, act]
      exact agrees_after _ _ _ _ _ (value_agrees constructs s strict e) fun v =>
        agrees_pure _ _ _ (delivers_jump p.goals [] _ .returning fits.1)
  | breaking span label =>
    rw [compileStmt, statementMeaning]
    refine plain_step_agrees p.goals own ids strict span _ _ owns ?_
    rw [act, Surroundings.target, names]
    exact agrees_pure _ _ _ (delivers_jump p.goals [] none (.breaking label) fits)
  | continuing span label =>
    rw [compileStmt, statementMeaning]
    refine plain_step_agrees p.goals own ids strict span _ _ owns ?_
    rw [act, Surroundings.target, names]
    exact agrees_pure _ _ _ (delivers_jump p.goals [] none (.continuing label)
      ⟨fits, fun name _ => List.not_mem_nil⟩)
  | conditional span test yes no =>
    rw [compileStmt, statementMeaning]
    refine plain_step_agrees p.goals own ids strict span _ _ owns ?_
    rw [act]
    refine agrees_after _ _ _ _ _ (value_agrees constructs s strict test) fun v => agrees_ite _ _ _ _ _ _ ?_ ?_
    · exact statement_agrees p s [] [] yes names (owns_none p.goals _) fits.2.1
    · exact alternative_agrees p s no names fits.2.2
  | switching span subject clauses =>
    rw [compileStmt, statementMeaning]
    refine at_step_agrees p.goals own strict span _ _ ?_
    rw [act]
    refine agrees_after _ _ _ _ _ (value_agrees constructs s strict subject) fun v => ?_
    refine agrees_after _ _ _ _ _ (select_agrees constructs s strict v clauses) fun selected => ?_
    rw [default_agrees s 0 clauses]
    cases selected.or (defaultClause 0 clauses) with
    | none => exact agrees_pure _ _ _ (delivers_value p.goals own none)
    | some start => exact clauses_agree p s own ids start none clauses names owns fits.2
  | throwing span e =>
    rw [compileStmt, statementMeaning]
    refine plain_step_agrees p.goals own ids strict span _ _ owns ?_
    rw [act]
    exact agrees_after _ _ _ _ _ (value_agrees constructs s strict e) fun v => agrees_throw _ _
  | trying span block handler finalizer =>
    rw [compileStmt, statementMeaning]
    refine plain_step_agrees p.goals own ids strict span _ _ owns ?_
    rw [act]
    refine finalizer_agrees p s _ _ finalizer names ?_ fits.2.2
    exact handler_agrees p s _ _ handler names (statements_agree p s none block names fits.1) fits.2.1
  | whileLoop span test body =>
    rw [compileStmt, statementMeaning]
    refine at_step_agrees p.goals own strict span _ _ ?_
    rw [act]
    exact while_agrees p.goals own ids _ _ _ _ _ _ owns (test_agrees constructs s strict test)
      (statement_agrees p.inLoop s [] [] body names (owns_none _ _) fits.2) rfl
  | doLoop span body test =>
    rw [compileStmt, statementMeaning]
    refine at_step_agrees p.goals own strict span _ _ ?_
    rw [act]
    exact do_agrees p.goals own ids _ _ _ _ owns (test_agrees constructs s strict test)
      (statement_agrees p.inLoop s [] [] body names (owns_none _ _) fits.1)
  | forLoop span init test update body =>
    rw [compileStmt, statementMeaning]
    refine at_step_agrees p.goals own strict span _ _ ?_
    rw [act]
    refine agrees_after _ _ _ _ _ (init_agrees constructs s strict init) fun _ => ?_
    exact while_agrees p.goals own ids _ _ _ _ _ _ owns (optional_test_agrees constructs s strict test)
      (statement_agrees p.inLoop s [] [] body names (owns_none _ _) fits.2.2.2)
      (optional_agrees constructs s strict update)
  | forIn span target object body =>
    have targets := for_target_agrees constructs s strict target
    rw [compileStmt, statementMeaning]
    refine at_step_agrees p.goals own strict span _ _ ?_
    rw [act]
    refine agrees_after _ _ _ _ _ targets.1 fun _ => ?_
    refine agrees_after _ _ _ _ _ (value_agrees constructs s strict object) fun v => ?_
    refine agrees_ite _ _ _ _ _ _ (agrees_pure _ _ _ (delivers_value p.goals own none)) ?_
    refine agrees_next _ _ _ _ fun id => ?_
    refine names_agree p.goals own ids id _ _ _ _ owns (fun name => bind_same _ _ _ m targets.2) ?_
    exact statement_agrees p.inLoop s [] [] body names (owns_none _ _) fits.2.2
  | withObject span object scope body =>
    rw [compileStmt, statementMeaning]
    refine plain_step_agrees p.goals own ids strict span _ _ owns ?_
    rw [act]
    refine agrees_after _ _ _ _ _ (value_agrees constructs s strict object) fun v => ?_
    refine agrees_next _ _ _ _ fun id => agrees_next _ _ _ _ fun c => agrees_next _ _ _ _ fun env => ?_
    exact agrees_within _ env _ _
      (statement_agrees (p.inside scope) s [] [] body names (owns_none p.goals _) fits.2.2)

theorem statements_agree (p : Setting) (s : Surroundings) (last : Option Value) (body : List Statement)
    (names : s.labels = p.goals.names) (fits : statementsScoped p body) :
    Agrees m (Delivers p.goals []) (executeAll strict last (compileBody s body))
      (statementsMeaning s strict last body) := by
  cases body with
  | nil =>
    rw [compileBody, executeAll, statementsMeaning]
    exact agrees_pure _ _ _ (delivers_value p.goals [] last)
  | cons statement rest =>
    rw [compileBody, executeAll, statementsMeaning]
    refine agrees_bind _ _ _ _ _ _
      (statement_agrees p s [] [] statement names (owns_none p.goals _) fits.1) fun c w delivers => ?_
    have exact' := delivers_exact p.goals c w delivers
    have jumps : c.jump.isSome = w.jump.isSome := by rw [exact', Ending.numbered, Option.isSome_map]
    have values : c.value = w.value := by rw [exact', Ending.numbered]
    rw [jumps, values]
    exact agrees_ite _ _ _ _ _ _ (agrees_pure _ _ _ (delivers_or p.goals c w last delivers))
      (statements_agree p s _ rest names fits.2)

theorem alternative_agrees (p : Setting) (s : Surroundings) (no : Option Statement)
    (names : s.labels = p.goals.names) (fits : alternativeScoped p no) :
    Agrees m (Delivers p.goals []) (executeOptional strict (compileAlternative s no))
      (alternativeMeaning s strict no) := by
  cases no with
  | none =>
    rw [compileAlternative, executeOptional, alternativeMeaning]
    exact agrees_pure _ _ _ (delivers_value p.goals [] none)
  | some statement =>
    rw [compileAlternative, executeOptional, alternativeMeaning]
    exact statement_agrees p s [] [] statement names (owns_none p.goals _) fits

theorem clauses_agree (p : Setting) (s : Surroundings) (own : List String) (ids : List Label) (skipped : Nat)
    (last : Option Value) (clauses : List Syntax.Clause) (names : s.labels = p.goals.names)
    (owns : Owns p.goals own ids false) (fits : clausesScoped p.inSwitch clauses) :
    Agrees m (Delivers p.goals own) (executeClauses strict ids skipped last (compileClauses s clauses))
      (clausesMeaning s strict skipped last clauses) := by
  cases clauses with
  | nil =>
    rw [compileClauses, executeClauses, clausesMeaning]
    exact agrees_pure _ _ _ (delivers_value p.goals own last)
  | cons clause rest =>
    obtain ⟨span, test, body⟩ := clause
    cases skipped with
    | succ skipped =>
      rw [compileClauses, executeClauses, clausesMeaning]
      exact clauses_agree p s own ids skipped last rest names owns fits.2
    | zero =>
      rw [compileClauses, executeClauses, clausesMeaning]
      refine agrees_bind _ _ _ _ _ _
        (statements_agree p.inSwitch s none body names fits.1.2) fun c w delivers => ?_
      have exact' := delivers_exact _ c w delivers
      have jumps : c.jump.isSome = w.jump.isSome := by rw [exact', Ending.numbered, Option.isSome_map]
      have values : c.value = w.value := by rw [exact', Ending.numbered]
      rcases switch_delivers p.goals own ids last c w owns delivers with ⟨leaves, jumped, whole⟩ | ⟨stays, other, whole⟩
      · dsimp only
        rw [if_pos leaves, if_pos jumped]
        by_cases taken : w.jump = some (.breaking none)
        · rw [if_pos taken] at whole ⊢
          exact agrees_pure _ _ _ whole
        · rw [if_neg taken] at whole ⊢
          exact agrees_pure _ _ _ whole
      · dsimp only
        rw [stays, if_neg Bool.false_ne_true, if_neg other, jumps, or_value_again, values]
        by_cases jumped : w.jump.isSome = true
        · rw [if_pos jumped, if_pos jumped]
          exact agrees_pure _ _ _ (whole jumped)
        · rw [if_neg jumped, if_neg jumped]
          exact clauses_agree p s own ids 0 _ rest names owns fits.2

theorem handler_agrees (p : Setting) (s : Surroundings) (block : Run Completion) (block' : Run Ending)
    (handler : Option Syntax.Handler) (names : s.labels = p.goals.names)
    (blocks : Agrees m (Delivers p.goals []) block block') (fits : handlerScoped p handler) :
    Agrees m (Delivers p.goals []) (executeGuarded strict block (compileHandler s handler))
      (handlerMeaning s strict block' handler) := by
  cases handler with
  | none =>
    rw [compileHandler, executeGuarded, handlerMeaning]
    exact blocks
  | some handler =>
    obtain ⟨span, param, body⟩ := handler
    rw [compileHandler, executeGuarded, handlerMeaning]
    refine caught_agrees p.goals _ _ _ _ blocks fun thrown => run_handler_agrees p.goals _ _ _ _ ?_
    exact statements_agree (p.inside param.scope) s none body names fits.2.2

theorem finalizer_agrees (p : Setting) (s : Surroundings) (block : Run Completion) (block' : Run Ending)
    (finalizer : Option (List Statement)) (names : s.labels = p.goals.names)
    (blocks : Agrees m (Delivers p.goals []) block block') (fits : finalizerScoped p finalizer) :
    Agrees m (Delivers p.goals []) (executeFinally strict block (compileFinalizer s finalizer))
      (finalizerMeaning s strict block' finalizer) := by
  cases finalizer with
  | none =>
    rw [compileFinalizer, executeFinally, finalizerMeaning]
    exact blocks
  | some body =>
    rw [compileFinalizer, executeFinally, finalizerMeaning]
    exact finished_agrees p.goals _ _ _ _ blocks (statements_agree p s none body names fits)

end

end

/-! Accepted texts. -/

theorem code_agrees {m : Machine} (constructs : m.ConstructsObjects) (s : Surroundings) (tree : Scope.Tree)
    (code : Code) (fits : (Part.code code).Fits tree) :
    Agrees m (Delivers code.header.goals []) (executeAll (compileCode s code).header.strict none (compileCode s code).body)
      (statementsMeaning { s with labels := [] } code.header.strict none code.body) := by
  obtain ⟨_, arguments, _, body⟩ := fits
  obtain ⟨h, functions, statements⟩ := code
  rw [compileCode]
  exact statements_agree constructs h.strict _ { s with labels := [] } none statements rfl body

theorem part_agrees {m : Machine} (constructs : m.ConstructsObjects) (tree : Scope.Tree) (g : Goals)
    (own : List String) (statement : Statement) (fits : (Part.statement g own statement).Fits tree)
    (s : Surroundings) (strict : Bool)
    (names : s.labels = g.names) :
    Agrees m (Delivers g own) (execute strict (compileStmt s (numbersOf g own) statement))
      (statementMeaning s strict own statement) := by
  obtain ⟨⟨p, _, rfl, scopes⟩, owned⟩ := fits
  exact statement_agrees constructs strict p s own _ statement names (owns_numbers p.goals own _ owned) scopes

-- In every accepted text, each statement ends as it does as it is written, on every machine and in every
-- realm. Of the jumps out of a unit, only a function has one, its return.
theorem jumps_delivered (kind : Scope.CodeKind) (parsed : Parsed) (accepted : Accepted kind parsed)
    (host : HostFunction) (lookup : Lookup) (rounds depth : Nat) :
    parsed.code.header.kind = kind ∧
    (∀ g own statement, Part.Within (.statement g own statement) (.code parsed.code) →
      ∀ (s : Surroundings) (strict : Bool), s.labels = g.names → ∀ r,
        Alike (Delivers g own)
          (execute strict (compileStmt s (numbersOf g own) statement) (machine host lookup rounds depth) r)
          (statementMeaning s strict own statement (machine host lookup rounds depth) r)) ∧
    ∀ code, Part.Within (.code code) (.code parsed.code) → ∀ (s : Surroundings) (r : Realm),
      executeAll (compileCode s code).header.strict none (compileCode s code).body
          (machine host lookup rounds depth) r =
        (Ending.numbered [] <$> statementsMeaning { s with labels := [] } code.header.strict none code.body)
          (machine host lookup rounds depth) r ∧
      ∀ c r', executeAll (compileCode s code).header.strict none (compileCode s code).body
          (machine host lookup rounds depth) r = .ok c r' →
        c.jump = none ∨ code.header.kind = .function ∧ c.jump = some .returning := by
  have constructs := machine_constructs host lookup rounds depth
  obtain ⟨⟨tree, fits⟩, same⟩ := accepted_fits kind parsed accepted
  refine ⟨same, fun g own statement within s strict names => ?_, fun code within s r => ?_⟩
  · exact part_agrees constructs tree g own statement (within_fits tree _ _ within fits.code) s strict names
  · have agrees := code_agrees constructs s tree code (within_fits tree _ _ within fits.code)
    refine ⟨agrees_map _ _ _ _ agrees (fun c w => delivers_exact code.header.goals c w) r, fun c r' ended => ?_⟩
    obtain ⟨w, delivers⟩ := agrees_ok _ _ _ agrees r r' c ended
    exact unit_delivers code.header c w delivers

-- A `continue` from an inner loop to an outer one does not leave the program.
theorem jumps_delivered_outer_loop :
    ∃ parsed, parseProgram "a: for (;;) \x7b for (;;) continue a; \x7d" "main.js" true = .ok parsed ∧
      parsed.code.header.kind = .global ∧
      ∀ (s : Surroundings) (r : Realm) (c : Completion) (r' : Realm),
        executeAll (compileCode s parsed.code).header.strict none (compileCode s parsed.code).body
          (machine (fun _ _ _ => pure .undefined) .resolved boundless boundless) r = .ok c r' → c.jump = none := by
  have accepts : (parseProgram "a: for (;;) \x7b for (;;) continue a; \x7d" "main.js" true).isOk = true := by
    decide +kernel
  cases parses : parseProgram "a: for (;;) \x7b for (;;) continue a; \x7d" "main.js" true with
  | error e =>
    rw [parses] at accepts
    cases accepts
  | ok parsed =>
    obtain ⟨kind, _, bodies⟩ := jumps_delivered .global parsed (.program _ _ _ parsed parses)
      (fun _ _ _ => pure .undefined) .resolved boundless boundless
    refine ⟨parsed, rfl, kind, fun s r c r' ended => ?_⟩
    rcases (bodies parsed.code (.whole _) s r).2 c r' ended with none | ⟨function, _⟩
    · exact none
    · rw [kind] at function
      cases function

end Ecma
