import Ecma.Eval.Statement
import Ecma.Proofs.Number.Comparison
import Ecma.Proofs.Program.Compilation
import Ecma.Proofs.Program.Plain

set_option autoImplicit false

/-!
Looking up the clause of a `switch` statement. The key of a value stands for all that equals it, so the
table finds what comparing the tests one after the other finds.
-/

namespace Ecma

open Ecma.Program Run

theorem switch_key_nan (x : Float) (nan : x.isNaN = true) : switchKey? (.number x) = none := by
  rw [switchKey?, if_pos nan]

theorem switch_key_zero (x : Float) (zero : (x == 0.0) = true) :
    switchKey? (.number x) = some (.number 0.0) := by
  have ordered := ((Number.equal_iff x 0.0).mp zero).1
  rw [switchKey?, ordered, if_neg Bool.false_ne_true, if_pos zero]

theorem switch_key_other (x : Float) (number : x.isNaN = false) (other : (x == 0.0) = false) :
    switchKey? (.number x) = some (.number x) := by
  rw [switchKey?, number, other, if_neg Bool.false_ne_true, if_neg Bool.false_ne_true]

-- A zero and another number have different keys.
theorem keys_differ (x y : Float) (zero : (x == 0.0) = true) (number : y.isNaN = false)
    (other : (y == 0.0) = false) : switchKey? (.number x) ≠ switchKey? (.number y) ∧ x ≠ y := by
  have least : ((0.0 : Float) == 0.0) = true := by rfl
  rw [switch_key_zero x zero, switch_key_other y number other]
  constructor
  · intro same
    cases same
    cases other.symm.trans least
  · rintro rfl
    cases other.symm.trans zero

theorem numbers_equal_keys (x y : Float) :
    (x == y) = true ↔ ∃ key, switchKey? (.number x) = some key ∧ switchKey? (.number y) = some key := by
  rw [Number.equal_iff]
  cases left : x.isNaN with
  | true => simp [switch_key_nan x left]
  | false =>
  cases right : y.isNaN with
  | true => simp [switch_key_nan y right]
  | false =>
  cases zeroLeft : x == 0.0 <;> cases zeroRight : y == 0.0
  · rw [switch_key_other x left zeroLeft, switch_key_other y right zeroRight]
    simp [eq_comm]
  · obtain ⟨keys, values⟩ := keys_differ y x zeroRight left zeroLeft
    simp only [Ne.symm values, Bool.false_eq_true, false_and, or_false, and_false, false_iff]
    exact fun ⟨key, first, second⟩ => keys (second.trans first.symm)
  · obtain ⟨keys, values⟩ := keys_differ x y zeroLeft right zeroRight
    simp only [values, Bool.false_eq_true, or_false, and_false, false_iff]
    exact fun ⟨key, first, second⟩ => keys (first.trans second.symm)
  · simp [switch_key_zero x zeroLeft, switch_key_zero y zeroRight]

theorem switch_key_equal (v c : Value) (primitive : c.isObject = false) :
    strictlyEqual v c = true ↔ ∃ key, switchKey? v = some key ∧ switchKey? c = some key := by
  cases v <;> cases c
  case number.number x y => exact numbers_equal_keys x y
  all_goals simp_all [strictlyEqual, switchKey?, Value.isObject]
  all_goals first
    | exact eq_comm
    | exact fun _ => by split <;> simp

theorem find_clause_cons (v c : Value) (clause : Nat) (rest : List (Nat × Value))
    (primitive : c.isObject = false) :
    findClause (directTable ((clause, c) :: rest)) v =
      if strictlyEqual v c then some clause else findClause (directTable rest) v := by
  have keys := switch_key_equal v c primitive
  rw [findClause, findClause, directTable, List.filterMap_cons]
  dsimp only
  cases value : switchKey? v with
  | none =>
    rw [if_neg (by simp [keys, value])]
    rfl
  | some key =>
    cases test : switchKey? c with
    | none =>
      rw [if_neg (by simp [keys, test])]
      rfl
    | some other =>
      rw [Option.map_some, Option.bind_some, Option.bind_some, List.lookup_cons]
      by_cases same : key = other
      · rw [if_pos (keys.mpr ⟨key, value, by rw [test, same]⟩), same, beq_self_eq_true]
      · rw [if_neg (by simp [keys, value, test, Ne.symm same]), beq_false_of_ne same]
        rfl

/-! Tests in turn. -/

-- The first of the constants that equals a value, and the clause it selects.
def firstEqual (v : Value) (tests : List (Nat × Value)) : Option Nat :=
  (tests.find? fun test => strictlyEqual v test.2).map Prod.fst

-- The tests as they are evaluated one after the other.
def inTurn (tests : List (Nat × Typed)) : List Test :=
  tests.map fun test => .mk test.1 test.2.expr

theorem find_clause_first (v : Value) (tests : List (Nat × Value)) (primitive : ∀ test ∈ tests, test.2.isObject = false) :
    findClause (directTable tests) v = firstEqual v tests := by
  induction tests with
  | nil =>
    rw [findClause]
    cases switchKey? v <;> rfl
  | cons test rest hyp =>
    obtain ⟨clause, c⟩ := test
    obtain ⟨here, others⟩ := List.forall_mem_cons.mp primitive
    rw [find_clause_cons v c clause rest here, hyp others, firstEqual, firstEqual, List.find?_cons]
    cases strictlyEqual v c <;> rfl

theorem constants_cons (clause : Nat) (t : Typed) (rest : List (Nat × Typed)) (found : List (Nat × Value))
    (known : constants? ((clause, t) :: rest) = some found) :
    ∃ c others, t.expr = .constant c ∧ constants? rest = some others ∧ found = (clause, c) :: others := by
  rw [constants?] at known
  split at known
  · next c others value remaining =>
    cases known
    exact ⟨c, others, value_of_constant t c value, remaining, rfl⟩
  · cases known

theorem constants_primitive (tests : List (Nat × Typed)) (found : List (Nat × Value))
    (known : constants? tests = some found) (plain : ∀ test ∈ tests, test.2.expr.Plain) :
    ∀ test ∈ found, test.2.isObject = false := by
  induction tests generalizing found with
  | nil =>
    cases known
    exact nofun
  | cons test rest hyp =>
    obtain ⟨clause, t⟩ := test
    obtain ⟨c, others, constant, remaining, rfl⟩ := constants_cons clause t rest found known
    obtain ⟨here, later⟩ := List.forall_mem_cons.mp plain
    dsimp only at here
    rw [constant, Expr.Plain] at here
    exact List.forall_mem_cons.mpr ⟨here, hyp others remaining later⟩

-- Constants are evaluated without any effect, so only the first one that is equal counts.
theorem constants_select (strict : Bool) (m : Machine) (v : Value) (tests : List (Nat × Typed))
    (found : List (Nat × Value)) (known : constants? tests = some found) :
    selectTest strict v (inTurn tests) m = (pure (firstEqual v found) : Run (Option Nat)) m := by
  induction tests generalizing found with
  | nil =>
    cases known
    rw [inTurn, List.map_nil, selectTest]
    rfl
  | cons test rest hyp =>
    obtain ⟨clause, t⟩ := test
    obtain ⟨c, others, constant, remaining, rfl⟩ := constants_cons clause t rest found known
    change selectTest strict v (.mk clause t.expr :: inTurn rest) m = _
    rw [selectTest, constant, evaluate_constant, bind_pure_at, firstEqual, List.find?_cons]
    cases strictlyEqual v c with
    | true => rfl
    | false => exact hyp others remaining

-- Each of these tests is evaluated once, where the one before it has ended, and none of them is equal to the value.
inductive Passes (strict : Bool) (m : Machine) (v : Value) : List Test → Realm → Realm → Prop
  | nil (r : Realm) : Passes strict m v [] r r
  | cons (clause : Nat) (e : Expr) (rest : List Test) (r between s : Realm) (t : Value)
      (ended : evaluate strict e m r = .ok t between) (differs : strictlyEqual v t = false)
      (later : Passes strict m v rest between s) : Passes strict m v (.mk clause e :: rest) r s

-- The test that is evaluated last selects its clause or is broken off, and then no other one is evaluated.
inductive Decides (strict : Bool) (m : Machine) (v : Value) :
    List Test → Realm → EStateM.Result Interrupt Realm (Option Nat) → Prop
  | nothing (r : Realm) : Decides strict m v [] r (.ok none r)
  | equal (clause : Nat) (e : Expr) (unused : List Test) (r s : Realm) (t : Value)
      (ended : evaluate strict e m r = .ok t s) (same : strictlyEqual v t = true) :
      Decides strict m v (.mk clause e :: unused) r (.ok (some clause) s)
  | broken (clause : Nat) (e : Expr) (unused : List Test) (r s : Realm) (x : Interrupt)
      (ended : evaluate strict e m r = .error x s) : Decides strict m v (.mk clause e :: unused) r (.error x s)

theorem tests_in_turn (strict : Bool) (m : Machine) (v : Value) (tests : List Test) (r : Realm) :
    ∃ passed rest s, tests = passed ++ rest ∧ Passes strict m v passed r s ∧
      Decides strict m v rest s (selectTest strict v tests m r) := by
  induction tests generalizing r with
  | nil =>
    rw [selectTest]
    exact ⟨[], [], r, rfl, .nil r, .nothing r⟩
  | cons test tests hyp =>
    obtain ⟨clause, e⟩ := test
    rw [selectTest, bind_at]
    cases ended : evaluate strict e m r with
    | error x s => exact ⟨[], _, r, rfl, .nil r, .broken clause e tests r s x ended⟩
    | ok t between =>
      dsimp only
      cases same : strictlyEqual v t with
      | true =>
        rw [if_pos rfl]
        exact ⟨[], _, r, rfl, .nil r, .equal clause e tests r between t ended same⟩
      | false =>
        rw [if_neg Bool.false_ne_true]
        obtain ⟨passed, rest, s, is, passes, decides⟩ := hyp between
        exact ⟨.mk clause e :: passed, rest, s, congrArg _ is,
          .cons clause e passed r between s t ended same passes, decides⟩

theorem switch_same (strict : Bool) (m : Machine) (a b : Selector) (labels : List Label) (subject : Expr)
    (otherwise : Option Nat) (clauses : List Clause) (same : ∀ v, select strict v a m = select strict v b m) :
    act strict (.switching labels subject a otherwise clauses) m =
      act strict (.switching labels subject b otherwise clauses) m := by
  rw [act, act]
  exact bind_second _ _ _ m fun v => bind_same _ _ _ m (same v)

/-- Where all tests of a `switch` statement are constants, the table selects the clause of the first test that
equals the value, as evaluating them in turn does, so that both ways to find a clause make the same statement.
Tests that are evaluated in turn are evaluated once each, up to the first that is equal, and no further. -/
theorem switch_shapes_agree (s : Surroundings) (clauses : List Syntax.Clause) (strict : Bool) (m : Machine) :
    let tests := (compileTests s 0 clauses).1
    (∀ found, constants? tests = some found →
      chooseSelector tests = .direct (directTable found) ∧
      (∀ v, findClause (directTable found) v = firstEqual v found) ∧
      (∀ v, select strict v (.direct (directTable found)) m = select strict v (.tests (inTurn tests)) m) ∧
      ∀ labels subject otherwise bodies,
        act strict (.switching labels subject (.direct (directTable found)) otherwise bodies) m =
          act strict (.switching labels subject (.tests (inTurn tests)) otherwise bodies) m) ∧
    (constants? tests = none → chooseSelector tests = .tests (inTurn tests)) ∧
    ∀ v r, ∃ passed rest between, inTurn tests = passed ++ rest ∧ Passes strict m v passed r between ∧
      Decides strict m v rest between (select strict v (.tests (inTurn tests)) m r) := by
  intro tests
  refine ⟨fun found known => ?_, fun unknown => ?_, fun v r => ?_⟩
  · have first (v : Value) := find_clause_first v found
      (constants_primitive tests found known (tests_plain s 0 clauses))
    have same (v : Value) : select strict v (.direct (directTable found)) m = select strict v (.tests (inTurn tests)) m := by
      rw [select, select, constants_select strict m v tests found known, first]
    refine ⟨?_, first, same, fun labels subject otherwise bodies => ?_⟩
    · rw [chooseSelector, known]
    · exact switch_same strict m _ _ labels subject otherwise bodies same
  · rw [chooseSelector, unknown]
    rfl
  · rw [select]
    exact tests_in_turn strict m v (inTurn tests) r

-- A negative zero is found under the first of two zeroes, behind a default clause, and what is no number is not found.
theorem switch_shapes_agree_zeroes :
    let test (x : Float) : Option Syntax.Expression := some (.literal default (.number x))
    let tests := (compileTests ⟨default, "", []⟩ 0
      [.mk default (test Number.nan) [], .mk default none [], .mk default (test 0.0) [], .mk default (test 0.0) []]).1
    let found : List (Nat × Value) := [(0, .number Number.nan), (2, .number 0.0), (3, .number 0.0)]
    constants? tests = some found ∧ findClause (directTable found) (.number (-0.0)) = some 2 ∧
      findClause (directTable found) (.number Number.nan) = none := by
  intro test tests found
  have known : constants? tests = some found := by
    simp [tests, test, found, compileTests, compileExpr, constants?, literalValue, Typed.constant, Typed.value?]
  obtain ⟨⟨_, first, _⟩, _⟩ := (switch_shapes_agree ⟨default, "", []⟩ _ false
    (machine (fun _ _ _ => pure .undefined) .resolved 0 0)).imp_left fun each => each found known
  rw [first, first]
  exact ⟨known, by rfl, by rfl⟩

end Ecma
