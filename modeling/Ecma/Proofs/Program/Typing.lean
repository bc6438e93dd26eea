import Ecma.Eval.Machine
import Ecma.Eval.Place
import Ecma.Program.Compile
import Ecma.Proofs.Number.Comparison
import Ecma.Proofs.Run.Result

set_option autoImplicit false

/-!
The operators that are chosen for operands of known types. Each does what the operator with all its
conversions does, and its result is among the types that were found for it.
-/

namespace Ecma

open Ecma.Program Ecma.Syntax Run

/-! Values and types. -/

theorem within_trans (a b c : TypeSet) (first : a.isWithin b = true) (second : b.isWithin c = true) :
    a.isWithin c = true := by
  simp only [TypeSet.isWithin, Bool.and_eq_true, Bool.or_eq_true, Bool.not_eq_true'] at first second ⊢
  grind

theorem within_all (a : TypeSet) : a.isWithin .all = true := by
  simp [TypeSet.isWithin, TypeSet.all]

theorem within_self (a : TypeSet) : a.isWithin a = true := by
  simp [TypeSet.isWithin]

theorem within_union_left (a b : TypeSet) : a.isWithin (a.union b) = true := by
  cases a
  cases b
  simp [TypeSet.isWithin, TypeSet.union]
  grind

theorem within_union_right (a b : TypeSet) : b.isWithin (a.union b) = true := by
  cases a
  cases b
  simp [TypeSet.isWithin, TypeSet.union]
  grind

theorem number_of_type (v : Value) (types : TypeSet) (typed : (TypeSet.of v).isWithin types = true)
    (numbers : types.isWithin .ofNumber = true) : ∃ x, v = .number x := by
  have number := within_trans _ _ _ typed numbers
  cases v with
  | number x => exact ⟨x, rfl⟩
  | _ => cases number

theorem string_of_type (v : Value) (types : TypeSet) (typed : (TypeSet.of v).isWithin types = true)
    (strings : types.isWithin .ofString = true) : ∃ s, v = .string s := by
  have string := within_trans _ _ _ typed strings
  cases v with
  | string s => exact ⟨s, rfl⟩
  | _ => cases string

theorem primitive_of_type (v : Value) (types : TypeSet) (typed : (TypeSet.of v).isWithin types = true)
    (primitive : types.isPrimitive = true) : v.isObject = false := by
  cases v with
  | object id =>
    rw [TypeSet.isPrimitive, Bool.not_eq_true'] at primitive
    simp [TypeSet.isWithin, TypeSet.of, TypeSet.ofObject, primitive] at typed
  | _ => rfl

-- A value of a single type has the type that the set has.
theorem single_type (a b : Value) (types : TypeSet) (single : types.isSingle = true)
    (left : (TypeSet.of a).isWithin types = true) (right : (TypeSet.of b).isWithin types = true) :
    TypeSet.of a = TypeSet.of b := by
  rw [TypeSet.isSingle, TypeSet.toList, beq_iff_eq] at single
  simp only [List.count_cons, List.count_nil] at single
  cases a <;> cases b <;>
    simp [TypeSet.of, TypeSet.isWithin, TypeSet.ofUndefined, TypeSet.ofNull, TypeSet.ofBoolean,
      TypeSet.ofNumber, TypeSet.ofString, TypeSet.ofObject] at left right ⊢ <;>
    simp [left, right] at single <;> omega

/-! Primitives need no conversion. -/

theorem primitive_itself (v : Value) (hint : Hint) (primitive : v.isObject = false) :
    toPrimitive v hint = pure v := by
  cases v with
  | object id => cases primitive
  | _ => rfl

theorem primitive_number (v : Value) (primitive : v.isObject = false) :
    toNumber v = pure v.primitiveNumber := by
  rw [toNumber, primitive_itself v .number primitive]
  rfl

theorem primitive_sum (a b : Value) (left : a.isObject = false) (right : b.isObject = false) :
    add a b = pure (addPrimitives a b) := by
  rw [add, primitive_itself a .number left, primitive_itself b .number right]
  rfl

theorem string_sum (a b : Value) (text : (∃ s, a = .string s) ∨ (∃ s, b = .string s)) :
    addPrimitives a b = concat a b := by
  rcases text with ⟨s, rfl⟩ | ⟨s, rfl⟩
  · cases b <;> rfl
  · cases a <;> rfl

/-! Comparison. -/

theorem numbers_compared (x y : Float) :
    lessPrimitives (.number x) (.number y) =
      if x.isNaN || y.isNaN then none else some (decide (x < y)) := by
  rfl

theorem less_true (x y : Float) :
    (lessPrimitives (.number x) (.number y) == some true) = decide (x < y) := by
  rw [numbers_compared]
  by_cases less : x < y
  · have ordered := Number.less_ordered x y less
    rw [ordered.1, ordered.2, Bool.or_false, if_neg Bool.false_ne_true, decide_eq_true less]
    rfl
  · rw [decide_eq_false less]
    split <;> rfl

theorem less_false (x y : Float) :
    (lessPrimitives (.number x) (.number y) == some false) = decide (y ≤ x) := by
  have order := Number.at_most_iff y x
  rw [numbers_compared]
  by_cases atMost : y ≤ x
  · obtain ⟨right, left, notLess⟩ := order.mp atMost
    rw [left, right, Bool.or_false, if_neg Bool.false_ne_true, decide_eq_false notLess,
      decide_eq_true atMost]
    rfl
  · rw [decide_eq_false atMost]
    by_cases unordered : (x.isNaN || y.isNaN) = true
    · rw [if_pos unordered]
      rfl
    · rw [if_neg unordered]
      rw [Bool.not_eq_true, Bool.or_eq_false_iff] at unordered
      have less : x < y := by
        by_contra notLess
        exact atMost (order.mpr ⟨unordered.2, unordered.1, notLess⟩)
      rw [decide_eq_true less]
      rfl

theorem compare_numbers_agrees (op : BinaryOp) (x y : Float) :
    compareValues op (.number x) (.number y) = pure (compareNumbers op x y) := by
  have less_of (a b : Float) (first : Bool) :
      less (.number a) (.number b) first = pure (lessPrimitives (.number a) (.number b)) := by
    cases first <;> rfl
  cases op <;> simp only [compareValues, less_of, pure_bind, less_true, less_false, compareNumbers]

/-! Equality. -/

theorem boolean_numbers (a b : Bool) :
    ((Value.boolean a).primitiveNumber == (Value.boolean b).primitiveNumber) = (a == b) := by
  cases a <;> cases b <;> decide

theorem same_type_equal (a b : Value) (primitive : a.isObject = false)
    (same : TypeSet.of a = TypeSet.of b) : looselyEqual a b = pure (strictlyEqual a b) := by
  cases a with
  | object id => cases primitive
  | boolean x =>
    cases b with
    | boolean y =>
      have numbers := boolean_numbers x y
      simp only [looselyEqual, unboolean, looselyEqualPrimitives, strictlyEqual, numbers]
      cases x <;> cases y <;> rfl
    | _ => exact absurd same (by simp [TypeSet.of, TypeSet.ofBoolean, TypeSet.ofUndefined,
        TypeSet.ofNull, TypeSet.ofNumber, TypeSet.ofString, TypeSet.ofObject])
  | _ =>
    cases b with
    | _ => first
      | rfl
      | exact absurd same (by simp [TypeSet.of, TypeSet.ofBoolean, TypeSet.ofUndefined,
          TypeSet.ofNull, TypeSet.ofNumber, TypeSet.ofString, TypeSet.ofObject])

/-! The chosen operation. -/

theorem numeric_agrees (op : BinaryOp) (f : Float → Float → Float) (a b : Value)
    (numeric : numeric? op = some f) (left : a.isObject = false) (right : b.isObject = false) :
    operate op a b = pure (applyNumeric f a b) := by
  unfold operate
  rw [numeric]
  simp only [primitive_number a left, primitive_number b right, pure_bind]
  rfl

theorem operate_add (a b : Value) : operate .add a b = add a b := by
  rfl

theorem add_agrees (a b : Value) (left right : TypeSet)
    (leftTyped : (TypeSet.of a).isWithin left = true)
    (rightTyped : (TypeSet.of b).isWithin right = true) :
    perform (chooseAdd left right).1 a b = operate .add a b := by
  rw [chooseAdd, operate_add]
  by_cases numbers : (left.isWithin .ofNumber && right.isWithin .ofNumber) = true
  · rw [if_pos numbers]
    rw [Bool.and_eq_true] at numbers
    obtain ⟨x, rfl⟩ := number_of_type a left leftTyped numbers.1
    obtain ⟨y, rfl⟩ := number_of_type b right rightTyped numbers.2
    rfl
  · rw [if_neg numbers]
    by_cases primitive : (left.isPrimitive && right.isPrimitive) = true
    · have both := primitive
      rw [Bool.and_eq_true] at both
      have sum := primitive_sum a b (primitive_of_type a left leftTyped both.1)
        (primitive_of_type b right rightTyped both.2)
      rw [primitive, Bool.true_and, if_pos rfl, sum]
      by_cases text : (left.isWithin .ofString || right.isWithin .ofString) = true
      · rw [if_pos text]
        rw [Bool.or_eq_true] at text
        have strings : (∃ s, a = .string s) ∨ (∃ s, b = .string s) :=
          text.imp (string_of_type a left leftTyped) (string_of_type b right rightTyped)
        rw [string_sum a b strings]
        rfl
      · rw [if_neg text]
        rfl
    · rw [Bool.not_eq_true] at primitive
      rw [primitive]
      rfl

theorem comparison_agrees (op : BinaryOp) (a b : Value) (left right : TypeSet)
    (compares : operate op a b = .boolean <$> compareValues op a b)
    (leftTyped : (TypeSet.of a).isWithin left = true)
    (rightTyped : (TypeSet.of b).isWithin right = true) :
    perform (chooseComparison op left right) a b = operate op a b := by
  rw [chooseComparison]
  by_cases numbers : (left.isWithin .ofNumber && right.isWithin .ofNumber) = true
  · rw [if_pos numbers, compares]
    rw [Bool.and_eq_true] at numbers
    obtain ⟨x, rfl⟩ := number_of_type a left leftTyped numbers.1
    obtain ⟨y, rfl⟩ := number_of_type b right rightTyped numbers.2
    rw [compare_numbers_agrees]
    rfl
  · rw [if_neg numbers]
    rfl

theorem equality_agrees (op : BinaryOp) (a b : Value) (left right : TypeSet)
    (equality : op = .equal ∨ op = .unequal)
    (leftTyped : (TypeSet.of a).isWithin left = true)
    (rightTyped : (TypeSet.of b).isWithin right = true) :
    perform (chooseEquality op left right) a b = operate op a b := by
  rw [chooseEquality]
  by_cases same : (left.isPrimitive && right.isPrimitive && left == right && left.isSingle) = true
  · rw [if_pos same]
    simp only [Bool.and_eq_true, beq_iff_eq] at same
    obtain ⟨⟨⟨primitive, _⟩, rfl⟩, single⟩ := same
    have equal := same_type_equal a b (primitive_of_type a left leftTyped primitive)
      (single_type a b left single leftTyped rightTyped)
    rcases equality with rfl | rfl <;>
      simp only [operate, numeric?, equate, equal, pure_bind, perform] <;>
      cases strictlyEqual a b <;> rfl
  · rw [if_neg same]
    rfl

theorem operation_agrees (op : BinaryOp) (a b : Value) (left right : TypeSet)
    (leftTyped : (TypeSet.of a).isWithin left = true)
    (rightTyped : (TypeSet.of b).isWithin right = true) :
    perform (chooseOperation op left right).1 a b = operate op a b := by
  cases op with
  | add => exact add_agrees a b left right leftTyped rightTyped
  | less | lessEqual | greater | greaterEqual =>
    exact comparison_agrees _ a b left right rfl leftTyped rightTyped
  | equal => exact equality_agrees .equal a b left right (Or.inl rfl) leftTyped rightTyped
  | unequal => exact equality_agrees .unequal a b left right (Or.inr rfl) leftTyped rightTyped
  | strictEqual | strictUnequal | isIn | instanceOf => rfl
  | _ =>
    rw [chooseOperation]
    dsimp only
    split
    · rename_i primitive
      rw [Bool.and_eq_true] at primitive
      exact (numeric_agrees _ _ a b rfl (primitive_of_type a left leftTyped primitive.1)
        (primitive_of_type b right rightTyped primitive.2)).symm
    · rfl

end Ecma

/-!
The types of the values that runs give: those of the operators, and those of what is constructed, which
is always an object.
-/

namespace Ecma

open Ecma.Program Ecma.Syntax Run

/-- Every value that the run can give on the machine has one of the types. -/
def Gives (m : Machine) (run : Run Value) (types : TypeSet) : Prop :=
  ∀ (r : Realm) (v : Value) (r' : Realm), run m r = .ok v r' → (TypeSet.of v).isWithin types = true

section

variable {α : Type} (m : Machine) (types : TypeSet)

theorem gives_pure (v : Value) (typed : (TypeSet.of v).isWithin types = true) :
    Gives m (pure v) types := by
  intro r w r' ended
  cases ended
  exact typed

theorem gives_bind (x : Run α) (f : α → Run Value) (next : ∀ a, Gives m (f a) types) :
    Gives m (x >>= f) types := by
  intro r v r' ended
  obtain ⟨a, between, _, second⟩ := bind_ok x f m r r' v ended
  exact next a between v r' second

theorem gives_throw (e : Interrupt) : Gives m (throw e) types := by
  intro r v r' ended
  cases ended

theorem gives_throw_error (kind : ErrorKind) (message : String) :
    Gives m (Run.throwError kind message) types := by
  exact gives_bind m types _ _ fun _ => gives_throw m types _

theorem gives_wider (run : Run Value) (narrow : TypeSet) (gives : Gives m run narrow)
    (within : narrow.isWithin types = true) : Gives m run types := by
  intro r v r' ended
  exact within_trans _ _ _ (gives r v r' ended) within

theorem gives_always (after : Realm → Realm) (run : Run Value) (gives : Gives m run types) :
    Gives m (always after run) types := by
  intro r v r' ended
  rw [always] at ended
  cases found : run m r with
  | ok w between =>
    rw [found] at ended
    cases ended
    exact gives r _ between found
  | error e between =>
    rw [found] at ended
    cases ended

theorem gives_in_context (c : Context) (run : Run Value) (gives : Gives m run types) :
    Gives m (inContext c run) types := by
  have inside := gives_always m types leaveContext run gives
  refine gives_bind m types _ _ fun r => ?_
  dsimp only
  split
  · exact gives_bind m types _ _ fun _ => gives_bind m types _ _ fun _ => gives_bind m types _ _ fun _ =>
      inside
  · exact gives_bind m types _ _ fun _ => inside

end

/-! Operators. -/

theorem sum_typed (a b : Value) :
    (TypeSet.of (addPrimitives a b)).isWithin (.union .ofNumber .ofString) = true := by
  cases a <;> cases b <;> rfl

theorem add_typed (m : Machine) (a b : Value) (left right : TypeSet)
    (leftTyped : (TypeSet.of a).isWithin left = true)
    (rightTyped : (TypeSet.of b).isWithin right = true) :
    Gives m (add a b) (chooseAdd left right).2 := by
  rw [chooseAdd]
  by_cases numbers : (left.isWithin .ofNumber && right.isWithin .ofNumber) = true
  · rw [if_pos numbers]
    rw [Bool.and_eq_true] at numbers
    obtain ⟨x, rfl⟩ := number_of_type a left leftTyped numbers.1
    obtain ⟨y, rfl⟩ := number_of_type b right rightTyped numbers.2
    exact gives_pure m _ _ rfl
  · rw [if_neg numbers]
    by_cases text : (left.isWithin .ofString || right.isWithin .ofString) = true
    · rw [if_pos text]
      rw [Bool.or_eq_true] at text
      -- The operand that is a text stays what it is when operands are converted.
      rcases text with strings | strings
      · obtain ⟨s, rfl⟩ := string_of_type a left leftTyped strings
        rw [add, primitive_itself (.string s) .number rfl, pure_bind]
        refine gives_bind m _ _ _ fun y => ?_
        rw [string_sum _ y (Or.inl ⟨s, rfl⟩)]
        exact gives_pure m _ _ rfl
      · obtain ⟨s, rfl⟩ := string_of_type b right rightTyped strings
        refine gives_bind m _ _ _ fun x => ?_
        rw [primitive_itself (.string s) .number rfl, pure_bind, string_sum x _ (Or.inr ⟨s, rfl⟩)]
        exact gives_pure m _ _ rfl
    · rw [if_neg text]
      refine gives_bind m _ _ _ fun x => gives_bind m _ _ _ fun y => ?_
      exact gives_pure m _ _ (sum_typed x y)

theorem operate_typed (m : Machine) (op : BinaryOp) (a b : Value) (left right : TypeSet)
    (leftTyped : (TypeSet.of a).isWithin left = true)
    (rightTyped : (TypeSet.of b).isWithin right = true) :
    Gives m (operate op a b) (chooseOperation op left right).2 := by
  cases op with
  | add => exact add_typed m a b left right leftTyped rightTyped
  | less | lessEqual | greater | greaterEqual | equal | unequal | strictEqual | strictUnequal | isIn
  | instanceOf => exact gives_bind m _ _ _ fun _ => gives_pure m _ _ rfl
  | _ =>
    refine gives_bind m _ _ _ fun _ => gives_bind m _ _ _ fun _ => ?_
    exact gives_pure m _ _ rfl

/-! What is constructed. -/

theorem object_function_typed (m : Machine) (args : List Value) :
    Gives m (ObjectFunction.run .constructor .undefined args) .ofObject := by
  unfold ObjectFunction.run
  dsimp only
  split <;> exact gives_bind m _ _ _ fun _ => gives_pure m _ _ rfl

theorem array_function_typed (m : Machine) (args : List Value) :
    Gives m (constructArray args) .ofObject := by
  unfold constructArray
  split
  · split
    · exact gives_bind m _ _ _ fun _ => gives_bind m _ _ _ fun _ => gives_bind m _ _ _ fun _ =>
        gives_pure m _ _ rfl
    · exact gives_bind m _ _ _ fun _ => gives_bind m _ _ _ fun _ => gives_pure m _ _ rfl
  · exact gives_bind m _ _ _ fun _ => gives_pure m _ _ rfl

theorem error_function_typed (m : Machine) (prototype : ObjectId) (args : List Value) :
    Gives m (constructError prototype args) .ofObject := by
  unfold constructError
  split
  · exact gives_bind m _ _ _ fun _ => gives_pure m _ _ rfl
  · exact gives_bind m _ _ _ fun _ => gives_bind m _ _ _ fun _ => gives_pure m _ _ rfl

theorem builtin_construct_typed (m : Machine) (b : Builtin) (args : List Value)
    (constructor : b.signature.isConstructor = true) : Gives m (b.construct args) .ofObject := by
  cases b with
  | global f =>
    cases f with
    | customFunction =>
      exact gives_bind m _ _ _ fun _ => gives_bind m _ _ _ fun _ => gives_pure m _ _ rfl
    | _ => cases constructor
  | object f =>
    cases f with
    | constructor => exact object_function_typed m args
    | _ => cases constructor
  | function f =>
    cases f with
    | constructor =>
      exact gives_bind m _ _ _ fun _ => gives_bind m _ _ _ fun _ => gives_pure m _ _ rfl
    | _ => cases constructor
  | array f =>
    cases f with
    | constructor => exact array_function_typed m args
    | _ => cases constructor
  | string f =>
    cases f with
    | constructor =>
      exact gives_bind m _ _ _ fun _ => gives_bind m _ _ _ fun _ => gives_pure m _ _ rfl
    | _ => cases constructor
  | number f =>
    cases f with
    | constructor =>
      exact gives_bind m _ _ _ fun _ => gives_bind m _ _ _ fun _ => gives_pure m _ _ rfl
    | _ => cases constructor
  | boolean f =>
    cases f with
    | constructor => exact gives_bind m _ _ _ fun _ => gives_pure m _ _ rfl
    | _ => cases constructor
  | error f =>
    cases f with
    | constructor => exact error_function_typed m _ args
    | native kind => exact error_function_typed m _ args
    | _ => cases constructor
  | console f => cases f <;> cases constructor

theorem construct_script_typed (m : Machine) (routine : Routine) (f : ObjectId)
    (scope : EnvironmentId) (args : List Value) :
    Gives m (constructScript routine f scope args) .ofObject := by
  refine gives_bind m _ _ _ fun _ => gives_bind m _ _ _ fun id => gives_bind m _ _ _ fun result => ?_
  cases result with
  | object own => exact gives_pure m _ _ rfl
  | _ => exact gives_pure m _ _ rfl

theorem construct_unbound_typed (m : Machine) (f : ObjectId) (args : List Value) :
    Gives m (constructUnbound f args) .ofObject := by
  refine gives_bind m _ _ _ fun h => ?_
  split
  · exact construct_script_typed m _ f _ args
  · split
    · rename_i constructor
      exact gives_in_context m _ _ _ (builtin_construct_typed m _ args constructor)
    · exact gives_throw_error m _ _ _
  · exact gives_throw_error m _ _ _
  · exact gives_throw_error m _ _ _

/-- Constructing on the machine gives an object, if it gives anything. -/
def Machine.ConstructsObjects (m : Machine) : Prop :=
  ∀ (f : ObjectId) (args : List Value), Gives m (Run.enter (.construct f args)) .ofObject

theorem machine_constructs (host : HostFunction) (lookup : Lookup) (rounds depth : Nat) :
    (machine host lookup rounds depth).ConstructsObjects := by
  intro f args
  cases depth with
  | zero =>
    intro r v r' ended
    cases ended
  | succ depth =>
    intro r v r' ended
    have typed : Gives (machine host lookup rounds depth) (dispatch host (.construct f args))
        .ofObject :=
      gives_bind _ _ _ _ fun h => construct_unbound_typed _ _ _
    exact typed r v r' ended

theorem construct_typed (m : Machine) (constructs : m.ConstructsObjects) (f : Value)
    (args : List Value) : Gives m (construct f args) .ofObject := by
  refine gives_bind m _ _ _ fun h => ?_
  cases f with
  | object id =>
    dsimp only
    split
    · exact constructs id args
    · exact gives_throw_error m _ _ _
  | _ => exact gives_throw_error m _ _ _

theorem construct_at_typed (m : Machine) (constructs : m.ConstructsObjects) (site : Site)
    (f : Value) (args : List Value) : Gives m (constructAt site f args) .ofObject := by
  refine gives_bind m _ _ _ fun _ => gives_bind m _ _ _ fun h => ?_
  split
  · exact gives_bind m _ _ _ fun _ => construct_typed m constructs f args
  · exact construct_typed m constructs f args

end Ecma
