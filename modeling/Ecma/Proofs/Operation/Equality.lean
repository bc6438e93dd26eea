import Ecma.Operation.Operator
import Ecma.Proofs.Number.Comparison
import Ecma.Proofs.Run.Course

set_option autoImplicit false

/-!
The operator `==`. Its rules are written down as a relation on values; what they leave to the code of scripts is the
conversion of an object that is compared with a string, a number or a boolean. Neither the rules nor the
conversion depend on which operand stands on the left.
-/

namespace Ecma

open Run

namespace Value

/-- The rules of `==`. Values of one type are equal as by `===`; undefined and null are equal; a text is compared with
a number as a number, and a boolean is compared as a number with anything. No rule is about an object and a primitive,
as the object is converted first. -/
inductive Equals : Value → Value → Prop
  | undefined : Equals .undefined .undefined
  | null : Equals .null .null
  | numbers (x y : Float) (equal : (x == y) = true) : Equals (.number x) (.number y)
  | strings (s : String) : Equals (.string s) (.string s)
  | booleans (b : Bool) : Equals (.boolean b) (.boolean b)
  | objects (id : ObjectId) : Equals (.object id) (.object id)
  | undefinedNull : Equals .undefined .null
  | nullUndefined : Equals .null .undefined
  | numberString (x : Float) (s : String) (equal : (x == Number.ofText s) = true) : Equals (.number x) (.string s)
  | stringNumber (s : String) (y : Float) (equal : (Number.ofText s == y) = true) : Equals (.string s) (.number y)
  | booleanLeft (b : Bool) (v : Value) (rest : Equals (.number (if b then 1.0 else 0.0)) v) : Equals (.boolean b) v
  | booleanRight (v : Value) (b : Bool) (rest : Equals v (.number (if b then 1.0 else 0.0))) : Equals v (.boolean b)

end Value

theorem float_equal_comm (x y : Float) : (x == y) = (y == x) := by
  rw [Bool.eq_iff_iff, Number.equal_iff x y, Number.equal_iff y x]
  constructor <;> exact fun ⟨left, right, same⟩ => ⟨right, left, same.imp Eq.symm And.symm⟩

theorem strictly_equal_comm (a b : Value) : strictlyEqual a b = strictlyEqual b a := by
  cases a <;> cases b
  case number.number x y => exact float_equal_comm x y
  all_goals simp [strictlyEqual, eq_comm]

theorem primitives_equal_comm (a b : Value) : looselyEqualPrimitives a b = looselyEqualPrimitives b a := by
  rw [looselyEqualPrimitives, looselyEqualPrimitives]
  cases unboolean a <;> cases unboolean b
  case number.string x s => exact float_equal_comm _ _
  case string.number s x => exact float_equal_comm _ _
  all_goals first
    | rfl
    | exact strictly_equal_comm _ _

-- Only an operand that is an object is converted, and if both are, neither is.
theorem loosely_equal_comm (a b : Value) : looselyEqual a b = looselyEqual b a := by
  rw [looselyEqual, looselyEqual]
  have pairs (v : Value) (id : ObjectId) : (do
      return looselyEqualPrimitives v (← toPrimitive (.object id) .number) : Run Bool) = do
      return looselyEqualPrimitives (← toPrimitive (.object id) .number) v := by
    simp only [primitives_equal_comm v]
  cases unboolean a <;> cases unboolean b
  case object.object x y => exact congrArg pure (Bool.beq_comm ..)
  case object.number | object.string => exact (pairs _ _).symm
  case number.object | string.object => exact pairs _ _
  all_goals first
    | rfl
    | exact congrArg pure (primitives_equal_comm _ _)

theorem equals_boolean_left (b : Bool) (v : Value) :
    (Value.boolean b).Equals v ↔ (Value.number (if b then 1.0 else 0.0)).Equals v := by
  constructor
  · intro equals
    cases equals with
    | booleans => exact .booleanRight _ b (.numbers _ _ (by cases b <;> rfl))
    | booleanLeft _ _ rest => exact rest
    | booleanRight _ c rest =>
      cases rest with
      | booleanLeft _ _ rest => exact .booleanRight _ c rest
  · exact .booleanLeft b v

theorem equals_boolean_right (v : Value) (b : Bool) :
    v.Equals (.boolean b) ↔ v.Equals (.number (if b then 1.0 else 0.0)) := by
  constructor
  · intro equals
    cases equals with
    | booleans => exact .booleanLeft b _ (.numbers _ _ (by cases b <;> rfl))
    | booleanLeft c _ rest =>
      cases rest with
      | booleanRight _ _ rest => exact .booleanLeft c _ rest
    | booleanRight _ _ rest => exact rest
  · exact .booleanRight v b

theorem equals_unboolean (a b : Value) : (unboolean a).Equals (unboolean b) ↔ a.Equals b := by
  have left (v : Value) : (unboolean a).Equals v ↔ a.Equals v := by
    cases a with
    | boolean c => exact (equals_boolean_left c v).symm
    | _ => rfl
  have right (v : Value) : v.Equals (unboolean b) ↔ v.Equals b := by
    cases b with
    | boolean c => exact (equals_boolean_right v c).symm
    | _ => rfl
  rw [left, right]

theorem unboolean_other (v : Value) (c : Bool) : unboolean v ≠ .boolean c := by
  cases v <;> exact Value.noConfusion

-- The rules say when primitives are equal, and when objects are.
theorem primitives_equal_iff (a b : Value) : looselyEqualPrimitives a b = true ↔ a.Equals b := by
  have left := unboolean_other a
  have right := unboolean_other b
  rw [looselyEqualPrimitives, ← equals_unboolean]
  generalize unboolean a = x at left ⊢
  generalize unboolean b = y at right ⊢
  have strict : strictlyEqual x y = true → x.Equals y := by
    intro same
    cases x with
    | number x =>
      cases y with
      | number y => exact .numbers x y same
      | _ => simp [strictlyEqual] at same
    | _ =>
      cases of_decide_eq_true same
      constructor
  constructor
  · intro equal
    split at equal
    · exact .undefinedNull
    · exact .nullUndefined
    · exact .numberString _ _ equal
    · exact .stringNumber _ _ equal
    · exact strict equal
  · intro equals
    cases equals with
    | booleans b => exact absurd rfl (left b)
    | booleanLeft b => exact absurd rfl (left b)
    | booleanRight _ b => exact absurd rfl (right b)
    | numbers _ _ equal => exact equal
    | numberString _ _ equal => exact equal
    | stringNumber _ _ equal => exact equal
    | strings s => exact decide_eq_true rfl
    | objects id => exact decide_eq_true rfl
    | _ => rfl

/-! Conversions. -/

-- A conversion that ends gives a primitive.
theorem first_primitive_ends (id : ObjectId) (methods : List String) (m : Machine) (r s : Realm) (v : Value)
    (ended : firstPrimitive id methods m r = .ok v s) : v.isObject = false := by
  induction methods generalizing r with
  | nil =>
    rw [firstPrimitive, throwTypeError, throw_at] at ended
    cases ended
  | cons method rest hyp =>
    obtain ⟨f, between, _, ended⟩ := bind_ok _ _ m r s v ended
    rw [heap_at] at ended
    split at ended
    · obtain ⟨x, between', _, ended⟩ := bind_ok _ _ m between s v ended
      split at ended
      · exact hyp between' ended
      · next primitive =>
        cases ended
        simpa using primitive
    · exact hyp between ended

theorem converted_primitive (v x : Value) (hint : Hint) (m : Machine) (r s : Realm)
    (ended : toPrimitive v hint m r = .ok x s) : x.isObject = false := by
  cases v with
  | object id => exact first_primitive_ends id _ m r s x ended
  | _ =>
    cases ended
    rfl

-- Where no object has to be converted, the comparison is done at once.
theorem loosely_equal_at_once (a b : Value) (alike : a.isObject = b.isObject) :
    looselyEqual a b = pure (looselyEqualPrimitives a b) := by
  cases a <;> cases b
  case object.object x y =>
    have same : (x == y) = decide (Value.object x = .object y) := by simp only [Value.object.injEq, beq_eq_decide]
    exact congrArg pure same
  all_goals first
    | cases alike; done
    | rfl

theorem loosely_equal_nullish (a b : Value) (object : a.isObject = true) (nullish : b.isNullish = true) :
    looselyEqual a b = pure false := by
  cases a <;> cases object
  cases b <;> cases nullish <;> rfl

theorem loosely_equal_converts (a b : Value) (object : a.isObject = true) (primitive : b.isObject = false)
    (held : b.isNullish = false) :
    looselyEqual a b = do return looselyEqualPrimitives (← toPrimitive a .number) b := by
  cases a <;> cases object
  cases b <;> cases primitive <;> cases held <;> rfl

/-- `==` does the same on either side: it gives the same answer or the same error, by the same calls and with the same
effects. It runs no code unless an object is compared with a string, a number or a boolean, and then it does
nothing but convert the object. Each answer follows the rules. -/
theorem loose_equality_symmetric (a b : Value) :
    looselyEqual a b = looselyEqual b a ∧
    (a.isObject = b.isObject → ∃ equal, (equal = true ↔ a.Equals b) ∧ ∀ m r, looselyEqual a b m r = .ok equal r) ∧
    (a.isObject = true → b.isObject = false → ∀ m r,
      (b.isNullish = true → looselyEqual a b m r = .ok false r) ∧
      (b.isNullish = false → match toPrimitive a .number m r with
        | .ok x s => x.isObject = false ∧ ∃ equal, (equal = true ↔ x.Equals b) ∧ looselyEqual a b m r = .ok equal s
        | .error e s => looselyEqual a b m r = .error e s)) := by
  refine ⟨loosely_equal_comm a b, fun alike => ?_, fun object primitive m r => ⟨fun nullish => ?_, fun held => ?_⟩⟩
  · refine ⟨looselyEqualPrimitives a b, primitives_equal_iff a b, fun m r => ?_⟩
    rw [loosely_equal_at_once a b alike, pure_at]
  · rw [loosely_equal_nullish a b object nullish, pure_at]
  · rw [loosely_equal_converts a b object primitive held, bind_at]
    cases ended : toPrimitive a .number m r with
    | ok x s => exact ⟨converted_primitive a x .number m r s ended, _, primitives_equal_iff x b, rfl⟩
    | error e s => rfl

-- An object with a method that gives a primitive, and a machine on which every call gives one.
def convertibleRealm : Realm where
  heap := { objects := #[{ properties := .ofNames [("valueOf", .free (.object 1))] }, { kind := .function (.host "one") }] }
  config := {}

def unitMachine : Machine where
  rounds := 0
  lookup := .resolved
  enter := fun _ => pure (.number 1.0)

theorem loose_equality_symmetric_boolean :
    (Value.object 0).isObject = true ∧ (Value.boolean true).isObject = false ∧ (Value.boolean true).isNullish = false ∧
      looselyEqual (.object 0) (.boolean true) unitMachine convertibleRealm = .ok true convertibleRealm ∧
      looselyEqual (.boolean true) (.object 0) unitMachine convertibleRealm = .ok true convertibleRealm := by
  have converts : toPrimitive (.object 0) .number unitMachine convertibleRealm = .ok (.number 1.0) convertibleRealm := by
    rfl
  obtain ⟨comm, _, converted⟩ := loose_equality_symmetric (.object 0) (.boolean true)
  have compares := (converted rfl rfl unitMachine convertibleRealm).2 rfl
  rw [converts] at compares
  obtain ⟨_, equal, rules, is⟩ := compares
  cases rules.mpr (.booleanRight _ true (.numbers _ _ rfl))
  exact ⟨rfl, rfl, rfl, is, comm ▸ is⟩

end Ecma
