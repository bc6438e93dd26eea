import Ecma.Proofs.Run.Coded

set_option autoImplicit false

/-!
Bindings, places, calls and expressions are straight.
-/

namespace Ecma

open Ecma.Program Ecma.Syntax Run

section

variable {free moves : Bool}

/-! Bindings and places. -/

theorem create_binding_straight (env : EnvironmentId) (name : String) (deletable : Bool) :
    Straight free moves (createBinding env name deletable) := by
  refine straight_heap _ fun h => ?_
  split
  · exact straight_bindings _ _
  · exact .native _ (native_discard _ (define_own_native _ _ _ _ fun _ => rfl))

theorem set_binding_straight (env : EnvironmentId) (name : String) (v : Value) (strict : Bool) :
    Straight free moves (setBinding env name v strict) := by
  refine straight_heap _ fun h => ?_
  split
  · refine .bind _ _ (straight_bindings _ _) fun _ => ?_
    exact straight_ite _ _ _ (straight_error _ _) (straight_pure _)
  · exact .native _ (put_native _ _ _ _)

theorem get_binding_straight (env : EnvironmentId) (name : String) (strict : Bool) :
    Straight free moves (getBinding env name strict) := by
  refine straight_heap _ fun h => ?_
  split
  · split
    · exact straight_error _ _
    · refine straight_ite _ _ _ ?_ (straight_pure _)
      exact straight_ite _ _ _ (.bind _ _ (straight_error _ _) fun _ => straight_pure _) (straight_pure _)
  · refine straight_ite _ _ _ (.native _ (get_native _ _)) ?_
    exact straight_ite _ _ _ (straight_error _ _) (straight_pure _)

theorem delete_binding_straight (env : EnvironmentId) (name : String) :
    Straight free moves (deleteBinding env name) := by
  refine straight_heap _ fun h => ?_
  split
  · exact .bind _ _ (straight_bindings _ _) fun _ => straight_pure _
  · exact .native _ (delete_own_native _ _ _)

theorem bind_constant_straight (env : EnvironmentId) (name : String) (v : Value) :
    Straight free moves (bindConstant env name v) := by
  exact straight_bindings _ _

theorem set_slot_straight (index : Nat) (v : Value) : Straight free moves (setSlot index v) := by
  exact straight_running _ fun c => .modify _ fun h => .slot h _ _ _

theorem read_place_straight (p : Place) : Straight free moves p.read := by
  cases p with
  | slot index => exact straight_running _ fun c => straight_heap _ fun h => (straight_pure _)
  | reference ref =>
    obtain ⟨base, name, strict⟩ := ref
    cases base with
    | value v => exact .native _ (get_of_native _ _)
    | environment env => exact get_binding_straight _ _ _
    | unresolvable => exact straight_error _ _
  | property base key => exact .native _ (get_of_native _ _)
  | nothing => exact straight_pure _

theorem write_place_straight (p : Place) (v : Value) (strict : Bool) :
    Straight free moves (p.write v strict) := by
  cases p with
  | slot index => exact set_slot_straight _ _
  | reference ref =>
    obtain ⟨base, name, strict⟩ := ref
    cases base with
    | value base => exact .native _ (put_of_native _ _ _ _)
    | environment env => exact set_binding_straight _ _ _ _
    | unresolvable =>
      exact straight_ite _ _ _ (straight_error _ _) (.native _ (put_native _ _ _ _))
  | property base key => exact .native _ (put_of_native _ _ _ _)
  | nothing => exact straight_error _ _

theorem delete_place_straight (p : Place) (strict : Bool) : Straight free moves (p.delete strict) := by
  have deleted (base : Value) (key : PropertyKey) (strict : Bool) :
      Straight free moves (toObject base >>= fun id => deleteOwn id key strict) :=
    .native _ (Native.bind _ _ (to_object_native _) fun _ => delete_own_native _ _ _)
  cases p with
  | slot index => exact straight_pure _
  | reference ref =>
    obtain ⟨base, name, strict⟩ := ref
    cases base with
    | value base => exact deleted _ _ _
    | environment env => exact straight_ite _ _ _ (straight_error _ _) (delete_binding_straight _ _)
    | unresolvable => exact straight_ite _ _ _ (straight_error _ _) (straight_pure _)
  | property base key => exact deleted _ _ _
  | nothing => exact straight_pure _

theorem type_of_place_straight (p : Place) : Straight free moves p.typeOf := by
  unfold Place.typeOf
  split
  · exact straight_pure _
  · exact .bind _ _ (read_place_straight _) fun _ => straight_heap _ fun h => straight_pure _

theorem update_place_straight (op : UpdateOp) (before : Bool) (p : Place) (strict : Bool) :
    Straight free moves (updatePlace op before p strict) := by
  refine .bind _ _ (read_place_straight _) fun v => ?_
  refine .bind _ _ (.native _ (to_number_native _)) fun x => ?_
  exact .bind _ _ (write_place_straight _ _ _) fun _ => straight_pure _

/-! Calls. -/

theorem call_at_straight (site : Site) (f this : Value) (args : List Value) :
    Straight free true (callAt site f this args) := by
  refine .bind _ _ (.position _) fun _ => straight_heap _ fun h => ?_
  have called : Straight free true (call f this args) :=
    .native _ (call_native _ _ _)
  exact straight_ite _ _ _ (.bind _ _ (straight_error _ _) fun _ => called) (called)

theorem call_named_straight (site : Site) (name : String) (f this : Value) (args : List Value) (strict : Bool) :
    Straight free true (callNamed site name f this args strict) := by
  refine straight_ite _ _ _ ?_ (call_at_straight _ _ _ _)
  refine .bind _ _ (.position _) fun _ => ?_
  exact straight_running _ fun c => straight_evaluation _ _ _

theorem construct_at_straight (site : Site) (f : Value) (args : List Value) :
    Straight free true (constructAt site f args) := by
  refine .bind _ _ (.position _) fun _ => straight_heap _ fun h => ?_
  have constructed : Straight free true (construct f args) :=
    .native _ (construct_native _ _)
  exact straight_ite _ _ _ (.bind _ _ (straight_error _ _) fun _ => constructed) (constructed)

theorem named_function_straight (routine : Routine) (own : Option OwnName) :
    Straight free moves (newNamedFunction routine own) := by
  refine straight_running _ fun c => ?_
  cases own with
  | none => exact .bind _ _ (.function _ _) fun _ => straight_pure _
  | some own =>
    dsimp -zeta only
    extract_lets outer rest
    have bound (env : EnvironmentId) : Straight free moves (rest env) := by
      refine .bind _ _ (.function _ _) fun f => ?_
      cases own.slot with
      | some index => exact .bind _ _ (set_slot_straight _ _) fun _ => straight_pure _
      | none => exact .bind _ _ (bind_constant_straight _ _ _) fun _ => straight_pure _
    split
    · exact bound _
    · exact .bind _ _ (straight_scope _) fun env => bound env

theorem perform_straight (operation : Operation) (a b : Value) :
    Straight free moves (perform operation a b) := by
  have generic (op : BinaryOp) : Straight free moves (operate op a b) :=
    .native _ (operate_native _ _ _)
  cases operation with
  | generic op => exact generic op
  | numeric op =>
    rw [perform]
    split
    · exact straight_pure _
    · exact generic op
  | _ => exact straight_pure _

/-! Expressions. -/

theorem property_one_kind (kind : PropertyKind) (v : Value) : (propertyDefinition kind v).OneKind := by
  cases kind with
  | init => exact fun _ => rfl
  | getter => exact fun isValue => absurd isValue Bool.false_ne_true
  | setter => exact fun isValue => absurd isValue Bool.false_ne_true

mutual

theorem evaluate_straight (strict : Bool) (e : Expr) :
    Straight free true (evaluate strict e) := by
  cases e with
  | constant v =>
    rw [evaluate]
    exact straight_pure v
  | this =>
    rw [evaluate]
    exact straight_running _ fun c => straight_pure _
  | «variable» v =>
    rw [evaluate]
    exact .bind _ _ (.found _ _) fun p => read_place_straight p
  | array elements =>
    rw [evaluate]
    refine .bind _ _ (evaluate_elements_straight strict elements) fun items => ?_
    exact .bind _ _ (.native _ (.newArray _)) fun _ => straight_pure _
  | object properties =>
    rw [evaluate]
    refine .bind _ _ (.native _ (.newObject _ _ _ rfl)) fun id => ?_
    exact .bind _ _ (evaluate_properties_straight strict id properties) fun _ => straight_pure _
  | function routine own =>
    rw [evaluate]
    exact named_function_straight _ _
  | member object key =>
    rw [evaluate]
    refine .bind _ _ (evaluate_straight strict object) fun base => ?_
    refine .bind _ _ (evaluate_key_straight strict key) fun key => ?_
    exact .native _ (get_of_native _ _)
  | callMember site object key args =>
    rw [evaluate]
    refine .bind _ _ (evaluate_straight strict object) fun base => ?_
    refine .bind _ _ (evaluate_key_straight strict key) fun key => ?_
    refine .bind _ _ (.native _ (get_of_native _ _)) fun f => ?_
    exact .bind _ _ (evaluate_all_straight strict args) fun args => call_at_straight _ _ _ _
  | callVariable site v args =>
    rw [evaluate]
    refine .bind _ _ (.found _ _) fun p => ?_
    refine .bind _ _ (read_place_straight p) fun f => straight_heap _ fun h => ?_
    exact .bind _ _ (evaluate_all_straight strict args) fun args =>
      call_named_straight _ _ _ _ _ _
  | call site callee args =>
    rw [evaluate]
    refine .bind _ _ (evaluate_straight strict callee) fun f => ?_
    exact .bind _ _ (evaluate_all_straight strict args) fun args => call_at_straight _ _ _ _
  | construct site callee args =>
    rw [evaluate]
    refine .bind _ _ (evaluate_straight strict callee) fun f => ?_
    exact .bind _ _ (evaluate_all_straight strict args) fun args => construct_at_straight _ _ _
  | typeOfVariable v =>
    rw [evaluate]
    exact .bind _ _ (.found _ _) fun p => type_of_place_straight p
  | typeOf e =>
    rw [evaluate]
    exact .bind _ _ (evaluate_straight strict e) fun v => straight_heap _ fun h => straight_pure _
  | delete target =>
    rw [evaluate]
    refine .bind _ _ (evaluate_target_straight strict target) fun p => ?_
    exact .bind _ _ (delete_place_straight p strict) fun _ => straight_pure _
  | void e =>
    rw [evaluate]
    exact .bind _ _ (straight_discard _ (evaluate_straight strict e)) fun _ => straight_pure _
  | not e =>
    rw [evaluate]
    exact .bind _ _ (evaluate_straight strict e) fun _ => straight_pure _
  | sign op primitive e =>
    rw [evaluate]
    refine .bind _ _ (evaluate_straight strict e) fun v => straight_ite _ _ _ (straight_pure _) ?_
    exact .bind _ _ (.native _ (to_number_native _)) fun _ => straight_pure _
  | update op before target =>
    rw [evaluate]
    exact .bind _ _ (evaluate_target_straight strict target) fun p =>
      update_place_straight _ _ _ _
  | binary operation left right =>
    rw [evaluate]
    refine .bind _ _ (evaluate_straight strict left) fun a => ?_
    exact .bind _ _ (evaluate_straight strict right) fun b => perform_straight _ _ _
  | logical op left right =>
    rw [evaluate]
    refine .bind _ _ (evaluate_straight strict left) fun v => ?_
    exact straight_ite _ _ _ (evaluate_straight strict right) (straight_pure _)
  | conditional test yes no =>
    rw [evaluate]
    refine .bind _ _ (evaluate_straight strict test) fun v => ?_
    exact straight_ite _ _ _ (evaluate_straight strict yes) (evaluate_straight strict no)
  | assign target value =>
    rw [evaluate]
    refine .bind _ _ (evaluate_target_straight strict target) fun p => ?_
    refine .bind _ _ (evaluate_straight strict value) fun v => ?_
    exact .bind _ _ (write_place_straight _ _ _) fun _ => straight_pure _
  | compound op target value =>
    rw [evaluate]
    refine .bind _ _ (evaluate_target_straight strict target) fun p => ?_
    refine .bind _ _ (read_place_straight p) fun old => ?_
    refine .bind _ _ (evaluate_straight strict value) fun operand => ?_
    refine .bind _ _ (.native _ (operate_native _ _ _)) fun v => ?_
    exact .bind _ _ (write_place_straight _ _ _) fun _ => straight_pure _
  | sequence items =>
    rw [evaluate]
    exact evaluate_last_straight strict .undefined items

theorem evaluate_key_straight (strict : Bool) (key : Key) :
    Straight free true (evaluateKey strict key) := by
  cases key with
  | known key =>
    rw [evaluateKey]
    exact straight_pure key
  | computed e =>
    rw [evaluateKey]
    exact .bind _ _ (evaluate_straight strict e) fun v =>
      .native _ (to_property_key_native _)

theorem evaluate_target_straight (strict : Bool) (target : Target) :
    Straight free true (evaluateTarget strict target) := by
  cases target with
  | «variable» v =>
    rw [evaluateTarget]
    exact .found _ _
  | member object key =>
    rw [evaluateTarget]
    refine .bind _ _ (evaluate_straight strict object) fun base => ?_
    exact .bind _ _ (evaluate_key_straight strict key) fun _ => straight_pure _
  | value e =>
    rw [evaluateTarget]
    exact .bind _ _ (straight_discard _ (evaluate_straight strict e)) fun _ => straight_pure _

theorem evaluate_all_straight (strict : Bool) (es : List Expr) :
    Straight free true (evaluateAll strict es) := by
  cases es with
  | nil =>
    rw [evaluateAll]
    exact straight_pure _
  | cons e rest =>
    rw [evaluateAll]
    refine .bind _ _ (evaluate_straight strict e) fun v => ?_
    exact .bind _ _ (evaluate_all_straight strict rest) fun _ => straight_pure _

theorem evaluate_last_straight (strict : Bool) (last : Value) (es : List Expr) :
    Straight free true (evaluateLast strict last es) := by
  cases es with
  | nil =>
    rw [evaluateLast]
    exact straight_pure _
  | cons e rest =>
    rw [evaluateLast]
    exact .bind _ _ (evaluate_straight strict e) fun v => evaluate_last_straight strict v rest

theorem evaluate_elements_straight (strict : Bool) (elements : List Program.Element) :
    Straight free true (evaluateElements strict elements) := by
  cases elements with
  | nil =>
    rw [evaluateElements]
    exact straight_pure _
  | cons element rest =>
    cases element with
    | hole =>
      rw [evaluateElements]
      exact .bind _ _ (evaluate_elements_straight strict rest) fun _ => straight_pure _
    | item e =>
      rw [evaluateElements]
      refine .bind _ _ (evaluate_straight strict e) fun v => ?_
      exact .bind _ _ (evaluate_elements_straight strict rest) fun _ => straight_pure _

theorem evaluate_properties_straight (strict : Bool) (id : ObjectId) (properties : List Program.Property)
    : Straight free true (evaluateProperties strict id properties) := by
  cases properties with
  | nil =>
    rw [evaluateProperties]
    exact straight_pure _
  | cons property rest =>
    cases property with
    | mk key kind value =>
      rw [evaluateProperties]
      refine .bind _ _ (evaluate_straight strict value) fun v => ?_
      have defined : Native free (defineOwn id key (propertyDefinition kind v) false) :=
        define_own_native _ _ _ _ (property_one_kind kind v)
      refine .bind _ _ (straight_discard _ (.native _ defined)) fun _ => ?_
      exact evaluate_properties_straight strict id rest

end

/-! Assignments, and what tells which way a statement goes. -/

theorem assign_all_straight (strict : Bool) (assignments : List Assignment) :
    Straight free true (assignAll strict assignments) := by
  induction assignments with
  | nil =>
    rw [assignAll]
    exact straight_pure _
  | cons assignment rest hyp =>
    obtain ⟨v, e⟩ := assignment
    rw [assignAll]
    refine .bind _ _ (.found _ _) fun p => ?_
    refine .bind _ _ (evaluate_straight strict e) fun value => ?_
    exact .bind _ _ (write_place_straight _ _ _) fun _ => hyp

theorem start_loop_straight (strict : Bool) (init : LoopInit) : Straight free true (startLoop strict init) := by
  cases init with
  | none =>
    rw [startLoop]
    exact straight_pure _
  | «variables» assignments =>
    rw [startLoop]
    exact assign_all_straight strict assignments
  | expression e =>
    rw [startLoop]
    exact straight_discard _ (evaluate_straight strict e)

-- A test of an expression.
theorem truth_straight (strict : Bool) (e : Expr) :
    Straight free true (return (← evaluate strict e).toBoolean : Run Bool) := by
  exact .bind _ _ (evaluate_straight strict e) fun _ => straight_pure _

theorem test_optional_straight (strict : Bool) (e : Option Expr) : Straight free true (testOptional strict e) := by
  cases e with
  | none =>
    rw [testOptional]
    exact straight_pure _
  | some e =>
    rw [testOptional]
    exact truth_straight strict e

theorem evaluate_optional_straight (strict : Bool) (e : Option Expr) :
    Straight free true (evaluateOptional strict e) := by
  cases e with
  | none =>
    rw [evaluateOptional]
    exact straight_pure _
  | some e =>
    rw [evaluateOptional]
    exact straight_discard _ (evaluate_straight strict e)

theorem select_straight (strict : Bool) (v : Value) (selector : Selector) :
    Straight free true (select strict v selector) := by
  cases selector with
  | direct table =>
    rw [select]
    exact straight_pure _
  | tests tests =>
    rw [select]
    induction tests with
    | nil =>
      rw [selectTest]
      exact straight_pure _
    | cons test rest hyp =>
      obtain ⟨clause, e⟩ := test
      rw [selectTest]
      exact .bind _ _ (evaluate_straight strict e) fun t => straight_ite _ _ _ (straight_pure _) hyp

end

end Ecma
