import Ecma.Operation.Operator
import Ecma.Proofs.Number.Whole
import Ecma.Proofs.Run.Native

set_option autoImplicit false

/-!
Operations on properties, conversions and operators are native.
-/

namespace Ecma

open Ecma.Program Ecma.Syntax Run

variable {limits : Bool}

/-! Calls. -/

theorem call_native (f this : Value) (args : List Value) : Native limits (call f this args) := by
  refine native_heap _ (fun h k same => ?_) fun h => ?_
  · cases f with
    | object id => simp only [Heap.callable_same h k same]
    | _ => rfl
  · cases f with
    | object id => exact native_ite _ _ _ (Native.call id this args) (throw_type_error_native _)
    | _ => exact throw_type_error_native _

theorem construct_native (f : Value) (args : List Value) : Native limits (construct f args) := by
  refine native_heap _ (fun h k same => ?_) fun h => ?_
  · cases f with
    | object id => simp only [Heap.callable_same h k same]
    | _ => rfl
  · cases f with
    | object id => exact native_ite _ _ _ (Native.construct id args) (throw_type_error_native _)
    | _ => exact throw_type_error_native _

/-! Reading properties. -/

theorem read_descriptor_native (d : Option Descriptor) (receiver : Value) :
    Native limits (readDescriptor d receiver) := by
  unfold readDescriptor
  split
  · exact Native.pure _
  · exact call_native _ _ _
  · exact Native.pure _

theorem get_native (id : ObjectId) (key : PropertyKey) : Native limits (get id key) := by
  refine native_heap _ (fun h k same => ?_) fun h => ?_
  · rw [same.aliased]
  · split
    · exact Native.pure _
    · refine native_heap _ (fun h k same => ?_) fun h => ?_
      · rw [Heap.property_same h k same]
      refine Native.bind _ _ (read_descriptor_native _ _) fun v => ?_
      refine native_heap _ (fun h k same => ?_) fun h => ?_
      · rw [Heap.strict_function_same h k same, Heap.guards_caller_same h k same]
      split
      · exact Native.bind _ _ (throw_type_error_native _) fun _ => Native.pure _
      · exact Native.pure _

-- A primitive reads through a prototype.
theorem read_through_native (prototype : ObjectId) (base : Value) (key : PropertyKey) :
    Native limits (heap >>= fun h => readDescriptor (h.property? prototype key) base) := by
  refine native_heap _ (fun h k same => ?_) fun h => read_descriptor_native _ _
  rw [Heap.property_same h k same]

theorem get_of_native (base : Value) (key : PropertyKey) : Native limits (getOf base key) := by
  cases base with
  | object id => exact get_native id key
  | string s =>
    rw [getOf]
    refine native_ite _ _ _ (Native.pure _) ?_
    split
    · exact Native.pure _
    · exact read_through_native _ _ _
  | number x => exact read_through_native _ _ _
  | boolean b => exact read_through_native _ _ _
  | _ => exact throw_type_error_native _

/-! Conversions. -/

theorem first_primitive_native (id : ObjectId) (methods : List String) :
    Native limits (firstPrimitive id methods) := by
  induction methods with
  | nil => exact throw_type_error_native _
  | cons method rest hyp =>
    refine Native.bind _ _ (get_native _ _) fun f => ?_
    refine native_heap _ (fun h k same => ?_) fun h => ?_
    · rw [Heap.is_callable_same h k same]
    refine native_ite _ _ _ (Native.bind _ _ (call_native _ _ _) fun v => ?_) hyp
    exact native_ite _ _ _ hyp (Native.pure _)

theorem to_primitive_native (v : Value) (hint : Hint) : Native limits (toPrimitive v hint) := by
  cases v with
  | object id => exact first_primitive_native _ _
  | _ => exact Native.pure _

theorem to_number_native (v : Value) : Native limits (toNumber v) := by
  exact Native.bind _ _ (to_primitive_native _ _) fun _ => Native.pure _

theorem to_text_native (v : Value) : Native limits (toText v) := by
  exact Native.bind _ _ (to_primitive_native _ _) fun _ => Native.pure _

theorem to_integer_native (v : Value) : Native limits (toInteger v) := by
  exact Native.bind _ _ (to_number_native _) fun _ => Native.pure _

theorem to_word_native (v : Value) : Native limits (toUint32 v) := by
  exact Native.bind _ _ (to_number_native _) fun _ => Native.pure _

theorem to_signed_native (v : Value) : Native limits (toInt32 v) := by
  exact Native.bind _ _ (to_number_native _) fun _ => Native.pure _

theorem to_property_key_native (v : Value) : Native limits (toPropertyKey v) := by
  have named : Native limits (toText v >>= fun s => pure (PropertyKey.ofString s)) :=
    Native.bind _ _ (to_text_native v) fun _ => Native.pure _
  cases v with
  | number x =>
    rw [toPropertyKey]
    split
    · exact Native.pure _
    · exact Native.pure _
  | _ => exact named

theorem new_string_object_native (s : String) : Native limits (newStringObject s) := by
  exact Native.newObject _ _ _ rfl

theorem to_object_native (v : Value) : Native limits (toObject v) := by
  cases v with
  | object id => exact Native.pure _
  | boolean b => exact Native.newObject _ _ _ rfl
  | number x => exact Native.newObject _ _ _ rfl
  | string s => exact new_string_object_native s
  | _ => exact throw_type_error_native _

/-! Defining, writing and deleting. -/

theorem accept_native (key : PropertyKey) (throws accepted : Bool) :
    Native limits (accept key throws accepted) := by
  rw [accept]
  split
  · exact Native.bind _ _ (throw_type_error_native _) fun _ => Native.pure _
  · exact Native.pure _

theorem define_array_length_native (id : ObjectId) (d : Definition) (v : Value) (throws : Bool)
    (isValue : d.isAccessor = false) : Native limits (defineArrayLength id d v throws) := by
  refine native_heap _ (fun h k same => ?_) fun h => ?_
  · rw [Heap.length_of_same h k same]
  refine Native.bind _ _ (to_number_native _) fun length => ?_
  have defined (old : Nat × Bool) : Native limits
      (updateHeap fun h => h.defineLength id d (Number.toUint32 length) old) :=
    .defineLength id d _ old isValue (Number.word_fits length)
  split
  · exact Native.bind _ _ (throw_error_native _ _) fun _ =>
      Native.bind _ _ (defined _) fun _ => accept_native _ _ _
  · exact Native.bind _ _ (defined _) fun _ => accept_native _ _ _

-- Defining, with the two cases of a value put together.
theorem define_own_is (id : ObjectId) (key : PropertyKey) (d : Definition) (throws : Bool) :
    defineOwn id key d throws = heap >>= fun h =>
      if h.isArray id && key == .length && d.value.isSome then
        defineArrayLength id d (d.value.getD .undefined) throws
      else updateHeap (fun h => h.define id key d) >>= accept key throws := by
  rw [defineOwn]
  cases d.value with
  | none => simp
  | some v => simp

theorem define_own_native (id : ObjectId) (key : PropertyKey) (d : Definition) (throws : Bool)
    (oneKind : d.OneKind) : Native limits (defineOwn id key d throws) := by
  rw [define_own_is]
  cases given : d.value with
  | none =>
    have accepts (accepted : Bool) : Native limits (accept key throws accepted) := accept_native _ _ _
    have never := Native.define id key d (accept key throws true) (accept key throws) oneKind (accepts _) accepts
    simpa [given] using never
  | some v =>
    have isValue : d.isAccessor = false := oneKind (by simp [Definition.isData, given])
    have accepts (accepted : Bool) : Native limits (accept key throws accepted) := accept_native _ _ _
    have whole := Native.define id key d (defineArrayLength id d v throws) (accept key throws) oneKind
      (define_array_length_native id d v throws isValue) accepts
    simpa [given] using whole

theorem read_only_native {α : Type} (key : PropertyKey) : Native limits (readOnly key : Run α) := by
  exact throw_type_error_native _

theorem put_native (id : ObjectId) (key : PropertyKey) (v : Value) (throws : Bool) :
    Native limits (put id key v throws) := by
  refine native_heap _ (fun h k same => ?_) fun h => ?_
  · rw [Heap.route_same h k same]
  split
  · exact native_discard _ (define_own_native _ _ _ _ fun _ => rfl)
  · exact native_ite _ _ _ (read_only_native _) (Native.pure _)
  · exact native_discard _ (call_native _ _ _)
  · exact native_discard _ (define_own_native _ _ _ _ fun _ => rfl)

theorem put_of_native (base : Value) (key : PropertyKey) (v : Value) (strict : Bool) :
    Native limits (putOf base key v strict) := by
  unfold putOf
  split
  · exact put_native _ _ _ _
  refine Native.bind _ _ (to_object_native _) fun id => ?_
  refine native_heap _ (fun h k same => ?_) fun h => ?_
  · rw [Heap.can_put_same h k same, Heap.own_same h k same, Heap.property_same h k same]
  have refuse : Native limits (if strict then readOnly key else pure () : Run Unit) :=
    native_ite _ _ _ (read_only_native _) (Native.pure _)
  refine native_ite _ _ _ refuse (native_ite _ _ _ refuse ?_)
  split
  · exact native_discard _ (call_native _ _ _)
  · exact native_ite _ _ _ (throw_type_error_native _) (Native.pure _)

theorem delete_own_native (id : ObjectId) (key : PropertyKey) (throws : Bool) :
    Native limits (deleteOwn id key throws) := by
  refine Native.bind _ _ (Native.delete id key) fun gone => ?_
  split
  · exact Native.bind _ _ (throw_type_error_native _) fun _ => Native.pure _
  · exact Native.pure _

theorem new_sparse_array_native (items : List (Option Value)) : Native limits (newSparseArray items) := by
  exact Native.newArray items

theorem new_array_native (items : List Value) : Native limits (newArray items) := by
  exact new_sparse_array_native _

theorem invoke_native (id : ObjectId) (name : String) (args : List Value) :
    Native limits (invoke id name args) := by
  refine Native.bind _ _ (get_native _ _) fun f => ?_
  refine native_heap _ (fun h k same => ?_) fun h => ?_
  · rw [Heap.is_callable_same h k same]
  split
  · exact Native.bind _ _ (throw_type_error_native _) fun _ => call_native _ _ _
  · exact call_native _ _ _

/-! Operators. -/

theorem loosely_equal_native (a b : Value) : Native limits (looselyEqual a b) := by
  have converted (v other : Value) (f : Value → Bool) : Native limits
      (if comparesConverted other then toPrimitive v .number >>= fun p => pure (f p) else pure false) :=
    native_ite _ _ _ (Native.bind _ _ (to_primitive_native _ _) fun _ => Native.pure _)
      (Native.pure _)
  unfold looselyEqual
  split
  · exact Native.pure _
  · exact converted _ _ _
  · exact converted _ _ _
  · exact Native.pure _

theorem less_native (a b : Value) (leftFirst : Bool) : Native limits (less a b leftFirst) := by
  rw [less]
  split
  · exact Native.bind _ _ (to_primitive_native _ _) fun _ =>
      Native.bind _ _ (to_primitive_native _ _) fun _ => Native.pure _
  · exact Native.bind _ _ (to_primitive_native _ _) fun _ =>
      Native.bind _ _ (to_primitive_native _ _) fun _ => Native.pure _

theorem compare_values_native (op : BinaryOp) (a b : Value) : Native limits (compareValues op a b) := by
  unfold compareValues
  split
  all_goals exact Native.bind _ _ (less_native _ _ _) fun _ => Native.pure _

theorem add_native (a b : Value) : Native limits (add a b) := by
  exact Native.bind _ _ (to_primitive_native _ _) fun _ =>
    Native.bind _ _ (to_primitive_native _ _) fun _ => Native.pure _

theorem equate_native (op : BinaryOp) (a b : Value) : Native limits (equate op a b) := by
  unfold equate
  split
  · exact Native.pure _
  · exact Native.pure _
  · exact loosely_equal_native _ _
  · exact Native.bind _ _ (loosely_equal_native _ _) fun _ => Native.pure _

theorem is_in_native (key target : Value) : Native limits (isIn key target) := by
  have refused : Native limits (heap >>= fun h =>
      let name := h.display key
      let value := h.display target
      throwTypeError s!"Cannot use 'in' operator to search for '{name}' in {value}" : Run Bool) := by
    refine native_heap _ (fun h k same => ?_) fun h => throw_type_error_native _
    simp only [Heap.display_same h k same]
  cases target with
  | object id =>
    refine Native.bind _ _ (to_property_key_native _) fun key => ?_
    refine native_heap _ (fun h k same => ?_) fun h => Native.pure _
    rw [Heap.has_property_same h k same]
  | _ => exact refused

theorem has_instance_native (f : ObjectId) (v : Value) : Native limits (hasInstance f v) := by
  refine native_heap _ (fun h k same => ?_) fun h => ?_
  · rw [Heap.unbind_same h k same]
  generalize h.unbind f .undefined [] = target
  obtain ⟨f, _, _⟩ := target
  cases v with
  | object id =>
    refine Native.bind _ _ (get_native _ _) fun prototype => ?_
    split
    · refine native_heap _ (fun h k same => ?_) fun h => Native.pure _
      rw [Heap.inherits_same h k same]
    · exact throw_type_error_native _
  | _ => exact Native.pure _

theorem instance_of_native (v target : Value) : Native limits (instanceOf v target) := by
  cases target with
  | object f =>
    refine native_heap _ (fun h k same => ?_) fun h => ?_
    · rw [Heap.is_callable_same h k same]
    · exact native_ite _ _ _ (has_instance_native _ _) (throw_type_error_native _)
  | _ => exact throw_type_error_native _

theorem operate_native (op : BinaryOp) (a b : Value) : Native limits (operate op a b) := by
  unfold operate
  split
  · exact Native.bind _ _ (to_number_native _) fun _ =>
      Native.bind _ _ (to_number_native _) fun _ => Native.pure _
  · split
    · exact add_native _ _
    all_goals try exact Native.bind _ _ (compare_values_native _ _ _) fun _ => Native.pure _
    · exact Native.bind _ _ (is_in_native _ _) fun _ => Native.pure _
    · exact Native.bind _ _ (instance_of_native _ _) fun _ => Native.pure _
    · exact Native.bind _ _ (equate_native _ _ _) fun _ => Native.pure _

end Ecma
