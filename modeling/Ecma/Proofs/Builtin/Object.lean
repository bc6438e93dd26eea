import Ecma.Builtin.Dispatch
import Ecma.Proofs.Heap.Freeze
import Ecma.Proofs.Operation.Native

set_option autoImplicit false

/-!
The functions of functions and arrays are native.
-/

namespace Ecma

open Run

variable {limits : Bool}

/-! Arguments. -/

theorem throw_unfit_native {α : Type} (v : Value) (message : String → String) :
    Native limits (throwUnfit v message : Run α) := by
  refine native_heap _ (fun h k same => ?_) fun h => throw_type_error_native _
  rw [Heap.type_of_same h k same]

theorem range_end_native (v : Value) (length : Float) : Native limits (rangeEnd v length) := by
  cases v with
  | undefined => exact Native.pure _
  | _ => exact Native.bind _ _ (to_integer_native _) fun _ => Native.pure _

theorem read_elements_native (id : ObjectId) (start count : Nat) (read : List Value) :
    Native limits (readElements id start count read) := by
  induction count generalizing start read with
  | zero => exact Native.pure _
  | succ count hyp => exact Native.bind _ _ (get_native _ _) fun v => hyp _ _

theorem length_of_object_native (id : ObjectId) : Native limits (lengthOfObject id) := by
  exact Native.bind _ _ (get_native _ _) fun v => to_word_native v

/-! Functions. -/

theorem receiver_function_native (this : Value) (method : String) :
    Native limits (receiverFunction this method) := by
  refine native_heap _ (fun h k same => ?_) fun h => ?_
  · rw [Heap.is_callable_same h k same]
  split
  · exact Native.pure _
  · exact throw_unfit_native _ _

theorem to_texts_native (vs : List Value) : Native limits (toTexts vs) := by
  induction vs with
  | nil => exact Native.pure _
  | cons v rest hyp =>
    exact Native.bind _ _ (to_text_native _) fun _ => Native.bind _ _ hyp fun _ => Native.pure _

theorem argument_list_native (v : Value) : Native limits (argumentList v) := by
  unfold argumentList
  cases v with
  | undefined => exact Native.pure _
  | null => exact Native.pure _
  | object id =>
    exact Native.bind _ _ (length_of_object_native _) fun _ => read_elements_native _ _ _ _
  | _ => exact throw_unfit_native _ _

theorem new_bound_function_native (target : ObjectId) (receiver : Value) (args : List Value) :
    Native limits (newBoundFunction target receiver args) := by
  exact Native.bind _ _ (get_native _ _) fun _ => Native.newObject _ _ _ rfl

theorem new_host_function_native (name : String) : Native limits (newHostFunction name) := by
  exact Native.newObject _ _ _ rfl

theorem function_source_face (k : ObjectKind) :
    functionSource k.face.callable? = functionSource k.callable? := by
  unfold ObjectKind.face
  split <;> rfl

theorem function_source_same (h k : Heap) (same : h.SameView k) (id : ObjectId) :
    functionSource (h.callable? id) = functionSource (k.callable? id) := by
  rw [Heap.callable?, Heap.callable?, ← function_source_face, same.kind, function_source_face]

theorem function_run_native (f : FunctionFunction) (this : Value) (args : List Value) :
    Native limits (f.run this args) := by
  unfold FunctionFunction.run
  cases f with
  | prototype => exact Native.pure _
  | throwTypeError => exact throw_type_error_native _
  | constructor =>
    exact Native.bind _ _ (to_texts_native _) fun _ =>
      Native.bind _ _ (Native.functionOfTexts _) fun _ => Native.pure _
  | call => exact Native.bind _ _ (receiver_function_native _ _) fun _ => call_native _ _ _
  | apply =>
    exact Native.bind _ _ (receiver_function_native _ _) fun _ =>
      Native.bind _ _ (argument_list_native _) fun _ => call_native _ _ _
  | bind =>
    exact Native.bind _ _ (receiver_function_native _ _) fun _ =>
      Native.bind _ _ (new_bound_function_native _ _ _) fun _ => Native.pure _
  | toString =>
    refine Native.bind _ _ (receiver_function_native _ _) fun id => ?_
    refine native_heap _ (fun h k same => ?_) fun h => Native.pure _
    rw [function_source_same h k same]

/-! Arrays. -/

theorem set_length_native (id : ObjectId) (length : Float) : Native limits (setLength id length) := by
  exact put_native _ _ _ _

theorem construct_array_native (args : List Value) : Native limits (constructArray args) := by
  unfold constructArray
  split
  · rename_i x
    have rest : Native limits (newArray [] >>= fun id =>
        setLength id x >>= fun _ => pure (Value.object id)) :=
      Native.bind _ _ (new_array_native _) fun id =>
        Native.bind _ _ (set_length_native id _) fun _ => Native.pure _
    exact native_ite _ _ _ (Native.bind _ _ (throw_error_native _ _) fun _ => rest) rest
  · exact Native.bind _ _ (new_array_native _) fun _ => Native.pure _

theorem append_elements_native (id : ObjectId) (position : Nat) (vs : List Value) :
    Native limits (appendElements id position vs) := by
  induction vs generalizing position with
  | nil => exact Native.pure _
  | cons v rest hyp => exact Native.bind _ _ (put_native _ _ _ _) fun _ => hyp _

theorem pop_element_native (id : ObjectId) : Native limits (popElement id) := by
  refine Native.bind _ _ (length_of_object_native _) fun length => ?_
  cases length with
  | zero => exact Native.bind _ _ (set_length_native _ _) fun _ => Native.pure _
  | succ last =>
    refine Native.bind _ _ (get_native _ _) fun v => ?_
    refine Native.bind _ _ (native_discard _ (delete_own_native _ _ _)) fun _ => ?_
    exact Native.bind _ _ (set_length_native _ _) fun _ => Native.pure _

theorem element_texts_native (id : ObjectId) (start count : Nat) (texts : List String) :
    Native limits (elementTexts id start count texts) := by
  induction count generalizing start texts with
  | zero => exact Native.pure _
  | succ count hyp =>
    refine Native.bind _ _ (get_native _ _) fun v => ?_
    split
    · exact hyp _ _
    · exact hyp _ _
    · exact Native.bind _ _ (to_text_native _) fun _ => hyp _ _

theorem join_elements_native (id : ObjectId) (separator : Value) :
    Native limits (joinElements id separator) := by
  refine Native.bind _ _ (length_of_object_native _) fun length => ?_
  have rest (s : String) : Native limits (elementTexts id 0 length [] >>= fun texts =>
      pure (String.intercalate s texts)) :=
    Native.bind _ _ (element_texts_native _ _ _ _) fun _ => Native.pure _
  cases separator with
  | undefined => exact Native.bind _ _ (Native.pure _) fun s => rest s
  | _ => exact Native.bind _ _ (to_text_native _) fun s => rest s

theorem copy_elements_native (source target start position count : Nat) :
    Native limits (copyElements source target start position count) := by
  induction count generalizing start position with
  | zero => exact Native.pure _
  | succ count hyp =>
    refine native_heap _ (fun h k same => ?_) fun h => ?_
    · rw [Heap.has_property_same h k same]
    refine native_ite _ _ _ ?_ (hyp _ _)
    exact Native.bind _ _ (get_native _ _) fun _ => Native.bind _ _ (put_native _ _ _ _) fun _ => hyp _ _

theorem slice_elements_native (id : ObjectId) (start stop : Value) :
    Native limits (sliceElements id start stop) := by
  refine Native.bind _ _ (length_of_object_native _) fun length => ?_
  refine Native.bind _ _ (to_integer_native _) fun start => ?_
  refine Native.bind _ _ (range_end_native _ _) fun stop => ?_
  refine Native.bind _ _ (new_array_native _) fun target => ?_
  refine Native.bind _ _ (copy_elements_native _ _ _ _ _) fun _ => ?_
  exact Native.bind _ _ (set_length_native _ _) fun _ => Native.pure _

theorem find_element_native (id : ObjectId) (v : Value) (start count : Nat) :
    Native limits (findElement id v start count) := by
  induction count generalizing start with
  | zero => exact Native.pure _
  | succ count hyp =>
    refine native_heap _ (fun h k same => ?_) fun h => ?_
    · rw [Heap.has_property_same h k same]
    refine native_ite _ _ _ (Native.bind _ _ (get_native _ _) fun _ => ?_) (hyp _)
    exact native_ite _ _ _ (Native.pure _) (hyp _)

theorem index_of_element_native (id : ObjectId) (v start : Value) :
    Native limits (indexOfElement id v start) := by
  refine Native.bind _ _ (length_of_object_native _) fun length => ?_
  refine native_ite _ _ _ (Native.pure _) ?_
  extract_lets sought
  have rest (start : Float) : Native limits (sought start) := by
    refine native_ite _ _ _ (Native.pure _) ?_
    refine Native.bind _ _ (find_element_native _ _ _ _) fun found => ?_
    cases found with
    | some position => exact Native.pure _
    | none => exact Native.pure _
  cases start with
  | undefined => exact Native.bind _ _ (Native.pure _) fun start => rest start
  | _ => exact Native.bind _ _ (to_integer_native _) fun start => rest start

theorem array_run_native (f : ArrayFunction) (this : Value) (args : List Value) :
    Native limits (f.run this args) := by
  unfold ArrayFunction.run
  cases f with
  | constructor => exact construct_array_native _
  | isArray =>
    dsimp only
    split
    · refine native_heap _ (fun h k same => ?_) fun h => Native.pure _
      rw [Heap.is_array_same h k same]
    · exact Native.pure _
  | push =>
    refine Native.bind _ _ (to_object_native _) fun id => ?_
    refine Native.bind _ _ (length_of_object_native _) fun length => ?_
    refine Native.bind _ _ (append_elements_native _ _ _) fun length => ?_
    exact Native.bind _ _ (set_length_native _ _) fun _ => Native.pure _
  | pop => exact Native.bind _ _ (to_object_native _) fun _ => pop_element_native _
  | join =>
    exact Native.bind _ _ (to_object_native _) fun _ =>
      Native.bind _ _ (join_elements_native _ _) fun _ => Native.pure _
  | toString => exact Native.bind _ _ (to_object_native _) fun _ => invoke_native _ _ _
  | slice =>
    exact Native.bind _ _ (to_object_native _) fun _ =>
      Native.bind _ _ (slice_elements_native _ _ _) fun _ => Native.pure _
  | indexOf =>
    exact Native.bind _ _ (to_object_native _) fun _ =>
      Native.bind _ _ (index_of_element_native _ _ _) fun _ => Native.pure _

end Ecma

/-!
The functions of objects are native.
-/

namespace Ecma

open Run

variable {limits : Bool}

theorem object_argument_native (args : List Value) (method : String) :
    Native limits (objectArgument args method) := by
  unfold objectArgument
  split
  · exact Native.pure _
  · exact throw_unfit_native _ _

/-! Descriptors as objects of scripts. -/

theorem field_native (id : ObjectId) (name : String) : Native limits (field id name) := by
  refine native_heap _ (fun h k same => ?_) fun h => ?_
  · rw [Heap.has_property_same h k same]
  · exact native_ite _ _ _ (Native.bind _ _ (get_native _ _) fun _ => Native.pure _) (Native.pure _)

theorem accessor_function_native (v : Value) (which : String) : Native limits (accessorFunction v which) := by
  unfold accessorFunction
  split
  · exact Native.pure _
  · refine native_heap _ (fun h k same => ?_) fun h => ?_
    · rw [Heap.is_callable_same h k same]
    split
    · exact Native.pure _
    · exact throw_unfit_native _ _

theorem optional_accessor_native (v : Option Value) (which : String) :
    Native limits (optionalAccessor v which) := by
  cases v with
  | none => exact Native.pure _
  | some v => exact Native.bind _ _ (accessor_function_native _ _) fun _ => Native.pure _

theorem definition_of_native (id : ObjectId) : Native limits (definitionOf id) := by
  refine Native.bind _ _ (field_native _ _) fun enumerable => ?_
  refine Native.bind _ _ (field_native _ _) fun configurable => ?_
  refine Native.bind _ _ (field_native _ _) fun value => ?_
  refine Native.bind _ _ (field_native _ _) fun writable => ?_
  refine Native.bind _ _ (field_native _ _) fun getter => ?_
  refine Native.bind _ _ (field_native _ _) fun setter => ?_
  split
  · refine Native.bind _ _ (throw_type_error_native _) fun _ => ?_
    refine Native.bind _ _ (optional_accessor_native _ _) fun _ => ?_
    exact Native.bind _ _ (optional_accessor_native _ _) fun _ => Native.pure _
  · refine Native.bind _ _ (optional_accessor_native _ _) fun _ => ?_
    exact Native.bind _ _ (optional_accessor_native _ _) fun _ => Native.pure _

/-! The descriptor of an object is about a value or about functions, or reading it fails. -/

theorem throw_type_error_fails {α : Type} (message : String) (m : Machine) (r r' : Realm) (a : α) :
    (throwTypeError message : Run α) m r ≠ .ok a r' := by
  intro ended
  obtain ⟨id, between, _, ended⟩ := bind_ok (newError .typeError message) _ m r r' a ended
  cases ended

theorem throw_unfit_fails {α : Type} (v : Value) (message : String → String) (m : Machine) (r r' : Realm)
    (a : α) : (throwUnfit v message : Run α) m r ≠ .ok a r' := by
  intro ended
  obtain ⟨h, between, _, ended⟩ := bind_ok heap _ m r r' a ended
  exact throw_type_error_fails _ m between r' a ended

theorem optional_accessor_given (v : Option Value) (which : String) (m : Machine) (r r' : Realm)
    (f : Option (Option ObjectId)) (ended : optionalAccessor v which m r = .ok f r') : f.isSome = v.isSome := by
  cases v with
  | none =>
    cases ended
    rfl
  | some v =>
    obtain ⟨id, between, _, ended⟩ := bind_ok (accessorFunction v which) _ m r r' f ended
    cases ended
    rfl

theorem definition_of_one_kind (id : ObjectId) (m : Machine) (r r' : Realm) (d : Definition)
    (ended : definitionOf id m r = .ok d r') : d.OneKind := by
  obtain ⟨enumerable, r₁, _, ended⟩ := bind_ok _ _ m r r' d ended
  obtain ⟨configurable, r₂, _, ended⟩ := bind_ok _ _ m r₁ r' d ended
  obtain ⟨value, r₃, _, ended⟩ := bind_ok _ _ m r₂ r' d ended
  obtain ⟨writable, r₄, _, ended⟩ := bind_ok _ _ m r₃ r' d ended
  obtain ⟨getter, r₅, _, ended⟩ := bind_ok _ _ m r₄ r' d ended
  obtain ⟨setter, r₆, _, ended⟩ := bind_ok _ _ m r₅ r' d ended
  split at ended
  · obtain ⟨_, between, failed, _⟩ := bind_ok _ _ m r₆ r' d ended
    exact absurd failed (throw_type_error_fails _ m r₆ between _)
  · next single =>
    obtain ⟨getter', r₇, first, ended⟩ := bind_ok _ _ m r₆ r' d ended
    obtain ⟨setter', r₈, second, ended⟩ := bind_ok _ _ m r₇ r' d ended
    cases ended
    have given := optional_accessor_given getter _ m r₆ r₇ getter' first
    have given' := optional_accessor_given setter _ m r₇ _ setter' second
    intro isValue
    simp only [Definition.isData, Option.isSome_map] at isValue
    simp only [Definition.isAccessor, given, given']
    simpa [isValue] using single

theorem to_definition_one_kind (v : Value) (m : Machine) (r r' : Realm) (d : Definition)
    (ended : toDefinition v m r = .ok d r') : d.OneKind := by
  unfold toDefinition at ended
  split at ended
  · exact definition_of_one_kind _ m r r' d ended
  · exact absurd ended (throw_unfit_fails _ _ m r r' d)

theorem definitions_of_one_kind (id : ObjectId) (keys : List PropertyKey) (m : Machine) (r r' : Realm)
    (ds : List (PropertyKey × Definition)) (ended : definitionsOf id keys m r = .ok ds r') :
    ∀ d ∈ ds, d.2.OneKind := by
  induction keys generalizing r ds with
  | nil =>
    cases ended
    exact fun _ member => absurd member List.not_mem_nil
  | cons key rest hyp =>
    obtain ⟨v, r₁, _, ended⟩ := bind_ok (get id key) _ m r r' ds ended
    obtain ⟨d, r₂, first, ended⟩ := bind_ok (toDefinition v) _ m r₁ r' ds ended
    obtain ⟨others, r₃, second, ended⟩ := bind_ok (definitionsOf id rest) _ m r₂ r' ds ended
    cases ended
    intro d' member
    rcases List.mem_cons.mp member with same | older
    · exact same ▸ to_definition_one_kind v m r₁ r₂ d first
    · exact hyp r₂ others second d' older

theorem to_definition_native (v : Value) : Native limits (toDefinition v) := by
  unfold toDefinition
  split
  · exact definition_of_native _
  · exact throw_unfit_native _ _

theorem new_descriptor_object_native (d : Descriptor) : Native limits (newDescriptorObject d) := by
  exact Native.newObject _ _ _ rfl

theorem definitions_of_native (id : ObjectId) (keys : List PropertyKey) :
    Native limits (definitionsOf id keys) := by
  induction keys with
  | nil => exact Native.pure _
  | cons key rest hyp =>
    refine Native.bind _ _ (get_native _ _) fun v => ?_
    refine Native.bind _ _ (to_definition_native _) fun d => ?_
    exact Native.bind _ _ hyp fun _ => Native.pure _

theorem define_all_native (id : ObjectId) (ds : List (PropertyKey × Definition))
    (oneKind : ∀ d ∈ ds, d.2.OneKind) : Native limits (defineAll id ds) := by
  induction ds with
  | nil => exact Native.pure _
  | cons d rest hyp =>
    have first : Native limits (defineOwn id d.1 d.2 true) :=
      define_own_native id d.1 d.2 true (oneKind d List.mem_cons_self)
    exact Native.bind _ _ (native_discard _ first) fun _ =>
      hyp fun d' member => oneKind d' (List.mem_cons_of_mem _ member)

theorem define_from_native (id : ObjectId) (properties : Value) : Native limits (defineFrom id properties) := by
  refine Native.bind _ _ (to_object_native _) fun source => ?_
  refine native_heap _ (fun h k same => ?_) fun h => ?_
  · rw [Heap.enumerable_keys_same h k same]
  · exact Native.given _ _ (definitions_of_native _ _) fun m r ds r' read =>
      define_all_native id ds (definitions_of_one_kind _ _ m r r' ds read)

/-! Locking. -/

theorem lock_keys_native (id : ObjectId) (readOnly : Bool) (keys : List PropertyKey) :
    Native limits (lockKeys id readOnly keys) := by
  induction keys with
  | nil => exact Native.pure _
  | cons key rest hyp =>
    refine native_heap _ (fun h k same => ?_) fun h => ?_
    · rw [Heap.own_same h k same]
    cases h.own? id key with
    | some d =>
      have first : Native limits (defineOwn id key (lockDefinition d readOnly) true) :=
        define_own_native _ _ _ _ (lock_one_kind d readOnly)
      exact Native.bind _ _ (native_discard _ first) fun _ => hyp
    | none => exact hyp

theorem lock_native (id : ObjectId) (readOnly : Bool) : Native limits (lock id readOnly) := by
  refine native_heap _ (fun h k same => ?_) fun h => ?_
  · rw [Heap.own_keys_same h k same]
  · exact Native.bind _ _ (lock_keys_native _ _ _) fun _ => Native.preventExtensions id

theorem is_locked_same (h k : Heap) (same : h.SameView k) (id : ObjectId) (locked : Descriptor → Bool) :
    h.isLocked id locked = k.isLocked id locked := by
  rw [Heap.isLocked, Heap.isLocked, Heap.own_same h k same, Heap.own_keys_same h k same, same.extensible]

/-! The functions. -/

theorem class_tag_same (h k : Heap) (same : h.SameView k) (v : Value) : classTag h v = classTag k v := by
  cases v with
  | object id => exact Heap.class_same h k same id
  | _ => rfl

theorem create_object_native (args : List Value) : Native limits (createObject args) := by
  unfold createObject
  extract_lets made
  have rest (prototype : Option ObjectId) : Native limits (made prototype) := by
    refine Native.bind _ _ (Native.newObject _ _ _ rfl) fun id => ?_
    split
    · exact Native.pure _
    · exact Native.bind _ _ (define_from_native _ _) fun _ => Native.pure _
  generalize argument args 0 = first
  cases first with
  | object p => exact rest (some p)
  | null => exact rest none
  | _ => exact Native.bind _ _ (throw_unfit_native _ _) fun prototype => rest prototype

theorem receiver_property_native (this : Value) (args : List Value) :
    Native limits (receiverProperty this args) := by
  refine Native.bind _ _ (to_property_key_native _) fun key => ?_
  refine Native.bind _ _ (to_object_native _) fun id => ?_
  refine native_heap _ (fun h k same => ?_) fun h => Native.pure _
  rw [Heap.own_same h k same]

theorem object_run_native (f : ObjectFunction) (this : Value) (args : List Value) :
    Native limits (f.run this args) := by
  unfold ObjectFunction.run
  cases f with
  | constructor =>
    dsimp only
    split
    · exact Native.bind _ _ new_plain_object_native fun _ => Native.pure _
    · exact Native.bind _ _ new_plain_object_native fun _ => Native.pure _
    · exact Native.bind _ _ (to_object_native _) fun _ => Native.pure _
  | getPrototypeOf =>
    refine Native.bind _ _ (object_argument_native _ _) fun id => ?_
    refine native_heap _ (fun h k same => ?_) fun h => Native.pure _
    rw [same.prototype]
  | getOwnPropertyDescriptor =>
    refine Native.bind _ _ (object_argument_native _ _) fun id => ?_
    refine Native.bind _ _ (to_property_key_native _) fun key => ?_
    refine native_heap _ (fun h k same => ?_) fun h => ?_
    · rw [Heap.own_same h k same]
    split
    · exact Native.bind _ _ (new_descriptor_object_native _) fun _ => Native.pure _
    · exact Native.pure _
  | getOwnPropertyNames =>
    refine Native.bind _ _ (object_argument_native _ _) fun id => ?_
    refine native_heap _ (fun h k same => ?_) fun h => ?_
    · rw [Heap.own_keys_same h k same]
    · exact Native.bind _ _ (new_array_native _) fun _ => Native.pure _
  | keys =>
    refine Native.bind _ _ (object_argument_native _ _) fun id => ?_
    refine native_heap _ (fun h k same => ?_) fun h => ?_
    · rw [Heap.enumerable_keys_same h k same]
    · exact Native.bind _ _ (new_array_native _) fun _ => Native.pure _
  | create => exact create_object_native _
  | defineProperty =>
    refine Native.bind _ _ (object_argument_native _ _) fun id => ?_
    refine Native.bind _ _ (to_property_key_native _) fun key => ?_
    refine Native.given _ _ (to_definition_native _) fun m r d r' read => ?_
    have defined : Native limits (defineOwn id key d true) :=
      define_own_native _ _ _ _ (to_definition_one_kind _ m r r' d read)
    exact Native.bind _ _ (native_discard _ defined) fun _ => Native.pure _
  | defineProperties =>
    refine Native.bind _ _ (object_argument_native _ _) fun id => ?_
    exact Native.bind _ _ (define_from_native _ _) fun _ => Native.pure _
  | preventExtensions =>
    refine Native.bind _ _ (object_argument_native _ _) fun id => ?_
    exact Native.bind _ _ (Native.preventExtensions id) fun _ => Native.pure _
  | isExtensible =>
    refine Native.bind _ _ (object_argument_native _ _) fun id => ?_
    refine native_heap _ (fun h k same => ?_) fun h => Native.pure _
    rw [same.extensible]
  | freeze =>
    refine Native.bind _ _ (object_argument_native _ _) fun id => ?_
    exact Native.bind _ _ (lock_native _ _) fun _ => Native.pure _
  | «seal» =>
    refine Native.bind _ _ (object_argument_native _ _) fun id => ?_
    exact Native.bind _ _ (lock_native _ _) fun _ => Native.pure _
  | isFrozen =>
    refine Native.bind _ _ (object_argument_native _ _) fun id => ?_
    refine native_heap _ (fun h k same => ?_) fun h => Native.pure _
    rw [Heap.isFrozen, Heap.isFrozen, is_locked_same h k same]
  | isSealed =>
    refine Native.bind _ _ (object_argument_native _ _) fun id => ?_
    refine native_heap _ (fun h k same => ?_) fun h => Native.pure _
    rw [Heap.isSealed, Heap.isSealed, is_locked_same h k same]
  | toString =>
    refine native_heap _ (fun h k same => ?_) fun h => Native.pure _
    rw [class_tag_same h k same]
  | valueOf => exact Native.bind _ _ (to_object_native _) fun _ => Native.pure _
  | hasOwnProperty => exact Native.bind _ _ (receiver_property_native _ _) fun _ => Native.pure _
  | isPrototypeOf =>
    dsimp only
    split
    · refine Native.bind _ _ (to_object_native _) fun id => ?_
      refine native_heap _ (fun h k same => ?_) fun h => Native.pure _
      rw [Heap.inherits_same h k same]
    · exact Native.pure _
  | propertyIsEnumerable =>
    exact Native.bind _ _ (receiver_property_native _ _) fun _ => Native.pure _

end Ecma
