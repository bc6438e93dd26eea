import Ecma.Builtin.Dispatch
import Ecma.Proofs.Builtin.Dispatch
import Ecma.Proofs.Operation.Tame

set_option autoImplicit false

/-!
The provided functions stay in the part that their receivers and arguments belong to.
-/

namespace Ecma

open Ecma.Program Ecma.Syntax Run

variable {w : Region} {moves : Bool}

/-! Arguments. -/

theorem argument_in (args : List Value) (index : Nat) (all : Values.In w args) :
    (argument args index).In w := by
  rw [argument, List.getD_eq_getElem?_getD]
  cases found : args[index]? with
  | none => trivial
  | some v => exact all v (List.mem_of_getElem? found)

theorem tail_in (args : List Value) (all : Values.In w args) : Values.In w args.tail := by
  exact fun v member => all v (List.mem_of_mem_tail member)

theorem throw_unfit_tame {α : Type} (v : Value) (message : String → String) (gives : Notion α) (held : v.In w) :
    Tame w moves (throwUnfit v message : Run α) gives := by
  refine tame_heap _ _ fun h k w' upto alike => ⟨?_, tame_refused _ _⟩
  rw [Heap.type_of_alike h k alike v (held.more upto)]

theorem range_end_tame (v : Value) (length : Float) (held : v.In w) :
    Tame w moves (rangeEnd v length) Vague := by
  cases v with
  | undefined => exact tame_any _
  | _ => exact tame_drop _ _ _ (to_integer_tame _ held)

theorem read_elements_tame (id : ObjectId) (start count : Nat) (read : List Value) (inside : w.object id)
    (held : Values.In w read) : Tame w moves (readElements id start count read) (fun w => Values.In w) := by
  induction count generalizing w start read with
  | zero => exact .pure _ _ fun w' upto v member => (held v (List.mem_reverse.mp member)).more upto
  | succ count hyp =>
    refine .bind _ _ _ _ (get_tame _ _ inside) fun v w' upto given => ?_
    exact hyp _ _ (inside.more upto) (List.forall_mem_cons.mpr ⟨given, Values.In.more upto held⟩)

theorem length_of_object_tame (id : ObjectId) (inside : w.object id) : Tame w moves (lengthOfObject id) Vague := by
  exact .bind _ _ _ _ (get_tame _ _ inside) fun v w' _ held => to_word_tame v held

/-! Functions. -/

theorem receiver_function_tame (this : Value) (method : String) (held : this.In w) :
    Tame w moves (receiverFunction this method) Region.object := by
  refine tame_heap _ _ fun h k w' upto alike => ?_
  have held := held.more upto
  rw [Heap.is_callable_alike h k alike this held]
  refine ⟨rfl, ?_⟩
  split
  · next id object _ =>
    refine tame_id id ?_
    cases this with
    | object id' =>
      cases object
      exact held
    | _ => cases object
  · exact throw_unfit_tame _ _ _ held

theorem to_texts_tame (vs : List Value) (all : Values.In w vs) : Tame w moves (toTexts vs) Vague := by
  induction vs generalizing w with
  | nil => exact tame_any _
  | cons v rest hyp =>
    obtain ⟨first, others⟩ := List.forall_mem_cons.mp all
    refine tame_then _ _ _ _ (to_text_tame _ first) fun _ w' upto => ?_
    exact tame_drop _ _ _ (hyp (Values.In.more upto others))

theorem function_of_texts_tame (texts : List String) : Tame w moves (newFunctionOfTexts texts) Region.object := by
  refine tame_look _ _ fun r s w₁ upto₁ alike => ⟨by rw [same_config r s alike.same], ?_⟩
  refine tame_then _ _ _ _ (tame_parsed _ _) fun parsed w₂ upto₂ => ?_
  exact .function _ _ (compile_plain parsed) (alike.heap.global.more upto₂)

theorem argument_list_tame (v : Value) (held : v.In w) :
    Tame w moves (argumentList v) (fun w => Values.In w) := by
  unfold argumentList
  cases v with
  | undefined => exact .pure _ _ fun _ _ => nofun
  | null => exact .pure _ _ fun _ _ => nofun
  | object id =>
    refine tame_then _ _ _ _ (length_of_object_tame _ held) fun _ w' upto => ?_
    exact read_elements_tame _ _ _ _ (Region.object.more held upto) nofun
  | _ => exact throw_unfit_tame _ _ _ trivial

theorem new_bound_function_tame (target : ObjectId) (receiver : Value) (args : List Value) (inside : w.object target)
    (this : receiver.In w) (all : Values.In w args) :
    Tame w moves (newBoundFunction target receiver args) Region.object := by
  refine tame_then _ _ _ _ (get_tame _ _ inside) fun length w₁ upto₁ => ?_
  refine .here _ _ fun h k w₂ upto₂ alike => ?_
  have more := upto₁.trans upto₂
  refine tame_names _ _ _ rfl rfl (by decide) (fun f same => ?_) ?_ ?_
  · cases same
    exact ⟨inside.more more, this.more more, Values.In.more more all⟩
  · exact (Dictionary.all_cons _ _ _).mpr ⟨data_primitive _ rfl _ _ _, poisoned_all (alike.intrinsic _ (by decide)) _⟩
  · change List.Nodup ("length" :: Dictionary.keys (poisoned ["caller", "arguments"]))
    rw [poisoned_keys]
    decide

theorem new_host_function_tame (name : String) : Tame w moves (newHostFunction name) Region.object := by
  refine tame_names _ _ _ rfl rfl (by decide) (fun f same => ?_) (names_single _ _ (data_primitive _ rfl _ _ _))
    (List.nodup_singleton _)
  cases same
  trivial

theorem function_run_tame (f : FunctionFunction) (this : Value) (args : List Value) (receiver : this.In w)
    (all : Values.In w args) : Tame w moves (f.run this args) Value.In := by
  have first := argument_in args 0 all
  have others := tail_in args all
  unfold FunctionFunction.run
  cases f with
  | prototype => exact tame_primitive _ rfl
  | throwTypeError => exact tame_refused _ _
  | constructor =>
    refine tame_then _ _ _ _ (to_texts_tame _ all) fun texts _ _ => ?_
    exact tame_made_object _ (function_of_texts_tame texts)
  | call =>
    refine .bind _ _ _ _ (receiver_function_tame _ _ receiver) fun f w' upto inside => ?_
    exact call_tame _ _ _ inside (first.more upto) (Values.In.more upto others)
  | apply =>
    refine .bind _ _ _ _ (receiver_function_tame _ _ receiver) fun f w' upto inside => ?_
    have second := (argument_in args 1 all).more upto
    refine .bind _ _ _ _ (argument_list_tame _ second) fun list w'' upto' held => ?_
    exact call_tame _ _ _ (Region.object.more inside upto') ((first.more upto).more upto') held
  | bind =>
    refine .bind _ _ _ _ (receiver_function_tame _ _ receiver) fun f w' upto inside => ?_
    exact tame_made_object _ (new_bound_function_tame _ _ _ inside (first.more upto) (Values.In.more upto others))
  | toString =>
    refine .bind _ _ _ _ (receiver_function_tame _ _ receiver) fun id w₁ _ inside => tame_heap _ _ fun h k w₂ upto alike => ?_
    exact ⟨by rw [Heap.callable_alike h k alike id (upto.object id inside)], tame_primitive _ rfl⟩

/-! Arrays. -/

theorem set_length_tame (id : ObjectId) (length : Float) (inside : w.object id) :
    Tame w moves (setLength id length) Vague := by
  exact put_tame _ _ _ _ inside trivial

theorem construct_array_tame (args : List Value) (all : Values.In w args) :
    Tame w moves (constructArray args) Value.In := by
  unfold constructArray
  split
  · refine tame_ite _ _ _ _ (tame_stopped _ _ _ _) (.bind _ _ _ _ (new_array_tame [] nofun) fun id w₁ _ inside => ?_)
    exact tame_then _ _ _ _ (set_length_tame id _ inside) fun _ w₂ upto => tame_value (.object id) (upto.object id inside)
  · exact tame_made_object _ (new_array_tame _ all)

theorem append_elements_tame (id : ObjectId) (position : Nat) (vs : List Value) (inside : w.object id)
    (all : Values.In w vs) : Tame w moves (appendElements id position vs) Vague := by
  induction vs generalizing w position with
  | nil => exact tame_any _
  | cons v rest hyp =>
    obtain ⟨first, others⟩ := List.forall_mem_cons.mp all
    refine tame_then _ _ _ _ (put_tame _ _ _ _ inside first) fun _ w' upto => ?_
    exact hyp _ (inside.more upto) (Values.In.more upto others)

theorem pop_element_tame (id : ObjectId) (inside : w.object id) : Tame w moves (popElement id) Value.In := by
  refine tame_then _ _ _ _ (length_of_object_tame _ inside) fun length w₁ upto₁ => ?_
  have inside := inside.more upto₁
  cases length with
  | zero => exact tame_then _ _ _ _ (set_length_tame _ _ inside) fun _ _ _ => tame_primitive _ rfl
  | succ last =>
    refine .bind _ _ _ _ (get_tame _ _ inside) fun v w₂ upto₂ held => ?_
    refine tame_then _ _ _ _ (tame_discard _ _ (delete_own_tame _ _ _ (inside.more upto₂))) fun _ w₃ upto₃ => ?_
    have more := upto₂.trans upto₃
    exact tame_then _ _ _ _ (set_length_tame _ _ (inside.more more)) fun _ w₄ upto₄ =>
      tame_value v (held.more (upto₃.trans upto₄))

theorem element_texts_tame (id : ObjectId) (start count : Nat) (texts : List String) (inside : w.object id) :
    Tame w moves (elementTexts id start count texts) Vague := by
  induction count generalizing w start texts with
  | zero => exact tame_any _
  | succ count hyp =>
    refine .bind _ _ _ _ (get_tame _ _ inside) fun v w' upto held => ?_
    have inside := inside.more upto
    split
    · exact hyp _ _ inside
    · exact hyp _ _ inside
    · exact tame_then _ _ _ _ (to_text_tame _ held) fun _ _ more => hyp _ _ (inside.more more)

theorem join_elements_tame (id : ObjectId) (separator : Value) (inside : w.object id) (held : separator.In w) :
    Tame w moves (joinElements id separator) Vague := by
  refine tame_then _ _ _ _ (length_of_object_tame _ inside) fun length w' upto => ?_
  have rest (s : String) (w'' : Region) (more : w'.Upto w'') : Tame w'' moves (elementTexts id 0 length [] >>=
      fun texts => pure (String.intercalate s texts)) Vague :=
    tame_drop _ _ _ (element_texts_tame _ _ _ _ ((inside.more upto).more more))
  have held := held.more upto
  cases separator with
  | undefined => exact tame_then _ _ _ _ (tame_any _) fun s w'' more => rest s w'' more
  | _ => exact tame_then _ _ _ _ (to_text_tame _ held) fun s w'' more => rest s w'' more

theorem copy_elements_tame (source target start position count : Nat) (origin : w.object source) (goal : w.object target) :
    Tame w moves (copyElements source target start position count) Vague := by
  induction count generalizing w start position with
  | zero => exact tame_any _
  | succ count hyp =>
    refine tame_heap _ _ fun h k w' upto alike => ?_
    have origin := origin.more upto
    have goal := goal.more upto
    dsimp only
    rw [Heap.has_property_alike h k alike source _ origin]
    refine ⟨rfl, tame_ite _ _ _ _ ?_ (hyp _ _ origin goal)⟩
    refine .bind _ _ _ _ (get_tame _ _ origin) fun v w₁ upto₁ held => ?_
    refine tame_then _ _ _ _ (put_tame _ _ _ _ (goal.more upto₁) held) fun _ w₂ upto₂ => ?_
    exact hyp _ _ (origin.more (upto₁.trans upto₂)) (goal.more (upto₁.trans upto₂))

theorem slice_elements_tame (id : ObjectId) (start stop : Value) (inside : w.object id) (first : start.In w)
    (last : stop.In w) : Tame w moves (sliceElements id start stop) Region.object := by
  refine tame_then _ _ _ _ (length_of_object_tame _ inside) fun length w₁ upto₁ => ?_
  refine tame_then _ _ _ _ (to_integer_tame _ (first.more upto₁)) fun start w₂ upto₂ => ?_
  have more := upto₁.trans upto₂
  refine tame_then _ _ _ _ (range_end_tame _ _ (last.more more)) fun stop w₃ upto₃ => ?_
  refine .bind _ _ _ _ (new_array_tame [] nofun) fun target w₄ upto₄ made => ?_
  have inside := inside.more (more.trans (upto₃.trans upto₄))
  refine tame_then _ _ _ _ (copy_elements_tame _ _ _ _ _ inside made) fun _ w₅ upto₅ => ?_
  refine tame_then _ _ _ _ (set_length_tame _ _ (Region.object.more made upto₅)) fun _ w₆ upto₆ => ?_
  exact tame_id target (Region.object.more made (upto₅.trans upto₆))

theorem find_element_tame (id : ObjectId) (v : Value) (start count : Nat) (inside : w.object id) :
    Tame w moves (findElement id v start count) Vague := by
  induction count generalizing w start with
  | zero => exact tame_any _
  | succ count hyp =>
    refine tame_heap _ _ fun h k w₁ upto₁ alike => ?_
    have inside := inside.more upto₁
    dsimp only
    rw [Heap.has_property_alike h k alike id _ inside]
    refine ⟨rfl, tame_ite _ _ _ _ ?_ (hyp _ inside)⟩
    refine tame_then _ _ _ _ (get_tame _ _ inside) fun _ w₂ upto₂ => ?_
    exact tame_ite _ _ _ _ (tame_any _) (hyp _ (inside.more upto₂))

theorem index_of_element_tame (id : ObjectId) (v start : Value) (inside : w.object id) (held : start.In w) :
    Tame w moves (indexOfElement id v start) Vague := by
  refine tame_then _ _ _ _ (length_of_object_tame _ inside) fun length w' upto => ?_
  refine tame_ite _ _ _ _ (tame_any _) ?_
  extract_lets sought
  have rest (start : Float) (w'' : Region) (more : w'.Upto w'') : Tame w'' moves (sought start) Vague := by
    refine tame_ite _ _ _ _ (tame_any _) ?_
    refine tame_then _ _ _ _ (find_element_tame _ _ _ _ ((inside.more upto).more more)) fun found _ _ => ?_
    cases found with
    | some position => exact tame_any _
    | none => exact tame_any _
  have held := held.more upto
  cases start with
  | undefined => exact tame_then _ _ _ _ (tame_any _) fun start w'' more => rest start w'' more
  | _ => exact tame_then _ _ _ _ (to_integer_tame _ held) fun start w'' more => rest start w'' more

theorem array_run_tame (f : ArrayFunction) (this : Value) (args : List Value) (receiver : this.In w)
    (all : Values.In w args) : Tame w moves (f.run this args) Value.In := by
  have first := argument_in args 0 all
  have second := argument_in args 1 all
  have object : Tame w moves (toObject this) Region.object := to_object_tame this receiver
  unfold ArrayFunction.run
  cases f with
  | constructor => exact construct_array_tame _ all
  | isArray =>
    dsimp only
    generalize argument args 0 = v at first ⊢
    cases v with
    | object id =>
      refine tame_heap _ _ fun h k w' upto alike => ⟨?_, tame_primitive _ rfl⟩
      rw [Heap.is_array_alike h k alike id (upto.object id first)]
    | _ => exact tame_primitive _ rfl
  | push =>
    refine .bind _ _ _ _ object fun id w₁ upto₁ inside => ?_
    refine tame_then _ _ _ _ (length_of_object_tame _ inside) fun length w₂ upto₂ => ?_
    have inside : w₂.object id := Region.object.more inside upto₂
    refine tame_then _ _ _ _ (append_elements_tame _ _ _ inside (Values.In.more (upto₁.trans upto₂) all))
      fun length w₃ upto₃ => ?_
    exact tame_then _ _ _ _ (set_length_tame _ _ (inside.more upto₃)) fun _ _ _ => tame_primitive _ rfl
  | pop => exact .bind _ _ _ _ object fun id _ _ inside => pop_element_tame id inside
  | join =>
    refine .bind _ _ _ _ object fun id w' upto inside => ?_
    exact tame_made _ _ _ (join_elements_tame id _ inside (first.more upto)) fun _ => rfl
  | toString => exact .bind _ _ _ _ object fun id _ _ inside => invoke_tame id _ _ inside nofun
  | slice =>
    refine .bind _ _ _ _ object fun id w' upto inside => ?_
    exact tame_made_object _ (slice_elements_tame id _ _ inside (first.more upto) (second.more upto))
  | indexOf =>
    refine .bind _ _ _ _ object fun id w' upto inside => ?_
    exact tame_made _ _ _ (index_of_element_tame id _ _ inside (second.more upto)) fun _ => rfl

/-! Descriptors as objects of scripts. -/

theorem object_argument_tame (args : List Value) (method : String) (all : Values.In w args) :
    Tame w moves (objectArgument args method) Region.object := by
  have first := argument_in args 0 all
  unfold objectArgument
  generalize argument args 0 = v at first ⊢
  cases v with
  | object id => exact tame_id id first
  | _ => exact throw_unfit_tame _ _ _ trivial

theorem field_tame (id : ObjectId) (name : String) (inside : w.object id) :
    Tame w moves (field id name) (fun w => OptionalValue.In w) := by
  refine tame_heap _ _ fun h k w' upto alike => ?_
  have inside := inside.more upto
  rw [Heap.has_property_alike h k alike id _ inside]
  refine ⟨rfl, tame_ite _ _ _ _ ?_ (.pure _ _ fun _ _ => nofun)⟩
  refine tame_after _ _ _ _ (get_tame _ _ inside) fun _ v _ held w'' more u same => ?_
  cases same
  exact held.more more

-- What is known of a getter or a setter that was looked up for a field.
def Accessor.Fits (v : Option Value) (w : Region) (f : Option (Option ObjectId)) : Prop :=
  f.isSome = v.isSome ∧ ∀ id, f = some (some id) → w.object id

theorem accessor_function_tame (v : Value) (which : String) (held : v.In w) :
    Tame w moves (accessorFunction v which) (fun w f => ∀ id, f = some id → w.object id) := by
  unfold accessorFunction
  split
  · exact .pure _ _ fun _ _ => nofun
  · refine tame_heap _ _ fun h k w' upto alike => ?_
    have held := held.more upto
    rw [Heap.is_callable_alike h k alike v held]
    refine ⟨rfl, ?_⟩
    split
    · next id object _ =>
      refine .pure _ _ fun w' more id' same => ?_
      cases same
      cases v with
      | object id =>
        cases object
        exact Region.object.more held more
      | _ => cases object
    · exact throw_unfit_tame _ _ _ held

theorem optional_accessor_tame (v : Option Value) (which : String) (held : OptionalValue.In w v) :
    Tame w moves (optionalAccessor v which) (Accessor.Fits v) := by
  cases v with
  | none => exact .pure _ _ fun _ _ => ⟨rfl, nofun⟩
  | some v =>
    refine tame_after _ _ _ _ (accessor_function_tame v which (held v rfl)) fun w' f _ fits w'' more => ?_
    refine ⟨rfl, fun id same => ?_⟩
    cases same
    exact (fits id rfl).more more

-- A definition that can be made: about a value or about functions, and of nothing but what there is.
structure Definition.Sound (w : Region) (d : Definition) : Prop where
  oneKind : d.OneKind
  within : d.In w

-- After the fields have been read, the functions among them are checked.
theorem definition_rest_tame (value writable enumerable configurable getter setter : Option Value)
    (given : OptionalValue.In w value) (first : OptionalValue.In w getter)
    (second : OptionalValue.In w setter)
    (single : ¬ ((getter.isSome || setter.isSome) && (value.isSome || writable.isSome)) = true) :
    Tame w moves (optionalAccessor getter "getter" >>= fun getter => optionalAccessor setter "setter" >>= fun setter =>
      (pure {
        value := value
        writable := writable.map Value.toBoolean
        getter := getter
        setter := setter
        enumerable := enumerable.map Value.toBoolean
        configurable := configurable.map Value.toBoolean } : Run Definition)) (fun w => Definition.Sound w) := by
  refine .bind _ _ _ _ (optional_accessor_tame getter _ first) fun g w₁ upto₁ fits => ?_
  refine tame_after _ _ _ _ (optional_accessor_tame setter _ (second.more upto₁)) fun w₂ s upto₂ fits' w₃ upto₃ => ?_
  refine ⟨fun isValue => ?_, fun v same => ?_, fun f same => ?_, fun f same => ?_⟩
  · simp only [Definition.isData, Option.isSome_map] at isValue
    simp only [Definition.isAccessor, fits.1, fits'.1]
    simpa [isValue] using single
  · exact (given v same).more ((upto₁.trans upto₂).trans upto₃)
  · exact (fits.2 f same).more (upto₂.trans upto₃)
  · exact (fits'.2 f same).more upto₃

theorem definition_of_tame (id : ObjectId) (inside : w.object id) :
    Tame w moves (definitionOf id) (fun w => Definition.Sound w) := by
  refine tame_then _ _ _ _ (field_tame _ _ inside) fun enumerable w₁ upto₁ => ?_
  have inside := inside.more upto₁
  refine tame_then _ _ _ _ (field_tame _ _ inside) fun configurable w₂ upto₂ => ?_
  have inside := inside.more upto₂
  refine .bind _ _ _ _ (field_tame _ _ inside) fun value w₃ upto₃ given => ?_
  have inside := inside.more upto₃
  refine tame_then _ _ _ _ (field_tame _ _ inside) fun writable w₄ upto₄ => ?_
  have inside := inside.more upto₄
  refine .bind _ _ _ _ (field_tame _ _ inside) fun getter w₅ upto₅ first => ?_
  have inside := inside.more upto₅
  refine .bind _ _ _ _ (field_tame _ _ inside) fun setter w₆ upto₆ second => ?_
  split
  · exact tame_stopped _ _ _ _
  · next single =>
    have given := OptionalValue.In.more ((upto₄.trans upto₅).trans upto₆) given
    exact definition_rest_tame value writable enumerable configurable getter setter given
      (OptionalValue.In.more upto₆ first) second single

theorem to_definition_tame (v : Value) (held : v.In w) :
    Tame w moves (toDefinition v) (fun w => Definition.Sound w) := by
  unfold toDefinition
  cases v with
  | object id => exact definition_of_tame id held
  | _ => exact throw_unfit_tame _ _ _ trivial

theorem function_or_undefined_in (f : Option ObjectId) (inside : ∀ id, f = some id → (Value.object id).In w) :
    (functionOrUndefined f).In w := by
  cases f with
  | none => trivial
  | some id => exact inside id rfl

theorem new_descriptor_object_tame (d : Descriptor) (held : d.All (Value.In w)) :
    Tame w moves (newDescriptorObject d) Region.object := by
  have fields : ∀ entry ∈ descriptorFields d, entry.2.In w := by
    cases d with
    | data v x e c =>
      have within := (Descriptor.all_data v x e c).mp held
      simpa [descriptorFields] using ⟨within, trivial, trivial, trivial⟩
    | accessor g s e c =>
      obtain ⟨first, second⟩ := (Descriptor.all_accessor g s e c).mp held
      simpa [descriptorFields] using
        ⟨function_or_undefined_in g first, function_or_undefined_in s second, trivial, trivial⟩
  refine tame_names _ _ _ rfl rfl (by decide) nofun (fun entry member => ?_) ?_
  · obtain ⟨field, there, rfl⟩ := List.mem_map.mp member
    exact (Descriptor.all_data _ _ _ _).mpr (fields field there)
  · cases d with
    | data v x e c => simp [descriptorFields, Dictionary.keys]
    | accessor g s e c => simp [descriptorFields, Dictionary.keys]

theorem definitions_of_tame (id : ObjectId) (keys : List PropertyKey) (inside : w.object id) :
    Tame w moves (definitionsOf id keys) (fun w ds => ∀ d ∈ ds, Definition.Sound w d.2) := by
  induction keys generalizing w with
  | nil => exact .pure _ _ fun _ _ d member => absurd member List.not_mem_nil
  | cons key rest hyp =>
    refine .bind _ _ _ _ (get_tame _ _ inside) fun v w₁ upto₁ held => ?_
    refine .bind _ _ _ _ (to_definition_tame v held) fun d w₂ upto₂ «sound» => ?_
    refine tame_after _ _ _ _ (hyp (inside.more (upto₁.trans upto₂))) fun w₃ ds upto₃ others w₄ upto₄ => ?_
    refine List.forall_mem_cons.mpr ⟨⟨«sound».oneKind, Definition.In.more (upto₃.trans upto₄) «sound».within⟩, ?_⟩
    exact fun e member => ⟨(others e member).oneKind, Definition.In.more upto₄ (others e member).within⟩

theorem define_all_tame (id : ObjectId) (ds : List (PropertyKey × Definition)) (inside : w.object id)
    (each : ∀ d ∈ ds, Definition.Sound w d.2) : Tame w moves (defineAll id ds) Vague := by
  induction ds generalizing w with
  | nil => exact tame_any _
  | cons d rest hyp =>
    obtain ⟨first, others⟩ := List.forall_mem_cons.mp each
    have defined : Tame w moves (defineOwn id d.1 d.2 true) Vague :=
      define_own_tame id d.1 d.2 true first.oneKind inside first.within
    refine tame_then _ _ _ _ (tame_discard _ _ defined) fun _ w' upto => hyp (inside.more upto) fun e member => ?_
    exact ⟨(others e member).oneKind, Definition.In.more upto (others e member).within⟩

theorem define_from_tame (id : ObjectId) (properties : Value) (inside : w.object id) (held : properties.In w) :
    Tame w moves (defineFrom id properties) Vague := by
  refine .bind _ _ _ _ (to_object_tame _ held) fun source w₁ upto₁ there => tame_heap _ _ fun h k w₂ upto₂ alike => ?_
  have there := upto₂.object source there
  dsimp only
  rw [Heap.enumerable_keys_alike h k alike source there]
  exact ⟨rfl, .bind _ _ _ _ (definitions_of_tame source _ there) fun ds w₃ upto₃ each =>
    define_all_tame id ds (((inside.more upto₁).more upto₂).more upto₃) each⟩

/-! Locking. -/

theorem lock_keys_tame (id : ObjectId) (readOnly : Bool) (keys : List PropertyKey) (inside : w.object id) :
    Tame w moves (lockKeys id readOnly keys) Vague := by
  induction keys generalizing w with
  | nil => exact tame_any _
  | cons key rest hyp =>
    refine tame_heap _ _ fun h k w' upto alike => ?_
    have inside := inside.more upto
    dsimp only
    rw [Heap.own_alike h k alike id key inside]
    refine ⟨rfl, ?_⟩
    cases h.own? id key with
    | some d =>
      have locked : Tame w' moves (defineOwn id key (lockDefinition d readOnly) true) Vague :=
        define_own_tame _ _ _ _ (lock_one_kind d readOnly) inside (Definition.all_flags _ rfl rfl rfl)
      exact tame_then _ _ _ _ (tame_discard _ _ locked) fun _ _ more => hyp (inside.more more)
    | none => exact hyp inside

theorem lock_tame (id : ObjectId) (readOnly : Bool) (inside : w.object id) : Tame w moves (lock id readOnly) Vague := by
  refine tame_heap _ _ fun h k w' upto alike => ?_
  have inside := inside.more upto
  dsimp only
  rw [Heap.own_keys_alike h k alike id inside]
  exact ⟨rfl, tame_then _ _ _ _ (lock_keys_tame _ _ _ inside) fun _ _ more => .close id (inside.more more)⟩

/-! Objects. -/

theorem create_object_tame (args : List Value) (all : Values.In w args) :
    Tame w moves (createObject args) Value.In := by
  have first := argument_in args 0 all
  have second := argument_in args 1 all
  unfold createObject
  extract_lets made
  have rest (prototype : Option ObjectId) (w' : Region) (upto : w.Upto w')
      (link : ∀ link, prototype = some link → w'.object link) : Tame w' moves (made prototype) Value.In := by
    refine .bind _ _ _ _ (tame_bare _ prototype [] rfl rfl link nofun nofun List.nodup_nil) fun id w₁ upto₁ inside => ?_
    have second := second.more (upto.trans upto₁)
    split
    · exact tame_value _ inside
    · exact .bind _ _ _ _ (define_from_tame _ _ inside second) fun _ w₂ upto₂ _ =>
        tame_value _ (Region.object.more inside upto₂)
  generalize argument args 0 = v at first ⊢
  cases v with
  | object p =>
    refine .bind _ _ (fun w prototype => ∀ link, prototype = some link → w.object link) _ ?_ fun prototype w' upto link =>
      rest prototype w' upto link
    refine .pure _ _ fun w' upto link same => ?_
    cases same
    exact Region.object.more first upto
  | null =>
    refine .bind _ _ (fun w prototype => ∀ link, prototype = some link → w.object link) _ ?_ fun prototype w' upto link =>
      rest prototype w' upto link
    exact .pure _ _ fun _ _ => nofun
  | _ =>
    exact .bind _ _ (fun w prototype => ∀ link, prototype = some link → w.object link) _ (throw_unfit_tame _ _ _ trivial)
      fun prototype w' upto link => rest prototype w' upto link

theorem receiver_property_tame (this : Value) (args : List Value) (receiver : this.In w)
    (all : Values.In w args) : Tame w moves (receiverProperty this args) Vague := by
  refine tame_then _ _ _ _ (to_property_key_tame _ (argument_in args 0 all)) fun key w₁ upto₁ => ?_
  refine .bind _ _ _ _ (to_object_tame _ (receiver.more upto₁)) fun id w₂ _ inside => ?_
  refine tame_heap _ _ fun h k w₃ upto₃ alike => ?_
  exact ⟨by rw [Heap.own_alike h k alike id key (upto₃.object id inside)], tame_any _⟩

theorem texts_in (keys : List PropertyKey) : Values.In w (keys.map fun key => .string key.text) := by
  intro v member
  obtain ⟨key, _, rfl⟩ := List.mem_map.mp member
  trivial

theorem class_tag_alike (h k : Heap) (alike : h.AlikeIn w k) (v : Value) (held : v.In w) :
    classTag k v = classTag h v := by
  cases v with
  | object id =>
    change (k.kind id).className = (h.kind id).className
    rw [Heap.kind_alike h k alike id held]
  | _ => rfl

-- A look at the object that is given.
theorem about_object_tame {α : Type} (args : List Value) (method : String) (f : ObjectId → Heap → Run α)
    (gives : Notion α) (all : Values.In w args)
    (each : ∀ (h k : Heap) w' id, w.Upto w' → h.AlikeIn w' k → w'.object id →
      f id k = f id h ∧ Tame w' moves (f id h) gives) :
    Tame w moves (objectArgument args method >>= fun id => heap >>= f id) gives := by
  refine .bind _ _ _ _ (object_argument_tame args method all) fun id w₁ upto₁ inside => ?_
  exact tame_heap _ _ fun h k w₂ upto₂ alike => each h k w₂ id (upto₁.trans upto₂) alike (upto₂.object id inside)

theorem object_run_tame (f : ObjectFunction) (this : Value) (args : List Value) (receiver : this.In w)
    (all : Values.In w args) : Tame w moves (f.run this args) Value.In := by
  have first := argument_in args 0 all
  have second := argument_in args 1 all
  have third := argument_in args 2 all
  have object (method : String) : Tame w moves (objectArgument args method) Region.object :=
    object_argument_tame args method all
  unfold ObjectFunction.run
  cases f with
  | constructor =>
    dsimp only
    split
    · exact tame_made_object _ tame_plain
    · exact tame_made_object _ tame_plain
    · exact tame_made_object _ (to_object_tame _ first)
  | getPrototypeOf =>
    refine about_object_tame _ _ _ _ all fun h k w' id _ alike inside => ?_
    rw [alike.object id inside]
    refine ⟨rfl, tame_value _ ?_⟩
    cases link : (h.object id).prototype with
    | none => trivial
    | some p => exact (alike.near id inside).prototype p link
  | getOwnPropertyDescriptor =>
    refine .bind _ _ _ _ (object _) fun id w₁ upto₁ inside => ?_
    refine tame_then _ _ _ _ (to_property_key_tame _ (second.more upto₁)) fun key w₂ upto₂ => ?_
    refine tame_heap _ _ fun h k w₃ upto₃ alike => ?_
    have inside := upto₃.object id (upto₂.object id inside)
    rw [Heap.own_alike h k alike id key inside]
    refine ⟨rfl, ?_⟩
    split
    · next d found =>
      exact tame_made_object _ (new_descriptor_object_tame d (Heap.own_in h k alike id key inside d found))
    · exact tame_primitive _ rfl
  | getOwnPropertyNames =>
    refine about_object_tame _ _ _ _ all fun h k w' id _ alike inside => ?_
    dsimp only
    rw [Heap.own_keys_alike h k alike id inside]
    exact ⟨rfl, tame_made_object _ (new_array_tame _ (texts_in _))⟩
  | keys =>
    refine about_object_tame _ _ _ _ all fun h k w' id _ alike inside => ?_
    dsimp only
    rw [Heap.enumerable_keys_alike h k alike id inside]
    exact ⟨rfl, tame_made_object _ (new_array_tame _ (texts_in _))⟩
  | create => exact create_object_tame _ all
  | defineProperty =>
    refine .bind _ _ _ _ (object _) fun id w₁ upto₁ inside => ?_
    refine tame_then _ _ _ _ (to_property_key_tame _ (second.more upto₁)) fun key w₂ upto₂ => ?_
    have more := upto₁.trans upto₂
    refine .bind _ _ _ _ (to_definition_tame _ (third.more more)) fun d w₃ upto₃ «sound» => ?_
    have inside := upto₃.object id (upto₂.object id inside)
    have defined : Tame w₃ moves (defineOwn id key d true) Vague :=
      define_own_tame _ _ _ _ «sound».oneKind inside «sound».within
    exact tame_then _ _ _ _ (tame_discard _ _ defined) fun _ _ upto₄ => tame_value (.object id) (upto₄.object id inside)
  | defineProperties =>
    refine .bind _ _ _ _ (object _) fun id w₁ upto₁ inside => ?_
    exact tame_then _ _ _ _ (define_from_tame _ _ inside (second.more upto₁)) fun _ w₂ upto₂ =>
      tame_value (.object id) (upto₂.object id inside)
  | preventExtensions =>
    refine .bind _ _ _ _ (object _) fun id _ _ inside => ?_
    exact tame_then _ _ _ _ (.close id inside) fun _ w' upto => tame_value (.object id) (upto.object id inside)
  | isExtensible =>
    refine about_object_tame _ _ _ _ all fun h k w' id _ alike inside => ⟨?_, tame_primitive _ rfl⟩
    rw [alike.object id inside]
  | freeze =>
    refine .bind _ _ _ _ (object _) fun id _ _ inside => ?_
    exact tame_then _ _ _ _ (lock_tame id _ inside) fun _ w' upto => tame_value (.object id) (upto.object id inside)
  | «seal» =>
    refine .bind _ _ _ _ (object _) fun id _ _ inside => ?_
    exact tame_then _ _ _ _ (lock_tame id _ inside) fun _ w' upto => tame_value (.object id) (upto.object id inside)
  | isFrozen =>
    refine about_object_tame _ _ _ _ all fun h k w' id _ alike inside => ⟨?_, tame_primitive _ rfl⟩
    rw [Heap.isFrozen, Heap.isFrozen, Heap.is_locked_alike h k alike id inside]
  | isSealed =>
    refine about_object_tame _ _ _ _ all fun h k w' id _ alike inside => ⟨?_, tame_primitive _ rfl⟩
    rw [Heap.isSealed, Heap.isSealed, Heap.is_locked_alike h k alike id inside]
  | toString =>
    refine tame_heap _ _ fun h k w' upto alike => ⟨?_, tame_primitive _ rfl⟩
    rw [class_tag_alike h k alike this (receiver.more upto)]
  | valueOf => exact tame_made_object _ (to_object_tame _ receiver)
  | hasOwnProperty => exact tame_made _ _ _ (receiver_property_tame _ _ receiver all) fun _ => rfl
  | isPrototypeOf =>
    dsimp only
    generalize argument args 0 = v at first ⊢
    cases v with
    | object v =>
      refine tame_then _ _ _ _ (to_object_tame _ receiver) fun id w₁ upto₁ => tame_heap _ _ fun h k w₂ upto₂ alike => ?_
      have inside := upto₂.object v (upto₁.object v first)
      exact ⟨by rw [Heap.inherits_alike h k alike v id inside], tame_primitive _ rfl⟩
    | _ => exact tame_primitive _ rfl
  | propertyIsEnumerable => exact tame_made _ _ _ (receiver_property_tame _ _ receiver all) fun _ => rfl

/-! Strings, numbers and booleans. -/

theorem text_argument_tame (args : List Value) (all : Values.In w args) :
    Tame w moves (textArgument args) Vague := by
  cases args with
  | nil => exact tame_any _
  | cons v rest => exact to_text_tame v (all v List.mem_cons_self)

theorem receiver_text_tame (this : Value) (method : String) (held : this.In w) :
    Tame w moves (receiverText this method) Vague := by
  unfold receiverText
  exact tame_ite _ _ _ _ (tame_stopped _ _ _ _) (to_text_tame _ held)

theorem string_value_tame (this : Value) (held : this.In w) : Tame w moves (stringValue this) Value.In := by
  refine tame_heap _ _ fun h k w' upto alike => ⟨?_, ?_⟩
  · cases this with
    | object id => rw [stringValue?, stringValue?, Heap.kind_alike h k alike id (upto.object id held)]
    | _ => rfl
  · split
    · exact tame_primitive _ rfl
    · exact throw_unfit_tame _ _ _ (held.more upto)

theorem slice_text_tame (s : String) (start stop : Value) (first : start.In w) (last : stop.In w) :
    Tame w moves (sliceText s start stop) Vague := by
  refine tame_then _ _ _ _ (to_integer_tame _ first) fun start w' upto => ?_
  exact tame_drop _ _ _ (range_end_tame _ _ (last.more upto))

theorem substring_text_tame (s : String) (start stop : Value) (first : start.In w) (last : stop.In w) :
    Tame w moves (substringText s start stop) Vague := by
  refine tame_then _ _ _ _ (to_integer_tame _ first) fun start w' upto => ?_
  have last := last.more upto
  cases stop with
  | undefined => exact tame_any _
  | _ => exact tame_drop _ _ _ (to_integer_tame _ last)

theorem string_run_tame (f : StringFunction) (this : Value) (args : List Value) (receiver : this.In w)
    (all : Values.In w args) : Tame w moves (f.run this args) Value.In := by
  have first := argument_in args 0 all
  have second := argument_in args 1 all
  have text (method : String) : Tame w moves (receiverText this method) Vague :=
    receiver_text_tame this method receiver
  unfold StringFunction.run
  cases f with
  | constructor => exact tame_made _ _ _ (text_argument_tame _ all) fun _ => rfl
  | toString => exact string_value_tame _ receiver
  | valueOf => exact string_value_tame _ receiver
  | charAt =>
    refine tame_then _ _ _ _ (text _) fun s w' upto => ?_
    exact tame_made _ _ _ (to_integer_tame _ (first.more upto)) fun _ => rfl
  | charCodeAt =>
    refine tame_then _ _ _ _ (text _) fun s w' upto => ?_
    exact tame_made _ _ _ (to_integer_tame _ (first.more upto)) fun _ => rfl
  | indexOf =>
    refine tame_then _ _ _ _ (text _) fun s w₁ upto₁ => ?_
    refine tame_then _ _ _ _ (to_text_tame _ (first.more upto₁)) fun needle w₂ upto₂ => ?_
    exact tame_made _ _ _ (to_integer_tame _ (second.more (upto₁.trans upto₂))) fun _ => rfl
  | slice =>
    refine tame_then _ _ _ _ (text _) fun s w' upto => ?_
    exact tame_made _ _ _ (slice_text_tame s _ _ (first.more upto) (second.more upto)) fun _ => rfl
  | substring =>
    refine tame_then _ _ _ _ (text _) fun s w' upto => ?_
    exact tame_made _ _ _ (substring_text_tame s _ _ (first.more upto) (second.more upto)) fun _ => rfl

theorem number_argument_tame (args : List Value) (all : Values.In w args) :
    Tame w moves (numberArgument args) Vague := by
  cases args with
  | nil => exact tame_any _
  | cons v rest => exact to_number_tame v (all v List.mem_cons_self)

theorem receiver_number_tame (this : Value) (method : String) (held : this.In w) :
    Tame w moves (receiverNumber this method) Vague := by
  refine tame_heap _ _ fun h k w' upto alike => ⟨?_, ?_⟩
  · cases this with
    | object id => rw [numberValue?, numberValue?, Heap.kind_alike h k alike id (upto.object id held)]
    | _ => rfl
  · split
    · exact tame_any _
    · exact throw_unfit_tame _ _ _ (held.more upto)

theorem number_text_tame (x : Float) (radix : Value) (held : radix.In w) :
    Tame w moves (numberText x radix) Vague := by
  have checked (radix : Float) (w' : Region) : Tame w' moves (if !(2.0 ≤ radix && radix ≤ 36.0) then
      Run.throwError .rangeError "toString() radix must be between 2 and 36" >>= fun (_ : PUnit) =>
        if radix == 10.0 then pure (Number.text x)
        else pure (Number.radixText x (Number.clamp 36 radix))
      else if radix == 10.0 then pure (Number.text x)
        else pure (Number.radixText x (Number.clamp 36 radix)) : Run String) Vague :=
    tame_ite _ _ _ _ (tame_stopped _ _ _ _) (tame_ite _ _ _ _ (tame_any _) (tame_any _))
  cases radix with
  | undefined => exact checked 10.0 w
  | _ => exact tame_then _ _ _ _ (to_integer_tame _ held) fun radix w' _ => checked radix w'

theorem number_run_tame (f : NumberFunction) (this : Value) (args : List Value) (receiver : this.In w)
    (all : Values.In w args) : Tame w moves (f.run this args) Value.In := by
  have first := argument_in args 0 all
  unfold NumberFunction.run
  cases f with
  | constructor => exact tame_made _ _ _ (number_argument_tame _ all) fun _ => rfl
  | toString =>
    refine tame_then _ _ _ _ (receiver_number_tame _ _ receiver) fun x w' upto => ?_
    exact tame_made _ _ _ (number_text_tame x _ (first.more upto)) fun _ => rfl
  | valueOf => exact tame_made _ _ _ (receiver_number_tame _ _ receiver) fun _ => rfl

theorem receiver_boolean_tame (this : Value) (method : String) (held : this.In w) :
    Tame w moves (receiverBoolean this method) Vague := by
  refine tame_heap _ _ fun h k w' upto alike => ⟨?_, ?_⟩
  · cases this with
    | object id => rw [booleanValue?, booleanValue?, Heap.kind_alike h k alike id (upto.object id held)]
    | _ => rfl
  · split
    · exact tame_any _
    · exact throw_unfit_tame _ _ _ (held.more upto)

theorem boolean_run_tame (f : BooleanFunction) (this : Value) (args : List Value) (receiver : this.In w) :
    Tame w moves (f.run this args) Value.In := by
  unfold BooleanFunction.run
  cases f with
  | constructor => exact tame_primitive _ rfl
  | toString => exact tame_made _ _ _ (receiver_boolean_tame _ _ receiver) fun _ => rfl
  | valueOf => exact tame_made _ _ _ (receiver_boolean_tame _ _ receiver) fun _ => rfl

/-! Errors. -/

theorem construct_error_tame (prototype : ObjectId) (args : List Value) (link : prototype ≤ 16)
    (all : Values.In w args) : Tame w moves (constructError prototype args) Value.In := by
  have first := argument_in args 0 all
  unfold constructError
  split
  · exact tame_made_object _ (tame_error_from _ _ link nofun)
  · refine tame_then _ _ _ _ (to_text_tame _ first) fun message _ _ => ?_
    refine tame_made_object _ (tame_error_from _ _ link fun v same => ?_)
    cases same
    trivial

theorem text_property_tame (id : ObjectId) (name other : String) (inside : w.object id) :
    Tame w moves (textProperty id name other) Vague := by
  refine .bind _ _ _ _ (get_tame _ _ inside) fun v _ _ held => ?_
  split
  · exact tame_any _
  · exact to_text_tame _ held

theorem error_summary_tame (id : ObjectId) (inside : w.object id) : Tame w moves (errorSummary id) Vague := by
  refine tame_then _ _ _ _ (text_property_tame _ _ _ inside) fun name w' upto => ?_
  refine tame_then _ _ _ _ (text_property_tame _ _ _ (inside.more upto)) fun message _ _ => ?_
  exact tame_ite _ _ _ _ (tame_any _) (tame_ite _ _ _ _ (tame_any _) (tame_any _))

theorem receiver_object_tame (this : Value) (method : String) (held : this.In w) :
    Tame w moves (receiverObject this method) Region.object := by
  unfold receiverObject
  cases this with
  | object id => exact tame_id id held
  | _ => exact throw_unfit_tame _ _ _ trivial

theorem error_run_tame (f : ErrorFunction) (this : Value) (args : List Value) (receiver : this.In w)
    (all : Values.In w args) : Tame w moves (f.run this args) Value.In := by
  unfold ErrorFunction.run
  cases f with
  | constructor => exact construct_error_tame _ _ (by decide) all
  | native kind => exact construct_error_tame _ _ (by cases kind <;> decide) all
  | toString =>
    refine .bind _ _ _ _ (receiver_object_tame _ _ receiver) fun id _ _ inside => ?_
    exact tame_made _ _ _ (error_summary_tame id inside) fun _ => rfl
  | stack =>
    refine .bind _ _ _ _ (receiver_object_tame _ _ receiver) fun id w₁ _ inside => ?_
    refine tame_then _ _ _ _ (error_summary_tame id inside) fun summary w₂ upto₂ => tame_heap _ _ fun h k w₃ upto₃ alike => ?_
    have inside := upto₃.object id (upto₂.object id inside)
    exact ⟨by rw [stackLines, stackLines, Heap.kind_alike h k alike id inside], tame_primitive _ rfl⟩

/-! The console. -/

theorem console_run_tame (f : ConsoleFunction) (args : List Value) (all : Values.In w args) :
    Tame w moves (f.run args) Value.In := by
  have line : Tame w moves (consoleLine args) Vague := tame_drop _ _ _ (to_texts_tame _ all)
  refine tame_then _ _ _ _ line fun line _ _ => ?_
  cases f with
  | log => exact tame_made _ _ _ (.beside _ (output_outward line) (fun _ _ => rfl) fun _ _ _ all => all) fun _ => rfl
  | error => exact tame_made _ _ _ (.beside _ (error_outward line) (fun _ _ => rfl) fun _ _ _ all => all) fun _ => rfl

/-! The global object. -/

theorem modify_config_tame (f : Config → Config) (collapse : ∀ c, (f c).collapse = c.collapse)
    (face : ∀ c, (f c).face = f c.face) : Tame w moves (modifyConfig f) Vague := by
  exact .beside _ (config_outward f collapse face) (fun _ _ => rfl) fun _ _ _ all => all

theorem set_trace_limit_tame (x : Float) : Tame w moves (setTraceLimit x) Vague := by
  refine tame_ite _ _ _ _ ?_ (tame_any _)
  exact tame_then _ _ _ _ (modify_config_tame _ (fun _ => rfl) fun _ => rfl) fun _ _ _ => .override _ rfl

theorem change_limit_tame (name : String) (v : Value) (held : v.In w) :
    Tame w moves (changeLimit name v) Vague := by
  unfold changeLimit
  split
  · refine tame_then _ _ _ _ (to_number_tame _ held) fun x _ _ => ?_
    refine tame_then _ _ _ _ (modify_config_tame _ (fun _ => rfl) fun _ => rfl) fun _ _ _ => ?_
    exact .beside _ forget_steps_outward (fun _ _ => rfl) fun _ _ _ all => all
  · refine tame_then _ _ _ _ (to_number_tame _ held) fun x _ _ => ?_
    cases limitOf x with
    | some limit => exact modify_config_tame _ (fun _ => rfl) fun _ => rfl
    | none => exact tame_any _
  · exact tame_then _ _ _ _ (to_number_tame _ held) fun x _ _ => set_trace_limit_tame x
  · exact tame_any _

theorem limit_value_primitive (r : Realm) (name : String) : (limitValue r name).isObject = false := by
  unfold limitValue
  split
  · cases r.config.stepsLimit <;> rfl
  · rfl
  · rfl
  · rfl

theorem limit_value_alike (r s : Realm) (alike : r.AlikeIn w s) (name : String) :
    limitValue s name = limitValue r name := by
  unfold limitValue
  rw [same_trace_limit r s alike.same alike.heap, same_config r s alike.same]

theorem set_handler_tame (name : String) (handler : Value) (held : handler.In w) :
    Tame w moves (setHandler name handler) Vague := by
  refine tame_heap _ _ fun h k w' upto alike => ?_
  have held := held.more upto
  rw [Heap.is_callable_alike h k alike handler held]
  refine ⟨rfl, tame_ite _ _ _ _ (tame_stopped _ _ _ _) ?_⟩
  exact .beside _ (handlers_outward fun handlers => handlers.put name handler) (fun _ _ => rfl) fun r w'' more all =>
    Dictionary.all_put _ _ all name handler (held.more more)

-- Code of eval gets environments of its caller, or one around which they are.
theorem eval_code_tame (text : String) (strict : Bool) (caller : Context) (held : caller.In w) :
    Tame w moves (runEvalCode text strict caller) Value.In := by
  refine tame_look _ _ fun r s w₁ upto₁ alike => ⟨by rw [same_config r s alike.same], ?_⟩
  refine tame_then _ _ _ _ (tame_parsed _ _) fun parsed w₂ upto₂ => ?_
  have plain := compile_plain parsed
  have held := Context.In.more (upto₁.trans upto₂) held
  refine tame_ite _ _ _ _ ?_ (.enter _ ⟨plain, held.lexical, held.variable, held.this⟩)
  refine .bind _ _ _ _ (new_scope_tame _ held.lexical) fun env w₃ upto₃ around => ?_
  exact .enter _ ⟨plain, around, around, held.this.more upto₃⟩

theorem evaluate_text_tame (v : Value) (strict : Bool) (caller : Context) (given : v.In w)
    (held : caller.In w) : Tame w moves (evaluateText v strict caller) Value.In := by
  unfold evaluateText
  split
  · exact eval_code_tame _ _ _ held
  · exact tame_value _ given

theorem head_in (args : List Value) (all : Values.In w args) : (args.headD .undefined).In w := by
  cases args with
  | nil => trivial
  | cons v rest => exact all v List.mem_cons_self

theorem indirect_eval_tame (args : List Value) (all : Values.In w args) :
    Tame w moves (indirectEval args) Value.In := by
  refine .here _ _ fun h k w' upto alike => ?_
  exact evaluate_text_tame _ _ _ ((head_in args all).more upto)
    ⟨alike.intrinsic Intrinsic.global (by decide), alike.global, alike.global, alike.base⟩

theorem global_run_tame (f : GlobalFunction) (args : List Value) (all : Values.In w args) :
    Tame w moves (f.run args) Value.In := by
  have first := argument_in args 0 all
  have second := argument_in args 1 all
  have text : Tame w moves (toText (argument args 0)) Vague := to_text_tame _ first
  unfold GlobalFunction.run
  cases f with
  | eval => exact indirect_eval_tame _ all
  | isNaN => exact tame_made _ _ _ (to_number_tame _ first) fun _ => rfl
  | isFinite => exact tame_made _ _ _ (to_number_tame _ first) fun _ => rfl
  | parseInt =>
    refine tame_then _ _ _ _ text fun text w' upto => ?_
    exact tame_made _ _ _ (to_signed_tame _ (second.more upto)) fun _ => rfl
  | parseFloat => exact tame_made _ _ _ text fun _ => rfl
  | setSystemProperty =>
    refine tame_then _ _ _ _ text fun name w' upto => ?_
    exact tame_made _ _ _ (change_limit_tame _ _ (second.more upto)) fun _ => rfl
  | getSystemProperty =>
    refine tame_then _ _ _ _ text fun name _ _ => tame_look _ _ fun r s w' _ alike => ?_
    rw [limit_value_alike r s alike]
    exact ⟨rfl, tame_primitive _ (limit_value_primitive r name)⟩
  | setSystemHandler =>
    refine tame_then _ _ _ _ text fun name w' upto => ?_
    exact tame_made _ _ _ (set_handler_tame _ _ (second.more upto)) fun _ => rfl
  | getSystemHandler =>
    refine tame_then _ _ _ _ text fun name _ _ => tame_look _ _ fun r s w' _ alike => ?_
    rw [same_handlers r s alike.same]
    refine ⟨rfl, tame_value _ ?_⟩
    cases found : r.handlers.find? name with
    | none => trivial
    | some v => exact Dictionary.all_find _ _ alike.handlers name v found
  | removeSystemHandler =>
    refine tame_then _ _ _ _ text fun name _ _ => tame_look _ _ fun r s w' _ alike => ?_
    rw [same_handlers r s alike.same]
    refine ⟨rfl, tame_made _ _ _ (.beside _ (handlers_outward fun handlers => handlers.erase name) (fun _ _ => rfl)
      fun r w'' _ all => ?_) fun _ => rfl⟩
    exact Dictionary.all_erase _ _ all name
  | customFunction =>
    refine tame_then _ _ _ _ text fun name _ _ => ?_
    exact tame_made_object _ (new_host_function_tame name)

/-! All provided functions. -/

theorem builtin_run_tame (f : Builtin) (this : Value) (args : List Value) (receiver : this.In w)
    (all : Values.In w args) : Tame w moves (f.run this args) Value.In := by
  cases f with
  | global f => exact global_run_tame f args all
  | object f => exact object_run_tame f this args receiver all
  | function f => exact function_run_tame f this args receiver all
  | array f => exact array_run_tame f this args receiver all
  | string f => exact string_run_tame f this args receiver all
  | number f => exact number_run_tame f this args receiver all
  | boolean f => exact boolean_run_tame f this args receiver
  | error f => exact error_run_tame f this args receiver all
  | console f => exact console_run_tame f args all

theorem builtin_construct_tame (f : Builtin) (args : List Value) (all : Values.In w args) :
    Tame w moves (f.construct args) Value.In := by
  unfold Builtin.construct
  split
  · refine tame_then _ _ _ _ (text_argument_tame _ all) fun s _ _ => ?_
    exact tame_made_object _ (new_string_object_tame s)
  · refine tame_then _ _ _ _ (number_argument_tame _ all) fun x _ _ => ?_
    exact tame_made_object _ (wrapper_tame _ _ rfl rfl (by decide) nofun)
  · exact tame_made_object _ (wrapper_tame _ _ rfl rfl (by decide) nofun)
  · exact builtin_run_tame _ _ _ trivial all

end Ecma
