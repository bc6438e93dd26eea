import Ecma.Operation.Operator
import Ecma.Operation.Reference
import Ecma.Proofs.Run.Tame

set_option autoImplicit false

/-!
Operations on properties, conversions, operators, bindings and references stay in the part that they are given objects of.
-/

namespace Ecma

open Ecma.Program Ecma.Syntax Run

variable {w : Region} {moves : Bool}

/-! Calls. -/

theorem call_tame (f this : Value) (args : List Value) (callee : f.In w) (receiver : this.In w)
    (all : Values.In w args) : Tame w moves (call f this args) Value.In := by
  refine tame_heap _ _ fun h k w' upto alike => ?_
  cases f with
  | object id =>
    have callee := upto.object id callee
    dsimp only
    rw [Heap.callable_alike h k alike id callee]
    exact ⟨rfl, tame_ite _ _ _ _ (.enter _ ⟨callee, receiver.more upto, Values.In.more upto all⟩) (tame_refused _ _)⟩
  | _ => exact ⟨rfl, tame_refused _ _⟩

theorem construct_tame (f : Value) (args : List Value) (callee : f.In w) (all : Values.In w args) :
    Tame w moves (construct f args) Value.In := by
  refine tame_heap _ _ fun h k w' upto alike => ?_
  cases f with
  | object id =>
    have callee := upto.object id callee
    dsimp only
    rw [Heap.callable_alike h k alike id callee]
    exact ⟨rfl, tame_ite _ _ _ _ (.enter _ ⟨callee, Values.In.more upto all⟩) (tame_refused _ _)⟩
  | _ => exact ⟨rfl, tame_refused _ _⟩

/-! Reading properties. -/

theorem read_descriptor_tame (d : Option Descriptor) (receiver : Value)
    (held : ∀ e, d = some e → e.All (Value.In w)) (within : receiver.In w) :
    Tame w moves (readDescriptor d receiver) Value.In := by
  unfold readDescriptor
  split
  · next v x e c => exact tame_value v ((Descriptor.all_data v x e c).mp (held _ rfl))
  · next getter setter e c =>
    have inside := ((Descriptor.all_accessor _ setter e c).mp (held _ rfl)).1 getter rfl
    exact call_tame _ _ _ inside within nofun
  · exact tame_primitive _ rfl

theorem get_tame (id : ObjectId) (key : PropertyKey) (inside : w.object id) :
    Tame w moves (get id key) Value.In := by
  refine tame_heap _ _ fun h k w₁ upto₁ alike => ?_
  have inside := inside.more upto₁
  obtain ⟨_, same, aliased⟩ := Heap.aliased_alike h k alike id key inside
  dsimp only
  rw [same]
  refine ⟨rfl, ?_⟩
  split
  · next v found => exact tame_value v (aliased v found)
  · refine tame_heap _ _ fun h k w₂ upto₂ alike => ?_
    have inside := inside.more upto₂
    rw [Heap.property_alike h k alike id key inside]
    refine ⟨rfl, .bind _ _ _ _ (read_descriptor_tame _ _ (Heap.property_in h k alike id key inside) inside) ?_⟩
    intro v w₃ upto₃ held
    refine tame_heap _ _ fun h k w₄ upto₄ alike => ?_
    have held := held.more upto₄
    rw [Heap.strict_function_alike h k alike v held,
      Heap.guards_caller_alike h k alike id (upto₄.object id (upto₃.object id inside))]
    exact ⟨rfl, tame_ite _ _ _ _ (tame_stopped _ _ _ _) (tame_value v held)⟩

-- A primitive reads through a prototype.
theorem read_through_tame (prototype : ObjectId) (base : Value) (key : PropertyKey) (first : prototype ≤ 16)
    (held : base.In w) :
    Tame w moves (heap >>= fun h => readDescriptor (h.property? prototype key) base) Value.In := by
  refine tame_heap _ _ fun h k w' upto alike => ?_
  have inside := alike.intrinsic prototype first
  rw [Heap.property_alike h k alike _ key inside]
  exact ⟨rfl, read_descriptor_tame _ _ (Heap.property_in h k alike _ key inside) (held.more upto)⟩

theorem get_of_tame (base : Value) (key : PropertyKey) (held : base.In w) :
    Tame w moves (getOf base key) Value.In := by
  cases base with
  | object id => exact get_tame id key held
  | string s =>
    rw [getOf]
    refine tame_ite _ _ _ _ (tame_primitive _ rfl) ?_
    split
    · next d character =>
      refine tame_value _ ?_
      cases key with
      | name _ => cases character
      | index i =>
        obtain ⟨unit, _, rfl⟩ := Option.map_eq_some_iff.mp character
        trivial
    · exact read_through_tame _ _ _ (by decide) trivial
  | number x => exact read_through_tame _ _ _ (by decide) trivial
  | boolean b => exact read_through_tame _ _ _ (by decide) trivial
  | _ => exact tame_refused _ _

/-! Conversions. -/

theorem first_primitive_tame (id : ObjectId) (methods : List String) (inside : w.object id) :
    Tame w moves (firstPrimitive id methods) Value.In := by
  induction methods generalizing w with
  | nil => exact tame_refused _ _
  | cons method rest hyp =>
    refine .bind _ _ _ _ (get_tame _ _ inside) fun f w₁ upto₁ held => tame_heap _ _ fun h k w₂ upto₂ alike => ?_
    have inside := (inside.more upto₁).more upto₂
    have held := held.more upto₂
    rw [Heap.is_callable_alike h k alike f held]
    refine ⟨rfl, tame_ite _ _ _ _ ?_ (hyp inside)⟩
    refine .bind _ _ _ _ (call_tame _ _ _ held inside nofun) fun v w₃ upto₃ given => ?_
    exact tame_ite _ _ _ _ (hyp (inside.more upto₃)) (tame_value v given)

theorem to_primitive_tame (v : Value) (hint : Hint) (held : v.In w) :
    Tame w moves (toPrimitive v hint) Value.In := by
  cases v with
  | object id => exact first_primitive_tame _ _ held
  | _ => exact tame_primitive _ rfl

theorem to_number_tame (v : Value) (held : v.In w) : Tame w moves (toNumber v) Vague := by
  exact tame_drop _ _ _ (to_primitive_tame v _ held)

theorem to_text_tame (v : Value) (held : v.In w) : Tame w moves (toText v) Vague := by
  exact tame_drop _ _ _ (to_primitive_tame v _ held)

theorem to_integer_tame (v : Value) (held : v.In w) : Tame w moves (toInteger v) Vague := by
  exact tame_drop _ _ _ (to_number_tame v held)

theorem to_word_tame (v : Value) (held : v.In w) : Tame w moves (toUint32 v) Vague := by
  exact tame_drop _ _ _ (to_number_tame v held)

theorem to_signed_tame (v : Value) (held : v.In w) : Tame w moves (toInt32 v) Vague := by
  exact tame_drop _ _ _ (to_number_tame v held)

theorem to_property_key_tame (v : Value) (held : v.In w) : Tame w moves (toPropertyKey v) Vague := by
  have named : Tame w moves (toText v >>= fun s => pure (PropertyKey.ofString s)) Vague :=
    tame_drop _ _ _ (to_text_tame v held)
  cases v with
  | number x =>
    rw [toPropertyKey]
    split
    · exact tame_any _
    · exact tame_any _
  | _ => exact named

theorem new_string_object_tame (s : String) : Tame w moves (newStringObject s) Region.object := by
  exact tame_names _ _ _ rfl rfl (by decide) nofun (names_single _ _ (data_primitive _ rfl _ _ _))
    (List.nodup_singleton _)

-- A wrapper of a primitive inside no properties.
theorem wrapper_tame (kind : ObjectKind) (prototype : ObjectId) (plain : kind.isArray = false)
    (unmapped : kind.mapped = []) (link : prototype ≤ 16)
    (callable : ∀ f, kind.callable? = some f → f.In w) :
    Tame w moves (newObject kind (some prototype)) Region.object := by
  exact tame_names kind prototype [] plain unmapped link callable nofun List.nodup_nil

theorem to_object_tame (v : Value) (held : v.In w) : Tame w moves (toObject v) Region.object := by
  cases v with
  | object id => exact tame_id id held
  | boolean b => exact wrapper_tame _ _ rfl rfl (by decide) nofun
  | number x => exact wrapper_tame _ _ rfl rfl (by decide) nofun
  | string s => exact new_string_object_tame s
  | _ => exact tame_refused _ _

/-! Defining, writing and deleting. -/

theorem accept_tame (key : PropertyKey) (throws accepted : Bool) :
    Tame w moves (accept key throws accepted) Vague := by
  exact tame_ite _ _ _ _ (tame_stopped _ _ _ _) (tame_any _)

theorem define_array_length_tame (id : ObjectId) (d : Definition) (v : Value) (throws : Bool)
    (isValue : d.isAccessor = false) (inside : w.object id) (held : v.In w) :
    Tame w moves (defineArrayLength id d v throws) Vague := by
  refine tame_heap _ _ fun h k w₁ upto₁ alike => ?_
  have inside := inside.more upto₁
  dsimp only
  rw [Heap.length_of_alike h k alike id inside]
  refine ⟨rfl, tame_then _ _ _ _ (to_number_tame v (held.more upto₁)) fun length w₂ upto₂ => ?_⟩
  refine tame_ite _ _ _ _ (tame_stopped _ _ _ _) ?_
  exact tame_then _ _ _ _ (.length id d _ _ isValue (Number.word_fits length) (inside.more upto₂)) fun _ _ _ => accept_tame _ _ _

theorem define_own_tame (id : ObjectId) (key : PropertyKey) (d : Definition) (throws : Bool)
    (oneKind : d.OneKind) (inside : w.object id) (held : d.In w) : Tame w moves (defineOwn id key d throws) Vague := by
  rw [define_own_is]
  have accepts (accepted : Bool) (w' : Region) : Tame w' moves (accept key throws accepted) Vague :=
    accept_tame _ _ _
  cases given : d.value with
  | none =>
    have never := Tame.define id key d (accept key throws true) (accept key throws) _ oneKind inside held
      (accepts true w) fun accepted w' _ => accepts accepted w'
    simpa [given] using never
  | some v =>
    have isValue : d.isAccessor = false := oneKind (by simp [Definition.isData, given])
    have whole := Tame.define id key d (defineArrayLength id d v throws) (accept key throws) _ oneKind inside held
      (define_array_length_tame id d v throws isValue inside (held.value v given)) fun accepted w' _ => accepts accepted w'
    simpa [given] using whole

theorem value_tame (id : ObjectId) (key : PropertyKey) (v : Value) (throws : Bool) (inside : w.object id)
    (held : v.In w) : Tame w moves (defineOwn id key (.ofValue v) throws) Vague := by
  exact define_own_tame _ _ _ _ (fun _ => rfl) inside (Definition.all_of_value v held)

theorem descriptor_tame (id : ObjectId) (key : PropertyKey) (v : Value) (x e c throws : Bool) (inside : w.object id)
    (held : v.In w) : Tame w moves (defineOwn id key (.ofDescriptor (.data v x e c)) throws) Vague := by
  refine define_own_tame _ _ _ _ (fun _ => rfl) inside (Definition.all_of_descriptor _ ?_)
  exact (Descriptor.all_data v x e c).mpr held

theorem read_only_tame {α : Type} (key : PropertyKey) (gives : Notion α) :
    Tame w moves (readOnly key : Run α) gives := by
  exact tame_refused _ _

-- A setter that a write calls is one of an object that inside been made.
theorem route_setter (h : Heap) (id : ObjectId) (key : PropertyKey) (setter : ObjectId)
    (routed : route h id key = .callSetter setter) :
    ∃ getter e c, h.property? id key = some (.accessor getter (some setter) e c) := by
  unfold route at routed
  split at routed
  · cases routed
  · split at routed
    · split at routed
      · next getter setter' e c found =>
        cases routed
        exact ⟨getter, e, c, found⟩
      · cases routed
    · cases routed

theorem setter_in (h k : Heap) (alike : h.AlikeIn w k) (id : ObjectId) (key : PropertyKey) (inside : w.object id)
    (getter : Option ObjectId) (setter : ObjectId) (e c : Bool)
    (found : h.property? id key = some (.accessor getter (some setter) e c)) : w.object setter := by
  exact ((Descriptor.all_accessor _ _ e c).mp (Heap.property_in h k alike id key inside _ found)).2 setter rfl

theorem single_in (v : Value) (held : v.In w) : Values.In w [v] := by
  exact fun u member => List.mem_singleton.mp member ▸ held

theorem put_tame (id : ObjectId) (key : PropertyKey) (v : Value) (throws : Bool) (inside : w.object id)
    (held : v.In w) : Tame w moves (put id key v throws) Vague := by
  refine tame_heap _ _ fun h k w' upto alike => ?_
  have inside := inside.more upto
  have held := held.more upto
  rw [Heap.route_alike h k alike id key inside]
  refine ⟨rfl, ?_⟩
  split
  · exact tame_discard _ _ (value_tame _ _ _ _ inside held)
  · exact tame_ite _ _ _ _ (read_only_tame _ _) (tame_any _)
  · next setter routed =>
    obtain ⟨getter, e, c, found⟩ := route_setter h id key setter routed
    have callee := setter_in h k alike id key inside getter setter e c found
    exact tame_discard _ _ (call_tame _ _ _ callee inside (single_in v held))
  · exact tame_discard _ _ (descriptor_tame _ _ _ _ _ _ _ inside held)

theorem put_of_tame (base : Value) (key : PropertyKey) (v : Value) (strict : Bool) (receiver : base.In w)
    (held : v.In w) : Tame w moves (putOf base key v strict) Vague := by
  unfold putOf
  split
  · exact put_tame _ _ _ _ receiver held
  refine .bind _ _ _ _ (to_object_tame _ receiver) fun id w₁ upto₁ inside => ?_
  refine tame_heap _ _ fun h k w₂ upto₂ alike => ?_
  have inside := upto₂.object id inside
  have refuse : Tame w₂ moves (if strict then readOnly key else pure () : Run Unit) Vague :=
    tame_ite _ _ _ _ (read_only_tame _ _) (tame_any _)
  dsimp only
  rw [Heap.can_put_alike h k alike id key inside, Heap.own_alike h k alike id key inside,
    Heap.property_alike h k alike id key inside]
  refine ⟨rfl, tame_ite _ _ _ _ refuse (tame_ite _ _ _ _ refuse ?_)⟩
  split
  · next getter setter e c found =>
    have callee := setter_in h k alike id key inside getter setter e c found
    have more := upto₁.trans upto₂
    exact tame_discard _ _ (call_tame _ _ _ callee (receiver.more more) (single_in v (held.more more)))
  · exact tame_ite _ _ _ _ (tame_refused _ _) (tame_any _)

theorem delete_own_tame (id : ObjectId) (key : PropertyKey) (throws : Bool) (inside : w.object id) :
    Tame w moves (deleteOwn id key throws) Vague := by
  refine tame_then _ _ _ _ (.delete id key inside) fun gone _ _ => ?_
  exact tame_ite _ _ _ _ (tame_stopped _ _ _ _) (tame_any _)

theorem new_sparse_array_tame (items : List (Option Value)) (held : Items.In w items) :
    Tame w moves (newSparseArray items) Region.object := by
  refine .here _ _ fun h k w' upto alike => ?_
  refine .object (.ofItems items) (fun h => .array h items) ⟨fun link same => ?_, nofun, ?_⟩
    ⟨List.nodup_singleton _, nofun⟩ nofun
  · cases same
    exact alike.intrinsic _ (by decide)
  · exact PropertyTable.all_of_elements _ items (names_single _ _ (data_primitive _ rfl _ _ _)) fun v member =>
      (held v member).more upto

theorem new_array_tame (items : List Value) (held : Values.In w items) :
    Tame w moves (newArray items) Region.object := by
  refine new_sparse_array_tame _ fun v member => ?_
  obtain ⟨u, there, same⟩ := List.mem_map.mp member
  exact Option.some.inj same ▸ held u there

theorem invoke_tame (id : ObjectId) (name : String) (args : List Value) (inside : w.object id)
    (all : Values.In w args) : Tame w moves (invoke id name args) Value.In := by
  refine .bind _ _ _ _ (get_tame _ _ inside) fun f w₁ upto₁ held => tame_heap _ _ fun h k w₂ upto₂ alike => ?_
  have held := held.more upto₂
  have more := upto₁.trans upto₂
  dsimp only
  rw [Heap.is_callable_alike h k alike f held]
  exact ⟨rfl, tame_ite _ _ _ _ (tame_stopped _ _ _ _) (call_tame _ _ _ held (inside.more more) (Values.In.more more all))⟩

/-! Operators. -/

theorem loosely_equal_tame (a b : Value) (left : a.In w) (right : b.In w) :
    Tame w moves (looselyEqual a b) Vague := by
  have converted (v other : Value) (f : Value → Bool) (held : v.In w) : Tame w moves
      (if comparesConverted other then toPrimitive v .number >>= fun p => pure (f p) else pure false) Vague :=
    tame_ite _ _ _ _ (tame_drop _ _ _ (to_primitive_tame _ _ held)) (tame_any _)
  have still (v : Value) (held : v.In w) : (unboolean v).In w := by
    cases v with
    | object id => exact held
    | _ => trivial
  have left := still a left
  have right := still b right
  unfold looselyEqual
  generalize unboolean a = x at left ⊢
  generalize unboolean b = y at right ⊢
  split
  · exact tame_any _
  · exact converted _ _ _ right
  · exact converted _ _ _ left
  · exact tame_any _

theorem less_tame (a b : Value) (leftFirst : Bool) (left : a.In w) (right : b.In w) :
    Tame w moves (less a b leftFirst) Vague := by
  rw [less]
  refine tame_ite _ _ _ _ ?_ ?_
  · refine tame_then _ _ _ _ (to_primitive_tame _ _ left) fun _ w' upto => ?_
    exact tame_drop _ _ _ (to_primitive_tame _ _ (right.more upto))
  · refine tame_then _ _ _ _ (to_primitive_tame _ _ right) fun _ w' upto => ?_
    exact tame_drop _ _ _ (to_primitive_tame _ _ (left.more upto))

theorem compare_values_tame (op : BinaryOp) (a b : Value) (left : a.In w) (right : b.In w) :
    Tame w moves (compareValues op a b) Vague := by
  unfold compareValues
  split
  · exact tame_drop _ _ _ (less_tame _ _ _ left right)
  · exact tame_drop _ _ _ (less_tame _ _ _ right left)
  · exact tame_drop _ _ _ (less_tame _ _ _ right left)
  · exact tame_drop _ _ _ (less_tame _ _ _ left right)

theorem add_tame (a b : Value) (left : a.In w) (right : b.In w) :
    Tame w moves (add a b) Value.In := by
  refine tame_then _ _ _ _ (to_primitive_tame _ _ left) fun x w' upto => ?_
  exact tame_made _ _ _ (to_primitive_tame _ _ (right.more upto)) fun y => add_primitive x y

theorem equate_tame (op : BinaryOp) (a b : Value) (left : a.In w) (right : b.In w) :
    Tame w moves (equate op a b) Vague := by
  unfold equate
  split
  · exact tame_any _
  · exact tame_any _
  · exact loosely_equal_tame _ _ left right
  · exact tame_drop _ _ _ (loosely_equal_tame _ _ left right)

theorem is_in_tame (key target : Value) (held : key.In w) (there : target.In w) :
    Tame w moves (isIn key target) Vague := by
  have refused : Tame w moves (heap >>= fun h =>
      let name := h.display key
      let value := h.display target
      throwTypeError s!"Cannot use 'in' operator to search for '{name}' in {value}" : Run Bool) Vague := by
    refine tame_heap _ _ fun h k w' upto alike => ⟨?_, tame_refused _ _⟩
    rw [Heap.display_alike h k alike key (held.more upto), Heap.display_alike h k alike target (there.more upto)]
  cases target with
  | object id =>
    refine tame_then _ _ _ _ (to_property_key_tame _ held) fun key w₁ upto₁ => tame_heap _ _ fun h k w₂ upto₂ alike => ?_
    exact ⟨by rw [Heap.has_property_alike h k alike id key ((upto₁.trans upto₂).object id there)], tame_any _⟩
  | _ => exact refused

theorem has_instance_tame (f : ObjectId) (v : Value) (inside : w.object f) (held : v.In w) :
    Tame w moves (hasInstance f v) Vague := by
  refine tame_heap _ _ fun h k w₁ upto₁ alike => ?_
  obtain ⟨same, target, _⟩ := Heap.unbind_alike h k alike (f + 1) f .undefined [] (inside.more upto₁) trivial nofun
  dsimp only
  rw [← Heap.unbind] at same target
  rw [← Heap.unbind] at same
  rw [same]
  refine ⟨rfl, ?_⟩
  generalize h.unbind f .undefined [] = found at target ⊢
  obtain ⟨f, _, _⟩ := found
  cases v with
  | object id =>
    refine tame_then _ _ _ _ (get_tame _ _ target) fun prototype w₂ upto₂ => ?_
    split
    · refine tame_heap _ _ fun h k w₃ upto₃ alike => ⟨?_, tame_any _⟩
      rw [Heap.inherits_alike h k alike id _ (((upto₁.trans upto₂).trans upto₃).object id held)]
    · exact tame_refused _ _
  | _ => exact tame_any _

theorem instance_of_tame (v target : Value) (held : v.In w) (there : target.In w) :
    Tame w moves (instanceOf v target) Vague := by
  cases target with
  | object f =>
    refine tame_heap _ _ fun h k w' upto alike => ?_
    have there := upto.object f there
    rw [Heap.is_callable_alike h k alike (.object f) there]
    exact ⟨rfl, tame_ite _ _ _ _ (has_instance_tame _ _ there (held.more upto)) (tame_refused _ _)⟩
  | _ => exact tame_refused _ _

theorem operate_tame (op : BinaryOp) (a b : Value) (left : a.In w) (right : b.In w) :
    Tame w moves (operate op a b) Value.In := by
  unfold operate
  split
  · refine tame_then _ _ _ _ (to_number_tame _ left) fun x w' upto => ?_
    exact tame_made _ _ _ (to_number_tame _ (right.more upto)) fun _ => rfl
  · split
    · exact add_tame _ _ left right
    all_goals try exact tame_made _ _ _ (compare_values_tame _ _ _ left right) fun _ => rfl
    · exact tame_made _ _ _ (is_in_tame _ _ left right) fun _ => rfl
    · exact tame_made _ _ _ (instance_of_tame _ _ left right) fun _ => rfl
    · exact tame_made _ _ _ (equate_tame _ _ _ left right) fun _ => rfl

theorem perform_tame (operation : Operation) (a b : Value) (left : a.In w) (right : b.In w) :
    Tame w moves (perform operation a b) Value.In := by
  unfold perform
  split
  · exact operate_tame _ _ _ left right
  · split
    · exact tame_primitive _ rfl
    · exact operate_tame _ _ _ left right
  · exact tame_primitive _ rfl
  · exact tame_primitive _ rfl
  · exact tame_primitive _ (add_primitive a b)
  · exact tame_primitive _ rfl
  · exact tame_primitive _ rfl

/-! Bindings. -/

theorem create_in (blank : Prop) (b : Bindings) (name : String) (state : BindingState)
    (all : Dictionary.All (Binding.In w blank) b) : Dictionary.All (Binding.In w blank) (b.create name state) := by
  rw [Bindings.create]
  split
  · exact all
  · exact Dictionary.all_put _ b all name _ ⟨trivial, fun _ _ => rfl⟩

theorem create_binding_tame (env : EnvironmentId) (name : String) (deletable : Bool) (inside : w.environment env) :
    Tame w moves (createBinding env name deletable) Vague := by
  refine tame_heap _ _ fun h k w' upto alike => ?_
  have inside := inside.more upto
  rw [alike.environment env inside]
  refine ⟨rfl, ?_⟩
  split
  · exact .bindings env _ inside fun w'' blank b _ all => create_in blank b name _ all
  · next id receiver record =>
    exact tame_discard _ _ (descriptor_tame _ _ _ _ _ _ _ ((alike.around env inside).record id receiver record) trivial)

theorem write_binding_tame (env : EnvironmentId) (name : String) (v : Value) (inside : w.environment env)
    (held : v.In w) : Tame w moves (modifyHeap fun h => h.modifyBindings env fun b => b.write name v) Vague := by
  refine .bindings env _ inside fun w' blank b upto all => Dictionary.all_modify _ b all name _ fun old kept => ?_
  split
  · next mutable =>
    refine ⟨held.more upto, fun _ same => ?_⟩
    rw [show old.state = .uninitialized from same] at mutable
    cases mutable
  · exact kept

theorem set_binding_tame (env : EnvironmentId) (name : String) (v : Value) (strict : Bool) (inside : w.environment env)
    (held : v.In w) : Tame w moves (setBinding env name v strict) Vague := by
  refine tame_heap _ _ fun h k w' upto alike => ?_
  have inside := inside.more upto
  have held := held.more upto
  dsimp only
  rw [alike.environment env inside]
  refine ⟨rfl, ?_⟩
  split
  · refine tame_then _ _ _ _ (write_binding_tame env name v inside held) fun _ _ _ => ?_
    exact tame_ite _ _ _ _ (tame_refused _ _) (tame_any _)
  · next id receiver record => exact put_tame _ _ _ _ ((alike.around env inside).record id receiver record) held

theorem get_binding_tame (env : EnvironmentId) (name : String) (strict : Bool) (inside : w.environment env) :
    Tame w moves (getBinding env name strict) Value.In := by
  refine tame_heap _ _ fun h k w' upto alike => ?_
  have inside := inside.more upto
  have around := alike.around env inside
  dsimp only
  rw [alike.environment env inside]
  cases record : (h.environment env).record with
  | declarative bindings =>
    refine ⟨rfl, ?_⟩
    dsimp only
    split
    · exact tame_error _ _ _
    · next b found =>
      refine tame_ite _ _ _ _ (tame_ite _ _ _ _ (tame_stopped _ _ _ _) (tame_primitive _ rfl)) ?_
      exact tame_value _ (Dictionary.all_find _ bindings (around.bindings bindings record) name b found)
  | object id receiver =>
    have there := around.record id receiver record
    dsimp only
    rw [Heap.has_property_alike h k alike id _ there]
    refine ⟨rfl, tame_ite _ _ _ _ (get_tame _ _ there) ?_⟩
    exact tame_ite _ _ _ _ (tame_error _ _ _) (tame_primitive _ rfl)

theorem delete_binding_tame (env : EnvironmentId) (name : String) (inside : w.environment env) :
    Tame w moves (deleteBinding env name) Vague := by
  refine tame_heap _ _ fun h k w' upto alike => ?_
  have inside := inside.more upto
  rw [alike.environment env inside]
  refine ⟨rfl, ?_⟩
  split
  · refine tame_drop _ _ _ (.bindings env _ inside fun w'' blank b _ all => ?_)
    rw [Bindings.delete]
    split
    · exact Dictionary.all_erase _ b all name
    · exact all
  · next id receiver record => exact delete_own_tame _ _ _ ((alike.around env inside).record id receiver record)

theorem bind_constant_tame (env : EnvironmentId) (name : String) (v : Value) (inside : w.environment env)
    (held : v.In w) : Tame w moves (bindConstant env name v) Vague := by
  refine .bindings env _ inside fun w' blank b upto all => ?_
  refine Dictionary.all_modify _ _ (create_in blank b name _ all) name _ fun old kept => ?_
  split
  · exact ⟨held.more upto, nofun⟩
  · exact kept

/-! References. -/

namespace Reference

variable (r : Reference)

theorem read_tame (held : r.In w) : Tame w moves r.read Value.In := by
  obtain ⟨base, name, strict⟩ := r
  cases base with
  | value v => exact get_of_tame _ _ held
  | environment env => exact get_binding_tame _ _ _ held
  | unresolvable => exact tame_error _ _ _

theorem write_tame (v : Value) (place : r.In w) (held : v.In w) : Tame w moves (r.write v) Vague := by
  obtain ⟨base, name, strict⟩ := r
  cases base with
  | value u => exact put_of_tame _ _ _ _ place held
  | environment env => exact set_binding_tame _ _ _ _ place held
  | unresolvable =>
    refine tame_ite _ _ _ _ (tame_error _ _ _) (.here _ _ fun h k w' upto alike => ?_)
    exact put_tame _ _ _ _ (alike.intrinsic _ (by decide)) (held.more upto)

theorem delete_tame (held : r.In w) : Tame w moves r.delete Vague := by
  obtain ⟨base, name, strict⟩ := r
  cases base with
  | value v => exact .bind _ _ _ _ (to_object_tame _ held) fun _ _ _ inside => delete_own_tame _ _ _ inside
  | environment env => exact tame_ite _ _ _ _ (tame_error _ _ _) (delete_binding_tame _ _ held)
  | unresolvable => exact tame_ite _ _ _ _ (tame_error _ _ _) (tame_any _)

theorem receiver_alike (h k : Heap) (alike : h.AlikeIn w k) (held : r.In w) :
    r.receiver k = r.receiver h ∧ (r.receiver h).In w := by
  obtain ⟨base, name, strict⟩ := r
  cases base with
  | environment env => exact Heap.implicit_alike h k alike env held
  | _ => exact ⟨rfl, trivial⟩

end Reference

end Ecma
