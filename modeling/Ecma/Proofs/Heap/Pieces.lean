import Ecma.Proofs.Heap.Shift

set_option autoImplicit false

/-!
What definitions and deletions are made of: shifts, but for the deletion of a name.
-/

namespace Ecma.Heap

open Relation

section

variable {P : Value → Prop} (blank : ∀ v : Value, v.isObject = false → P v)

include blank

theorem ordinary_shifts (h : Heap) (id : ObjectId) (key : PropertyKey) (d : Definition) (held : d.All P) :
    Shifts P h (h.defineOrdinary id key d).2 := by
  rcases define_ordinary_is h id key d with ⟨absent, _, is⟩ | ⟨_, _, _, _, is⟩ | is | is
  · rw [is]
    exact .single (.store h id key _ (Definition.all_create (blank .undefined rfl) d held) (.inl absent))
  · rw [is]
    exact .single (.modify h id key _ fun current there => Definition.all_apply (blank .undefined rfl) d held current there)
  · rw [is]
  · rw [is]

omit blank in
theorem delete_index_shifts (h : Heap) (id : ObjectId) (i : Nat) : Shifts P h (h.delete id (.index i)).2 := by
  rw [delete]
  split
  · exact .refl
  · split
    · exact ReflTransGen.tail (.single (.erase h id i)) (.unmap _ id (.index i))
    · exact .refl

omit blank in
-- The deletion of a name takes it away, or does nothing.
theorem delete_name_is (h : Heap) (id : ObjectId) (name : String) : (h.delete id (.name name)).2 = h ∨
    (h.delete id (.name name)).2 = h.modifyProperties id fun t => t.erase (.name name) := by
  rw [delete]
  split
  · exact .inl rfl
  · split
    · exact .inr rfl
    · exact .inl rfl

omit blank in
theorem delete_elements_shifts (h : Heap) (id : ObjectId) (indices : List Nat) :
    Shifts P h (h.deleteElements id indices).2 := by
  induction indices generalizing h with
  | nil => exact .refl
  | cons i rest hyp =>
    have deleted := delete_index_shifts (P := P) h id i
    rw [deleteElements]
    generalize h.delete id (.index i) = outcome at deleted ⊢
    obtain ⟨gone, k⟩ := outcome
    cases gone with
    | true => exact deleted.trans (hyp k)
    | false => exact deleted

theorem shrink_shifts (h : Heap) (id : ObjectId) (d : Definition) (length : Nat) (held : d.All P) :
    Shifts P h (h.shrink id d length).2 := by
  have flagged (w : Bool) (d : Definition) (held : d.All P) : (d.withWritable w).All P :=
    Definition.all_with_writable d w held
  have open' : (if d.writable = some false then d.withWritable true else d).All P := by
    split
    · exact flagged true d held
    · exact held
  rw [shrink]
  dsimp only
  generalize (if d.writable = some false then d.withWritable true else d) = opened at open' ⊢
  have first := ordinary_shifts blank h id .length opened open'
  generalize h.defineOrdinary id .length opened = outcome at first ⊢
  obtain ⟨accepted, k⟩ := outcome
  cases accepted with
  | false => exact first
  | true =>
    dsimp only at first ⊢
    have second := first.trans (delete_elements_shifts k id (k.elementsFrom id length))
    generalize k.deleteElements id (k.elementsFrom id length) = outcome at second ⊢
    obtain ⟨stuck, l⟩ := outcome
    cases stuck with
    | some i =>
      have short : (opened.withValue (.ofNat (i + 1))).All P :=
        Definition.all_with_value opened _ (blank _ rfl)
      refine second.trans (ordinary_shifts blank l id .length _ ?_)
      split
      · exact flagged false _ short
      · exact short
    | none =>
      dsimp only at second ⊢
      split
      · exact second.trans (ordinary_shifts blank l id .length _ (Definition.all_flags _ rfl rfl rfl))
      · exact second

theorem length_shifts (h : Heap) (id : ObjectId) (d : Definition) (length : Nat) (old : Nat × Bool) :
    Shifts P h (h.defineLength id d length old).2 := by
  have measured : (d.withValue (.ofNat length)).All P := Definition.all_with_value d _ (blank _ rfl)
  rw [defineLength]
  split
  · exact ordinary_shifts blank h id .length _ measured
  · split
    · exact .refl
    · exact shrink_shifts blank h id _ length measured

theorem element_shifts (h : Heap) (id : ObjectId) (i : Nat) (d : Definition) (held : d.All P) :
    Shifts P h (h.defineElement id i d).2 := by
  rw [defineElement]
  dsimp only
  split
  · exact .refl
  · have defined := ordinary_shifts blank h id (.index i) d held
    generalize h.defineOrdinary id (.index i) d = outcome at defined ⊢
    obtain ⟨accepted, k⟩ := outcome
    cases accepted with
    | false => exact defined
    | true =>
      dsimp only at defined ⊢
      split
      · exact defined.tail (.modify k id .length _ fun e there => Descriptor.all_with_value e _ there (blank _ rfl))
      · exact defined

omit blank in
theorem write_alias_shifts (h : Heap) (a : Alias) (v : Value) (held : P v) : Shifts P h (h.writeAlias a v) := by
  cases a with
  | slot frame index => exact .single (.slot h frame index v held)
  | binding env name =>
    refine .single (.bindings h env _ fun b all => ?_)
    refine Dictionary.all_modify _ b all name _ fun binding there => ?_
    split
    · exact held
    · exact there

omit blank in
theorem follow_shifts (h : Heap) (id : ObjectId) (key : PropertyKey) (a : Alias) (d : Definition) (held : d.All P) :
    Shifts P h (h.followAlias id key a d) := by
  have released (k : Heap) : Shifts P h k → Shifts P h (if d.writable = some false then k.unmap id key else k) := by
    intro shifts
    split
    · exact shifts.tail (.unmap k id key)
    · exact shifts
  rw [followAlias]
  split
  · exact .single (.unmap h id key)
  · cases value : d.value with
    | none => exact released h .refl
    | some v => exact released _ (write_alias_shifts h a v (held.value v value))

variable (h : Heap) (all : h.All P)
include all

theorem freeze_all (id : ObjectId) (key : PropertyKey) (d : Definition) (held : d.All P) :
    (h.freezeAliased id key d).All P := by
  rw [freezeAliased]
  split
  · split
    · next v w e c found =>
      exact Definition.all_with_value d v ((Descriptor.all_data v w e c).mp (all_own blank h all id key _ found))
    · exact held
  · exact held

theorem argument_shifts (id : ObjectId) (key : PropertyKey) (d : Definition) (held : d.All P) :
    Shifts P h (h.defineArgument id key d).2 := by
  rw [defineArgument]
  split
  · exact ordinary_shifts blank h id key d held
  · next a _ =>
    have frozen := freeze_all blank h all id key d held
    have defined := ordinary_shifts blank h id key _ frozen
    dsimp only
    generalize h.defineOrdinary id key (h.freezeAliased id key d) = outcome at defined ⊢
    obtain ⟨accepted, k⟩ := outcome
    cases accepted with
    | false => exact defined
    | true => exact defined.trans (follow_shifts k id key a _ frozen)

theorem define_shifts (id : ObjectId) (key : PropertyKey) (d : Definition) (held : d.All P) :
    Shifts P h (h.define id key d).2 := by
  cases kind : h.kind id with
  | array =>
    cases key with
    | index i =>
      simp only [define, kind]
      exact element_shifts blank h id i d held
    | name s =>
      simp only [define, kind]
      exact ordinary_shifts blank h id _ d held
  | arguments mapped =>
    simp only [define, kind]
    exact argument_shifts blank h all id key d held
  | _ =>
    simp only [define, kind]
    exact ordinary_shifts blank h id key d held

end

end Ecma.Heap

/-!
Links: from objects to their prototypes, from bound functions to their targets, and from environments to those
around them. No change of a heap redirects one.
-/

namespace Ecma

namespace Heap

variable (h : Heap)

/-! Walks. -/

theorem prototype_less (id link : ObjectId) (found : h.prototype? id = some link) : link < id := by
  exact below_less id link _ found

theorem prototype_chain_step (id : ObjectId) :
    h.prototypeChain id = id :: ((h.prototype? id).elim [] h.prototypeChain) := by
  rw [prototypeChain, follow_step h.prototype? (prototype_less h)]
  cases h.prototype? id <;> rfl

theorem property_step (id : ObjectId) (key : PropertyKey) :
    h.property? id key = (h.own? id key).or ((h.prototype? id).bind fun link => h.property? link key) := by
  rw [property?, prototype_chain_step, List.findSome?_cons]
  cases h.own? id key with
  | some d => rfl
  | none => cases h.prototype? id <;> rfl

/-! Changes. -/

-- What there is keeps its links.
structure Extends (h k : Heap) : Prop where
  objects : h.objects.size ≤ k.objects.size
  environments : h.environments.size ≤ k.environments.size
  prototype : ∀ id < h.objects.size, (k.object id).prototype = (h.object id).prototype
  callable : ∀ id < h.objects.size, k.callable? id = h.callable? id
  outer : ∀ env < h.environments.size, (k.environment env).outer = (h.environment env).outer

theorem extends_refl : h.Extends h := by
  exact ⟨Nat.le_refl _, Nat.le_refl _, fun _ _ => rfl, fun _ _ => rfl, fun _ _ => rfl⟩

theorem extends_trans (k l : Heap) (first : h.Extends k) (second : k.Extends l) : h.Extends l := by
  refine ⟨Nat.le_trans first.objects second.objects, Nat.le_trans first.environments second.environments,
    fun id known => ?_, fun id known => ?_, fun env known => ?_⟩
  · exact (second.prototype id (Nat.lt_of_lt_of_le known first.objects)).trans (first.prototype id known)
  · exact (second.callable id (Nat.lt_of_lt_of_le known first.objects)).trans (first.callable id known)
  · exact (second.outer env (Nat.lt_of_lt_of_le known first.environments)).trans (first.outer env known)

theorem shifted_extends {P : Value → Prop} (k : Heap) (shifted : h.Shifted P k) : h.Extends k := by
  refine ⟨Nat.le_of_eq shifted.objects.symm, Nat.le_of_eq shifted.environments.symm,
    fun id _ => (shifted.object id).prototype, fun id _ => ?_, fun env _ => shifted.outer env⟩
  rw [callable?, callable?, kind, kind, (shifted.object id).callable]

theorem extends_properties (id : ObjectId) (f : PropertyTable → PropertyTable) : h.Extends (h.modifyProperties id f) := by
  have same (other : ObjectId) : ((h.modifyProperties id f).object other).prototype = (h.object other).prototype ∧
      ((h.modifyProperties id f).object other).kind = (h.object other).kind := by
    rw [modifyProperties, object_modify]
    split <;> exact ⟨rfl, rfl⟩
  refine ⟨Nat.le_of_eq (size_modify h id _).symm, Nat.le_refl _, fun other _ => (same other).1, fun other _ => ?_,
    fun _ _ => rfl⟩
  rw [callable?, callable?, kind, kind, (same other).2]

theorem callable_known (f : ObjectId) (c : Callable) (found : h.callable? f = some c) : f < h.objects.size := by
  by_contra unknown
  rw [callable?, kind, object_unknown h f unknown] at found
  cases found

theorem object_add_known (o : Object) (id : ObjectId) (known : id < h.objects.size) :
    (h.addObject o).2.object id = h.object id := by
  rw [object_add, if_neg (Nat.ne_of_lt known)]

theorem extends_object (o : Object) : h.Extends (h.addObject o).2 := by
  refine ⟨?_, Nat.le_refl _, fun id known => ?_, fun id known => ?_, fun _ _ => rfl⟩
  · change _ ≤ (h.objects.push o).size
    rw [Array.size_push]
    exact Nat.le_succ _
  · rw [object_add_known h o id known]
  · rw [callable?, callable?, kind, kind, object_add_known h o id known]

theorem environment_add_known (e : Environment) (env : EnvironmentId) (known : env < h.environments.size) :
    (h.addEnvironment e).2.environment env = h.environment env := by
  change (h.environments.push e)[env]?.getD _ = _
  rw [Array.getElem?_push_lt known, environment, Array.getElem?_eq_getElem known]

theorem extends_environment (e : Environment) : h.Extends (h.addEnvironment e).2 := by
  refine ⟨Nat.le_refl _, ?_, fun _ _ => rfl, fun _ _ => rfl, fun env known => ?_⟩
  · change _ ≤ (h.environments.push e).size
    rw [Array.size_push]
    exact Nat.le_succ _
  · rw [environment_add_known h e env known]

theorem extends_frame (frame : Array Value) : h.Extends (h.addFrame frame).2 := by
  exact ⟨Nat.le_refl _, Nat.le_refl _, fun _ _ => rfl, fun _ _ => rfl, fun _ _ => rfl⟩

theorem all_any : h.All fun _ => True := by
  refine ⟨fun id => ⟨fun _ _ _ _ _ => trivial, fun _ _ _ _ => trivial⟩, fun id f _ => ?_, fun _ _ _ _ _ => trivial,
    fun _ _ _ _ _ => trivial, fun _ _ _ _ => trivial⟩
  cases f with
  | bound target receiver args => exact ⟨trivial, trivial, fun _ _ => trivial⟩
  | _ => trivial

theorem edit_extends (k : Heap) (edit : Edit h k) : h.Extends k := by
  -- links are the same whatever values are stored
  let any (_ : Value) : Prop := True
  have descriptor (d : Descriptor) : d.All any := fun _ _ => trivial
  have definition (d : Definition) : d.All any := ⟨fun _ _ => trivial, fun _ _ => trivial, fun _ _ => trivial⟩
  have shifts (k : Heap) (pieces : Shifts any h k) : h.Extends k :=
    shifted_extends h k (shifts_shifted h k pieces)
  have once (k : Heap) (shift : Shift any h k) : h.Extends k := shifts k (.single shift)
  cases edit with
  | object o => exact extends_object h o
  | environment e => exact extends_environment h e
  | frame frame => exact extends_frame h frame
  | slot frame index v => exact once _ (.slot h frame index v trivial)
  | bindings env f => exact once _ (.bindings h env f fun _ _ _ _ => trivial)
  | define id key d => exact shifts _ (define_shifts (fun _ _ => trivial) h (all_any h) id key d (definition d))
  | length id d length old => exact shifts _ (length_shifts (fun _ _ => trivial) h id d length old)
  | delete id key =>
    cases key with
    | index i => exact shifts _ (delete_index_shifts h id i)
    | name s =>
      rcases delete_name_is h id s with same | erased
      · rw [same]
        exact extends_refl h
      · rw [erased]
        exact extends_properties h id _
  | close id => exact once _ (.close h id)
  | override v => exact extends_properties h _ _
  | append id more => exact extends_properties h id _

end Heap

end Ecma
