import Ecma.Builtin.Object
import Ecma.Proofs.Heap.Grounded
import Ecma.Proofs.Heap.Ordinary
import Ecma.Proofs.Reach.Alike

set_option autoImplicit false

/-!
Parts of what there is. What is found from a part in two heaps that agree on it is the same, and it belongs to the
part.
-/

namespace Ecma

open Ecma.Program

/-- A region: a part of the objects, environments and frames. -/
structure Region where
  object : ObjectId → Prop
  environment : EnvironmentId → Prop
  frame : FrameId → Prop

namespace Region

structure Upto (w w' : Region) : Prop where
  object : ∀ id, w.object id → w'.object id
  environment : ∀ env, w.environment env → w'.environment env
  frame : ∀ frame, w.frame frame → w'.frame frame

variable {w w' w'' : Region}

theorem Upto.refl (w : Region) : w.Upto w := by
  exact ⟨fun _ inside => inside, fun _ inside => inside, fun _ inside => inside⟩

theorem Upto.trans (first : w.Upto w') (second : w'.Upto w'') : w.Upto w'' := by
  exact ⟨fun id inside => second.object id (first.object id inside),
    fun env inside => second.environment env (first.environment env inside),
    fun frame inside => second.frame frame (first.frame frame inside)⟩

theorem object.more {id : ObjectId} (inside : w.object id) (upto : w.Upto w') : w'.object id := by
  exact upto.object id inside

theorem environment.more {env : EnvironmentId} (inside : w.environment env) (upto : w.Upto w') :
    w'.environment env := by
  exact upto.environment env inside

end Region

section

variable (w : Region)

def Value.In : Value → Prop
  | .object id => w.object id
  | _ => True

theorem in_primitive (v : Value) (primitive : v.isObject = false) : v.In w := by
  cases v with
  | object id => cases primitive
  | _ => trivial

def Callable.In : Callable → Prop
  | .script routine scope => routine.Plain ∧ w.environment scope
  | .bound target receiver args => w.object target ∧ receiver.In w ∧ ∀ v ∈ args, v.In w
  | _ => True

-- What an object leads to by itself; its elements may also stand for parameters.
structure Object.In (o : Object) : Prop where
  prototype : ∀ link, o.prototype = some link → w.object link
  callable : ∀ f, o.kind.callable? = some f → f.In w
  table : o.properties.All (Value.In w)

structure Environment.In (e : Environment) : Prop where
  outer : ∀ link, e.outer = some link → w.environment link
  bindings : ∀ b, e.record = .declarative b → Bindings.All (Value.In w) b
  record : ∀ id receiver, e.record = .object id receiver → w.object id

end

section

variable {w w' : Region} (upto : w.Upto w')
include upto

theorem Value.In.more {v : Value} (inside : v.In w) : v.In w' := by
  cases v with
  | object id => exact upto.object id inside
  | _ => trivial

theorem Callable.In.more {f : Callable} (inside : f.In w) : f.In w' := by
  cases f with
  | script routine scope => exact ⟨inside.1, upto.environment scope inside.2⟩
  | bound target receiver args =>
    exact ⟨upto.object target inside.1, inside.2.1.more upto, fun v member => (inside.2.2 v member).more upto⟩
  | _ => trivial

theorem Object.In.more {o : Object} (inside : o.In w) : o.In w' := by
  exact ⟨fun link same => upto.object link (inside.prototype link same), fun f same => (inside.callable f same).more upto,
    Heap.table_imp (fun v held => held.more upto) _ inside.table⟩

theorem Environment.In.more {e : Environment} (inside : e.In w) : e.In w' := by
  exact ⟨fun link same => upto.environment link (inside.outer link same),
    fun b same entry member => (inside.bindings b same entry member).more upto,
    fun id receiver same => upto.object id (inside.record id receiver same)⟩

end

namespace Heap

/-- Heaps that agree on a part, which leads nowhere else. -/
structure AlikeIn (w : Region) (h k : Heap) : Prop where
  intrinsic : ∀ id ≤ 16, w.object id
  global : w.environment Intrinsic.globalEnvironment
  base : w.frame 0
  object : ∀ id, w.object id → k.object id = h.object id
  environment : ∀ env, w.environment env → k.environment env = h.environment env
  frame : ∀ frame : FrameId, w.frame frame → k.frames[frame]? = h.frames[frame]?
  near : ∀ id, w.object id → (h.object id).In w
  around : ∀ env, w.environment env → (h.environment env).In w
  slots : ∀ (frame : FrameId) slots, w.frame frame → h.frames[frame]? = some slots → ∀ v ∈ slots, v.In w
  parameter : ∀ id i a, w.object id → (h.object id).kind.mapped.lookup i = some a →
    h.SameContent k a ∧ (h.readAlias a).In w

end Heap

/-! Of a heap in which everything leads to what there is, all is such a part. -/

-- What has been made; any frame will do.
def Extent.part (w : Extent) : Region :=
  ⟨w.Has, w.Encloses, fun _ => True⟩

theorem Extent.Upto.part {w w' : Extent} (upto : w.Upto w') : w.part.Upto w'.part := by
  exact ⟨fun _ has => Extent.Has.more has upto, fun _ encloses => Extent.Encloses.more encloses upto, fun _ _ => trivial⟩

theorem Heap.Grounded.part {h : Heap} (grounded : h.Grounded) : h.AlikeIn h.extent.part h := by
  refine ⟨fun id first => Nat.lt_of_le_of_lt first grounded.intrinsics, grounded.global, trivial, fun _ _ => rfl,
    fun _ _ => rfl, fun _ _ => rfl, fun id has => ⟨fun link is => ?_, fun f found => ?_, grounded.all.table id⟩,
    fun env encloses => ⟨fun link is => ?_, fun b is => ?_, fun id receiver is => ?_⟩,
    fun frame slots _ found v member => grounded.all.frame frame slots found v member, fun id i a _ _ => ⟨?_, ?_⟩⟩
  · exact Nat.lt_trans (grounded.prototype id link is) has
  · exact Heap.callable_within h grounded id f found
  · exact Nat.lt_trans (grounded.outer env link is) encloses
  · refine grounded.all.bindings env b ?_
    rw [Heap.bindings?, is]
  · exact grounded.all.record env id receiver is
  · exact Heap.content_stores h h ⟨rfl, rfl⟩ a
  · exact Heap.all_alias (within_primitive h.extent) h grounded.all a

/-! Heaps that agree on what can be reached agree on a part. -/

def Reach.part (w : Reach) : Region :=
  ⟨w.object, w.environment, w.frame⟩

theorem Heap.Alike.part {w : Reach} {h k : Heap} (alike : h.Alike w k) : h.AlikeIn w.part k := by
  refine { alike with
    intrinsic := w.intrinsic, global := w.global, base := w.base, near := fun id inside => ?_
    around := fun env inside => ?_ }
  · have near := alike.near id inside
    exact ⟨near.prototype, near.callable, near.table⟩
  · have around := alike.around env inside
    exact ⟨around.outer, fun b is entry member => (around.bindings b is entry member).value, around.record⟩

end Ecma

/-! What is found. -/

namespace Ecma.Heap

variable {w : Region} (h k : Heap) (alike : h.AlikeIn w k)

/-! Kinds. -/

section

include alike

theorem kind_alike (id : ObjectId) (inside : w.object id) : k.kind id = h.kind id := by
  rw [kind, kind, alike.object id inside]

theorem callable_alike (id : ObjectId) (inside : w.object id) : k.callable? id = h.callable? id := by
  rw [callable?, callable?, kind_alike h k alike id inside]

theorem callable_in (id : ObjectId) (inside : w.object id) (f : Callable) (found : h.callable? id = some f) :
    f.In w := by
  exact (alike.near id inside).callable f found

theorem is_array_alike (id : ObjectId) (inside : w.object id) : k.isArray id = h.isArray id := by
  delta isArray
  rw [kind_alike h k alike id inside]

theorem guards_caller_alike (id : ObjectId) (inside : w.object id) : guardsCaller k id = guardsCaller h id := by
  delta guardsCaller
  rw [kind_alike h k alike id inside]

section

variable (v : Value) (near : v.In w)
include near

theorem is_callable_alike : k.isCallable v = h.isCallable v := by
  cases v with
  | object id =>
    change (k.callable? id).isSome = (h.callable? id).isSome
    rw [callable_alike h k alike id near]
  | _ => rfl

theorem strict_function_alike : k.isStrictFunction v = h.isStrictFunction v := by
  cases v with
  | object id =>
    change (k.callable? id).any Callable.isStrict = (h.callable? id).any Callable.isStrict
    rw [callable_alike h k alike id near]
  | _ => rfl

theorem type_of_alike : k.typeOf v = h.typeOf v := by
  cases v with
  | object id =>
    change (if (k.callable? id).isSome then "function" else "object") = _
    rw [callable_alike h k alike id near]
    rfl
  | _ => rfl

theorem display_alike : k.display v = h.display v := by
  cases v with
  | object id =>
    change "[object " ++ (k.kind id).className ++ "]" = _
    rw [kind_alike h k alike id near]
    rfl
  | _ => rfl

end

theorem unbind_alike (steps : Nat) (f : ObjectId) (receiver : Value) (args : List Value) (inside : w.object f)
    (near : receiver.In w) (all : ∀ v ∈ args, v.In w) :
    k.unbindFrom steps f receiver args = h.unbindFrom steps f receiver args ∧
      w.object (h.unbindFrom steps f receiver args).1 ∧ (h.unbindFrom steps f receiver args).2.1.In w ∧
      ∀ v ∈ (h.unbindFrom steps f receiver args).2.2, v.In w := by
  induction steps generalizing f receiver args with
  | zero => exact ⟨rfl, inside, near, all⟩
  | succ steps hyp =>
    rw [unbindFrom, unbindFrom, callable_alike h k alike f inside]
    split
    · next target receiver' args' found =>
      obtain ⟨inside', near', all'⟩ := callable_in h k alike f inside _ found
      exact hyp target receiver' _ inside' near' fun v member =>
        (List.mem_append.mp member).elim (all' v) (all v)
    · exact ⟨rfl, inside, near, all⟩

/-! Own properties. -/

theorem aliased_alike (id : ObjectId) (key : PropertyKey) (inside : w.object id) :
    k.alias? id key = h.alias? id key ∧ k.aliased? id key = h.aliased? id key ∧
      ∀ v, h.aliased? id key = some v → v.In w := by
  have same : k.alias? id key = h.alias? id key := alias_same h k id (kind_alike h k alike id inside) key
  rw [aliased?, aliased?, same]
  refine ⟨rfl, ?_⟩
  cases found : h.alias? id key with
  | none => exact ⟨rfl, fun _ same => (by cases same)⟩
  | some a =>
    cases key with
    | name s =>
      rw [alias_name] at found
      cases found
    | index i =>
      rw [alias_mapped] at found
      obtain ⟨content, near⟩ := alike.parameter id i a inside found
      refine ⟨congrArg some (content_read h k a content), fun v is => ?_⟩
      cases is
      exact near

theorem own_alike (id : ObjectId) (key : PropertyKey) (inside : w.object id) : k.own? id key = h.own? id key := by
  have shows : k.shown id key = h.shown id key := by
    funext d
    rw [shown, shown, (aliased_alike h k alike id key inside).2.1]
  rw [own_shown, own_shown, alike.object id inside, shows]

theorem own_in (id : ObjectId) (key : PropertyKey) (inside : w.object id) (d : Descriptor)
    (found : h.own? id key = some d) : d.All (Value.In w) := by
  have stored (e : Descriptor) (there : (h.object id).properties.find? key = some e) : e.All (Value.In w) :=
    PropertyTable.all_find _ (alike.near id inside).table key e there
  rw [own_shown] at found
  obtain ⟨own, there, rfl⟩ := Option.map_eq_some_iff.mp found
  have held : own.All (Value.In w) := by
    rw [Object.own?] at there
    split at there
    · rcases Option.or_eq_some_iff.mp there with there | ⟨_, character⟩
      · exact stored own there
      · cases key with
        | name _ => cases character
        | index i =>
          obtain ⟨unit, _, rfl⟩ := Option.map_eq_some_iff.mp character
          exact (Descriptor.all_data _ _ _ _).mpr trivial
    · exact stored own there
  rw [shown]
  split
  · next v aliased =>
    exact Descriptor.all_with_value own v held ((aliased_alike h k alike id key inside).2.2 v aliased)
  · exact held

theorem own_keys_alike (id : ObjectId) (inside : w.object id) : k.ownKeys id = h.ownKeys id := by
  rw [own_keys_is, own_keys_is, alike.object id inside]

theorem enumerable_keys_alike (id : ObjectId) (inside : w.object id) : k.enumerableKeys id = h.enumerableKeys id := by
  rw [enumerableKeys, enumerableKeys, own_keys_alike h k alike id inside]
  exact List.filter_congr fun key _ => by rw [own_alike h k alike id key inside]

theorem is_locked_alike (id : ObjectId) (inside : w.object id) (locked : Descriptor → Bool) :
    k.isLocked id locked = h.isLocked id locked := by
  rw [isLocked, isLocked, own_keys_alike h k alike id inside, alike.object id inside]
  have same : k.own? id = h.own? id := funext fun key => own_alike h k alike id key inside
  rw [same]

theorem length_of_alike (id : ObjectId) (inside : w.object id) : k.lengthOf id = h.lengthOf id := by
  rw [lengthOf, lengthOf, own_alike h k alike id .length inside]

theorem elements_from_alike (id : ObjectId) (start : Nat) (inside : w.object id) :
    k.elementsFrom id start = h.elementsFrom id start := by
  rw [elementsFrom, elementsFrom, alike.object id inside]

theorem judge_alike (id : ObjectId) (key : PropertyKey) (d : Definition) (inside : w.object id) :
    k.judge id key d = h.judge id key d := by
  rw [judge, judge, own_alike h k alike id key inside, alike.object id inside]

theorem freeze_aliased_alike (id : ObjectId) (key : PropertyKey) (d : Definition) (inside : w.object id) :
    k.freezeAliased id key d = h.freezeAliased id key d := by
  rw [freezeAliased, freezeAliased, own_alike h k alike id key inside]

/-! Prototypes. -/

theorem prototype_alike (id : ObjectId) (inside : w.object id) : k.prototype? id = h.prototype? id := by
  rw [prototype?, prototype?, alike.object id inside]

theorem prototype_in (id link : ObjectId) (inside : w.object id) (found : h.prototype? id = some link) :
    w.object link := by
  exact (alike.near id inside).prototype link (Option.mem_filter_iff.mp found).1

theorem chain_alike (id : ObjectId) (inside : w.object id) :
    k.prototypeChain id = h.prototypeChain id ∧ ∀ o ∈ h.prototypeChain id, w.object o := by
  induction id using Nat.strongRecOn with
  | _ id hyp =>
    rw [prototype_chain_step, prototype_chain_step, prototype_alike h k alike id inside]
    cases found : h.prototype? id with
    | none => exact ⟨rfl, fun o member => List.mem_singleton.mp member ▸ inside⟩
    | some link =>
      have near := prototype_in h k alike id link inside found
      obtain ⟨same, all⟩ := hyp link (prototype_less h id link found) near
      refine ⟨congrArg (id :: ·) same, fun o member => ?_⟩
      rcases List.mem_cons.mp member with rfl | rest
      · exact inside
      · exact all o rest

theorem property_alike (id : ObjectId) (key : PropertyKey) (inside : w.object id) :
    k.property? id key = h.property? id key := by
  obtain ⟨same, all⟩ := chain_alike h k alike id inside
  rw [property?, property?, same]
  generalize h.prototypeChain id = chain at all
  induction chain with
  | nil => rfl
  | cons o rest hyp =>
    obtain ⟨first, others⟩ := List.forall_mem_cons.mp all
    rw [List.findSome?_cons, List.findSome?_cons, own_alike h k alike o key first, hyp others]

theorem property_in (id : ObjectId) (key : PropertyKey) (inside : w.object id) (d : Descriptor)
    (found : h.property? id key = some d) : d.All (Value.In w) := by
  obtain ⟨o, member, there⟩ := List.exists_of_findSome?_eq_some found
  exact own_in h k alike o key ((chain_alike h k alike id inside).2 o member) d there

theorem has_property_alike (id : ObjectId) (key : PropertyKey) (inside : w.object id) :
    k.hasProperty id key = h.hasProperty id key := by
  rw [hasProperty, hasProperty, property_alike h k alike id key inside]

theorem inherits_alike (id ancestor : ObjectId) (inside : w.object id) :
    k.inherits id ancestor = h.inherits id ancestor := by
  rw [inherits, inherits, (chain_alike h k alike id inside).1]

theorem can_put_alike (id : ObjectId) (key : PropertyKey) (inside : w.object id) : canPut k id key = canPut h id key := by
  have inherited : ((k.prototype? id).bind fun p => k.property? p key) =
      (h.prototype? id).bind fun p => h.property? p key := by
    rw [prototype_alike h k alike id inside]
    cases found : h.prototype? id with
    | none => rfl
    | some link => exact property_alike h k alike link key (prototype_in h k alike id link inside found)
  rw [canPut, canPut, own_alike h k alike id key inside, alike.object id inside, inherited]

theorem route_alike (id : ObjectId) (key : PropertyKey) (inside : w.object id) : route k id key = route h id key := by
  rw [route, route, own_alike h k alike id key inside, can_put_alike h k alike id key inside,
    property_alike h k alike id key inside]

/-! Enumeration. -/

theorem scan_alike (e : Enumerator) (id : ObjectId) (keys : List PropertyKey) (seen : SeenKeys) (inside : w.object id) :
    e.scan k id keys seen = e.scan h id keys seen := by
  induction keys generalizing seen with
  | nil => rfl
  | cons key rest hyp =>
    rw [Enumerator.scan, Enumerator.scan, own_alike h k alike id key inside]
    simp only [hyp]

theorem next_from_alike (fuel : Nat) (e : Enumerator) (near : ∀ id, e.current = some id → w.object id) :
    Enumerator.nextFrom k fuel e = Enumerator.nextFrom h fuel e ∧
      ∀ id, (Enumerator.nextFrom h fuel e).2.current = some id → w.object id := by
  induction fuel generalizing e with
  | zero => exact ⟨rfl, nofun⟩
  | succ fuel hyp =>
    rw [Enumerator.nextFrom, Enumerator.nextFrom]
    cases current : e.current with
    | none => exact ⟨rfl, fun id is => by cases current.symm.trans is⟩
    | some id =>
      have inside := near id current
      dsimp only
      rw [scan_alike h k alike e id _ _ inside]
      generalize e.scan h id e.pending e.seen = scanned
      obtain ⟨key, rest, seen⟩ := scanned
      cases key with
      | some key => exact ⟨rfl, fun other is => near other (current.trans is)⟩
      | none =>
        dsimp only
        split
        · exact ⟨rfl, nofun⟩
        · rw [prototype_alike h k alike id inside]
          cases found : h.prototype? id with
          | none => exact ⟨rfl, nofun⟩
          | some link =>
            have link_near := prototype_in h k alike id link inside found
            dsimp only
            rw [own_keys_alike h k alike link link_near]
            refine hyp _ fun other is => ?_
            cases is
            exact link_near

/-! Environments. -/

theorem has_binding_alike (env : EnvironmentId) (name : String) (inside : w.environment env) :
    k.hasBinding env name = h.hasBinding env name := by
  rw [hasBinding, hasBinding, alike.environment env inside]
  cases record : (h.environment env).record with
  | declarative b => rfl
  | object id receiver =>
    exact has_property_alike h k alike id _ ((alike.around env inside).record id receiver record)

theorem outer_alike (env : EnvironmentId) (inside : w.environment env) : k.outer? env = h.outer? env := by
  rw [outer?, outer?, alike.environment env inside]

theorem outer_in (env link : EnvironmentId) (inside : w.environment env) (found : h.outer? env = some link) :
    w.environment link := by
  exact (alike.around env inside).outer link (Option.mem_filter_iff.mp found).1

theorem find_binding_alike (env : EnvironmentId) (name : String) (inside : w.environment env) :
    k.findBinding env name = h.findBinding env name ∧
      ∀ link, h.findBinding env name = some link → w.environment link := by
  induction env using Nat.strongRecOn with
  | _ env hyp =>
    rw [find_binding_step, find_binding_step, has_binding_alike h k alike env name inside,
      outer_alike h k alike env inside]
    split
    · exact ⟨rfl, fun link is => by cases is; exact inside⟩
    · cases found : h.outer? env with
      | none => exact ⟨rfl, nofun⟩
      | some link =>
        exact hyp link (outer_less h env link found) (outer_in h k alike env link inside found)

theorem skip_alike (links : Nat) (env : EnvironmentId) (inside : w.environment env) :
    k.skip links env = h.skip links env ∧ w.environment (h.skip links env) := by
  induction links generalizing env with
  | zero => exact ⟨rfl, inside⟩
  | succ links hyp =>
    rw [skip, skip, outer_alike h k alike env inside]
    split
    · next link found => exact hyp link (outer_in h k alike env link inside found)
    · exact ⟨rfl, inside⟩

theorem implicit_alike (env : EnvironmentId) (inside : w.environment env) :
    k.implicitReceiver env = h.implicitReceiver env ∧ (h.implicitReceiver env).In w := by
  rw [implicitReceiver, implicitReceiver, alike.environment env inside]
  refine ⟨rfl, ?_⟩
  split
  · next id found => exact (alike.around env inside).record id true found
  · trivial

theorem slot_alike (frame : FrameId) (index : Nat) (inside : w.frame frame) :
    k.slot frame index = h.slot frame index ∧ (h.slot frame index).In w := by
  rw [slot, slot, alike.frame frame inside]
  refine ⟨rfl, ?_⟩
  cases found : h.frames[frame]? with
  | none => trivial
  | some slots =>
    change Value.In w (slots[index]?.getD .undefined)
    cases there : slots[index]? with
    | none => trivial
    | some v => exact alike.slots frame slots inside found v (Array.mem_of_getElem? there)

end

end Ecma.Heap
