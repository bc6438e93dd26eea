import Ecma.Eval.Function
import Ecma.Heap.Enumerator
import Ecma.Realm.State

set_option autoImplicit false

/-!
What scripts can see of a heap. Two heaps look the same when their objects do: where a script's function
finds its names, and where the parameters live that elements of an arguments object stand for, cannot be
seen.
-/

namespace Ecma

open Ecma.Program

/-- A header without what is said of storage. -/
def Program.Header.face (h : Header) : Header :=
  { h with slots := 0, locals := [], collapsed := false }

/-- What can be seen of a kind of object. -/
def ObjectKind.face : ObjectKind → ObjectKind
  | .function (.script routine _) => .function (.script (.mk routine.header.face [] []) 0)
  | .arguments mapped => .arguments (mapped.map fun entry => (entry.1, .slot 0 0))
  | k => k

namespace Heap

structure SameView (h k : Heap) : Prop where
  size : h.objects.size = k.objects.size
  kind : ∀ id, (h.kind id).face = (k.kind id).face
  prototype : ∀ id, (h.object id).prototype = (k.object id).prototype
  extensible : ∀ id, (h.object id).extensible = (k.object id).extensible
  properties : ∀ id, (h.object id).properties = (k.object id).properties
  -- the elements of arguments objects have the values of their parameters
  aliased : ∀ id key, h.aliased? id key = k.aliased? id key

theorem same_view_refl (h : Heap) : h.SameView h := by
  exact ⟨rfl, fun _ => rfl, fun _ => rfl, fun _ => rfl, fun _ => rfl, fun _ _ => rfl⟩

end Heap

/-! What is asked of a kind is asked of its face. -/

theorem class_name_face (k : ObjectKind) : k.face.className = k.className := by
  unfold ObjectKind.face
  split <;> rfl

theorem callable_face (k : ObjectKind) : k.face.callable?.isSome = k.callable?.isSome := by
  unfold ObjectKind.face
  split <;> rfl

theorem strict_face (k : ObjectKind) :
    k.face.callable?.any Callable.isStrict = k.callable?.any Callable.isStrict := by
  unfold ObjectKind.face
  split <;> rfl

namespace Heap

section

variable (h k : Heap) (same : h.SameView k)
include same

theorem class_same (id : ObjectId) : (h.kind id).className = (k.kind id).className := by
  rw [← class_name_face, same.kind, class_name_face]

theorem callable_same (id : ObjectId) : (h.callable? id).isSome = (k.callable? id).isSome := by
  rw [callable?, callable?, ← callable_face, same.kind, callable_face]

theorem is_callable_same (v : Value) : h.isCallable v = k.isCallable v := by
  cases v with
  | object id => exact callable_same h k same id
  | _ => rfl

theorem strict_function_same (v : Value) : h.isStrictFunction v = k.isStrictFunction v := by
  cases v with
  | object id =>
    change (h.callable? id).any _ = (k.callable? id).any _
    rw [callable?, callable?, ← strict_face, same.kind, strict_face]
  | _ => rfl

theorem type_of_same (v : Value) : h.typeOf v = k.typeOf v := by
  cases v with
  | object id => rw [typeOf, typeOf, callable_same h k same]
  | _ => rfl

theorem display_same (v : Value) : h.display v = k.display v := by
  cases v with
  | object id => rw [display, display, class_same h k same]
  | _ => rfl

omit same in
theorem is_array_face (id : ObjectId) :
    h.isArray id = match (h.kind id).face with
      | .array => true
      | _ => false := by
  rw [isArray]
  cases h.kind id with
  | function f => cases f <;> rfl
  | _ => rfl

theorem is_array_same (id : ObjectId) : h.isArray id = k.isArray id := by
  rw [is_array_face, is_array_face, same.kind]

omit same in
theorem guards_caller_face (id : ObjectId) :
    guardsCaller h id = match (h.kind id).face with
      | .function _ => true
      | .arguments _ => true
      | _ => false := by
  rw [guardsCaller]
  cases h.kind id with
  | function f => cases f <;> rfl
  | _ => rfl

theorem guards_caller_same (id : ObjectId) : guardsCaller h id = guardsCaller k id := by
  rw [guards_caller_face, guards_caller_face, same.kind]

/-! Chains. -/

theorem prototype_same : h.prototype? = k.prototype? := by
  funext id
  rw [prototype?, prototype?, same.prototype]

theorem prototype_chain_same (id : ObjectId) : h.prototypeChain id = k.prototypeChain id := by
  rw [prototypeChain, prototypeChain, prototype_same h k same]

theorem inherits_same (id ancestor : ObjectId) : h.inherits id ancestor = k.inherits id ancestor := by
  rw [inherits, inherits, prototype_chain_same h k same]

omit same in
theorem unbind_step (steps f : Nat) (receiver : Value) (args : List Value) :
    h.unbindFrom (steps + 1) f receiver args = match (h.kind f).face with
      | .function (.bound target boundReceiver boundArgs) =>
        h.unbindFrom steps target boundReceiver (boundArgs ++ args)
      | _ => (f, receiver, args) := by
  rw [unbindFrom, callable?]
  cases h.kind f with
  | function f => cases f <;> rfl
  | _ => rfl

theorem unbind_from_same (steps f : Nat) (receiver : Value) (args : List Value) :
    h.unbindFrom steps f receiver args = k.unbindFrom steps f receiver args := by
  induction steps generalizing f receiver args with
  | zero => rfl
  | succ steps hyp =>
    rw [unbind_step, unbind_step, same.kind]
    split
    · exact hyp _ _ _
    · rfl

theorem unbind_same (f : ObjectId) (receiver : Value) (args : List Value) :
    h.unbind f receiver args = k.unbind f receiver args := by
  exact unbind_from_same h k same _ f receiver args

/-! Properties. -/

omit same in
theorem own_face (id : ObjectId) (key : PropertyKey) :
    h.own? id key = match (h.kind id).face with
      | .arguments _ =>
        match h.aliased? id key with
        | some v => ((h.object id).properties.find? key).map (·.withValue v)
        | none => (h.object id).properties.find? key
      | .string s => ((h.object id).properties.find? key).or (character? s key)
      | _ => (h.object id).properties.find? key := by
  rw [own?, kind]
  cases (h.object id).kind with
  | function f => cases f <;> rfl
  | _ => rfl

theorem own_same : h.own? = k.own? := by
  funext id key
  rw [own_face, own_face, same.kind, same.properties, same.aliased]

omit same in
theorem own_keys_face (id : ObjectId) :
    h.ownKeys id = match (h.kind id).face with
      | .string s => (List.range (Text.unitLength s)).map .index ++ (h.object id).properties.keys
      | _ => (h.object id).properties.keys := by
  rw [ownKeys, kind]
  cases (h.object id).kind with
  | function f => cases f <;> rfl
  | _ => rfl

theorem own_keys_same : h.ownKeys = k.ownKeys := by
  funext id
  rw [own_keys_face, own_keys_face, same.kind, same.properties]

theorem property_same : h.property? = k.property? := by
  funext id key
  rw [property?, property?, own_same h k same, prototype_chain_same h k same]

theorem has_property_same (id : ObjectId) (key : PropertyKey) :
    h.hasProperty id key = k.hasProperty id key := by
  rw [hasProperty, hasProperty, property_same h k same]

theorem enumerable_keys_same (id : ObjectId) : h.enumerableKeys id = k.enumerableKeys id := by
  rw [enumerableKeys, enumerableKeys, own_same h k same, own_keys_same h k same]

theorem length_of_same (id : ObjectId) : h.lengthOf id = k.lengthOf id := by
  rw [lengthOf, lengthOf, own_same h k same]

theorem elements_from_same (id : ObjectId) (start : Nat) :
    h.elementsFrom id start = k.elementsFrom id start := by
  rw [elementsFrom, elementsFrom, same.properties]

theorem judge_same (id : ObjectId) (key : PropertyKey) (d : Definition) :
    h.judge id key d = k.judge id key d := by
  rw [judge, judge, own_same h k same, same.extensible]

theorem freeze_aliased_same (id : ObjectId) (key : PropertyKey) (d : Definition) :
    h.freezeAliased id key d = k.freezeAliased id key d := by
  rw [freezeAliased, freezeAliased, own_same h k same]

theorem can_put_same (id : ObjectId) (key : PropertyKey) : canPut h id key = canPut k id key := by
  rw [canPut, canPut, own_same h k same, property_same h k same, prototype_same h k same,
    same.extensible]

theorem route_same (id : ObjectId) (key : PropertyKey) : route h id key = route k id key := by
  rw [route, route, own_same h k same, property_same h k same, can_put_same h k same]

/-! Enumeration. -/

theorem scan_same (e : Enumerator) (id : ObjectId) (keys : List PropertyKey) (seen : SeenKeys) :
    e.scan h id keys seen = e.scan k id keys seen := by
  induction keys generalizing seen with
  | nil => rfl
  | cons key rest hyp =>
    rw [Enumerator.scan, Enumerator.scan, own_same h k same]
    simp only [hyp]

theorem next_from_same (fuel : Nat) (e : Enumerator) :
    Enumerator.nextFrom h fuel e = Enumerator.nextFrom k fuel e := by
  induction fuel generalizing e with
  | zero => rfl
  | succ fuel hyp =>
    rw [Enumerator.nextFrom, Enumerator.nextFrom]
    simp only [scan_same h k same, prototype_same h k same, own_keys_same h k same, hyp]

theorem next_same (e : Enumerator) : e.next h = e.next k := by
  exact next_from_same h k same _ e

theorem start_same (id : ObjectId) (ownOnly enumerableOnly : Bool) :
    Enumerator.start h id ownOnly enumerableOnly = Enumerator.start k id ownOnly enumerableOnly := by
  rw [Enumerator.start, Enumerator.start, own_keys_same h k same]

end

end Heap

end Ecma

/-!
What scripts and the host can see of a realm. The environments and the frame of a context cannot be
seen, and neither can whether bindings may live in frames.
-/

namespace Ecma

/-- The limits that scripts can see. -/
def Config.face (c : Config) : Config :=
  { c with collapse := true }

namespace Realm

structure SameView (r s : Realm) : Prop where
  heap : r.heap.SameView s.heap
  config : r.config.face = s.config.face
  running : r.running.frame? = s.running.frame?
  waiting : r.waiting.map Context.frame? = s.waiting.map Context.frame?
  steps : r.steps = s.steps
  hosts : r.hosts = s.hosts
  handlers : r.handlers = s.handlers
  stdout : r.stdout = s.stdout
  stderr : r.stderr = s.stderr

theorem same_view_refl (r : Realm) : r.SameView r := by
  exact ⟨r.heap.same_view_refl, rfl, rfl, rfl, rfl, rfl, rfl, rfl, rfl⟩

section

variable (r s : Realm) (same : r.SameView s)
include same

theorem depth_same : r.depth = s.depth := by
  have lengths := congrArg List.length same.waiting
  rwa [List.length_map, List.length_map] at lengths

theorem depth_limit_same : r.config.depthLimit = s.config.depthLimit := by
  have limits := congrArg Config.depthLimit same.config
  exact limits

theorem steps_limit_same : r.config.stepsLimit = s.config.stepsLimit := by
  have limits := congrArg Config.stepsLimit same.config
  exact limits

theorem trace_limit_same : r.traceLimit = s.traceLimit := by
  have limits := congrArg Config.traceLimit same.config
  change r.config.traceLimit = s.config.traceLimit at limits
  rw [traceLimit, traceLimit, Heap.own_same _ _ same.heap, limits]

theorem capture_same : r.captureStack = s.captureStack := by
  have frames : (r.running :: r.waiting).filterMap Context.frame? =
      (s.running :: s.waiting).filterMap Context.frame? := by
    have lists : (r.running :: r.waiting).map Context.frame? =
        (s.running :: s.waiting).map Context.frame? := by
      rw [List.map_cons, List.map_cons, same.running, same.waiting]
    have filtered := congrArg (List.filterMap id) lists
    rwa [List.filterMap_map, List.filterMap_map] at filtered
  rw [captureStack, captureStack, frames, trace_limit_same r s same]

end

end Realm

end Ecma
