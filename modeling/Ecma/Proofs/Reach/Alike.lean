import Ecma.Proofs.Heap.Arguments
import Ecma.Proofs.Heap.Pieces
import Ecma.Proofs.Program.Plain

set_option autoImplicit false

/-!
Two heaps that agree on a part which leads nowhere else. Objects outside of it may differ, and stay what they
are; a change that is made to the part in both heaps leaves them so.
-/

namespace Ecma

open Ecma.Program

/-- A part of the objects, environments and frames, with those that every realm has, and the other objects in each
of two heaps. -/
structure Reach where
  object : ObjectId → Prop
  environment : EnvironmentId → Prop
  frame : FrameId → Prop
  first : ObjectId → Object
  second : ObjectId → Object
  intrinsic : ∀ id ≤ 16, object id
  global : environment Intrinsic.globalEnvironment
  base : frame 0

section

variable (w : Reach)

def Value.Near : Value → Prop
  | .object id => w.object id
  | _ => True

def Callable.Near : Callable → Prop
  | .script routine scope => routine.Plain ∧ w.environment scope
  | .bound target receiver args => w.object target ∧ receiver.Near w ∧ ∀ v ∈ args, v.Near w
  | _ => True

theorem near_primitive (v : Value) (primitive : v.isObject = false) : v.Near w := by
  cases v with
  | object id => cases primitive
  | _ => trivial

-- What an object leads to by itself; its elements may also stand for parameters.
structure Object.Near (o : Object) : Prop where
  prototype : ∀ link, o.prototype = some link → w.object link
  callable : ∀ f, o.kind.callable? = some f → f.Near w
  table : o.properties.All (Value.Near w)

structure Binding.Near (b : Binding) : Prop where
  value : b.value.Near w
  -- A constant that has not got its value yet.
  blank : b.state = .uninitialized → b.value = .undefined

def Bindings.Near (b : Bindings) : Prop :=
  Dictionary.All (Binding.Near w) b

structure Environment.Near (e : Environment) : Prop where
  outer : ∀ link, e.outer = some link → w.environment link
  bindings : ∀ b, e.record = .declarative b → Bindings.Near w b
  record : ∀ id receiver, e.record = .object id receiver → w.object id

end

-- What a write leaves of a binding.
def Binding.written (v : Value) (b : Binding) : Binding :=
  if b.state.isMutable then { b with value := v } else b

namespace Environment

def rebind (f : Bindings → Bindings) : Environment → Environment
  | ⟨.declarative b, outer⟩ => ⟨.declarative (f b), outer⟩
  | e => e

def binding? (e : Environment) (name : String) : Option Binding :=
  match e.record with
  | .declarative b => Dictionary.find? b name
  | .object _ _ => none

end Environment

section

variable (w : Reach) (e : Environment)

theorem near_rebound (f : Bindings → Bindings)
    (keeps : ∀ b, Bindings.Near w b → Bindings.Near w (f b)) (near : e.Near w) :
    (e.rebind f).Near w := by
  obtain ⟨record, outer⟩ := e
  cases record with
  | object id receiver => exact near
  | declarative b => exact ⟨near.outer, fun b' same => by cases same; exact keeps b (near.bindings b rfl), nofun⟩

theorem near_binding (near : e.Near w) (name : String) :
    (((e.binding? name).map Binding.value).getD .undefined).Near w := by
  rw [Environment.binding?]
  cases record : e.record with
  | object id receiver => trivial
  | declarative b =>
    dsimp only
    cases found : Dictionary.find? b name with
    | none => trivial
    | some binding => exact (Dictionary.all_find _ b (near.bindings b record) name binding found).value

theorem near_written (v : Value) (near : v.Near w) (b : Binding) (held : b.Near w) : (b.written v).Near w := by
  rw [Binding.written]
  split
  · next mutable =>
    refine ⟨near, fun blank => ?_⟩
    rw [show b.state = .uninitialized from blank] at mutable
    cases mutable
  · exact held

end

namespace Heap

-- The same is stored where a parameter lives.
def SameContent (h k : Heap) : Alias → Prop
  | .slot frame index => k.frames[frame]?.bind (·[index]?) = h.frames[frame]?.bind (·[index]?)
  | .binding env name => k.binding? env name = h.binding? env name

/-- Heaps that agree on a part which leads nowhere else. What will be made belongs to the part. -/
structure Alike (w : Reach) (h k : Heap) : Prop where
  objects : k.objects.size = h.objects.size
  environments : k.environments.size = h.environments.size
  frames : k.frames.size = h.frames.size
  object : ∀ id, w.object id → k.object id = h.object id
  environment : ∀ env, w.environment env → k.environment env = h.environment env
  frame : ∀ frame : FrameId, w.frame frame → k.frames[frame]? = h.frames[frame]?
  near : ∀ id, w.object id → (h.object id).Near w
  around : ∀ env, w.environment env → (h.environment env).Near w
  slots : ∀ (frame : FrameId) slots, w.frame frame → h.frames[frame]? = some slots → ∀ v ∈ slots, v.Near w
  parameter : ∀ id i a, w.object id → (h.object id).kind.mapped.lookup i = some a →
    h.SameContent k a ∧ (h.readAlias a).Near w
  beyond₁ : ∀ id, ¬ w.object id → h.object id = w.first id
  beyond₂ : ∀ id, ¬ w.object id → k.object id = w.second id
  newObject : ∀ id, h.objects.size ≤ id → w.object id
  newEnvironment : ∀ env, h.environments.size ≤ env → w.environment env
  newFrame : ∀ frame, h.frames.size ≤ frame → w.frame frame
  blank : h.frames[0]? = some #[]
  outermost : h.environment Intrinsic.globalEnvironment = ⟨.object Intrinsic.global false, none⟩

/-! What is stored after a change. -/

section

variable (h k : Heap)

theorem content_read (a : Alias) (same : h.SameContent k a) : k.readAlias a = h.readAlias a := by
  cases a with
  | slot frame index =>
    rw [readAlias, readAlias, slot, slot]
    exact congrArg (Option.getD · .undefined) same
  | binding env name =>
    rw [read_binding, read_binding]
    exact congrArg (fun b => (Option.map Binding.value b).getD .undefined) same

theorem content_stores (same : h.SameStores k) (a : Alias) : h.SameContent k a := by
  cases a with
  | slot frame index =>
    rw [SameContent, same.1]
  | binding env name => exact same_binding h k same env name

theorem content_set (frame other : FrameId) (index index' : Nat) (v : Value) :
    (h.setSlot frame index v).frames[other]?.bind (·[index']?) =
      (h.frames[other]?.bind (·[index']?)).map fun old => if frame = other ∧ index = index' then v else old := by
  rw [setSlot]
  dsimp only
  rw [Array.getElem?_modify]
  by_cases same : frame = other
  · simp only [same, true_and, if_true]
    cases h.frames[other]? with
    | none => rfl
    | some slots =>
      change (slots.setIfInBounds index v)[index']? = slots[index']?.map _
      rw [Array.getElem?_setIfInBounds]
      by_cases here : index = index'
      · subst here
        simp only [if_true]
        by_cases inside : index < slots.size
        · rw [if_pos inside, Array.getElem?_eq_getElem inside]
          rfl
        · rw [if_neg inside, Array.getElem?_eq_none (Nat.le_of_not_lt inside)]
          rfl
      · simp [here]
  · simp [same]

theorem binding_write (env other : EnvironmentId) (name name' : String) (v : Value) :
    (h.writeAlias (.binding env name) v).binding? other name' =
      (h.binding? other name').map fun b => if env = other ∧ name = name' then b.written v else b := by
  by_cases known : env < h.environments.size
  · rw [writeAlias, binding?, binding?, bindings_modify h env other _ known]
    by_cases same : env = other
    · rw [if_pos same]
      cases h.bindings? other with
      | none => rfl
      | some b =>
        change Dictionary.find? (Bindings.write b name v) name' = (Dictionary.find? b name').map _
        rw [Bindings.write, Dictionary.find_modify]
        by_cases here : name = name'
        · simp only [same, here, true_and, if_true]
          rfl
        · simp [here]
    · simp [same]
  · rw [write_unknown h v env name known]
    cases found : h.binding? other name' with
    | none => rfl
    | some b =>
      have distinct : env ≠ other := fun same => known (same ▸ binding_known h other name' b found)
      simp [distinct]

theorem environment_modify (env other : EnvironmentId) (f : Bindings → Bindings) :
    (h.modifyBindings env f).environment other =
      if env = other ∧ env < h.environments.size then (h.environment other).rebind f else h.environment other := by
  rw [environment, environment, modifyBindings]
  dsimp only
  rw [Array.getElem?_modify]
  by_cases same : env = other
  · subst same
    by_cases known : env < h.environments.size
    · rw [if_pos rfl, if_pos ⟨rfl, known⟩, Array.getElem?_eq_getElem known]
      rfl
    · rw [if_pos rfl, if_neg fun both => known both.2, Array.getElem?_eq_none (Nat.le_of_not_lt known)]
      rfl
  · rw [if_neg same, if_neg fun both => same both.1]

theorem binding_environment (env : EnvironmentId) (name : String) :
    h.binding? env name = (h.environment env).binding? name := by
  rw [binding?, bindings?, Environment.binding?]
  cases (h.environment env).record <;> rfl

end

/-! Changes that are made to both. -/

section

variable {w : Reach} (h k : Heap) (alike : h.Alike w k)
include alike

theorem alike_slot (frame : FrameId) (index : Nat) (v : Value) (near : v.Near w) :
    (h.setSlot frame index v).Alike w (k.setSlot frame index v) := by
  refine { alike with
    frames := ?_, frame := fun other inside => ?_, slots := fun other slots inside found => ?_
    parameter := fun id i a inside mapped => ?_, newFrame := fun other => ?_, blank := ?_ }
  · rw [frames_size_set, frames_size_set]
    exact alike.frames
  · rw [setSlot, setSlot]
    dsimp only
    rw [Array.getElem?_modify, Array.getElem?_modify, alike.frame other inside]
  · rw [setSlot] at found
    dsimp only at found
    rw [Array.getElem?_modify] at found
    split at found
    · obtain ⟨before, there, rfl⟩ := Option.map_eq_some_iff.mp found
      intro v' member
      rcases Array.mem_or_eq_of_mem_setIfInBounds member with old | rfl
      · exact alike.slots other before inside there v' old
      · exact near
    · exact alike.slots other slots inside found
  · obtain ⟨same, held⟩ := alike.parameter id i a inside mapped
    cases a with
    | binding env name => exact ⟨same, held⟩
    | slot frame' index' =>
      refine ⟨?_, ?_⟩
      · rw [SameContent, content_set, content_set]
        exact congrArg (Option.map _) same
      · rw [readAlias, slot] at held ⊢
        rw [content_set]
        generalize h.frames[frame']?.bind (·[index']?) = content at held
        cases content with
        | none => exact held
        | some old =>
          change Value.Near w (if frame = frame' ∧ index = index' then v else old)
          split
          · exact near
          · exact held
  · rw [frames_size_set]
    exact alike.newFrame other
  · rw [setSlot]
    dsimp only
    rw [Array.getElem?_modify, alike.blank]
    split <;> rfl

-- The bindings of an environment that is not in the part are changed in one place only.
theorem alike_rebound (env : EnvironmentId) (f : Bindings → Bindings)
    (keeps : ∀ b, Bindings.Near w b → Bindings.Near w (f b))
    (parameter : ∀ name, h.SameContent k (.binding env name) → (h.readAlias (.binding env name)).Near w →
      (h.modifyBindings env f).SameContent (k.modifyBindings env f) (.binding env name) ∧
        ((h.modifyBindings env f).readAlias (.binding env name)).Near w) :
    (h.modifyBindings env f).Alike w (k.modifyBindings env f) := by
  have elsewhere (x : Heap) (other : EnvironmentId) (name : String) (distinct : env ≠ other) :
      (x.modifyBindings env f).binding? other name = x.binding? other name := by
    rw [binding_environment, binding_environment, environment_modify, if_neg fun both => distinct both.1]
  refine { alike with
    environments := ?_, environment := fun other inside => ?_, around := fun other inside => ?_
    parameter := fun id i a inside mapped => ?_, newEnvironment := fun other => ?_, outermost := ?_ }
  · rw [environments_size_modify, environments_size_modify]
    exact alike.environments
  · rw [environment_modify, environment_modify, alike.environments, alike.environment other inside]
  · have around := alike.around other inside
    rw [environment_modify]
    split
    · exact near_rebound w _ f keeps around
    · exact around
  · obtain ⟨same, held⟩ := alike.parameter id i a inside mapped
    cases a with
    | slot frame index => exact ⟨same, held⟩
    | binding other name =>
      by_cases here : env = other
      · subst here
        exact parameter name same held
      · rw [SameContent, read_binding, elsewhere h other name here, elsewhere k other name here, ← read_binding]
        exact ⟨same, held⟩
  · rw [environments_size_modify]
    exact alike.newEnvironment other
  · rw [environment_modify, alike.outermost]
    split <;> rfl

theorem alike_bindings (env : EnvironmentId) (f : Bindings → Bindings) (inside : w.environment env)
    (keeps : ∀ b, Bindings.Near w b → Bindings.Near w (f b)) :
    (h.modifyBindings env f).Alike w (k.modifyBindings env f) := by
  refine alike_rebound h k alike env f keeps fun name _ _ => ?_
  have around := alike.around env inside
  rw [SameContent, read_binding, binding_environment, binding_environment, environment_modify, environment_modify,
    alike.environments, alike.environment env inside]
  refine ⟨rfl, ?_⟩
  split
  · exact near_binding w _ (near_rebound w _ f keeps around) name
  · exact near_binding w _ around name

theorem alike_write (a : Alias) (v : Value) (near : v.Near w) : (h.writeAlias a v).Alike w (k.writeAlias a v) := by
  cases a with
  | slot frame index => exact alike_slot h k alike frame index v near
  | binding env name =>
    refine alike_rebound h k alike env _ (fun b all => ?_) fun name' same held => ?_
    · exact Dictionary.all_modify _ b all name _ (near_written w v near)
    · rw [read_binding] at held
      have after (x : Heap) : (x.modifyBindings env fun b => b.write name v).binding? env name' = _ :=
        binding_write x env env name name' v
      rw [SameContent, read_binding, after, after, same]
      refine ⟨rfl, ?_⟩
      generalize h.binding? env name' = found at held
      cases found with
      | none => exact held
      | some b =>
        change Value.Near w (Binding.value (if _ then b.written v else b))
        split
        · rw [Binding.written]
          split
          · exact near
          · exact held
        · exact held

theorem alike_modify (id : ObjectId) (f : Object → Object) (inside : w.object id)
    (keeps : (h.object id).Near w → (f (h.object id)).Near w)
    (mapped : ∀ i a, (f (h.object id)).kind.mapped.lookup i = some a → (h.object id).kind.mapped.lookup i = some a) :
    (h.modifyObject id f).Alike w (k.modifyObject id f) := by
  refine { alike with
    objects := ?_, object := fun other within => ?_, near := fun other within => ?_
    parameter := fun other i a within found => ?_, beyond₁ := fun other beyond => ?_
    beyond₂ := fun other beyond => ?_, newObject := fun other => ?_ }
  · rw [size_modify, size_modify]
    exact alike.objects
  · rw [object_modify, object_modify, alike.objects, alike.object other within]
  · have near := alike.near other within
    rw [object_modify]
    split
    · next here =>
      obtain ⟨rfl, _⟩ := here
      exact keeps near
    · exact near
  · refine alike.parameter other i a within ?_
    rw [object_modify] at found
    split at found
    · next here =>
      obtain ⟨rfl, _⟩ := here
      exact mapped i a found
    · exact found
  · rw [object_modify, if_neg]
    · exact alike.beyond₁ other beyond
    · exact fun both => beyond (both.1 ▸ inside)
  · rw [object_modify, if_neg]
    · exact alike.beyond₂ other beyond
    · exact fun both => beyond (both.1 ▸ inside)
  · rw [size_modify]
    exact alike.newObject other

theorem alike_properties (id : ObjectId) (f : PropertyTable → PropertyTable) (inside : w.object id)
    (keeps : (h.object id).properties.All (Value.Near w) → (f (h.object id).properties).All (Value.Near w)) :
    (h.modifyProperties id f).Alike w (k.modifyProperties id f) := by
  refine alike_modify h k alike id _ inside (fun near => ?_) fun _ _ found => found
  exact ⟨near.prototype, near.callable, keeps near.table⟩

/-! What is made. -/

theorem alike_object (o : Object) (near : o.Near w)
    (parameter : ∀ i a, o.kind.mapped.lookup i = some a → h.SameContent k a ∧ (h.readAlias a).Near w) :
    (h.addObject o).2.Alike w (k.addObject o).2 := by
  have sizes (x : Heap) : (x.addObject o).2.objects.size = x.objects.size + 1 := Array.size_push o
  have known (id : ObjectId) (beyond : ¬ w.object id) : id ≠ h.objects.size :=
    fun same => beyond (alike.newObject id (Nat.le_of_eq same.symm))
  refine { alike with
    objects := ?_, object := fun id within => ?_, near := fun id within => ?_
    parameter := fun id i a within found => ?_, beyond₁ := fun id beyond => ?_
    beyond₂ := fun id beyond => ?_, newObject := fun id less => ?_ }
  · rw [sizes, sizes, alike.objects]
  · rw [object_add, object_add, alike.objects, alike.object id within]
  · rw [object_add]
    split
    · exact near
    · exact alike.near id within
  · rw [object_add] at found
    split at found
    · exact parameter i a found
    · exact alike.parameter id i a within found
  · rw [object_add, if_neg (known id beyond)]
    exact alike.beyond₁ id beyond
  · rw [object_add, alike.objects, if_neg (known id beyond)]
    exact alike.beyond₂ id beyond
  · rw [sizes] at less
    exact alike.newObject id (Nat.le_of_succ_le less)

theorem alike_environment (e : Environment) (near : e.Near w) :
    (h.addEnvironment e).2.Alike w (k.addEnvironment e).2 := by
  have sizes (x : Heap) : (x.addEnvironment e).2.environments.size = x.environments.size + 1 := Array.size_push e
  have environment (x : Heap) (env : EnvironmentId) : (x.addEnvironment e).2.environment env =
      if env = x.environments.size then e else x.environment env := by
    change (x.environments.push e)[env]?.getD _ = _
    rw [Array.getElem?_push]
    split <;> rfl
  refine { alike with
    environments := ?_, environment := fun env within => ?_, around := fun env within => ?_
    parameter := fun id i a within found => ?_, newEnvironment := fun env less => ?_, outermost := ?_ }
  · rw [sizes, sizes, alike.environments]
  · rw [environment, environment, alike.environments, alike.environment env within]
  · rw [environment]
    split
    · exact near
    · exact alike.around env within
  · obtain ⟨same, held⟩ := alike.parameter id i a within found
    cases a with
    | slot frame index => exact ⟨same, held⟩
    | binding env name =>
      rw [SameContent, binding_environment, binding_environment] at same
      rw [read_binding, binding_environment] at held
      rw [SameContent, read_binding, binding_environment, binding_environment, environment, environment,
        alike.environments]
      split
      · exact ⟨rfl, near_binding w e near name⟩
      · exact ⟨same, held⟩
  · rw [sizes] at less
    exact alike.newEnvironment env (Nat.le_of_succ_le less)
  · rw [environment, if_neg]
    · exact alike.outermost
    · intro none
      have there := alike.outermost
      rw [none, Heap.environment, Array.getElem?_eq_none (Nat.le_refl _)] at there
      cases there

theorem alike_frame (frame : Array Value) (near : ∀ v ∈ frame, v.Near w) :
    (h.addFrame frame).2.Alike w (k.addFrame frame).2 := by
  have sizes (x : Heap) : (x.addFrame frame).2.frames.size = x.frames.size + 1 := Array.size_push frame
  have frames (x : Heap) (f : FrameId) : (x.addFrame frame).2.frames[f]? =
      if f = x.frames.size then some frame else x.frames[f]? := by
    exact Array.getElem?_push
  refine { alike with
    frames := ?_, frame := fun f within => ?_, slots := fun f slots within found => ?_
    parameter := fun id i a within found => ?_, newFrame := fun f less => ?_, blank := ?_ }
  · rw [sizes, sizes, alike.frames]
  · rw [frames, frames, alike.frames, alike.frame f within]
  · rw [frames] at found
    split at found
    · cases found
      exact near
    · exact alike.slots f slots within found
  · obtain ⟨same, held⟩ := alike.parameter id i a within found
    cases a with
    | binding env name => exact ⟨same, held⟩
    | slot f index =>
      rw [readAlias, slot] at held
      rw [SameContent, readAlias, slot, frames, frames, alike.frames]
      split
      · refine ⟨rfl, ?_⟩
        change Value.Near w (frame[index]?.getD .undefined)
        cases there : frame[index]? with
        | none => trivial
        | some v => exact near v (Array.mem_of_getElem? there)
      · exact ⟨same, held⟩
  · rw [sizes] at less
    exact alike.newFrame f (Nat.le_of_succ_le less)
  · rw [frames, if_neg]
    · exact alike.blank
    · intro none
      have there := alike.blank
      rw [none, Array.getElem?_eq_none (Nat.le_refl _)] at there
      cases there

end

end Heap

end Ecma
