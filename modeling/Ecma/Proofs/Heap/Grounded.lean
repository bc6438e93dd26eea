import Ecma.Proofs.Heap.Pieces
import Ecma.Proofs.Program.Plain

set_option autoImplicit false

/-!
Heaps in which everything leads to what there is: values to objects that have been made, and links to what was
made before their holder. What keeps a heap so leaves the names of properties in their order.
-/

namespace Ecma

open Ecma.Program

/-! How far the numbers of objects and environments go. -/

structure Extent where
  objects : Nat
  environments : Nat

namespace Extent

structure Upto (w w' : Extent) : Prop where
  objects : w.objects ≤ w'.objects
  environments : w.environments ≤ w'.environments

def Has (w : Extent) (id : ObjectId) : Prop :=
  id < w.objects

def Encloses (w : Extent) (env : EnvironmentId) : Prop :=
  env < w.environments

variable {w w' w'' : Extent}

theorem Upto.refl (w : Extent) : w.Upto w := by
  exact ⟨Nat.le_refl _, Nat.le_refl _⟩

theorem Upto.trans (first : w.Upto w') (second : w'.Upto w'') : w.Upto w'' := by
  exact ⟨Nat.le_trans first.objects second.objects, Nat.le_trans first.environments second.environments⟩

theorem Has.more {id : ObjectId} (has : w.Has id) (upto : w.Upto w') : w'.Has id := by
  exact Nat.lt_of_lt_of_le has upto.objects

theorem Encloses.more {env : EnvironmentId} (encloses : w.Encloses env) (upto : w.Upto w') : w'.Encloses env := by
  exact Nat.lt_of_lt_of_le encloses upto.environments

end Extent

section

variable {w w' : Extent}

def Value.Within (w : Extent) : Value → Prop
  | .object id => w.Has id
  | _ => True

theorem within_primitive (w : Extent) (v : Value) (primitive : v.isObject = false) : v.Within w := by
  cases v with
  | object id => cases primitive
  | _ => trivial

theorem Value.Within.more {v : Value} (within : v.Within w) (upto : w.Upto w') : v.Within w' := by
  cases v with
  | object id => exact Extent.Has.more within upto
  | _ => trivial

def Callable.Within (w : Extent) : Callable → Prop
  | .script routine scope => routine.Plain ∧ w.Encloses scope
  | .bound target receiver args => w.Has target ∧ receiver.Within w ∧ ∀ v ∈ args, v.Within w
  | _ => True

theorem Callable.Within.more {f : Callable} (within : f.Within w) (upto : w.Upto w') : f.Within w' := by
  cases f with
  | script routine scope => exact ⟨within.1, within.2.more upto⟩
  | bound target receiver args =>
    exact ⟨within.1.more upto, within.2.1.more upto, fun v member => (within.2.2 v member).more upto⟩
  | _ => trivial

end

/-! Grounded heaps. -/

namespace Heap

def extent (h : Heap) : Extent :=
  ⟨h.objects.size, h.environments.size⟩

structure Grounded (h : Heap) : Prop where
  all : h.All (Value.Within h.extent)
  scripts : ∀ id routine scope, h.callable? id = some (.script routine scope) → routine.Plain ∧ h.extent.Encloses scope
  prototype : ∀ id link, (h.object id).prototype = some link → link < id
  target : ∀ id target receiver args, h.callable? id = some (.bound target receiver args) → target < id
  outer : ∀ env link, (h.environment env).outer = some link → link < env
  tidy : ∀ id, (h.object id).Tidy
  intrinsics : 16 < h.objects.size
  global : 0 < h.environments.size

-- Names that stay keep their places, on all objects.
def Ages (h k : Heap) : Prop :=
  ∀ id < h.objects.size, Later (h.ownNames id) (k.ownNames id)

-- A change to a grounded heap in which names are as old as before.
structure Orderly (h k : Heap) : Prop where
  grounded : k.Grounded
  ages : h.Ages k

section

variable {P Q : Value → Prop} (imp : ∀ v, P v → Q v)
include imp

theorem table_imp (t : PropertyTable) (all : t.All P) : t.All Q := by
  exact ⟨fun i d found => Descriptor.all_imp d imp (all.elements i d found),
    fun entry member => Descriptor.all_imp entry.2 imp (all.names entry member)⟩

theorem all_imp (h : Heap) (all : h.All P) : h.All Q := by
  refine ⟨fun id => table_imp imp _ (all.table id), fun id f found => ?_,
    fun frame slots found v member => imp v (all.frame frame slots found v member),
    fun env b found entry member => imp _ (all.bindings env b found entry member),
    fun env id receiver found => imp _ (all.record env id receiver found)⟩
  have held := all.callable id f found
  cases f with
  | bound target receiver args => exact ⟨imp _ held.1, imp _ held.2.1, fun v member => imp v (held.2.2 v member)⟩
  | _ => trivial

end

section

variable (h : Heap) (grounded : h.Grounded)
include grounded

theorem callable_within (id : ObjectId) (f : Callable) (found : h.callable? id = some f) : f.Within h.extent := by
  have held := grounded.all.callable id f found
  cases f with
  | script routine scope => exact grounded.scripts id routine scope found
  | bound target receiver args => exact held
  | _ => trivial

omit grounded in
theorem ages_refl : h.Ages h := by
  exact fun id _ => later_refl _

theorem orderly_refl : h.Orderly h := by
  exact ⟨grounded, ages_refl h⟩

/-! What is found in a grounded heap. -/

theorem unbind_from_within (steps : Nat) (f : ObjectId) (receiver : Value) (args : List Value) (has : h.extent.Has f)
    (this : receiver.Within h.extent) (all : ∀ v ∈ args, v.Within h.extent) :
    h.extent.Has (h.unbindFrom steps f receiver args).1 ∧ (h.unbindFrom steps f receiver args).2.1.Within h.extent ∧
      ∀ v ∈ (h.unbindFrom steps f receiver args).2.2, v.Within h.extent := by
  induction steps generalizing f receiver args with
  | zero => exact ⟨has, this, all⟩
  | succ steps hyp =>
    rw [unbindFrom]
    split
    · next target receiver' args' found =>
      obtain ⟨has', this', all'⟩ := callable_within h grounded f _ found
      exact hyp target receiver' _ has' this' fun v member => (List.mem_append.mp member).elim (all' v) (all v)
    · exact ⟨has, this, all⟩

omit grounded in
theorem skip_encloses (links : Nat) (env : EnvironmentId) (w : Extent) (encloses : w.Encloses env) :
    w.Encloses (h.skip links env) := by
  induction links generalizing env with
  | zero => exact encloses
  | succ links hyp =>
    rw [skip]
    split
    · next link found => exact hyp link (Nat.lt_trans (outer_less h env link found) encloses)
    · exact encloses

omit grounded in
theorem find_binding_encloses (env link : EnvironmentId) (name : String) (w : Extent) (encloses : w.Encloses env)
    (found : h.findBinding env name = some link) : w.Encloses link := by
  induction env using Nat.strongRecOn with
  | _ env hyp =>
    rw [find_binding_step] at found
    split at found
    · cases found
      exact encloses
    · obtain ⟨outer, there, rest⟩ := Option.bind_eq_some_iff.mp found
      have less := outer_less h env outer there
      exact hyp outer less (Nat.lt_trans less encloses) rest

/-! Changes of what there is. -/

theorem orderly_shifts (k : Heap) (shifts : Shifts (Value.Within h.extent) h k) : h.Orderly k := by
  have shifted := shifts_shifted h k shifts
  have extent : k.extent = h.extent := by
    rw [Heap.extent, Heap.extent, shifted.objects, shifted.environments]
  have callable (id : ObjectId) : k.callable? id = h.callable? id := by
    rw [callable?, callable?, kind, kind, (shifted.object id).callable]
  refine ⟨⟨extent ▸ shifted_all h k shifted grounded.all, ?_, ?_, ?_, ?_, ?_, ?_, ?_⟩, fun id _ => ?_⟩
  · intro id routine scope found
    rw [extent]
    exact grounded.scripts id routine scope (callable id ▸ found)
  · intro id link found
    exact grounded.prototype id link ((shifted.object id).prototype ▸ found)
  · intro id target receiver args found
    exact grounded.target id target receiver args (callable id ▸ found)
  · intro env link found
    exact grounded.outer env link (shifted.outer env ▸ found)
  · exact fun id => (shifted.object id).tidy (grounded.tidy id)
  · exact shifted.objects ▸ grounded.intrinsics
  · exact shifted.environments ▸ grounded.global
  · obtain ⟨more, names⟩ := (shifted.object id).names
    have distinct := ((shifted.object id).tidy (grounded.tidy id)).distinct
    rw [← names] at distinct
    rw [ownNames, ownNames, ← names]
    exact later_append _ more fun name new old => (List.nodup_append.mp distinct).2.2 name old name new rfl

theorem orderly_shift (k : Heap) (shift : Shift (Value.Within h.extent) h k) : h.Orderly k := by
  exact orderly_shifts h grounded k (.single shift)

theorem orderly_define (id : ObjectId) (key : PropertyKey) (d : Definition) (held : d.All (Value.Within h.extent)) :
    h.Orderly (h.define id key d).2 := by
  exact orderly_shifts h grounded _ (define_shifts (within_primitive h.extent) h grounded.all id key d held)

theorem orderly_length (id : ObjectId) (d : Definition) (length : Nat) (old : Nat × Bool) :
    h.Orderly (h.defineLength id d length old).2 := by
  exact orderly_shifts h grounded _ (length_shifts (within_primitive h.extent) h id d length old)

-- Only here a name goes.
theorem orderly_erase (id : ObjectId) (name : String) :
    h.Orderly (h.modifyProperties id fun t => t.erase (.name name)) := by
  have objects : (h.modifyProperties id fun t => t.erase (.name name)).objects.size = h.objects.size := size_modify h id _
  have extent : (h.modifyProperties id fun t => t.erase (.name name)).extent = h.extent := by
    rw [Heap.extent, Heap.extent, objects]
    rfl
  have object (other : ObjectId) : (h.modifyProperties id fun t => t.erase (.name name)).object other = h.object other ∨
      (h.modifyProperties id fun t => t.erase (.name name)).object other =
        { h.object other with properties := (h.object other).properties.erase (.name name) } := by
    rw [modifyProperties, object_modify]
    split
    · exact .inr rfl
    · exact .inl rfl
  have callable (other : ObjectId) :
      (h.modifyProperties id fun t => t.erase (.name name)).callable? other = h.callable? other := by
    rw [callable?, callable?, kind, kind]
    rcases object other with same | erased
    · rw [same]
    · rw [erased]
  refine ⟨⟨?_, ?_, ?_, ?_, grounded.outer, ?_, objects.symm ▸ grounded.intrinsics, grounded.global⟩, fun other _ => ?_⟩
  · rw [extent]
    refine ⟨fun other => ?_, fun other f found => grounded.all.callable other f (callable other ▸ found),
      grounded.all.frame, grounded.all.bindings, grounded.all.record⟩
    rcases object other with same | erased
    · rw [same]
      exact grounded.all.table other
    · rw [erased]
      exact PropertyTable.all_erase _ (grounded.all.table other) (.name name)
  · intro other routine scope found
    rw [extent]
    exact grounded.scripts other routine scope (callable other ▸ found)
  · intro other link found
    refine grounded.prototype other link ?_
    rcases object other with same | erased
    · rwa [same] at found
    · rwa [erased] at found
  · exact fun other target receiver args found => grounded.target other target receiver args (callable other ▸ found)
  · intro other
    rcases object other with same | erased
    · rw [same]
      exact grounded.tidy other
    · rw [erased]
      have tidy := grounded.tidy other
      refine ⟨(PropertyTable.reorders_erase _ tidy.distinct (.name name)).distinct, fun s i kind less => ?_⟩
      exact tidy.clear s i kind less
  · rw [ownNames, ownNames]
    rcases object other with same | erased
    · rw [same]
      exact later_refl _
    · rw [erased]
      exact (PropertyTable.reorders_erase _ (grounded.tidy other).distinct (.name name)).later

theorem orderly_delete (id : ObjectId) (key : PropertyKey) : h.Orderly (h.delete id key).2 := by
  cases key with
  | index i => exact orderly_shifts h grounded _ (delete_index_shifts h id i)
  | name name =>
    rcases delete_name_is h id name with same | erased
    · rw [same]
      exact orderly_refl h grounded
    · rw [erased]
      exact orderly_erase h grounded id name

/-! New objects, environments and frames. -/

omit grounded in
theorem object_upto (o : Object) : h.extent.Upto (h.addObject o).2.extent := by
  exact ⟨(extends_object h o).objects, Nat.le_refl _⟩

omit grounded in
theorem environment_upto (e : Environment) : h.extent.Upto (h.addEnvironment e).2.extent := by
  exact ⟨Nat.le_refl _, (extends_environment h e).environments⟩

-- What a new object has to be like.
structure Admits (w : Extent) (o : Object) : Prop where
  prototype : ∀ link, o.prototype = some link → w.Has link
  callable : ∀ f, o.kind.callable? = some f → f.Within w
  table : o.properties.All (Value.Within w)
  tidy : o.Tidy

omit grounded in
theorem admits_names (w : Extent) (kind : ObjectKind) (prototype : Option ObjectId) (names : Dictionary Descriptor)
    (link : ∀ link, prototype = some link → w.Has link) (callable : ∀ f, kind.callable? = some f → f.Within w)
    (held : Dictionary.All (Descriptor.All (Value.Within w)) names) (distinct : names.keys.Nodup) :
    Admits w { kind := kind, prototype := prototype, properties := .ofNames names } := by
  exact ⟨link, callable, PropertyTable.all_of_names names held, distinct, fun _ _ _ _ => Std.TreeMap.getElem?_emptyc⟩

theorem orderly_object (o : Object) (admits : Admits h.extent o) : h.Orderly (h.addObject o).2 := by
  have upto := object_upto h o
  have more (v : Value) (within : v.Within h.extent) : v.Within (h.addObject o).2.extent := within.more upto
  have old := all_imp more h grounded.all
  have object (id : ObjectId) : (h.addObject o).2.object id = h.object id ∨
      id = h.objects.size ∧ (h.addObject o).2.object id = o := by
    rw [object_add]
    split
    · next new => exact .inr ⟨new, rfl⟩
    · exact .inl rfl
  have callable (id : ObjectId) (f : Callable) (found : (h.addObject o).2.callable? id = some f) :
      h.callable? id = some f ∨ id = h.objects.size ∧ f.Within h.extent := by
    rw [callable?, kind] at found
    rcases object id with same | ⟨new, is⟩
    · rw [same] at found
      exact .inl found
    · rw [is] at found
      exact .inr ⟨new, admits.callable f found⟩
  refine ⟨⟨⟨fun id => ?_, fun id f found => ?_, old.frame, old.bindings, old.record⟩, ?_, ?_, ?_, grounded.outer, ?_, ?_,
    grounded.global⟩, fun id known => ?_⟩
  · rcases object id with same | ⟨_, is⟩
    · rw [same]
      exact old.table id
    · rw [is]
      exact table_imp more _ admits.table
  · rcases callable id f found with before | ⟨_, within⟩
    · exact old.callable id f before
    · cases f with
      | bound target receiver args =>
        exact ⟨more (.object target) within.1, more _ within.2.1, fun v member => more v (within.2.2 v member)⟩
      | _ => trivial
  · intro id routine scope found
    rcases callable id _ found with before | ⟨_, within⟩
    · exact grounded.scripts id routine scope before
    · exact within
  · intro id link found
    rcases object id with same | ⟨new, is⟩
    · exact grounded.prototype id link (same ▸ found)
    · rw [is] at found
      exact new ▸ admits.prototype link found
  · intro id target receiver args found
    rcases callable id _ found with before | ⟨new, within⟩
    · exact grounded.target id target receiver args before
    · exact new ▸ within.1
  · intro id
    rcases object id with same | ⟨_, is⟩
    · rw [same]
      exact grounded.tidy id
    · rw [is]
      exact admits.tidy
  · exact Nat.lt_of_lt_of_le grounded.intrinsics upto.objects
  · rw [ownNames, ownNames, object_add_known h o id known]
    exact later_refl _

-- What a new environment has to be like.
structure Accepts (w : Extent) (e : Environment) : Prop where
  outer : ∀ link, e.outer = some link → w.Encloses link
  bindings : ∀ b, e.record = .declarative b → Bindings.All (Value.Within w) b
  record : ∀ id receiver, e.record = .object id receiver → w.Has id

theorem orderly_environment (e : Environment) (accepts : Accepts h.extent e) : h.Orderly (h.addEnvironment e).2 := by
  have upto := environment_upto h e
  have more (v : Value) (within : v.Within h.extent) : v.Within (h.addEnvironment e).2.extent := within.more upto
  have old := all_imp more h grounded.all
  have environment (env : EnvironmentId) : (h.addEnvironment e).2.environment env = h.environment env ∨
      env = h.environments.size ∧ (h.addEnvironment e).2.environment env = e := by
    by_cases new : env = h.environments.size
    · subst new
      refine .inr ⟨rfl, ?_⟩
      change (h.environments.push e)[h.environments.size]?.getD _ = e
      rw [Array.getElem?_push_size]
      rfl
    · refine .inl ?_
      change (h.environments.push e)[env]?.getD _ = _
      rw [Array.getElem?_push, if_neg new, Heap.environment]
  refine ⟨⟨⟨old.table, old.callable, old.frame, fun env b found => ?_, fun env id receiver found => ?_⟩, ?_,
    grounded.prototype, grounded.target, ?_, grounded.tidy, grounded.intrinsics, ?_⟩, fun id _ => later_refl _⟩
  · rw [bindings?] at found
    rcases environment env with same | ⟨_, is⟩
    · rw [same] at found
      exact old.bindings env b found
    · rw [is] at found
      split at found
      · next b' record =>
        cases found
        exact fun entry member => more _ (accepts.bindings b record entry member)
      · cases found
  · rcases environment env with same | ⟨_, is⟩
    · exact old.record env id receiver (same ▸ found)
    · rw [is] at found
      exact more (.object id) (accepts.record id receiver found)
  · intro id routine scope found
    obtain ⟨plain, encloses⟩ := grounded.scripts id routine scope found
    exact ⟨plain, encloses.more upto⟩
  · intro env link found
    rcases environment env with same | ⟨new, is⟩
    · exact grounded.outer env link (same ▸ found)
    · rw [is] at found
      exact new ▸ accepts.outer link found
  · exact Nat.lt_of_lt_of_le grounded.global upto.environments

theorem orderly_frame (frame : Array Value) (held : ∀ v ∈ frame, v.Within h.extent) :
    h.Orderly (h.addFrame frame).2 := by
  refine ⟨⟨⟨grounded.all.table, grounded.all.callable, fun id slots found => ?_, grounded.all.bindings,
    grounded.all.record⟩, grounded.scripts, grounded.prototype, grounded.target, grounded.outer, grounded.tidy,
    grounded.intrinsics, grounded.global⟩, fun id _ => later_refl _⟩
  change (h.frames.push frame)[id]? = some slots at found
  rw [Array.getElem?_push] at found
  split at found
  · cases found
    exact held
  · exact grounded.all.frame id slots found

end

end Heap

end Ecma
