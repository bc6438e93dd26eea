import Mathlib.Logic.Relation
import Ecma.Proofs.Heap.Edit
import Ecma.Proofs.Heap.Keys
import Ecma.Proofs.Property.Table

set_option autoImplicit false

/-!
Operations on the heap are made of small shifts. A shift changes one property, binding or slot; it puts nothing
into the heap but what it is given, redirects no link, and lets names of properties only come behind the others.
-/

namespace Ecma

-- The values that a function holds on to by itself.
def Callable.All (P : Value → Prop) : Callable → Prop
  | .bound target receiver args => P (.object target) ∧ P receiver ∧ ∀ v ∈ args, P v
  | _ => True

def Bindings.All (P : Value → Prop) (b : Bindings) : Prop :=
  Dictionary.All (fun binding : Binding => P binding.value) b

namespace Heap

-- Everything that can be got out of a heap.
structure All (P : Value → Prop) (h : Heap) : Prop where
  table : ∀ id, (h.object id).properties.All P
  callable : ∀ id f, h.callable? id = some f → f.All P
  frame : ∀ (frame : FrameId) slots, h.frames[frame]? = some slots → ∀ v ∈ slots, P v
  bindings : ∀ env b, h.bindings? env = some b → Bindings.All P b
  record : ∀ env id receiver, (h.environment env).record = .object id receiver → P (.object id)

inductive Shift (P : Value → Prop) : Heap → Heap → Prop
  | store (h : Heap) (id : ObjectId) (key : PropertyKey) (d : Descriptor) (held : d.All P)
      (room : h.own? id key = none ∨ ∃ name, key = .name name) : Shift P h (h.store id key d)
  | modify (h : Heap) (id : ObjectId) (key : PropertyKey) (f : Descriptor → Descriptor)
      (keeps : ∀ d : Descriptor, d.All P → (f d).All P) :
      Shift P h (h.modifyProperties id fun t => t.modify key f)
  | erase (h : Heap) (id : ObjectId) (i : Nat) : Shift P h (h.modifyProperties id fun t => t.erase (.index i))
  | append (h : Heap) (id : ObjectId) (more : Dictionary Descriptor) (held : Dictionary.All (Descriptor.All P) more)
      (fresh : ∀ name ∈ more.keys, name ∉ h.ownNames id) (distinct : more.keys.Nodup) :
      Shift P h (h.modifyProperties id fun t => { t with names := t.names ++ more })
  | unmap (h : Heap) (id : ObjectId) (key : PropertyKey) : Shift P h (h.unmap id key)
  | close (h : Heap) (id : ObjectId) : Shift P h (h.preventExtensions id)
  | slot (h : Heap) (frame : FrameId) (index : Nat) (v : Value) (held : P v) : Shift P h (h.setSlot frame index v)
  | bindings (h : Heap) (env : EnvironmentId) (f : Bindings → Bindings)
      (keeps : ∀ b, Bindings.All P b → Bindings.All P (f b)) : Shift P h (h.modifyBindings env f)

abbrev Shifts (P : Value → Prop) : Heap → Heap → Prop :=
  Relation.ReflTransGen (Shift P)

/-! What can be got out of a heap. -/

section

variable {P : Value → Prop} (blank : ∀ v : Value, v.isObject = false → P v) (h : Heap) (all : h.All P)
include blank all

theorem all_slot (frame : FrameId) (index : Nat) : P (h.slot frame index) := by
  rw [slot]
  cases found : h.frames[frame]? with
  | none => exact blank .undefined rfl
  | some slots =>
    change P (slots[index]?.getD .undefined)
    cases there : slots[index]? with
    | none => exact blank .undefined rfl
    | some v => exact all.frame frame slots found v (Array.mem_of_getElem? there)

theorem all_alias (a : Alias) : P (h.readAlias a) := by
  cases a with
  | slot frame index => exact all_slot blank h all frame index
  | binding env name =>
    rw [readAlias]
    cases found : h.bindings? env with
    | none => exact blank .undefined rfl
    | some b =>
      change P ((Bindings.value? b name).getD .undefined)
      rw [Bindings.value?]
      cases there : Dictionary.find? b name with
      | none => exact blank .undefined rfl
      | some binding => exact Dictionary.all_find _ b (all.bindings env b found) name binding there

theorem all_own (id : ObjectId) (key : PropertyKey) (d : Descriptor) (found : h.own? id key = some d) : d.All P := by
  have stored (e : Descriptor) (there : (h.object id).properties.find? key = some e) : e.All P :=
    PropertyTable.all_find _ (all.table id) key e there
  rw [own?] at found
  split at found
  · split at found
    · next v aliased =>
      obtain ⟨e, there, rfl⟩ := Option.map_eq_some_iff.mp found
      obtain ⟨a, _, rfl⟩ := Option.map_eq_some_iff.mp aliased
      exact Descriptor.all_with_value e _ (stored e there) (all_alias blank h all a)
    · exact stored d found
  · next s kind =>
    rcases Option.or_eq_some_iff.mp found with there | ⟨_, character⟩
    · exact stored d there
    · cases key with
      | name _ => cases character
      | index i =>
        obtain ⟨unit, _, rfl⟩ := Option.map_eq_some_iff.mp character
        exact (Descriptor.all_data _ _ _ _).mpr (blank _ rfl)
  · exact stored d found

end

/-! Changes of one object. -/

end Heap

-- What a shift does to an object.
structure Object.Shifted (P : Value → Prop) (o p : Object) : Prop where
  prototype : p.prototype = o.prototype
  callable : p.kind.callable? = o.kind.callable?
  table : o.properties.All P → p.properties.All P
  tidy : o.Tidy → p.Tidy
  names : o.properties.names.keys <+: p.properties.names.keys

namespace Object

section

variable {P : Value → Prop} (o : Object)

theorem shifted_refl : o.Shifted P o := by
  exact ⟨rfl, rfl, fun all => all, fun tidy => tidy, List.prefix_rfl⟩

theorem shifted_trans (p q : Object) (first : o.Shifted P p) (second : p.Shifted P q) : o.Shifted P q := by
  exact ⟨second.prototype.trans first.prototype, second.callable.trans first.callable,
    fun all => second.table (first.table all), fun tidy => second.tidy (first.tidy tidy),
    first.names.trans second.names⟩

-- A change of the properties that puts nothing under a character.
theorem shifted_table (t : PropertyTable) (table : o.properties.All P → t.All P)
    (distinct : o.properties.names.keys.Nodup → t.names.keys.Nodup)
    (clear : ∀ s i, o.kind = .string s → i < Text.unitLength s → o.properties.find? (.index i) = none →
      t.find? (.index i) = none)
    (names : o.properties.names.keys <+: t.names.keys) : o.Shifted P { o with properties := t } := by
  refine ⟨rfl, rfl, table, fun tidy => ⟨distinct tidy.distinct, fun s i kind less => ?_⟩, names⟩
  exact clear s i kind less (tidy.clear s i kind less)

theorem shifted_append (more : Dictionary Descriptor) (held : Dictionary.All (Descriptor.All P) more)
    (fresh : ∀ name ∈ more.keys, name ∉ o.properties.names.keys) (distinct : more.keys.Nodup) :
    o.Shifted P { o with properties := { o.properties with names := o.properties.names ++ more } } := by
  refine shifted_table o _ (fun all => PropertyTable.all_append _ all more held) (fun apart => ?_) (fun _ _ _ _ none => none) ?_
  · exact (PropertyTable.reorders_append _ apart more fresh distinct).distinct
  · change _ <+: Dictionary.keys (o.properties.names ++ more)
    rw [Dictionary.keys_append]
    exact List.prefix_append _ _

theorem shifted_insert (key : PropertyKey) (d : Descriptor) (held : d.All P)
    (room : ∀ s i, o.kind = .string s → key = .index i → ¬ i < Text.unitLength s) :
    o.Shifted P { o with properties := o.properties.insert key d } := by
  refine shifted_table o _ (fun all => PropertyTable.all_insert _ all key d held)
    (fun apart => (PropertyTable.reorders_insert _ apart key d).distinct) (fun s i kind less none => ?_) ?_
  · rw [PropertyTable.find_insert, if_neg fun same => room s i kind same less]
    exact none
  · cases key with
    | index i => exact List.prefix_rfl
    | name s =>
      change _ <+: (o.properties.names.put s d).keys
      rw [Dictionary.keys_put]
      split
      · exact List.prefix_rfl
      · exact List.prefix_append _ _

theorem shifted_modify (key : PropertyKey) (f : Descriptor → Descriptor)
    (keeps : ∀ d : Descriptor, d.All P → (f d).All P) :
    o.Shifted P { o with properties := o.properties.modify key f } := by
  have same : (o.properties.modify key f).names.keys = o.properties.names.keys := by
    cases key with
    | index i => rfl
    | name s => exact Dictionary.keys_modify o.properties.names s f
  refine shifted_table o _ (fun all => PropertyTable.all_modify _ all key f keeps) (fun apart => same ▸ apart)
    (fun s i kind less none => ?_) (same ▸ List.prefix_rfl)
  rw [PropertyTable.find_modify, none]
  split <;> rfl

theorem shifted_erase (i : Nat) : o.Shifted P { o with properties := o.properties.erase (.index i) } := by
  refine shifted_table o _ (fun all => PropertyTable.all_erase _ all _) (fun apart => apart)
    (fun s j kind less none => ?_) List.prefix_rfl
  by_cases same : i = j
  · simp [PropertyTable.erase, PropertyTable.find?, same]
  · rw [PropertyTable.find_erase _ _ _ fun equal => same (PropertyKey.index.inj equal)]
    exact none

-- An index stands for its parameter no longer.
theorem shifted_unmap (i : Nat) : o.Shifted P
    (match o.kind with
      | .arguments mapped => { o with kind := .arguments (mapped.filter fun entry => entry.1 != i) }
      | _ => o) := by
  split
  · next mapped kind =>
    refine ⟨rfl, ?_, fun all => all, fun tidy => ⟨tidy.distinct, nofun⟩, List.prefix_rfl⟩
    rw [kind]
    rfl
  · exact shifted_refl o

theorem shifted_close : o.Shifted P { o with extensible := false } := by
  exact ⟨rfl, rfl, fun all => all, fun tidy => ⟨tidy.distinct, tidy.clear⟩, List.prefix_rfl⟩

end

end Object

namespace Heap

/-! Shifts. -/

section

variable {P : Value → Prop}

-- Nothing is added, and what there is is shifted.
structure Shifted (P : Value → Prop) (h k : Heap) : Prop where
  objects : k.objects.size = h.objects.size
  environments : k.environments.size = h.environments.size
  object : ∀ id, (h.object id).Shifted P (k.object id)
  outer : ∀ env, (k.environment env).outer = (h.environment env).outer
  frame : (∀ (frame : FrameId) slots, h.frames[frame]? = some slots → ∀ v ∈ slots, P v) →
    ∀ (frame : FrameId) slots, k.frames[frame]? = some slots → ∀ v ∈ slots, P v
  bindings : (∀ env b, h.bindings? env = some b → Bindings.All P b) →
    ∀ env b, k.bindings? env = some b → Bindings.All P b
  record : ∀ env id receiver, (k.environment env).record = .object id receiver →
    (h.environment env).record = .object id receiver

theorem shifted_refl (h : Heap) : h.Shifted P h := by
  exact ⟨rfl, rfl, fun id => (h.object id).shifted_refl, fun _ => rfl, fun all => all, fun all => all,
    fun _ _ _ found => found⟩

theorem shifted_trans (h k l : Heap) (first : h.Shifted P k) (second : k.Shifted P l) : h.Shifted P l := by
  exact ⟨second.objects.trans first.objects, second.environments.trans first.environments,
    fun id => (h.object id).shifted_trans _ _ (first.object id) (second.object id),
    fun env => (second.outer env).trans (first.outer env), fun all => second.frame (first.frame all),
    fun all => second.bindings (first.bindings all),
    fun env id receiver found => first.record env id receiver (second.record env id receiver found)⟩

-- A change of one object.
theorem shifted_object (h : Heap) (id : ObjectId) (f : Object → Object)
    (shifted : (h.object id).Shifted P (f (h.object id))) : h.Shifted P (h.modifyObject id f) := by
  refine ⟨size_modify h id f, rfl, fun other => ?_, fun _ => rfl, fun all => all, fun all => all,
    fun _ _ _ found => found⟩
  rw [object_modify]
  by_cases same : id = other ∧ id < h.objects.size
  · rw [if_pos same, ← same.1]
    exact shifted
  · rw [if_neg same]
    exact Object.shifted_refl _

theorem shifted_slot (h : Heap) (frame : FrameId) (index : Nat) (v : Value) (held : P v) :
    h.Shifted P (h.setSlot frame index v) := by
  refine ⟨rfl, rfl, fun id => (h.object id).shifted_refl, fun _ => rfl, fun all other slots found => ?_,
    fun all => all, fun _ _ _ found => found⟩
  rw [setSlot] at found
  dsimp only at found
  rw [Array.getElem?_modify] at found
  split at found
  · obtain ⟨before, there, rfl⟩ := Option.map_eq_some_iff.mp found
    intro v' member
    rcases Array.mem_or_eq_of_mem_setIfInBounds member with old | rfl
    · exact all other before there v' old
    · exact held
  · exact all other slots found

-- Bindings are changed in one environment, if it has any.
theorem modified_environment (h : Heap) (env other : EnvironmentId) (f : Bindings → Bindings) :
    (h.modifyBindings env f).environment other = h.environment other ∨
      ∃ b outer, h.environment other = ⟨.declarative b, outer⟩ ∧
        (h.modifyBindings env f).environment other = ⟨.declarative (f b), outer⟩ := by
  by_cases same : env = other
  · subst same
    cases found : h.environments[env]? with
    | none =>
      refine .inl ?_
      rw [environment, environment, modifyBindings]
      dsimp only
      rw [Array.getElem?_modify, if_pos rfl, found]
      rfl
    | some e =>
      obtain ⟨record, outer⟩ := e
      cases record with
      | declarative b =>
        exact .inr ⟨b, outer, environment_of h env _ found,
          environment_of _ env _ (environment_modify_same h env f b outer found)⟩
      | object id receiver =>
        refine .inl ?_
        rw [environment_of h env _ found, environment_of _ env _ (record_modify h env f id receiver outer found)]
  · rw [environment, environment, environment_modify_other h env other f same]
    exact .inl rfl

theorem shifted_bindings (h : Heap) (env : EnvironmentId) (f : Bindings → Bindings)
    (keeps : ∀ b, Bindings.All P b → Bindings.All P (f b)) : h.Shifted P (h.modifyBindings env f) := by
  refine ⟨rfl, environments_size_modify h env f, fun id => (h.object id).shifted_refl, fun other => ?_, fun all => all,
    fun all other b found => ?_, fun other id receiver found => ?_⟩
  · rcases modified_environment h env other f with same | ⟨b, outer, before, after⟩
    · rw [same]
    · rw [before, after]
  · rcases modified_environment h env other f with same | ⟨b', outer, before, after⟩
    · rw [bindings?, same] at found
      exact all other b found
    · rw [bindings?, after] at found
      cases found
      refine keeps b' (all other b' ?_)
      rw [bindings?, before]
  · rcases modified_environment h env other f with same | ⟨b, outer, _, after⟩
    · rwa [same] at found
    · rw [after] at found
      cases found

theorem shift_shifted (h k : Heap) (shift : Shift P h k) : h.Shifted P k := by
  cases shift with
  | store id key d held room =>
    refine shifted_object h id _ (Object.shifted_insert _ key d held fun s i kind isIndex less => ?_)
    subst isIndex
    rcases room with absent | ⟨name, same⟩
    · have there : (h.own? id (.index i)).isSome = true :=
        (h.own_is_some id (.index i)).mpr (.inr ⟨s, i, kind, rfl, less⟩)
      rw [absent] at there
      cases there
    · cases same
  | modify id key f keeps => exact shifted_object h id _ (Object.shifted_modify _ key f keeps)
  | erase id i => exact shifted_object h id _ (Object.shifted_erase _ i)
  | append id more held fresh distinct =>
    exact shifted_object h id _ (Object.shifted_append _ more held fresh distinct)
  | unmap id key =>
    cases key with
    | index i => exact shifted_object h id _ (Object.shifted_unmap _ i)
    | name s => exact shifted_refl h
  | close id => exact shifted_object h id _ (Object.shifted_close _)
  | slot frame index v held => exact shifted_slot h frame index v held
  | bindings env f keeps => exact shifted_bindings h env f keeps

theorem shifts_shifted (h k : Heap) (shifts : Shifts P h k) : h.Shifted P k := by
  induction shifts with
  | refl => exact shifted_refl h
  | tail _ step hyp => exact shifted_trans h _ _ hyp (shift_shifted _ _ step)

theorem shifted_all (h k : Heap) (shifted : h.Shifted P k) (all : h.All P) : k.All P := by
  refine ⟨fun id => (shifted.object id).table (all.table id), fun id f found => all.callable id f ?_,
    shifted.frame all.frame, shifted.bindings all.bindings, fun env id receiver found =>
      all.record env id receiver (shifted.record env id receiver found)⟩
  rw [callable?, kind, (shifted.object id).callable] at found
  exact found

end

end Heap

end Ecma
