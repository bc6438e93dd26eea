import Ecma.Proofs.Heap.Access
import Ecma.Proofs.Property.Rules
import Ecma.Proofs.Property.Table
import Ecma.Realm.State

set_option autoImplicit false

/-!
Properties that stay. A heap keeps another one if what is not configurable there is still there, and if no
object that takes no further properties has got one. Whether it does can be decided object by object, as
long as an index that stands for a parameter is stored as a value that can be written.
-/

namespace Ecma

namespace ObjectKind

def isArray : ObjectKind → Bool
  | .array => true
  | _ => false

def mapped : ObjectKind → List (Nat × Alias)
  | .arguments mapped => mapped
  | _ => []

end ObjectKind

namespace Object

-- The own property as far as the object alone tells it; a parameter may have another value.
def own? (o : Object) (key : PropertyKey) : Option Descriptor :=
  match o.kind with
  | .string s => (o.properties.find? key).or (Heap.character? s key)
  | _ => o.properties.find? key

-- An array has a permanent length.
def Lengthy (o : Object) : Prop :=
  o.kind.isArray = true → ∃ x w e, o.properties.find? .length = some (.data (.number x) w e false)

-- An index that stands for a parameter is stored as a value that can be written.
def Writable (o : Object) : Prop :=
  ∀ i a, o.kind.mapped.lookup i = some a → ∃ v e c, o.properties.find? (.index i) = some (.data v true e c)

-- The given keys are not looked at.
structure Keeps (o p : Object) (loose overridden : PropertyKey → Prop) : Prop where
  fixed : ∀ key d, ¬ loose key → ¬ overridden key → o.own? key = some d → d.configurable = false →
    ∃ e, p.own? key = some e ∧ d.Keeps e
  closed : o.extensible = false → p.extensible = false ∧
    ∀ key, ¬ overridden key → o.own? key = none → p.own? key = none

section

variable (o : Object) (loose overridden : PropertyKey → Prop)

theorem keeps_refl : o.Keeps o loose overridden := by
  exact ⟨fun _ d _ _ found fixed => ⟨d, found, d.keeps_refl fixed⟩, fun closed => ⟨closed, fun _ _ absent => absent⟩⟩

-- The properties are what they were, except that some of them may have changed as they may.
theorem keeps_modify (key : PropertyKey) (f : Descriptor → Descriptor)
    (may : ∀ d, ¬ loose key → o.properties.find? key = some d → d.configurable = false → d.Keeps (f d)) :
    o.Keeps { o with properties := o.properties.modify key f } loose overridden := by
  have found (other : PropertyKey) : ({ o with properties := o.properties.modify key f } : Object).own? other =
      if key = other then
        match o.properties.find? other with
        | some d => some (f d)
        | none => o.own? other
      else o.own? other := by
    by_cases same : key = other
    · subst same
      simp only [own?, PropertyTable.find_modify, if_pos]
      cases o.properties.find? key <;> cases o.kind <;> rfl
    · simp only [own?, PropertyTable.find_modify, if_neg same]
  refine ⟨fun other d loosened _ there fixed => ?_, fun closed => ⟨closed, fun other _ absent => ?_⟩⟩
  · rw [found]
    by_cases same : key = other
    · subst same
      rw [if_pos rfl]
      cases stored : o.properties.find? key with
      | none => exact ⟨d, there, d.keeps_refl fixed⟩
      | some old =>
        have whole : o.own? key = some old := by
          simp only [own?, stored, Option.some_or]
          cases o.kind <;> rfl
        cases whole.symm.trans there
        exact ⟨f d, rfl, may d loosened stored fixed⟩
    · rw [if_neg same]
      exact ⟨d, there, d.keeps_refl fixed⟩
  · rw [found]
    by_cases same : key = other
    · subst same
      rw [if_pos rfl]
      cases stored : o.properties.find? key with
      | none => exact absent
      | some old =>
        simp only [own?, stored, Option.some_or] at absent
        cases kind : o.kind <;> simp [kind] at absent
    · rw [if_neg same]
      exact absent

theorem own_insert (key other : PropertyKey) (d : Descriptor) :
    ({ o with properties := o.properties.insert key d } : Object).own? other =
      if key = other then some d else o.own? other := by
  by_cases same : key = other
  · simp only [own?, PropertyTable.find_insert, if_pos same, Option.some_or]
    cases o.kind <;> rfl
  · simp only [own?, PropertyTable.find_insert, if_neg same]

theorem keeps_insert (key : PropertyKey) (d : Descriptor)
    (new : o.own? key = none ∧ o.extensible = true ∨ overridden key) :
    o.Keeps { o with properties := o.properties.insert key d } loose overridden := by
  refine ⟨fun other e _ allowed there fixed => ?_, fun closed => ⟨closed, fun other allowed absent => ?_⟩⟩
  · rw [own_insert, if_neg]
    · exact ⟨e, there, e.keeps_refl fixed⟩
    · intro same
      subst same
      rcases new with ⟨absent, _⟩ | skipped
      · rw [absent] at there
        cases there
      · exact allowed skipped
  · rw [own_insert, if_neg]
    · exact absent
    · intro same
      subst same
      rcases new with ⟨_, open'⟩ | skipped
      · rw [closed] at open'
        cases open'
      · exact allowed skipped

theorem keeps_erase (key : PropertyKey) (d : Descriptor) (there : o.own? key = some d)
    (free : d.configurable = true) :
    o.Keeps { o with properties := o.properties.erase key } loose overridden := by
  have other (key' : PropertyKey) (distinct : key ≠ key') :
      ({ o with properties := o.properties.erase key } : Object).own? key' = o.own? key' := by
    simp only [own?, PropertyTable.find_erase _ _ _ distinct]
  refine ⟨fun key' e _ _ found fixed => ?_, fun closed => ⟨closed, fun key' _ absent => ?_⟩⟩
  · rw [other]
    · exact ⟨e, found, e.keeps_refl fixed⟩
    · intro same
      subst same
      cases there.symm.trans found
      rw [free] at fixed
      cases fixed
  · rw [other]
    · exact absent
    · intro same
      subst same
      rw [there] at absent
      cases absent

-- Names may be appended to an object that takes them.
theorem keeps_append (more : Dictionary Descriptor) (opened : o.extensible = true) :
    o.Keeps { o with properties := { o.properties with names := o.properties.names ++ more } } loose
      overridden := by
  refine ⟨fun key d _ _ there fixed => ⟨d, ?_, d.keeps_refl fixed⟩, fun closed => ?_⟩
  · cases key with
    | index i => exact there
    | name s =>
      have found : (o.properties.find? (.name s)) = some d := by
        simp only [own?, Heap.character?, Option.or_none] at there
        cases kind : o.kind <;> simpa [kind] using there
      have kept : ({ o.properties with names := o.properties.names ++ more } : PropertyTable).find? (.name s) =
          some d := by
        change Dictionary.find? (o.properties.names ++ more) s = some d
        rw [PropertyTable.find_append]
        change (o.properties.find? (.name s)).or _ = some d
        rw [found]
        rfl
      simp only [own?, kept, Option.some_or]
      cases o.kind <;> rfl
  · rw [opened] at closed
    cases closed

theorem keeps_closed : o.Keeps { o with extensible := false } loose overridden := by
  exact ⟨fun _ d _ _ there fixed => ⟨d, there, d.keeps_refl fixed⟩, fun _ => ⟨rfl, fun _ _ absent => absent⟩⟩

-- What an arguments object maps is no part of its properties.
theorem own_mapped (mapped mapped' : List (Nat × Alias)) (kind : o.kind = .arguments mapped)
    (key : PropertyKey) : ({ o with kind := .arguments mapped' } : Object).own? key = o.own? key := by
  simp only [own?, kind]

theorem keeps_mapped (mapped mapped' : List (Nat × Alias)) (kind : o.kind = .arguments mapped) :
    o.Keeps { o with kind := .arguments mapped' } loose overridden := by
  refine ⟨fun key d _ _ there fixed => ⟨d, ?_, d.keeps_refl fixed⟩, fun closed => ⟨closed, fun key _ absent => ?_⟩⟩
  · rw [own_mapped o mapped mapped' kind, there]
  · rw [own_mapped o mapped mapped' kind, absent]

end

theorem keeps_trans (o p q : Object) (loose overridden : PropertyKey → Prop)
    (first : o.Keeps p loose overridden) (second : p.Keeps q loose overridden) :
    o.Keeps q loose overridden := by
  refine ⟨fun key d loosened allowed there fixed => ?_, fun closed => ?_⟩
  · obtain ⟨e, between, kept⟩ := first.fixed key d loosened allowed there fixed
    obtain ⟨f, last, kept'⟩ := second.fixed key e loosened allowed between kept.configurable
    exact ⟨f, last, d.keeps_trans e f kept kept'⟩
  · have between := first.closed closed
    have last := second.closed between.1
    exact ⟨last.1, fun key allowed absent => last.2 key allowed (between.2 key allowed absent)⟩

end Object

namespace Heap

-- The length of `Array.prototype` can be deleted, and then no array rule holds for it.
def Loose (id : ObjectId) (key : PropertyKey) : Prop :=
  id = Intrinsic.arrayPrototype ∧ key = .length

-- The number of captured lines is stored over whatever is there.
def Overridden (id : ObjectId) (key : PropertyKey) : Prop :=
  id = Intrinsic.errorConstructor ∧ key = .name "stackTraceLimit"

structure Keeps (h k : Heap) : Prop where
  fixed : ∀ id key d, ¬ Loose id key → ¬ Overridden id key → h.own? id key = some d →
    d.configurable = false → ∃ e, k.own? id key = some e ∧ d.Keeps e
  closed : ∀ id, (h.object id).extensible = false → (k.object id).extensible = false ∧
    ∀ key, ¬ Overridden id key → h.own? id key = none → k.own? id key = none

theorem keeps_refl (h : Heap) : h.Keeps h := by
  exact ⟨fun _ _ d _ _ found fixed => ⟨d, found, d.keeps_refl fixed⟩,
    fun _ closed => ⟨closed, fun _ _ absent => absent⟩⟩

theorem keeps_trans (h k l : Heap) (first : h.Keeps k) (second : k.Keeps l) : h.Keeps l := by
  refine ⟨fun id key d loosened allowed there fixed => ?_, fun id closed => ?_⟩
  · obtain ⟨e, between, kept⟩ := first.fixed id key d loosened allowed there fixed
    obtain ⟨f, last, kept'⟩ := second.fixed id key e loosened allowed between kept.configurable
    exact ⟨f, last, d.keeps_trans e f kept kept'⟩
  · have between := first.closed id closed
    have last := second.closed id between.1
    exact ⟨last.1, fun key allowed absent => last.2 key allowed (between.2 key allowed absent)⟩

structure Sound (h : Heap) : Prop where
  lengthy : ∀ id, id ≠ Intrinsic.arrayPrototype → (h.object id).Lengthy
  writable : ∀ id, (h.object id).Writable

/-! What an object alone tells, and what it is in its heap. -/

section

variable (h : Heap) (id : ObjectId) (key : PropertyKey)

theorem own_object : h.own? id key = (h.object id).own? key ∨
    ∃ i a, key = .index i ∧ (h.object id).kind.mapped.lookup i = some a ∧
      h.own? id key = ((h.object id).properties.find? key).map (·.withValue (h.readAlias a)) ∧
      (h.object id).own? key = (h.object id).properties.find? key := by
  rw [own?]
  cases kind : (h.object id).kind with
  | arguments mapped =>
    simp only [aliased?, alias?, Heap.kind, kind, Object.own?]
    cases key with
    | name s => exact .inl rfl
    | index i =>
      dsimp only
      cases found : mapped.lookup i with
      | none => exact .inl rfl
      | some a => exact .inr ⟨i, a, rfl, found, rfl, trivial⟩
  | _ => simp [Object.own?, kind]

theorem own_none : h.own? id key = none ↔ (h.object id).own? key = none := by
  rcases own_object h id key with same | ⟨_, _, _, _, same, own⟩
  · rw [same]
  · rw [same, own, Option.map_eq_none_iff]

-- In its heap the property differs from the object's own account in the value alone, and then it can be
-- written.
theorem own_some (writable : (h.object id).Writable) (d : Descriptor) (there : h.own? id key = some d) :
    ∃ stored, (h.object id).own? key = some stored ∧
      (d = stored ∨ stored.writable = true ∧ ∃ v, d = stored.withValue v) := by
  rcases own_object h id key with same | ⟨i, a, isIndex, found, same, own⟩
  · exact ⟨d, same ▸ there, .inl rfl⟩
  · subst isIndex
    obtain ⟨v, e, c, stored⟩ := writable i a found
    rw [stored] at same own
    cases same.symm.trans there
    exact ⟨_, own, .inr ⟨rfl, _, rfl⟩⟩

theorem own_of_object (writable : (h.object id).Writable) (stored : Descriptor)
    (there : (h.object id).own? key = some stored) :
    ∃ d, h.own? id key = some d ∧ (d = stored ∨ stored.writable = true ∧ ∃ v, d = stored.withValue v) := by
  cases found : h.own? id key with
  | none =>
    rw [own_none, there] at found
    cases found
  | some d =>
    obtain ⟨other, own, same⟩ := own_some h id key writable d found
    cases own.symm.trans there
    exact ⟨d, rfl, same⟩

end

theorem keeps_value (d stored : Descriptor) (fixed : stored.configurable = false)
    (same : d = stored ∨ stored.writable = true ∧ ∃ v, d = stored.withValue v) : stored.Keeps d := by
  rcases same with same | ⟨writable, v, same⟩
  · rw [same]
    exact stored.keeps_refl fixed
  · rw [same]
    exact stored.keeps_with_value v fixed writable

theorem value_keeps (d stored : Descriptor) (fixed : stored.configurable = false)
    (same : d = stored ∨ stored.writable = true ∧ ∃ v, d = stored.withValue v) : d.Keeps stored := by
  rcases same with same | ⟨writable, v, same⟩
  · rw [same]
    exact stored.keeps_refl fixed
  · rw [same]
    cases stored with
    | data old w e c =>
      cases fixed
      cases writable
      exact Descriptor.keeps_writable _ _ _ _
    | accessor g s e c => cases writable

-- A heap keeps another one if each object does.
theorem keeps_of_objects (h k : Heap) (sound : h.Sound) (after : k.Sound)
    (each : ∀ id, (h.object id).Keeps (k.object id) (Loose id) (Overridden id)) : h.Keeps k := by
  refine ⟨fun id key d loosened allowed there fixed => ?_, fun id closed => ?_⟩
  · obtain ⟨stored, own, same⟩ := own_some h id key (sound.writable id) d there
    have fixedStored : stored.configurable = false := by
      rcases same with same | ⟨_, v, same⟩
      · rw [← same]
        exact fixed
      · rw [same, Descriptor.with_value_configurable] at fixed
        exact fixed
    obtain ⟨e, found, kept⟩ := (each id).fixed key stored loosened allowed own fixedStored
    obtain ⟨f, now, same'⟩ := own_of_object k id key (after.writable id) e found
    refine ⟨f, now, ?_⟩
    exact d.keeps_trans stored f (value_keeps d stored fixedStored same)
      (stored.keeps_trans e f kept (keeps_value f e kept.configurable same'))
  · have between := (each id).closed closed
    refine ⟨between.1, fun key allowed absent => ?_⟩
    rw [own_none] at absent ⊢
    exact between.2 key allowed absent

end Heap

end Ecma
