import Ecma.Proofs.Heap.Edit

set_option autoImplicit false

/-!
The places that parameters live in: slots of frames and bindings of declarative environments. What is
written to one of them is read from it and from no other.
-/

namespace Ecma.Heap

-- A place that is there and takes what is written to it.
def Live (h : Heap) : Alias → Prop
  | .slot frame index => ∃ slots, h.frames[frame]? = some slots ∧ index < slots.size
  | .binding env name => ∃ b, h.binding? env name = some b ∧ b.state.isMutable = true

/-- Elements of arguments objects stand for places that take what is written to them, each for one of its own. -/
structure Tied (h : Heap) : Prop where
  live : ∀ id i a, h.alias? id (.index i) = some a → h.Live a
  own : ∀ id id' i i' a, h.alias? id (.index i) = some a → h.alias? id' (.index i') = some a → id = id' ∧ i = i'

-- The frames and the environments are the same.
def SameStores (h k : Heap) : Prop :=
  k.frames = h.frames ∧ k.environments = h.environments

section

variable (h k : Heap) (a b : Alias) (v : Value)

theorem same_binding (same : h.SameStores k) (env : EnvironmentId) (name : String) :
    k.binding? env name = h.binding? env name := by
  rw [binding?, binding?, bindings?, bindings?, environment, environment, same.2]

theorem same_read (same : h.SameStores k) : k.readAlias a = h.readAlias a := by
  cases a with
  | slot frame index =>
    rw [readAlias, readAlias, slot, slot, same.1]
  | binding env name => rw [read_binding, read_binding, same_binding h k same]

theorem same_live (same : h.SameStores k) (live : h.Live a) : k.Live a := by
  cases a with
  | slot frame index =>
    rw [Live, same.1]
    exact live
  | binding env name =>
    rw [Live, same_binding h k same]
    exact live

theorem binding_record (env : EnvironmentId) (name : String) (b : Binding) (found : h.binding? env name = some b) :
    ∃ all, (h.environment env).record = .declarative all ∧ Dictionary.find? all name = some b := by
  rw [binding?, bindings?] at found
  cases record : (h.environment env).record with
  | declarative all =>
    rw [record] at found
    exact ⟨all, rfl, found⟩
  | object id receiver =>
    rw [record] at found
    cases found

theorem binding_known (env : EnvironmentId) (name : String) (b : Binding) (found : h.binding? env name = some b) :
    env < h.environments.size := by
  by_contra unknown
  rw [binding?, bindings?, environment, Array.getElem?_eq_none (Nat.le_of_not_lt unknown)] at found
  cases found

-- A write to an environment that is not there changes nothing.
theorem write_unknown (env : EnvironmentId) (name : String) (unknown : ¬ env < h.environments.size) :
    h.writeAlias (.binding env name) v = h := by
  refine bindings_unchanged h env _ fun b found => ?_
  rw [bindings?, environment, Array.getElem?_eq_none (Nat.le_of_not_lt unknown)] at found
  cases found
  rfl

theorem write_binding (env : EnvironmentId) (name : String) (b : Binding) (found : h.binding? env name = some b) :
    (h.writeAlias (.binding env name) v).binding? env name =
      some (if b.state.isMutable then { b with value := v } else b) := by
  rw [writeAlias, binding?, bindings_modify h env env _ (binding_known h env name b found), if_pos rfl]
  rw [binding?] at found
  cases bindings : h.bindings? env with
  | none =>
    rw [bindings] at found
    cases found
  | some all =>
    rw [bindings] at found
    change Dictionary.find? (Bindings.write all name v) name = _
    rw [Bindings.write, Dictionary.find_modify, if_pos rfl]
    exact congrArg (Option.map _) found

theorem write_other_binding (env other : EnvironmentId) (name name' : String) (distinct : ¬ (env = other ∧ name = name')) :
    (h.writeAlias (.binding env name) v).binding? other name' = h.binding? other name' := by
  by_cases known : env < h.environments.size
  · exact binding_modify_other h env other name name' _ (Bindings.write_concerns name v) known distinct
  · rw [write_unknown h v env name known]

theorem read_write_same (live : h.Live a) : (h.writeAlias a v).readAlias a = v := by
  cases a with
  | slot frame index =>
    obtain ⟨slots, found, inside⟩ := live
    exact slot_set_same h frame index v slots found inside
  | binding env name =>
    obtain ⟨b, found, writable⟩ := live
    rw [read_binding, write_binding h v env name b found, if_pos writable]
    rfl

theorem read_write_other (distinct : a ≠ b) : (h.writeAlias a v).readAlias b = h.readAlias b := by
  cases a with
  | slot frame index =>
    cases b with
    | slot frame' index' =>
      refine slot_set_other h frame frame' index index' v fun same => distinct ?_
      rw [same.1, same.2]
    | binding env name => rfl
  | binding env name =>
    cases b with
    | slot frame index => rfl
    | binding env' name' =>
      rw [read_binding, read_binding, write_other_binding h v env env' name name']
      exact fun same => distinct (by rw [same.1, same.2])

theorem read_write (live : h.Live a) : (h.writeAlias a v).readAlias b = if a = b then v else h.readAlias b := by
  by_cases same : a = b
  · subst same
    rw [if_pos rfl, read_write_same h a v live]
  · rw [if_neg same, read_write_other h a b v same]

theorem write_live (live : h.Live b) : (h.writeAlias a v).Live b := by
  cases b with
  | slot frame index =>
    obtain ⟨slots, found, inside⟩ := live
    cases a with
    | slot frame' index' =>
      obtain ⟨after, there, size⟩ := frame_set h frame' frame index' v slots found
      exact ⟨after, there, size ▸ inside⟩
    | binding env name => exact ⟨slots, found, inside⟩
  | binding env name =>
    obtain ⟨binding, found, writable⟩ := live
    cases a with
    | slot frame' index' => exact ⟨binding, found, writable⟩
    | binding env' name' =>
      by_cases same : env' = env ∧ name' = name
      · obtain ⟨rfl, rfl⟩ := same
        refine ⟨_, write_binding h v _ _ binding found, ?_⟩
        rw [if_pos writable]
        exact writable
      · exact ⟨binding, (write_other_binding h v env' env name' name same).trans found, writable⟩

end

end Ecma.Heap

/-!
Arguments objects. While an element stands for a parameter, the two have one value; a definition or a
deletion of the element may part them, and nothing brings them together again.
-/

namespace Ecma

/-- Whether a definition gives up the parameter that an element stands for. -/
def Definition.releases (d : Definition) : Bool :=
  d.isAccessor || d.writable == some false

-- What is said of the value stays within the one that can be written.
theorem Definition.within_writable (d : Definition) (v : Value) (e c : Bool) (isValue : d.isAccessor = false)
    (same : (d.isEmpty || d.isWithin (.data v true e c)) = true) : d.writable.getD true = true := by
  cases said : d.writable with
  | none => rfl
  | some w =>
    cases w with
    | true => rfl
    | false => simp [isEmpty, isGeneric, isData, isWithin, agrees, said, isValue] at same

-- What is defined in the place of a definition of an element whose parameter has a value: if it makes the
-- element read-only, it mentions the value.
structure Definition.Frozen (v : Value) (d e : Definition) : Prop where
  isAccessor : e.isAccessor = d.isAccessor
  writable : e.writable = d.writable
  enumerable : e.enumerable = d.enumerable
  configurable : e.configurable = d.configurable
  value : e.value.getD v = d.value.getD v
  given : d.writable = some false → e.value = some (d.value.getD v)

theorem Definition.Frozen.releases (v : Value) (d e : Definition) (frozen : Frozen v d e) :
    e.releases = d.releases := by
  rw [Definition.releases, Definition.releases, frozen.isAccessor, frozen.writable]

-- What can be written takes any value, and may be made permanent or read-only.
theorem Definition.may_change_writable (d : Definition) (v : Value) (e c : Bool) (isValue : d.isAccessor = false)
    (enumerable : d.enumerable = none) (configurable : d.configurable ≠ some true) :
    d.mayChange (.data v true e c) = true := by
  have kinds : d.isGeneric = true ∨ d.isData = true := by
    rw [isGeneric, isValue]
    cases d.isData <;> simp
  rcases kinds with generic | isData
  · simp [mayChange, enumerable, configurable, agrees, generic]
  · simp [mayChange, enumerable, configurable, agrees, isData, Descriptor.isData]

namespace Heap

-- An object of arguments whose elements can be written as long as they stand for parameters.
structure Aliasing (h : Heap) (id : ObjectId) : Prop where
  arguments : ∃ mapped, h.kind id = .arguments mapped
  writable : (h.object id).Writable
  live : ∀ i a, h.alias? id (.index i) = some a → h.Live a

section

variable (h k : Heap) (id : ObjectId)

theorem alias_same (same : k.kind id = h.kind id) (key : PropertyKey) : k.alias? id key = h.alias? id key := by
  delta alias?
  rw [same]

/-! Own properties. -/

section

variable (aliasing : h.Aliasing id)
include aliasing

theorem own_argument (key : PropertyKey) : h.own? id key = match h.alias? id key with
    | some a => ((h.object id).properties.find? key).map (·.withValue (h.readAlias a))
    | none => (h.object id).properties.find? key := by
  obtain ⟨mapped, kind⟩ := aliasing.arguments
  have kind' : (h.object id).kind = .arguments mapped := kind
  rw [own?, kind', aliased?]
  cases h.alias? id key <;> rfl

theorem own_unmapped (key : PropertyKey) (unmapped : h.alias? id key = none) :
    h.own? id key = (h.object id).properties.find? key := by
  rw [own_argument h id aliasing, unmapped]

theorem mapped_stored (i : Nat) (a : Alias) (mapped : h.alias? id (.index i) = some a) :
    ∃ v e c, (h.object id).properties.find? (.index i) = some (.data v true e c) := by
  rw [alias_mapped] at mapped
  exact aliasing.writable i a mapped

-- An element has the value of the parameter it stands for.
theorem mapped_own (i : Nat) (a : Alias) (mapped : h.alias? id (.index i) = some a) :
    ∃ e c, h.own? id (.index i) = some (.data (h.readAlias a) true e c) := by
  obtain ⟨v, e, c, stored⟩ := mapped_stored h id aliasing i a mapped
  refine ⟨e, c, ?_⟩
  rw [own_argument h id aliasing, mapped, stored]
  rfl

theorem known_arguments : id < h.objects.size := by
  obtain ⟨mapped, kind⟩ := aliasing.arguments
  by_contra unknown
  rw [Heap.kind, object_unknown h id unknown] at kind
  cases kind

theorem define_arguments (key : PropertyKey) (d : Definition) : h.define id key d = h.defineArgument id key d := by
  obtain ⟨mapped, kind⟩ := aliasing.arguments
  delta define
  rw [kind]

end

/-! Definitions by the rules for all objects. -/

theorem ordinary_stores (key : PropertyKey) (d : Definition) : h.SameStores (h.defineOrdinary id key d).2 := by
  rcases define_ordinary_is h id key d with ⟨_, _, is⟩ | ⟨_, _, _, _, is⟩ | is | is <;> rw [is] <;> exact ⟨rfl, rfl⟩

theorem ordinary_kind (key : PropertyKey) (d : Definition) : (h.defineOrdinary id key d).2.kind id = h.kind id := by
  rcases define_ordinary_is h id key d with ⟨_, _, is⟩ | ⟨_, _, _, _, is⟩ | is | is
  · rw [is, kind, kind]
    dsimp only [store]
    rw [modify_properties_object]
    split <;> rfl
  · rw [is, kind, kind]
    dsimp only
    rw [modify_properties_object]
    split <;> rfl
  · rw [is]
  · rw [is]

theorem ordinary_rejected (key : PropertyKey) (d : Definition) (rejected : (h.defineOrdinary id key d).1 = false) :
    (h.defineOrdinary id key d).2 = h := by
  rcases define_ordinary_is h id key d with ⟨_, _, is⟩ | ⟨_, _, _, _, is⟩ | is | is
  · rw [is] at rejected
    cases rejected
  · rw [is] at rejected
    cases rejected
  · rw [is]
  · rw [is]

theorem ordinary_accepted (key : PropertyKey) (d : Definition) (current : Descriptor)
    (own : h.own? id key = some current) (may : d.mayChange current = true) :
    (h.defineOrdinary id key d).1 = true := by
  rw [defineOrdinary, judge, own]
  dsimp only
  by_cases same : (d.isEmpty || d.isWithin current) = true
  · simp only [if_pos same]
  · simp only [if_neg same, if_pos may]

/-! What a parameter does when its element is defined. -/

theorem freeze_frozen (key : PropertyKey) (d : Definition) (v : Value) (w e c : Bool)
    (own : h.own? id key = some (.data v w e c)) : d.Frozen v (h.freezeAliased id key d) := by
  obtain ⟨writable, isAccessor⟩ := freeze_writable h id key d
  have flags : (h.freezeAliased id key d).enumerable = d.enumerable ∧
      (h.freezeAliased id key d).configurable = d.configurable := by
    rw [freezeAliased, own]
    split <;> exact ⟨rfl, rfl⟩
  refine ⟨isAccessor, writable, flags.1, flags.2, ?_, fun readOnly => ?_⟩
  · rw [freezeAliased]
    split
    · next frozen =>
      rw [Bool.and_eq_true, Option.isNone_iff_eq_none] at frozen
      rw [own, frozen.1]
      rfl
    · rfl
  · rw [freezeAliased, own]
    cases given : d.value with
    | some v =>
      rw [if_neg]
      · exact given
      · exact Bool.false_ne_true
    | none =>
      rw [if_pos]
      · rfl
      · rw [readOnly]
        rfl

theorem follow_object (i : Nat) (a : Alias) (d : Definition) :
    (h.followAlias id (.index i) a d).object id = if d.releases then unmapped i (h.object id) else h.object id := by
  have gone : (h.unmap id (.index i)).object id = unmapped i (h.object id) := by
    rw [unmap_index, object_modify]
    by_cases known : id < h.objects.size
    · rw [if_pos ⟨rfl, known⟩]
    · rw [if_neg fun both => known both.2, object_unknown h id known]
      rfl
  have objects (v : Value) : (h.writeAlias a v).object id = h.object id := by
    rw [object, object, write_alias_objects]
  have gone' (v : Value) : ((h.writeAlias a v).unmap id (.index i)).object id = unmapped i (h.object id) := by
    rw [write_alias_unmap, object, write_alias_objects]
    exact gone
  rw [followAlias, Definition.releases]
  by_cases functions : d.isAccessor = true
  · rw [if_pos functions, functions]
    exact gone
  rw [if_neg functions, eq_false_of_ne_true functions, Bool.false_or]
  by_cases readOnly : d.writable = some false
  · simp only [if_pos readOnly]
    rw [readOnly, beq_self_eq_true, if_pos rfl]
    cases d.value with
    | none => exact gone
    | some v => exact gone' v
  · simp only [if_neg readOnly]
    rw [beq_false_of_ne readOnly, if_neg Bool.false_ne_true]
    cases d.value with
    | none => rfl
    | some v => exact objects v

theorem unmap_stores (key : PropertyKey) : h.SameStores (h.unmap id key) := by
  cases key <;> exact ⟨rfl, rfl⟩

theorem follow_read (key : PropertyKey) (a b : Alias) (d : Definition) (live : h.Live a) :
    (h.followAlias id key a d).readAlias b =
      if a = b ∧ d.isAccessor = false then d.value.getD (h.readAlias b) else h.readAlias b := by
  rw [followAlias]
  by_cases functions : d.isAccessor = true
  · rw [if_pos functions, if_neg, same_read h _ b (unmap_stores h id key)]
    rw [functions]
    exact fun both => Bool.noConfusion both.2
  · rw [if_neg functions]
    have isValue := eq_false_of_ne_true functions
    cases d.value with
    | none =>
      dsimp only
      rw [Option.getD_none, ite_self]
      split
      · exact same_read h _ b (unmap_stores h id key)
      · rfl
    | some v =>
      have written : (h.writeAlias a v).readAlias b = if a = b ∧ d.isAccessor = false then v else h.readAlias b := by
        rw [read_write h a b v live]
        simp only [isValue, and_true]
      dsimp only
      rw [Option.getD_some, ← written]
      split
      · exact same_read _ _ b (unmap_stores _ id key)
      · rfl

theorem follow_live (key : PropertyKey) (a b : Alias) (d : Definition) (live : h.Live b) :
    (h.followAlias id key a d).Live b := by
  have gone (k : Heap) (live : k.Live b) : (k.unmap id key).Live b := same_live k _ b (unmap_stores k id key) live
  rw [followAlias]
  split
  · exact gone h live
  · cases d.value with
    | none =>
      dsimp only
      split
      · exact gone h live
      · exact live
    | some v =>
      dsimp only
      split
      · exact gone _ (write_live h a b v live)
      · exact write_live h a b v live

/-! Deleting. -/

-- What a deletion does: nothing if the property is not there, and otherwise it is refused or the property and
-- its parameter are given up.
theorem delete_cases (key : PropertyKey) :
    h.own? id key = none ∧ h.delete id key = (true, h) ∨ h.delete id key = (false, h) ∨
      h.delete id key = (true, (h.modifyProperties id fun t => t.erase key).unmap id key) := by
  rw [delete]
  cases found : h.own? id key with
  | none => exact .inl ⟨rfl, rfl⟩
  | some d =>
    cases free : d.configurable with
    | false => exact .inr (.inl (by simp only [free, Bool.false_eq_true, if_false]))
    | true => exact .inr (.inr (by simp only [free, if_true]))

theorem delete_rejected (key : PropertyKey) (rejected : (h.delete id key).1 = false) : (h.delete id key).2 = h := by
  rcases delete_cases h id key with ⟨_, is⟩ | is | is
  · rw [is]
  · rw [is]
  · rw [is] at rejected
    cases rejected

theorem delete_stores (key : PropertyKey) : h.SameStores (h.delete id key).2 := by
  rcases delete_cases h id key with ⟨_, is⟩ | is | is
  · rw [is]
    exact ⟨rfl, rfl⟩
  · rw [is]
    exact ⟨rfl, rfl⟩
  · rw [is]
    exact unmap_stores (h.modifyProperties id fun t => t.erase key) id key

/-! Definitions of elements. -/

section

variable (aliasing : h.Aliasing id)
include aliasing

-- What is stored for an element after an accepted definition of its value.
theorem ordinary_value (i : Nat) (a : Alias) (mapped : h.alias? id (.index i) = some a) (d : Definition)
    (isValue : d.isAccessor = false) (accepted : (h.defineOrdinary id (.index i) d).1 = true) :
    ∃ v e c, ((h.defineOrdinary id (.index i) d).2.object id).properties.find? (.index i) =
        some (.data v (d.writable.getD true) e c) ∧
      ∀ given, d.writable = some false → d.value = some given → v = given := by
  obtain ⟨v, e, c, stored⟩ := mapped_stored h id aliasing i a mapped
  have own : h.own? id (.index i) = some (.data (h.readAlias a) true e c) := by
    rw [own_argument h id aliasing, mapped, stored]
    rfl
  rw [defineOrdinary, judge, own] at accepted ⊢
  dsimp only at accepted ⊢
  by_cases same : (d.isEmpty || d.isWithin (.data (h.readAlias a) true e c)) = true
  · simp only [if_pos same]
    have writable := d.within_writable _ e c isValue same
    refine ⟨v, e, c, by rw [stored, writable], fun given readOnly _ => ?_⟩
    rw [readOnly] at writable
    cases writable
  · by_cases may : d.mayChange (.data (h.readAlias a) true e c) = true
    · simp only [if_neg same, if_pos may]
      refine ⟨d.value.getD v, d.enumerable.getD e, d.configurable.getD c, ?_, fun given _ is => by rw [is]; rfl⟩
      rw [modify_properties_object, if_pos ⟨rfl, known_arguments h id aliasing⟩, PropertyTable.find_modify,
        if_pos rfl, stored, Option.map_some, d.apply_value v true e c isValue]
    · simp only [if_neg same, if_neg may] at accepted
      cases accepted

-- A definition is one by the rules for all objects. The parameter of a mapped element follows it.
theorem define_cases (key : PropertyKey) (d : Definition) :
    h.alias? id key = none ∧ h.define id key d = h.defineOrdinary id key d ∨
      ∃ i a e, key = .index i ∧ h.alias? id (.index i) = some a ∧ d.Frozen (h.readAlias a) e ∧
        (h.define id key d).1 = (h.defineOrdinary id key e).1 ∧
        (h.define id key d).2 = if (h.defineOrdinary id key e).1
          then (h.defineOrdinary id key e).2.followAlias id key a e else h := by
  rw [define_arguments h id aliasing, defineArgument]
  cases aliased : h.alias? id key with
  | none => exact .inl ⟨rfl, rfl⟩
  | some a =>
    cases key with
    | name s =>
      rw [alias_name] at aliased
      cases aliased
    | index i =>
      obtain ⟨enumerable, configurable, own⟩ := mapped_own h id aliasing i a aliased
      refine .inr ⟨i, a, _, rfl, aliased, freeze_frozen h id (.index i) d _ _ _ _ own, ?_⟩
      have rejected := ordinary_rejected h id (.index i) (h.freezeAliased id (.index i) d)
      dsimp only
      generalize h.defineOrdinary id (.index i) (h.freezeAliased id (.index i) d) = result at rejected
      obtain ⟨accepted, k⟩ := result
      cases accepted with
      | false => exact ⟨rfl, rejected rfl⟩
      | true => exact ⟨rfl, rfl⟩

theorem define_rejected (key : PropertyKey) (d : Definition) (rejected : (h.define id key d).1 = false) :
    (h.define id key d).2 = h := by
  rcases define_cases h id aliasing key d with ⟨_, is⟩ | ⟨i, a, e, _, _, _, accepted, after⟩
  · rw [is] at rejected ⊢
    exact ordinary_rejected h id key d rejected
  · rw [after, ← accepted, rejected, if_neg Bool.false_ne_true]

theorem define_accepted (i : Nat) (a : Alias) (mapped : h.alias? id (.index i) = some a) (d : Definition)
    (isValue : d.isAccessor = false) (enumerable : d.enumerable = none) (configurable : d.configurable ≠ some true) :
    (h.define id (.index i) d).1 = true := by
  rcases define_cases h id aliasing (.index i) d with ⟨unmapped, _⟩ | ⟨j, b, e, _, _, frozen, accepted, _⟩
  · rw [mapped] at unmapped
    cases unmapped
  · obtain ⟨shown, free, own⟩ := mapped_own h id aliasing i a mapped
    rw [accepted]
    refine ordinary_accepted h id (.index i) e _ own (e.may_change_writable _ _ _ ?_ ?_ ?_)
    · rw [frozen.isAccessor, isValue]
    · rw [frozen.enumerable, enumerable]
    · rwa [frozen.configurable]

/-! What each operation does to both sides. -/

theorem define_alias (key : PropertyKey) (d : Definition) (j : Nat) :
    (h.define id key d).2.alias? id (.index j) =
      if (h.define id key d).1 = true ∧ key = .index j ∧ d.releases = true then none else h.alias? id (.index j) := by
  rcases define_cases h id aliasing key d with ⟨unmapped, is⟩ | ⟨i, a, e, rfl, _, frozen, accepted, after⟩
  · rw [is, alias_same h _ id (ordinary_kind h id key d)]
    split
    · next both => rw [← both.2.1, unmapped]
    · rfl
  · rw [after, accepted, ← frozen.releases]
    by_cases ok : (h.defineOrdinary id (.index i) e).1 = true
    · have kind := ordinary_kind h id (.index i) e
      rw [Heap.kind, Heap.kind] at kind
      rw [if_pos ok, alias_mapped, alias_mapped, follow_object]
      by_cases gone : e.releases = true
      · rw [if_pos gone, lookup_unmapped, kind]
        by_cases here : j = i
        · subst here
          rw [if_pos rfl, if_pos ⟨ok, rfl, gone⟩]
        · rw [if_neg here, if_neg fun all => here (PropertyKey.index.inj all.2.1).symm]
      · rw [if_neg gone, kind, if_neg fun all => gone all.2.2]
    · rw [if_neg ok, if_neg fun all => ok all.1]

theorem define_read (key : PropertyKey) (d : Definition) (b : Alias) :
    (h.define id key d).2.readAlias b =
      if (h.define id key d).1 = true ∧ h.alias? id key = some b ∧ d.isAccessor = false
      then d.value.getD (h.readAlias b) else h.readAlias b := by
  rcases define_cases h id aliasing key d with ⟨unmapped, is⟩ | ⟨i, a, e, rfl, mapped, frozen, accepted, after⟩
  · rw [is, unmapped, same_read h _ b (ordinary_stores h id key d), if_neg]
    exact fun all => Option.some_ne_none b all.2.1.symm
  · rw [after, accepted, mapped]
    by_cases ok : (h.defineOrdinary id (.index i) e).1 = true
    · have stores := ordinary_stores h id (.index i) e
      have live := same_live h _ a stores (aliasing.live i a mapped)
      rw [if_pos ok, follow_read _ id _ a b e live, same_read h _ b stores, frozen.isAccessor]
      by_cases same : a = b
      · subst same
        rw [frozen.value]
        simp only [ok, true_and]
      · simp only [same, false_and, if_false, Option.some.injEq, and_false]
    · rw [if_neg ok, if_neg fun all => ok all.1]

theorem define_live (key : PropertyKey) (d : Definition) (b : Alias) (live : h.Live b) :
    (h.define id key d).2.Live b := by
  rcases define_cases h id aliasing key d with ⟨_, is⟩ | ⟨i, a, e, rfl, _, _, _, after⟩
  · rw [is]
    exact same_live h _ b (ordinary_stores h id key d) live
  · rw [after]
    split
    · exact follow_live _ id _ a b e (same_live h _ b (ordinary_stores h id _ e) live)
    · exact live

-- The properties under other keys are stored as they were.
theorem define_other (key other : PropertyKey) (d : Definition) (distinct : key ≠ other) :
    ((h.define id key d).2.object id).properties.find? other = (h.object id).properties.find? other := by
  have ordinary (d : Definition) := (define_ordinary_other h id key other d distinct).2
  rcases define_cases h id aliasing key d with ⟨_, is⟩ | ⟨i, a, e, rfl, _, _, _, after⟩
  · rw [is]
    exact ordinary d
  · rw [after]
    split
    · rw [follow_object]
      split
      · rw [unmapped_properties]
        exact ordinary e
      · exact ordinary e
    · rfl

theorem define_kind (key : PropertyKey) (d : Definition) :
    ∃ mapped, (h.define id key d).2.kind id = .arguments mapped := by
  obtain ⟨mapped, kind⟩ := aliasing.arguments
  rcases define_cases h id aliasing key d with ⟨_, is⟩ | ⟨i, a, e, rfl, _, _, _, after⟩
  · rw [is, ordinary_kind]
    exact ⟨mapped, kind⟩
  · have same := ordinary_kind h id (.index i) e
    rw [kind, Heap.kind] at same
    rw [after]
    split
    · rw [Heap.kind, follow_object]
      split
      · rw [unmapped, same]
        exact ⟨_, rfl⟩
      · exact ⟨mapped, same⟩
    · exact ⟨mapped, kind⟩

-- What a definition of a value leaves of a mapped element: if it is read-only now, it has the value of the
-- parameter, or the one that was given.
theorem define_own (i : Nat) (a : Alias) (mapped : h.alias? id (.index i) = some a) (d : Definition)
    (isValue : d.isAccessor = false) (accepted : (h.define id (.index i) d).1 = true) :
    ∃ v e c, ((h.define id (.index i) d).2.object id).properties.find? (.index i) =
        some (.data v (d.writable.getD true) e c) ∧
      (d.writable = some false → v = d.value.getD (h.readAlias a)) := by
  rcases define_cases h id aliasing (.index i) d with ⟨unmapped, _⟩ | ⟨j, b, e, same, mapped', frozen, accepted', after⟩
  · rw [mapped] at unmapped
    cases unmapped
  · cases same
    cases mapped.symm.trans mapped'
    rw [accepted] at accepted'
    obtain ⟨v, shown, free, stored, given⟩ :=
      ordinary_value h id aliasing i a mapped e (frozen.isAccessor.trans isValue) accepted'.symm
    refine ⟨v, shown, free, ?_, fun readOnly => given _ (frozen.writable.trans readOnly) (frozen.given readOnly)⟩
    rw [after, if_pos accepted'.symm, follow_object, ← frozen.writable]
    split
    · rw [unmapped_properties]
      exact stored
    · exact stored

theorem define_aliasing (key : PropertyKey) (d : Definition) : (h.define id key d).2.Aliasing id := by
  have alias' := define_alias h id aliasing key d
  have before (j : Nat) (b : Alias) (mapped : (h.define id key d).2.alias? id (.index j) = some b) :
      h.alias? id (.index j) = some b ∧
        ¬ ((h.define id key d).1 = true ∧ key = .index j ∧ d.releases = true) := by
    rw [alias'] at mapped
    split at mapped
    · cases mapped
    · next stays => exact ⟨mapped, stays⟩
  refine ⟨define_kind h id aliasing key d, fun j b mapped => ?_, fun j b mapped => ?_⟩
  · rw [← alias_mapped] at mapped
    obtain ⟨mapped', stays⟩ := before j b mapped
    by_cases here : key = .index j
    · subst here
      by_cases accepted : (h.define id (.index j) d).1 = true
      · have kept : d.isAccessor = false ∧ d.writable.getD true = true := by
          have releases : d.releases = false := eq_false_of_ne_true fun gone => stays ⟨accepted, rfl, gone⟩
          rw [Definition.releases, Bool.or_eq_false_iff] at releases
          refine ⟨releases.1, ?_⟩
          cases said : d.writable with
          | none => rfl
          | some w =>
            cases w with
            | true => rfl
            | false => simp [said] at releases
        obtain ⟨v, e, c, stored, _⟩ := define_own h id aliasing j b mapped' d kept.1 accepted
        rw [kept.2] at stored
        exact ⟨v, e, c, stored⟩
      · rw [define_rejected h id aliasing _ d (eq_false_of_ne_true accepted)]
        exact mapped_stored h id aliasing j b mapped'
    · rw [define_other h id aliasing key _ d here]
      exact mapped_stored h id aliasing j b mapped'
  · exact define_live h id aliasing key d b (aliasing.live j b (before j b mapped).1)

theorem erased_object (key : PropertyKey) :
    ((h.modifyProperties id fun t => t.erase key).unmap id key).object id = match key with
      | .index i => unmapped i { h.object id with properties := (h.object id).properties.erase key }
      | .name _ => { h.object id with properties := (h.object id).properties.erase key } := by
  have known := known_arguments h id aliasing
  cases key with
  | index i =>
    have still : id < (h.modifyProperties id fun t => t.erase (.index i)).objects.size := by
      rwa [modifyProperties, size_modify]
    rw [unmap_index, object_modify, if_pos ⟨rfl, still⟩, modify_properties_object, if_pos ⟨rfl, known⟩]
  | name s =>
    rw [unmap, modify_properties_object, if_pos ⟨rfl, known⟩]

theorem delete_alias (key : PropertyKey) (j : Nat) :
    (h.delete id key).2.alias? id (.index j) =
      if (h.delete id key).1 = true ∧ key = .index j then none else h.alias? id (.index j) := by
  rcases delete_cases h id key with ⟨absent, is⟩ | is | is
  · rw [is]
    split
    · next both =>
      rw [both.2] at absent
      cases mapped : h.alias? id (.index j) with
      | none => rfl
      | some a =>
        obtain ⟨_, _, own⟩ := mapped_own h id aliasing j a mapped
        cases absent.symm.trans own
    · rfl
  · rw [is, if_neg fun all => Bool.noConfusion all.1]
  · rw [is, alias_mapped, alias_mapped, erased_object h id aliasing]
    cases key with
    | index i =>
      dsimp only
      rw [lookup_unmapped]
      by_cases here : j = i
      · subst here
        rw [if_pos rfl, if_pos ⟨rfl, rfl⟩]
      · rw [if_neg here, if_neg fun all => here (PropertyKey.index.inj all.2).symm]
    | name s =>
      rw [if_neg]
      rintro ⟨_, ⟨⟩⟩

theorem delete_other (key other : PropertyKey) (distinct : key ≠ other) :
    ((h.delete id key).2.object id).properties.find? other = (h.object id).properties.find? other := by
  rcases delete_cases h id key with ⟨_, is⟩ | is | is
  · rw [is]
  · rw [is]
  · rw [is, erased_object h id aliasing]
    cases key with
    | index i =>
      dsimp only
      rw [unmapped_properties]
      exact PropertyTable.find_erase _ _ _ distinct
    | name s => exact PropertyTable.find_erase _ _ _ distinct

theorem delete_kind (key : PropertyKey) : ∃ mapped, (h.delete id key).2.kind id = .arguments mapped := by
  obtain ⟨mapped, kind⟩ := aliasing.arguments
  rcases delete_cases h id key with ⟨_, is⟩ | is | is
  · rw [is]
    exact ⟨mapped, kind⟩
  · rw [is]
    exact ⟨mapped, kind⟩
  · rw [Heap.kind] at kind ⊢
    rw [is, erased_object h id aliasing]
    cases key with
    | index i =>
      dsimp only
      rw [unmapped, kind]
      exact ⟨_, rfl⟩
    | name s => exact ⟨mapped, kind⟩

theorem delete_aliasing (key : PropertyKey) : (h.delete id key).2.Aliasing id := by
  have before (j : Nat) (b : Alias) (mapped : (h.delete id key).2.alias? id (.index j) = some b) :
      h.alias? id (.index j) = some b ∧ ¬ ((h.delete id key).1 = true ∧ key = .index j) := by
    rw [delete_alias h id aliasing] at mapped
    split at mapped
    · cases mapped
    · next stays => exact ⟨mapped, stays⟩
  refine ⟨delete_kind h id aliasing key, fun j b mapped => ?_, fun j b mapped => ?_⟩
  · rw [← alias_mapped] at mapped
    obtain ⟨mapped', stays⟩ := before j b mapped
    by_cases here : key = .index j
    · rw [delete_rejected h id key (eq_false_of_ne_true fun accepted => stays ⟨accepted, here⟩)]
      exact mapped_stored h id aliasing j b mapped'
    · rw [delete_other h id aliasing key _ here]
      exact mapped_stored h id aliasing j b mapped'
  · exact same_live h _ b (delete_stores h id key) (aliasing.live j b (before j b mapped).1)

-- The object and whether its parameters can be written decide.
theorem aliasing_same (object : k.object id = h.object id) (live : ∀ a, h.Live a → k.Live a) : k.Aliasing id := by
  refine ⟨?_, ?_, fun i a mapped => ?_⟩
  · rw [Heap.kind, object]
    exact aliasing.arguments
  · rw [object]
    exact aliasing.writable
  · rw [alias_mapped, object, ← alias_mapped] at mapped
    exact live a (aliasing.live i a mapped)

theorem close_object : (h.preventExtensions id).object id = { h.object id with extensible := false } := by
  rw [preventExtensions, object_modify, if_pos ⟨rfl, known_arguments h id aliasing⟩]

theorem close_aliasing : (h.preventExtensions id).Aliasing id := by
  refine ⟨?_, ?_, fun i a mapped => ?_⟩
  · rw [Heap.kind, close_object h id aliasing]
    exact aliasing.arguments
  · rw [close_object h id aliasing]
    exact aliasing.writable
  · rw [alias_mapped, close_object h id aliasing, ← alias_mapped] at mapped
    exact same_live h _ a ⟨rfl, rfl⟩ (aliasing.live i a mapped)

end

end

end Heap

end Ecma
