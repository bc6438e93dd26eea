import Mathlib.Data.List.Sort
import Ecma.Proofs.Heap.Arguments
import Ecma.Proofs.Heap.Pieces
import Ecma.Proofs.Property.Table
import Ecma.Proofs.Property.Rules

set_option autoImplicit false

/-!
What the definition of a property does to an object of any kind: it is accepted if the rules let it through,
it changes the one property as the rules say, and it changes nothing else.
-/

namespace Ecma

namespace PropertyTable

variable (t : PropertyTable) (key : PropertyKey)

-- The other keys, in their order.
def otherKeys : List PropertyKey :=
  t.keys.filter (· ≠ key)

theorem keys_modify (f : Descriptor → Descriptor) : (t.modify key f).keys = t.keys := by
  cases key with
  | index i =>
    have same : (t.modify (.index i) f).indices = t.indices := by
      refine List.Pairwise.eq_of_mem_iff (indices_ascend _) (indices_ascend t) fun j => ?_
      rw [mem_indices, mem_indices, find_modify]
      split <;> simp
    rw [keys, keys, same]
    rfl
  | name s =>
    rw [keys, keys]
    exact congrArg (fun names => t.indices.map PropertyKey.index ++ names.map PropertyKey.name)
      (Dictionary.keys_modify t.names s f)

theorem other_keys_insert (d : Descriptor) : (t.insert key d).otherKeys key = t.otherKeys key := by
  cases key with
  | index i =>
    have same : (t.insert (.index i) d).indices.filter (· ≠ i) = t.indices.filter (· ≠ i) := by
      refine List.Pairwise.eq_of_mem_iff ((indices_ascend _).filter _) ((indices_ascend t).filter _) fun j => ?_
      rw [List.mem_filter, List.mem_filter, mem_indices, mem_indices, find_insert]
      by_cases here : i = j
      · simp [here]
      · simp [here]
    have inner : (fun key : PropertyKey => decide (key ≠ .index i)) ∘ PropertyKey.index = fun j => decide (j ≠ i) := by
      funext j
      simp
    have indices (u : PropertyTable) : (u.indices.map PropertyKey.index).filter (· ≠ .index i) =
        (u.indices.filter (· ≠ i)).map PropertyKey.index := by
      rw [List.filter_map, inner]
    rw [otherKeys, otherKeys, keys, keys, List.filter_append, List.filter_append, indices, indices, same]
    rfl
  | name s =>
    rw [otherKeys, otherKeys, keys, keys, List.filter_append, List.filter_append]
    refine congrArg ((t.indices.map PropertyKey.index).filter (· ≠ .name s) ++ ·) ?_
    change ((t.names.put s d).keys.map PropertyKey.name).filter (· ≠ .name s) = _
    rw [Dictionary.keys_put]
    split
    · rfl
    · simp

end PropertyTable

namespace Heap

section

variable (h : Heap) (id : ObjectId) (key : PropertyKey)

-- What is shown of a property that is so: an index that stands for a parameter has the parameter's value.
def shown (d : Descriptor) : Descriptor :=
  match h.aliased? id key with
  | some v => d.withValue v
  | none => d

-- Only the indices of arguments objects stand for parameters.
theorem shown_plain (other : ∀ mapped, h.kind id ≠ .arguments mapped) : h.shown id key = fun d => d := by
  have free : h.alias? id key = none := by
    rw [alias?]
    exact fun mapped i kind _ => other mapped kind
  funext d
  rw [shown, aliased?, free]
  rfl

theorem own_shown : h.own? id key = ((h.object id).own? key).map (h.shown id key) := by
  rw [own?, Object.own?]
  cases kind : (h.object id).kind with
  | arguments mapped =>
    dsimp only
    unfold shown
    cases h.aliased? id key with
    | some v => rfl
    | none => exact Option.map_id'.symm
  | _ =>
    rw [shown_plain h id key (fun mapped is => by rw [Heap.kind, kind] at is; cases is)]
    exact Option.map_id'.symm

-- An object that is as it was shows its properties as it did, if the parameters have their values.
theorem own_kept (k : Heap) (same : k.object id = h.object id) (stores : h.SameStores k) :
    k.own? id key = h.own? id key := by
  have reads : k.readAlias = h.readAlias := funext fun a => same_read h k a stores
  have shows : k.shown id key = h.shown id key := by
    funext d
    rw [shown, shown, aliased?, aliased?, reads, alias_same h k id (congrArg Object.kind same)]
  rw [own_shown, own_shown, same, shows]

theorem own_known (current : Descriptor) (own : h.own? id key = some current) : id < h.objects.size := by
  by_contra unknown
  rw [own_shown, object_unknown h id unknown] at own
  cases key <;> cases own

-- What is found under a key depends on objects with smaller numbers only.
theorem property_kept (k : Heap) (own : ∀ o ≤ id, k.own? o key = h.own? o key)
    (links : ∀ o ≤ id, (k.object o).prototype = (h.object o).prototype) : k.property? id key = h.property? id key := by
  induction id using Nat.strongRecOn with
  | _ id hyp =>
    have link : k.prototype? id = h.prototype? id := by
      rw [prototype?, prototype?, links id (Nat.le_refl id)]
    rw [property_step, property_step, own id (Nat.le_refl id), link]
    cases found : h.prototype? id with
    | none => rfl
    | some p =>
      have less := prototype_less h id p found
      rw [Option.bind_some, Option.bind_some, hyp p less (fun o most => own o (Nat.le_trans most (Nat.le_of_lt less)))
        fun o most => links o (Nat.le_trans most (Nat.le_of_lt less))]

theorem property_unknown (unknown : ¬ id < h.objects.size) : h.property? id key = none := by
  have own : h.own? id key = none := Option.eq_none_iff_forall_ne_some.mpr fun d own => unknown (own_known h id key d own)
  rw [property_step, own, prototype?, object_unknown h id unknown]
  rfl

/-- Objects have been added, and nothing else has changed. -/
structure Adds (h k : Heap) : Prop where
  size : h.objects.size ≤ k.objects.size
  object : ∀ id < h.objects.size, k.object id = h.object id
  stores : h.SameStores k

theorem object_adds (o : Object) : h.Adds (h.addObject o).2 := by
  refine ⟨?_, fun id known => h.object_add_known o id known, rfl, rfl⟩
  exact Nat.le_of_lt (h.objects.size_push o ▸ Nat.lt_succ_self _)

theorem adds_property (k : Heap) (adds : h.Adds k) (known : id < h.objects.size) :
    k.property? id key = h.property? id key := by
  have kept (o : ObjectId) (most : o ≤ id) : k.object o = h.object o := adds.object o (Nat.lt_of_le_of_lt most known)
  exact property_kept h id key k (fun o most => own_kept h o key k (kept o most) adds.stores) fun o most => by rw [kept o most]

-- Only one property of one object has changed.
structure Apart (k : Heap) : Prop where
  elsewhere : ∀ other, other ≠ id → k.object other = h.object other
  kind : (k.object id).kind = (h.object id).kind
  prototype : (k.object id).prototype = (h.object id).prototype
  extensible : (k.object id).extensible = (h.object id).extensible
  others : ∀ other, other ≠ key → (k.object id).properties.find? other = (h.object id).properties.find? other
  otherKeys : (k.ownKeys id).filter (· ≠ key) = (h.ownKeys id).filter (· ≠ key)
  inPlace : h.own? id key ≠ none → k.ownKeys id = h.ownKeys id
  objects : k.objects.size = h.objects.size
  environments : k.environments = h.environments
  frames : k.frames = h.frames

/-- A definition was accepted or not, and the heap has become another. -/
structure DefinedByRules (d : Definition) (accepted : Bool) (k : Heap) : Prop where
  accepts : accepted = true ↔ match h.own? id key with
    | none => (h.object id).extensible = true
    | some current => d.Allowed current
  rejects : accepted = false → k = h
  shows : accepted = true → ∃ new, d.Yields (h.own? id key) new ∧ k.own? id key = some (h.shown id key new)
  -- Where everything said is so already, nothing is stored.
  stores : accepted = true → k = h ∨ ∃ new, d.Yields ((h.object id).properties.find? key) new ∧
    (k.object id).properties.find? key = some new
  apart : h.Apart id key k

end

section

variable (h : Heap) (id : ObjectId) (key : PropertyKey) (d : Definition)

theorem apart_refl : h.Apart id key h := by
  exact ⟨fun _ _ => rfl, rfl, rfl, rfl, fun _ _ => rfl, rfl, fun _ => rfl, rfl, rfl, rfl⟩

-- The keys that an object has by its kind.
def kindKeys : ObjectKind → List PropertyKey
  | .string s => (List.range (Text.unitLength s)).map .index
  | _ => []

theorem own_keys_is : h.ownKeys id = kindKeys (h.object id).kind ++ (h.object id).properties.keys := by
  rw [ownKeys]
  cases (h.object id).kind <;> rfl

-- A change of the table of an object under one key.
theorem apart_table (known : id < h.objects.size) (f : PropertyTable → PropertyTable)
    (others : ∀ other, other ≠ key →
      (f (h.object id).properties).find? other = (h.object id).properties.find? other)
    (keys : (f (h.object id).properties).otherKeys key = (h.object id).properties.otherKeys key)
    (inPlace : h.own? id key ≠ none → (f (h.object id).properties).keys = (h.object id).properties.keys) :
    h.Apart id key (h.modifyProperties id f) := by
  have here : (h.modifyProperties id f).object id =
      { h.object id with properties := f (h.object id).properties } := by
    rw [modify_properties_object, if_pos ⟨rfl, known⟩]
  refine ⟨fun other apart => ?_, ?_, ?_, ?_, ?_, ?_, fun there => ?_, size_modify h id _, rfl, rfl⟩
  · rw [modify_properties_object, if_neg fun both => apart both.1.symm]
  · rw [here]
  · rw [here]
  · rw [here]
  · rw [here]
    exact others
  · rw [own_keys_is, own_keys_is, here, List.filter_append, List.filter_append]
    exact congrArg (List.filter _ _ ++ ·) keys
  · rw [own_keys_is, own_keys_is, here, inPlace there]

section

variable (k : Heap) (apart : h.Apart id key k)
include apart

-- The parameters have the values that they had.
theorem apart_aliased : k.aliased? id = h.aliased? id := by
  funext other
  have reads (a : Alias) : k.readAlias a = h.readAlias a := by
    cases a with
    | slot frame index => rw [readAlias, readAlias, slot, slot, apart.frames]
    | binding env name => rw [readAlias, readAlias, bindings?, bindings?, environment, environment, apart.environments]
  have mapped : k.alias? id other = h.alias? id other := by
    rw [alias?.eq_def, alias?.eq_def, Heap.kind, Heap.kind, apart.kind]
  rw [aliased?, aliased?, mapped]
  exact congrArg (Option.map · _) (funext reads)

theorem apart_own (other : PropertyKey) (distinct : other ≠ key) : k.own? id other = h.own? id other := by
  rw [own?, own?, apart.kind, apart.others other distinct, apart_aliased h id key k apart]

theorem apart_shown : k.shown id key = h.shown id key := by
  funext d
  rw [shown, shown, apart_aliased h id key k apart]

theorem apart_stored (new : Descriptor) (found : (k.object id).properties.find? key = some new) :
    k.own? id key = some (h.shown id key new) := by
  have whole : (k.object id).own? key = some new := by
    simp only [Object.own?, found, Option.some_or]
    cases (k.object id).kind <;> rfl
  rw [own_shown, whole, apart_shown h id key k apart]
  rfl

end

theorem shown_flags (old : Descriptor) :
    (h.shown id key old).configurable = old.configurable ∧ (h.shown id key old).writable = old.writable := by
  rw [shown]
  split
  · exact ⟨Descriptor.with_value_configurable old _, Descriptor.with_value_writable old _⟩
  · exact ⟨rfl, rfl⟩

-- Only characters, which are permanent and read-only, are there without being stored.
theorem stored_or_character (current : Descriptor) (there : h.own? id key = some current) :
    (∃ stored, (h.object id).properties.find? key = some stored ∧ current = h.shown id key stored) ∨
      current.configurable = false ∧ current.writable = false := by
  rw [own_shown] at there
  obtain ⟨own, found, rfl⟩ := Option.map_eq_some_iff.mp there
  cases stored : (h.object id).properties.find? key with
  | some old =>
    have whole : (h.object id).own? key = some old := by
      simp only [Object.own?, stored, Option.some_or]
      cases (h.object id).kind <;> rfl
    exact .inl ⟨old, rfl, by rw [Option.some.inj (found.symm.trans whole)]⟩
  | none =>
    rw [(shown_flags h id key own).1, (shown_flags h id key own).2]
    cases kind : (h.object id).kind with
    | string s =>
      simp only [Object.own?, kind, stored, Option.none_or] at found
      cases key with
      | index i =>
        obtain ⟨unit, _, rfl⟩ := Option.map_eq_some_iff.mp found
        exact .inr ⟨rfl, rfl⟩
      | name name => cases found
    | _ => simp [Object.own?, kind, stored] at found

theorem apply_with_value (stored : Descriptor) (v : Value) :
    (d.apply stored).withValue v = (d.apply (stored.withValue v)).withValue v := by
  cases stored with
  | data old w e c =>
    cases accessor : d.isAccessor <;>
      simp [Definition.apply, Definition.reshape, accessor, Descriptor.withValue]
  | accessor g s e c => rfl

theorem shown_twice (old : Descriptor) : h.shown id key (h.shown id key old) = h.shown id key old := by
  unfold shown
  cases h.aliased? id key with
  | none => rfl
  | some v => cases old <;> rfl

theorem absent_stored (absent : h.own? id key = none) : (h.object id).properties.find? key = none := by
  rw [own_shown, Option.map_eq_none_iff] at absent
  cases stored : (h.object id).properties.find? key with
  | none => rfl
  | some old =>
    simp only [Object.own?, stored, Option.some_or] at absent
    cases kind : (h.object id).kind <;> simp [kind] at absent

section

variable (known : id < h.objects.size)
include known

theorem store_found (new : Descriptor) :
    ((h.store id key new).object id).properties.find? key = some new := by
  rw [store, modify_properties_object, if_pos ⟨rfl, known⟩]
  dsimp only
  rw [PropertyTable.find_insert, if_pos rfl]

theorem store_apart (absent : h.own? id key = none) (new : Descriptor) : h.Apart id key (h.store id key new) := by
  refine apart_table h id key known _ (fun other distinct => ?_) (PropertyTable.other_keys_insert _ key _)
    fun there => absurd absent there
  rw [PropertyTable.find_insert, if_neg distinct.symm]

end

/-! The cases of a definition. -/

section

variable (known : id < h.objects.size) (oneKind : d.OneKind)
include known oneKind

theorem added_by_rules (absent : h.own? id key = none) (extensible : (h.object id).extensible = true) :
    h.DefinedByRules id key d true (h.store id key d.create) := by
  have stored := absent_stored h id key absent
  have apart := store_apart h id key known absent d.create
  have yields := d.create_yields oneKind
  have found := store_found h id key known d.create
  refine ⟨?_, (by rintro ⟨⟩), fun _ => ⟨d.create, ?_, apart_stored h id key _ apart _ found⟩,
    fun _ => .inr ⟨d.create, ?_, found⟩, apart⟩
  · rw [absent]
    exact iff_of_true rfl extensible
  · rw [absent]
    exact yields
  · rw [stored]
    exact yields

theorem changed_by_rules (current : Descriptor) (there : h.own? id key = some current)
    (may : d.mayChange current = true) (changes : ¬ (d.isEmpty || d.isWithin current) = true) :
    h.DefinedByRules id key d true (h.modifyProperties id fun t => t.modify key d.apply) := by
  obtain ⟨stored, found, rfl⟩ : ∃ stored, (h.object id).properties.find? key = some stored ∧
      current = h.shown id key stored := by
    rcases stored_or_character h id key current there with stored | ⟨fixed, readOnly⟩
    · exact stored
    · exact absurd (d.change_is_writable current fixed may changes) (by rw [readOnly]; decide)
  have apart : h.Apart id key (h.modifyProperties id fun t => t.modify key d.apply) := by
    refine apart_table h id key known _ (fun other distinct => ?_) ?_ fun _ => PropertyTable.keys_modify _ key _
    · rw [PropertyTable.find_modify, if_neg distinct.symm]
    · rw [PropertyTable.otherKeys, PropertyTable.otherKeys, PropertyTable.keys_modify]
  have after : ((h.modifyProperties id fun t => t.modify key d.apply).object id).properties.find? key =
      some (d.apply stored) := by
    rw [modify_properties_object, if_pos ⟨rfl, known⟩]
    dsimp only
    rw [PropertyTable.find_modify, if_pos rfl, found]
    rfl
  refine ⟨?_, (by rintro ⟨⟩), fun _ => ⟨d.apply (h.shown id key stored), ?_, ?_⟩,
    fun _ => .inr ⟨d.apply stored, ?_, after⟩, apart⟩
  · rw [there]
    exact iff_of_true rfl ((d.may_change_iff oneKind _).mp may)
  · rw [there]
    exact d.apply_yields oneKind _
  · rw [apart_stored h id key _ apart _ after]
    refine congrArg some ?_
    unfold shown
    cases h.aliased? id key with
    | none => rfl
    | some v => exact apply_with_value d stored v
  · rw [found]
    exact d.apply_yields oneKind _

end

theorem kept_by_rules (current : Descriptor) (there : h.own? id key = some current)
    (describes : d.Describes current) : h.DefinedByRules id key d true h := by
  have shown : h.shown id key current = current := by
    have is := there
    rw [own_shown] at is
    obtain ⟨own, _, rfl⟩ := Option.map_eq_some_iff.mp is
    exact shown_twice h id key own
  refine ⟨?_, (by rintro ⟨⟩), fun _ => ⟨current, ?_, ?_⟩, fun _ => .inl rfl, apart_refl h id key⟩
  · rw [there]
    exact iff_of_true rfl (d.describes_allowed current describes)
  · rw [there]
    exact d.describes_yields current describes
  · rw [there, shown]

theorem rejected_by_rules (refused : match h.own? id key with
      | none => (h.object id).extensible = false
      | some current => ¬ d.Allowed current) : h.DefinedByRules id key d false h := by
  refine ⟨iff_of_false Bool.false_ne_true ?_, fun _ => rfl, (by rintro ⟨⟩), (by rintro ⟨⟩), apart_refl h id key⟩
  split
  · next absent =>
    rw [absent] at refused
    exact fun open' => absurd (open'.symm.trans refused) (by decide)
  · next current there =>
    rw [there] at refused
    exact refused

theorem define_own_descriptor (current : Descriptor) (there : h.own? id key = some current) :
    h.defineOrdinary id key (.ofDescriptor current) = (true, h) := by
  have keeps : h.judge id key (.ofDescriptor current) = .keep := by
    rw [judge, there]
    dsimp only
    rw [Definition.own_describes, Bool.or_true]
    rfl
  rw [defineOrdinary, keeps]

theorem judged_by_rules (known : id < h.objects.size) (oneKind : d.OneKind) :
    h.DefinedByRules id key d (h.defineOrdinary id key d).1 (h.defineOrdinary id key d).2 := by
  rw [defineOrdinary, judge]
  cases there : h.own? id key with
  | none =>
    cases extensible : (h.object id).extensible with
    | true => exact added_by_rules h id key d known oneKind there extensible
    | false => exact rejected_by_rules h id key d (by rw [there]; exact extensible)
  | some current =>
    by_cases same : (d.isEmpty || d.isWithin current) = true
    · simp only [if_pos same]
      refine kept_by_rules h id key d current there ?_
      rcases Bool.or_eq_true_iff.mp same with empty | within
      · exact d.empty_describes current empty
      · exact d.within_describes oneKind current within
    · by_cases may : d.mayChange current = true
      · simp only [if_neg same, if_pos may]
        exact changed_by_rules h id key d known oneKind current there may same
      · simp only [if_neg same, if_neg may]
        refine rejected_by_rules h id key d ?_
        rw [there]
        exact mt (d.may_change_iff oneKind current).mpr may

/-- The definition of a property follows the rules. To define a property as what it is changes nothing. -/
theorem ordinary_by_rules (known : id < h.objects.size) (oneKind : d.OneKind) :
    h.DefinedByRules id key d (h.defineOrdinary id key d).1 (h.defineOrdinary id key d).2 ∧
      ∀ current, h.own? id key = some current →
        h.defineOrdinary id key (.ofDescriptor current) = (true, h) := by
  exact ⟨judged_by_rules h id key d known oneKind, define_own_descriptor h id key⟩

end

-- A heap with one object.
def lone (o : Object) : Heap :=
  { objects := #[o] }

-- A hidden value becomes a pair of functions, of which only one is mentioned; it stays hidden.
theorem ordinary_by_rules_reshaped :
    0 < (lone { properties := .ofNames [("a", .hidden .null)] }).objects.size ∧
      Definition.OneKind { setter := some (some 0) } ∧
      (lone { properties := .ofNames [("a", .hidden .null)] }).DefinedByRules 0 (.name "a") { setter := some (some 0) } true
        (lone { properties := .ofNames [("a", .accessor none (some 0) false true)] }) := by
  exact ⟨by decide, (by rintro ⟨⟩),
    (ordinary_by_rules (lone { properties := .ofNames [("a", .hidden .null)] }) 0 (.name "a") { setter := some (some 0) }
      (by decide) (by rintro ⟨⟩)).1⟩

end Heap

end Ecma
