import Ecma.Number.Word
import Ecma.Proofs.Heap.Lock

set_option autoImplicit false

/-!
The changes that running code makes to a heap. Each keeps what is not configurable, in a heap where arrays
have a permanent length and where parameters of arguments objects can be written; and it leaves such a heap
behind.
-/

namespace Ecma.Heap

-- What an array takes for its length is a number; anything else is converted before.
def Fits (h : Heap) (id : ObjectId) (key : PropertyKey) (d : Definition) : Prop :=
  h.isArray id = true → key = .length → d.value = none ∨ ∃ x, d.value = some (.number x)

inductive Edit : Heap → Heap → Prop
  | object (h : Heap) (o : Object) (lengthy : o.Lengthy) (writable : o.Writable) : Edit h (h.addObject o).2
  | environment (h : Heap) (e : Environment) : Edit h (h.addEnvironment e).2
  | frame (h : Heap) (frame : Array Value) : Edit h (h.addFrame frame).2
  | slot (h : Heap) (frame : FrameId) (index : Nat) (v : Value) : Edit h (h.setSlot frame index v)
  | bindings (h : Heap) (env : EnvironmentId) (f : Bindings → Bindings) : Edit h (h.modifyBindings env f)
  | define (h : Heap) (id : ObjectId) (key : PropertyKey) (d : Definition) (oneKind : d.OneKind)
      (fits : h.Fits id key d) : Edit h (h.define id key d).2
  | length (h : Heap) (id : ObjectId) (d : Definition) (length : Nat) (old : Nat × Bool)
      (isValue : d.isAccessor = false) : Edit h (h.defineLength id d length old).2
  | delete (h : Heap) (id : ObjectId) (key : PropertyKey) : Edit h (h.delete id key).2
  | close (h : Heap) (id : ObjectId) : Edit h (h.preventExtensions id)
  | override (h : Heap) (v : Value) :
      Edit h (h.store Intrinsic.errorConstructor (.name "stackTraceLimit") (.free v))
  -- A function that has just been made gets the rest of its properties.
  | append (h : Heap) (id : ObjectId) (more : Dictionary Descriptor)
      (isFunction : (h.callable? id).isSome = true) (opened : (h.object id).extensible = true) :
      Edit h (h.modifyProperties id fun t => { t with names := t.names ++ more })

theorem alias_mapped (h : Heap) (id : ObjectId) (i : Nat) :
    h.alias? id (.index i) = (h.object id).kind.mapped.lookup i := by
  simp only [alias?, Heap.kind]
  cases (h.object id).kind <;> rfl

theorem alias_name (h : Heap) (id : ObjectId) (s : String) : h.alias? id (.name s) = none := by
  simp only [alias?]
  cases h.kind id <;> rfl

-- A change that leaves a sound heap sound and keeps what is not configurable.
structure Evolves (h k : Heap) : Prop where
  sound : k.Sound
  keeps : h.Keeps k

theorem evolves_refl (h : Heap) (sound : h.Sound) : h.Evolves h := by
  exact ⟨sound, h.keeps_refl⟩

theorem evolves_trans (h k l : Heap) (first : h.Evolves k) (second : k.Evolves l) : h.Evolves l := by
  exact ⟨second.sound, h.keeps_trans k l first.keeps second.keeps⟩

/-! Changes of one object. -/

section

variable (h : Heap) (sound : h.Sound)
include sound

theorem evolves_same_objects (k : Heap) (same : k.objects = h.objects) : h.Evolves k := by
  have objects (id : ObjectId) : k.object id = h.object id := by
    rw [object, object, same]
  have after : k.Sound := by
    refine ⟨fun id other => ?_, fun id => ?_⟩
    · rw [objects]
      exact sound.lengthy id other
    · rw [objects]
      exact sound.writable id
  refine ⟨after, keeps_of_objects h k sound after fun id => ?_⟩
  rw [objects]
  exact Object.keeps_refl _ _ _

theorem evolves_modify (id : ObjectId) (f : Object → Object)
    (lengthy : id ≠ Intrinsic.arrayPrototype → (h.object id).Lengthy → (f (h.object id)).Lengthy)
    (writable : (f (h.object id)).Writable)
    (keeps : (h.object id).Keeps (f (h.object id)) (Loose id) (Overridden id)) :
    h.Evolves (h.modifyObject id f) := by
  have objects (other : ObjectId) : (h.modifyObject id f).object other = h.object other ∨
      other = id ∧ (h.modifyObject id f).object other = f (h.object id) := by
    rw [object_modify]
    by_cases same : id = other ∧ id < h.objects.size
    · rw [if_pos same, ← same.1]
      exact .inr ⟨rfl, rfl⟩
    · exact .inl (if_neg same)
  have after : (h.modifyObject id f).Sound := by
    refine ⟨fun other special => ?_, fun other => ?_⟩
    · rcases objects other with same | ⟨rfl, same⟩
      · rw [same]
        exact sound.lengthy other special
      · rw [same]
        exact lengthy special (sound.lengthy _ special)
    · rcases objects other with same | ⟨rfl, same⟩
      · rw [same]
        exact sound.writable other
      · rw [same]
        exact writable
  refine ⟨after, keeps_of_objects h _ sound after fun other => ?_⟩
  rcases objects other with same | ⟨rfl, same⟩
  · rw [same]
    exact Object.keeps_refl _ _ _
  · rw [same]
    exact keeps

theorem evolves_add (o : Object) (lengthy : o.Lengthy) (writable : o.Writable) :
    h.Evolves (h.addObject o).2 := by
  have objects (id : ObjectId) : (h.addObject o).2.object id = h.object id ∨
      h.object id = default ∧ (h.addObject o).2.object id = o := by
    rw [object_add]
    by_cases new : id = h.objects.size
    · rw [if_pos new]
      exact .inr ⟨object_unknown h id (new ▸ Nat.lt_irrefl _), rfl⟩
    · exact .inl (if_neg new)
  have after : (h.addObject o).2.Sound := by
    refine ⟨fun id special => ?_, fun id => ?_⟩
    · rcases objects id with same | ⟨_, same⟩
      · rw [same]
        exact sound.lengthy id special
      · rw [same]
        exact lengthy
    · rcases objects id with same | ⟨_, same⟩
      · rw [same]
        exact sound.writable id
      · rw [same]
        exact writable
  refine ⟨after, keeps_of_objects h _ sound after fun id => ?_⟩
  rcases objects id with same | ⟨nothing, same⟩
  · rw [same]
    exact Object.keeps_refl _ _ _
  · -- before, there was an object without properties that takes any
    rw [nothing]
    refine ⟨fun key d _ _ there _ => ?_, fun closed => ?_⟩
    · have empty : (default : Object).own? key = none := by
        cases key with
        | index i => exact Std.TreeMap.getElem?_emptyc
        | name s => rfl
      rw [empty] at there
      cases there
    · cases closed

/-! Defining. -/

theorem evolves_store (id : ObjectId) (key : PropertyKey) (d : Descriptor) (absent : h.own? id key = none)
    (opened : (h.object id).extensible = true) : h.Evolves (h.store id key d) := by
  rw [own_none] at absent
  have missing : (h.object id).properties.find? key = none := by
    rw [Object.own?] at absent
    split at absent
    · exact (Option.or_eq_none_iff.mp absent).1
    · exact absent
  refine evolves_modify h sound id _ (fun _ lengthy isArray => ?_) (fun i a mapped => ?_) ?_
  · obtain ⟨x, w, e, found⟩ := lengthy isArray
    refine ⟨x, w, e, ?_⟩
    rw [PropertyTable.find_insert, if_neg]
    · exact found
    · intro same
      rw [← same, missing] at found
      cases found
  · obtain ⟨v, e, c, found⟩ := sound.writable id i a mapped
    refine ⟨v, e, c, ?_⟩
    rw [PropertyTable.find_insert, if_neg]
    · exact found
    · intro same
      rw [← same, missing] at found
      cases found
  · exact Object.keeps_insert _ _ _ key d (.inl ⟨absent, opened⟩)

-- What is stored under a key of which the heap shows a property.
theorem stored_of_own (id : ObjectId) (key : PropertyKey) (current stored : Descriptor)
    (there : h.own? id key = some current) (found : (h.object id).properties.find? key = some stored) :
    current = stored ∨ stored.writable = true ∧ ∃ v, current = stored.withValue v := by
  obtain ⟨own, same, alike⟩ := own_some h id key (sound.writable id) current there
  have whole : (h.object id).own? key = some stored := by
    simp only [Object.own?, found, Option.some_or]
    cases (h.object id).kind <;> rfl
  cases whole.symm.trans same
  exact alike

section

variable (id : ObjectId) (key : PropertyKey) (d : Definition) (current : Descriptor)
  (oneKind : d.OneKind) (fits : h.Fits id key d) (there : h.own? id key = some current)
  (may : d.mayChange current = true) (changes : ¬ (d.isEmpty || d.isWithin current) = true)
include oneKind there may changes

theorem apply_keeps_object : (h.object id).Keeps
    { h.object id with properties := (h.object id).properties.modify key d.apply } (Loose id) (Overridden id) := by
  refine Object.keeps_modify _ _ _ key _ fun stored _ found fixed => ?_
  have alike := stored_of_own h sound id key current stored there found
  obtain ⟨v, e, was, is⟩ := d.apply_permanent current stored oneKind fixed alike may changes
  rw [was] at is ⊢
  rw [is]
  exact Descriptor.keeps_writable _ _ _ _

include fits in
theorem apply_lengthy (special : id ≠ Intrinsic.arrayPrototype) :
    ({ h.object id with properties := (h.object id).properties.modify key d.apply } : Object).Lengthy := by
  intro isArray
  obtain ⟨x, w, e, found⟩ := sound.lengthy id special isArray
  by_cases isLength : key = .length
  · subst isLength
    have alike := stored_of_own h sound id .length current _ there found
    obtain ⟨v, e', was, is⟩ := d.apply_permanent current _ oneKind rfl alike may changes
    cases was
    have number : ∃ y, d.value.getD (.number x) = .number y := by
      rcases fits isArray rfl with none' | ⟨y, some'⟩
      · exact ⟨x, by rw [none']; rfl⟩
      · exact ⟨y, by rw [some']; rfl⟩
    obtain ⟨y, number⟩ := number
    refine ⟨y, d.writable.getD true, e, ?_⟩
    rw [PropertyTable.find_modify, if_pos rfl, found, Option.map_some, is, number]
  · refine ⟨x, w, e, ?_⟩
    rw [PropertyTable.find_modify, if_neg isLength]
    exact found

omit oneKind there may changes in
-- The parameter behind an index goes on if the index stays a value that can be written.
theorem apply_writable_object
    (still : ∀ i a stored, key = .index i → (h.object id).kind.mapped.lookup i = some a →
      (h.object id).properties.find? key = some stored → ∃ v e c, d.apply stored = .data v true e c) :
    ({ h.object id with properties := (h.object id).properties.modify key d.apply } : Object).Writable := by
  intro i a mapped
  obtain ⟨v, e, c, found⟩ := sound.writable id i a mapped
  by_cases same : key = .index i
  · obtain ⟨v', e', c', is⟩ := still i a _ same mapped (same ▸ found)
    refine ⟨v', e', c', ?_⟩
    rw [PropertyTable.find_modify, if_pos same, found, Option.map_some, is]
  · refine ⟨v, e, c, ?_⟩
    rw [PropertyTable.find_modify, if_neg same]
    exact found

include fits in
theorem evolves_apply
    (still : ∀ i a stored, key = .index i → (h.object id).kind.mapped.lookup i = some a →
      (h.object id).properties.find? key = some stored → ∃ v e c, d.apply stored = .data v true e c) :
    h.Evolves (h.modifyProperties id fun t => t.modify key d.apply) := by
  exact evolves_modify h sound id _
    (fun special _ => apply_lengthy h sound id key d current oneKind fits there may changes special)
    (apply_writable_object h sound id key d still)
    (apply_keeps_object h sound id key d current oneKind there may changes)

end

omit sound in
-- What a definition by the rules for all objects does.
theorem define_ordinary_is (id : ObjectId) (key : PropertyKey) (d : Definition) :
    (h.own? id key = none ∧ (h.object id).extensible = true ∧
        h.defineOrdinary id key d = (true, h.store id key d.create)) ∨
      (∃ current, h.own? id key = some current ∧ d.mayChange current = true ∧
        ¬ (d.isEmpty || d.isWithin current) = true ∧
        h.defineOrdinary id key d = (true, h.modifyProperties id fun t => t.modify key d.apply)) ∨
      h.defineOrdinary id key d = (true, h) ∨ h.defineOrdinary id key d = (false, h) := by
  rw [defineOrdinary, judge]
  cases there : h.own? id key with
  | none =>
    cases opened : (h.object id).extensible with
    | true => exact .inl ⟨rfl, rfl, rfl⟩
    | false => exact .inr (.inr (.inr rfl))
  | some current =>
    by_cases same : (d.isEmpty || d.isWithin current) = true
    · exact .inr (.inr (.inl (by simp only [if_pos same])))
    · by_cases may : d.mayChange current = true
      · exact .inr (.inl ⟨current, rfl, may, same, by simp only [if_neg same, if_pos may]⟩)
      · exact .inr (.inr (.inr (by simp only [if_neg same, if_neg may])))

theorem evolves_ordinary (id : ObjectId) (key : PropertyKey) (d : Definition) (oneKind : d.OneKind)
    (fits : h.Fits id key d) (free : h.alias? id key = none) : h.Evolves (h.defineOrdinary id key d).2 := by
  rcases define_ordinary_is h id key d with ⟨absent, opened, is⟩ | ⟨current, there, may, changes, is⟩ | is | is
  · rw [is]
    exact evolves_store h sound id key d.create absent opened
  · rw [is]
    refine evolves_apply h sound id key d current oneKind fits there may changes fun i a _ same mapped _ => ?_
    subst same
    have aliased : h.alias? id (.index i) = some a := by
      rw [alias_mapped]
      exact mapped
    rw [aliased] at free
    cases free
  · rw [is]
    exact evolves_refl h sound
  · rw [is]
    exact evolves_refl h sound

end

/-! Arguments objects. -/

-- An object whose index stands for its parameter no longer.
def unmapped (i : Nat) (o : Object) : Object :=
  match o.kind with
  | .arguments mapped => { o with kind := .arguments (mapped.filter fun entry => entry.1 != i) }
  | _ => o

theorem unmapped_properties (i : Nat) (o : Object) : (unmapped i o).properties = o.properties := by
  rw [unmapped]
  split <;> rfl

theorem unmapped_array (i : Nat) (o : Object) : (unmapped i o).kind.isArray = o.kind.isArray := by
  rw [unmapped]
  split
  · simp [*, ObjectKind.isArray]
  · rfl

theorem lookup_filter (mapped : List (Nat × Alias)) (i j : Nat) :
    (mapped.filter fun entry => entry.1 != i).lookup j = if j = i then none else mapped.lookup j := by
  induction mapped with
  | nil => simp
  | cons entry rest hyp =>
    obtain ⟨k, a⟩ := entry
    by_cases same : k = i
    · subst same
      by_cases here : j = k
      · subst here
        simpa using hyp
      · have differs : (j == k) = false := beq_eq_false_iff_ne.mpr here
        simp [List.lookup_cons, hyp, here, differs]
    · by_cases here : j = k
      · subst here
        simp [same]
      · have differs : (j == k) = false := beq_eq_false_iff_ne.mpr here
        simp [same, List.lookup_cons, hyp, differs]

theorem lookup_unmapped (i j : Nat) (o : Object) :
    (unmapped i o).kind.mapped.lookup j = if j = i then none else o.kind.mapped.lookup j := by
  rw [unmapped]
  split
  · next mapped kind => simp only [ObjectKind.mapped, kind, lookup_filter]
  · next other =>
    have nothing : o.kind.mapped = [] := by
      cases kind : o.kind with
      | arguments mapped => exact absurd kind (other mapped)
      | _ => rfl
    rw [nothing]
    split <;> rfl

theorem unmapped_lookup (i j : Nat) (a : Alias) (o : Object) (found : (unmapped i o).kind.mapped.lookup j = some a) :
    j ≠ i ∧ o.kind.mapped.lookup j = some a := by
  rw [lookup_unmapped] at found
  by_cases same : j = i
  · rw [if_pos same] at found
    cases found
  · rw [if_neg same] at found
    exact ⟨same, found⟩

theorem keeps_unmapped (i : Nat) (o : Object) (loose overridden : PropertyKey → Prop) :
    o.Keeps (unmapped i o) loose overridden := by
  rw [unmapped]
  split
  · next mapped kind => exact o.keeps_mapped _ _ mapped _ kind
  · exact o.keeps_refl _ _

theorem unmap_index (h : Heap) (id : ObjectId) (i : Nat) : h.unmap id (.index i) = h.modifyObject id (unmapped i) := by
  rfl

theorem modify_twice (h : Heap) (id : ObjectId) (f g : Object → Object) :
    (h.modifyObject id f).modifyObject id g = h.modifyObject id fun o => g (f o) := by
  simp only [modifyObject, Heap.mk.injEq, and_true, and_self]
  apply Array.ext
  · simp only [Array.size_modify]
  · intro i inside inside'
    simp only [Array.getElem_modify]
    split <;> rfl

theorem write_alias_objects (h : Heap) (a : Alias) (v : Value) : (h.writeAlias a v).objects = h.objects := by
  cases a <;> rfl

theorem write_alias_unmap (h : Heap) (a : Alias) (v : Value) (id : ObjectId) (key : PropertyKey) :
    (h.writeAlias a v).unmap id key = (h.unmap id key).writeAlias a v := by
  cases key <;> cases a <;> rfl

section

variable (h : Heap) (sound : h.Sound)
include sound

theorem evolves_unmap (id : ObjectId) (key : PropertyKey) : h.Evolves (h.unmap id key) := by
  cases key with
  | name s => exact evolves_refl h sound
  | index i =>
    rw [unmap_index]
    refine evolves_modify h sound id _ (fun _ lengthy isArray => ?_) (fun j a found => ?_)
      (keeps_unmapped i _ _ _)
    · rw [unmapped_array] at isArray
      rw [unmapped_properties]
      exact lengthy isArray
    · rw [unmapped_properties]
      exact sound.writable id j a (unmapped_lookup i j a _ found).2

-- An index is unmapped together with a change of its property, which may make it read-only.
theorem evolves_apply_unmap (id : ObjectId) (i : Nat) (d : Definition) (current : Descriptor)
    (oneKind : d.OneKind) (there : h.own? id (.index i) = some current) (may : d.mayChange current = true)
    (changes : ¬ (d.isEmpty || d.isWithin current) = true) :
    h.Evolves ((h.modifyProperties id fun t => t.modify (.index i) d.apply).unmap id (.index i)) := by
  rw [unmap_index, modifyProperties, modify_twice]
  refine evolves_modify h sound id _ (fun _ lengthy isArray => ?_) (fun j a found => ?_) ?_
  · rw [unmapped_array] at isArray
    obtain ⟨x, w, e, found⟩ := lengthy isArray
    refine ⟨x, w, e, ?_⟩
    rw [unmapped_properties, PropertyTable.find_modify, if_neg PropertyKey.noConfusion]
    exact found
  · obtain ⟨other, mapped⟩ := unmapped_lookup i j a _ found
    obtain ⟨v, e, c, found⟩ := sound.writable id j a mapped
    refine ⟨v, e, c, ?_⟩
    rw [unmapped_properties, PropertyTable.find_modify, if_neg]
    · exact found
    · exact fun same => other (PropertyKey.index.inj same).symm
  · exact Object.keeps_trans _ _ _ _ _
      (apply_keeps_object h sound id (.index i) d current oneKind there may changes) (keeps_unmapped i _ _ _)

omit sound in
theorem freeze_one_kind (id : ObjectId) (key : PropertyKey) (d : Definition) (oneKind : d.OneKind) :
    (h.freezeAliased id key d).OneKind := by
  rw [freezeAliased]
  split
  · next frozen =>
    simp only [Bool.and_eq_true, decide_eq_true_eq] at frozen
    have isValue : d.isAccessor = false := oneKind (by simp [Definition.isData, frozen.2])
    split
    · exact fun _ => by rw [Definition.with_value_accessor, isValue]
    · exact oneKind
  · exact oneKind

omit sound in
-- Freezing reads the value of the parameter and says nothing else.
theorem freeze_writable (id : ObjectId) (key : PropertyKey) (d : Definition) :
    (h.freezeAliased id key d).writable = d.writable ∧ (h.freezeAliased id key d).isAccessor = d.isAccessor := by
  rw [freezeAliased]
  split
  · split
    · exact ⟨rfl, d.with_value_accessor _⟩
    · exact ⟨rfl, rfl⟩
  · exact ⟨rfl, rfl⟩

theorem evolves_follow (id : ObjectId) (key : PropertyKey) (a : Alias) (d : Definition) :
    h.Evolves (h.followAlias id key a d) := by
  rw [followAlias]
  split
  · exact evolves_unmap h sound id key
  · have written : ∀ v, h.Evolves (h.writeAlias a v) := fun v =>
      evolves_same_objects h sound _ (write_alias_objects h a v)
    cases d.value with
    | none =>
      dsimp only
      split
      · exact evolves_unmap h sound id key
      · exact evolves_refl h sound
    | some v =>
      dsimp only
      split
      · exact evolves_trans h _ _ (written v) (evolves_unmap _ (written v).sound id key)
      · exact written v

-- The parameter follows a change of its element, unless it is given up.
theorem evolves_apply_follow (id : ObjectId) (i : Nat) (a : Alias) (d : Definition) (current : Descriptor)
    (oneKind : d.OneKind) (fits : h.Fits id (.index i) d) (mapped : (h.object id).kind.mapped.lookup i = some a)
    (there : h.own? id (.index i) = some current) (may : d.mayChange current = true)
    (changes : ¬ (d.isEmpty || d.isWithin current) = true) :
    h.Evolves ((h.modifyProperties id fun t => t.modify (.index i) d.apply).followAlias id (.index i) a d) := by
  have gone := evolves_apply_unmap h sound id i d current oneKind there may changes
  rw [followAlias]
  by_cases functions : d.isAccessor = true
  · rw [if_pos functions]
    exact gone
  rw [if_neg functions]
  by_cases readOnly : d.writable = some false
  · simp only [if_pos readOnly]
    cases d.value with
    | none => exact gone
    | some v =>
      dsimp only
      rw [write_alias_unmap]
      exact evolves_trans h _ _ gone (evolves_same_objects _ gone.sound _ (write_alias_objects _ a v))
  · obtain ⟨v, e, c, stored⟩ := sound.writable id i a mapped
    have stays := evolves_apply h sound id (.index i) d current oneKind fits there may changes
      fun _ _ was _ _ found => by
        cases stored.symm.trans found
        exact d.apply_stays_writable v e c (eq_false_of_ne_true functions) readOnly
    simp only [if_neg readOnly]
    cases d.value with
    | none => exact stays
    | some v => exact evolves_trans h _ _ stays (evolves_same_objects _ stays.sound _ (write_alias_objects _ a v))

theorem evolves_argument (id : ObjectId) (key : PropertyKey) (d : Definition) (oneKind : d.OneKind)
    (isArguments : h.isArray id = false) : h.Evolves (h.defineArgument id key d).2 := by
  have fits (d : Definition) : h.Fits id key d :=
    fun array => absurd array (by rw [isArguments]; exact Bool.false_ne_true)
  rw [defineArgument]
  cases aliased : h.alias? id key with
  | none => exact evolves_ordinary h sound id key d oneKind (fits d) aliased
  | some a =>
    cases key with
    | name s =>
      rw [alias_name] at aliased
      cases aliased
    | index i =>
      rw [alias_mapped] at aliased
      have frozen := freeze_one_kind h id (.index i) d oneKind
      dsimp only
      generalize h.freezeAliased id (.index i) d = d at frozen ⊢
      rcases define_ordinary_is h id (.index i) d with
        ⟨absent, opened, is⟩ | ⟨current, there, may, changes, is⟩ | is | is
      · rw [is]
        have stored := evolves_store h sound id (.index i) d.create absent opened
        exact evolves_trans h _ _ stored (evolves_follow _ stored.sound id (.index i) a d)
      · rw [is]
        exact evolves_apply_follow h sound id i a d current frozen (fits d) aliased there may changes
      · rw [is]
        exact evolves_follow h sound id (.index i) a d
      · rw [is]
        exact evolves_refl h sound

/-! Arrays. -/

omit sound in
theorem modify_properties_object (id other : ObjectId) (f : PropertyTable → PropertyTable) :
    (h.modifyProperties id f).object other = if id = other ∧ id < h.objects.size then
      { h.object other with properties := f (h.object other).properties } else h.object other := by
  exact object_modify h id other _

omit sound in
-- A definition by the rules for all objects concerns one key.
theorem define_ordinary_other (id : ObjectId) (key other : PropertyKey) (d : Definition) (distinct : key ≠ other) :
    ((h.defineOrdinary id key d).2.object id).kind = (h.object id).kind ∧
      ((h.defineOrdinary id key d).2.object id).properties.find? other = (h.object id).properties.find? other := by
  rcases define_ordinary_is h id key d with ⟨_, _, is⟩ | ⟨_, _, _, _, is⟩ | is | is
  · rw [is]
    dsimp only [store]
    rw [modify_properties_object]
    split
    · exact ⟨rfl, by rw [PropertyTable.find_insert, if_neg distinct]⟩
    · exact ⟨rfl, rfl⟩
  · rw [is]
    dsimp only
    rw [modify_properties_object]
    split
    · exact ⟨rfl, by rw [PropertyTable.find_modify, if_neg distinct]⟩
    · exact ⟨rfl, rfl⟩
  · rw [is]
    exact ⟨rfl, rfl⟩
  · rw [is]
    exact ⟨rfl, rfl⟩

-- The length of an array follows its elements, if it can be written.
theorem evolves_lengthen (id : ObjectId) (length : Nat) (isArray : (h.object id).kind.isArray = true)
    (writable : id ≠ Intrinsic.arrayPrototype → ∀ x w e,
      (h.object id).properties.find? .length = some (.data (.number x) w e false) → w = true) :
    h.Evolves (h.modifyProperties id fun t => t.modify .length (·.withValue (.ofNat length))) := by
  refine evolves_modify h sound id _ (fun special lengthy _ => ?_) (fun i a mapped => ?_) ?_
  · obtain ⟨x, w, e, found⟩ := lengthy isArray
    refine ⟨Float.ofNat length, w, e, ?_⟩
    rw [PropertyTable.find_modify, if_pos rfl, found]
    rfl
  · obtain ⟨v, e, c, found⟩ := sound.writable id i a mapped
    refine ⟨v, e, c, ?_⟩
    rw [PropertyTable.find_modify, if_neg PropertyKey.noConfusion]
    exact found
  · refine Object.keeps_modify _ _ _ _ _ fun stored loosened found fixed => ?_
    have special : id ≠ Intrinsic.arrayPrototype := fun same => loosened ⟨same, rfl⟩
    obtain ⟨x, w, e, known⟩ := sound.lengthy id special isArray
    cases known.symm.trans found
    cases writable special x w e known
    exact Descriptor.keeps_writable _ _ _ _

omit sound in
theorem array_own (id : ObjectId) (key : PropertyKey) (isArray : (h.object id).kind.isArray = true) :
    h.own? id key = (h.object id).properties.find? key := by
  rw [own?]
  cases kind : (h.object id).kind with
  | array => rfl
  | _ => simp [kind, ObjectKind.isArray] at isArray

theorem evolves_element (id : ObjectId) (i : Nat) (d : Definition) (oneKind : d.OneKind)
    (isArray : (h.object id).kind.isArray = true) : h.Evolves (h.defineElement id i d).2 := by
  have fits : h.Fits id (.index i) d := fun _ same => PropertyKey.noConfusion same
  have free : h.alias? id (.index i) = none := by
    rw [alias_mapped]
    cases kind : (h.object id).kind with
    | arguments mapped => simp [kind, ObjectKind.isArray] at isArray
    | _ => rfl
  have defined := evolves_ordinary h sound id (.index i) d oneKind fits free
  have same := define_ordinary_other h id (.index i) .length d PropertyKey.noConfusion
  rw [defineElement]
  generalize read : h.lengthOf id = old
  obtain ⟨length, lengthWritable⟩ := old
  dsimp only
  split
  · exact evolves_refl h sound
  · next room =>
    generalize h.defineOrdinary id (.index i) d = outcome at defined same
    obtain ⟨accepted, after⟩ := outcome
    cases accepted with
    | false => exact defined
    | true =>
      dsimp only
      split
      · next longer =>
        refine evolves_trans h after _ defined (evolves_lengthen after defined.sound id (i + 1) ?_ ?_)
        · rw [same.1]
          exact isArray
        · intro _ x w e found
          rw [same.2] at found
          rw [lengthOf, array_own h id .length isArray, found] at read
          cases read
          simpa [longer] using room
      · exact defined

/-! Deleting. -/

theorem erase_keeps_object (id : ObjectId) (key : PropertyKey) (d : Descriptor) (there : h.own? id key = some d)
    (free : d.configurable = true) : (h.object id).Keeps
      { h.object id with properties := (h.object id).properties.erase key } (Loose id) (Overridden id) := by
  obtain ⟨stored, own, alike⟩ := own_some h id key (sound.writable id) d there
  refine Object.keeps_erase _ _ _ key stored own ?_
  rcases alike with same | ⟨_, v, same⟩
  · rw [← same]
    exact free
  · rw [same, Descriptor.with_value_configurable] at free
    exact free

theorem evolves_erase (id : ObjectId) (key : PropertyKey) (d : Descriptor) (there : h.own? id key = some d)
    (free : d.configurable = true) :
    h.Evolves ((h.modifyProperties id fun t => t.erase key).unmap id key) := by
  have keeps := erase_keeps_object h sound id key d there free
  cases key with
  | name s =>
    refine evolves_modify h sound id _ (fun special _ isArray => ?_) (fun i a mapped => ?_) keeps
    · obtain ⟨x, w, e, found⟩ := sound.lengthy id special isArray
      refine ⟨x, w, e, ?_⟩
      rw [PropertyTable.find_erase]
      · exact found
      · -- the length of an array is permanent
        intro same
        rw [same, array_own h id .length isArray, found] at there
        cases there
        cases free
    · obtain ⟨v, e, c, found⟩ := sound.writable id i a mapped
      exact ⟨v, e, c, (PropertyTable.find_erase _ _ _ PropertyKey.noConfusion).trans found⟩
  | index i =>
    rw [unmap_index, modifyProperties, modify_twice]
    refine evolves_modify h sound id _ (fun _ lengthy isArray => ?_) (fun j a found => ?_) ?_
    · rw [unmapped_array] at isArray
      obtain ⟨x, w, e, found⟩ := lengthy isArray
      refine ⟨x, w, e, ?_⟩
      rw [unmapped_properties]
      exact (PropertyTable.find_erase _ _ _ PropertyKey.noConfusion).trans found
    · obtain ⟨other, mapped⟩ := unmapped_lookup i j a _ found
      obtain ⟨v, e, c, found⟩ := sound.writable id j a mapped
      refine ⟨v, e, c, ?_⟩
      rw [unmapped_properties]
      refine (PropertyTable.find_erase _ _ _ fun same => ?_).trans found
      exact other (PropertyKey.index.inj same).symm
    · exact Object.keeps_trans _ _ _ _ _ keeps (keeps_unmapped i _ _ _)

theorem evolves_delete (id : ObjectId) (key : PropertyKey) : h.Evolves (h.delete id key).2 := by
  rw [delete]
  split
  · exact evolves_refl h sound
  · next d there =>
    split
    · next free => exact evolves_erase h sound id key d there free
    · exact evolves_refl h sound

theorem evolves_delete_elements (id : ObjectId) (keys : List Nat) : h.Evolves (h.deleteElements id keys).2 := by
  induction keys generalizing h with
  | nil => exact evolves_refl h sound
  | cons i rest hyp =>
    have gone := evolves_delete h sound id (.index i)
    rw [deleteElements]
    generalize h.delete id (.index i) = outcome at gone
    obtain ⟨accepted, after⟩ := outcome
    cases accepted with
    | true => exact evolves_trans h after _ gone (hyp after gone.sound)
    | false => exact gone

/-! Lengths. -/

theorem evolves_length_to (id : ObjectId) (d : Definition) (numeric : d.Numeric) :
    h.Evolves (h.defineOrdinary id .length d).2 := by
  exact evolves_ordinary h sound id .length d (fun _ => numeric.isValue) (fun _ _ => numeric.number)
    (alias_name h id "length")

theorem evolves_shrink (id : ObjectId) (d : Definition) (length : Nat) (numeric : d.Numeric) :
    h.Evolves (h.shrink id d length).2 := by
  rw [shrink]
  dsimp only
  have first : (if d.writable = some false then d.withWritable true else d).Numeric := by
    split
    · exact numeric.with_writable d true
    · exact numeric
  generalize (if d.writable = some false then d.withWritable true else d) = e at first ⊢
  have defined := evolves_length_to h sound id e first
  generalize h.defineOrdinary id .length e = outcome at defined ⊢
  obtain ⟨accepted, shorter⟩ := outcome
  cases accepted with
  | false => exact defined
  | true =>
    have gone := evolves_delete_elements shorter defined.sound id (shorter.elementsFrom id length)
    dsimp only at defined ⊢
    generalize shorter.deleteElements id (shorter.elementsFrom id length) = outcome at gone ⊢
    obtain ⟨stays, rest⟩ := outcome
    have between := evolves_trans h shorter rest defined gone
    cases stays with
    | none =>
      dsimp only
      split
      · exact evolves_trans h rest _ between (evolves_length_to rest gone.sound id _ ⟨rfl, .inl rfl⟩)
      · exact between
    | some i =>
      refine evolves_trans h rest _ between (evolves_length_to rest gone.sound id _ ?_)
      have stuck : (e.withValue (.ofNat (i + 1))).Numeric := first.with_value e _
      split
      · exact stuck.with_writable _ false
      · exact stuck

theorem evolves_length (id : ObjectId) (d : Definition) (length : Nat) (old : Nat × Bool)
    (isValue : d.isAccessor = false) : h.Evolves (h.defineLength id d length old).2 := by
  have numeric : (d.withValue (.ofNat length)).Numeric :=
    ⟨(d.with_value_accessor _).trans isValue, .inr ⟨_, rfl⟩⟩
  rw [defineLength]
  split
  · exact evolves_length_to h sound id _ numeric
  · split
    · exact evolves_refl h sound
    · exact evolves_shrink h sound id _ length numeric

/-! All changes. -/

theorem evolves_define (id : ObjectId) (key : PropertyKey) (d : Definition) (oneKind : d.OneKind)
    (fits : h.Fits id key d) : h.Evolves (h.define id key d).2 := by
  have ordinary (free : h.alias? id key = none) := evolves_ordinary h sound id key d oneKind fits free
  cases kind : h.kind id with
  | array =>
    cases key with
    | index i =>
      simp only [define, kind]
      exact evolves_element h sound id i d oneKind (congrArg ObjectKind.isArray kind)
    | name s =>
      simp only [define, kind]
      exact ordinary (alias_name h id s)
  | arguments mapped =>
    simp only [define, kind]
    exact evolves_argument h sound id key d oneKind (by rw [isArray, kind])
  | _ =>
    simp only [define, kind]
    exact ordinary (by simp only [alias?, kind])

theorem evolves_close (id : ObjectId) : h.Evolves (h.preventExtensions id) := by
  exact evolves_modify h sound id _ (fun _ lengthy => lengthy) (sound.writable id) (Object.keeps_closed _ _ _)

theorem evolves_override (v : Value) :
    h.Evolves (h.store Intrinsic.errorConstructor (.name "stackTraceLimit") (.free v)) := by
  refine evolves_modify h sound _ _ (fun _ lengthy isArray => ?_) (fun i a mapped => ?_)
    (Object.keeps_insert _ _ _ _ _ (.inr ⟨rfl, rfl⟩))
  · obtain ⟨x, w, e, found⟩ := lengthy isArray
    refine ⟨x, w, e, ?_⟩
    rw [PropertyTable.find_insert, if_neg (by decide)]
    exact found
  · obtain ⟨v, e, c, found⟩ := sound.writable _ i a mapped
    refine ⟨v, e, c, ?_⟩
    rw [PropertyTable.find_insert, if_neg PropertyKey.noConfusion]
    exact found

theorem evolves_append (id : ObjectId) (more : Dictionary Descriptor)
    (isFunction : (h.callable? id).isSome = true) (opened : (h.object id).extensible = true) :
    h.Evolves (h.modifyProperties id fun t => { t with names := t.names ++ more }) := by
  have kind : ∃ f, (h.object id).kind = .function f := by
    rw [callable?, Heap.kind] at isFunction
    cases kind : (h.object id).kind with
    | function f => exact ⟨f, rfl⟩
    | _ => simp [kind, ObjectKind.callable?] at isFunction
  obtain ⟨f, kind⟩ := kind
  refine evolves_modify h sound id _ (fun _ _ isArray => ?_) (fun i a mapped => ?_)
    (Object.keeps_append _ _ _ more opened)
  · simp [kind, ObjectKind.isArray] at isArray
  · simp [kind, ObjectKind.mapped] at mapped

end

theorem edit_evolves (h k : Heap) (edit : Edit h k) (sound : h.Sound) : h.Evolves k := by
  cases edit with
  | object o lengthy writable => exact evolves_add h sound o lengthy writable
  | environment e => exact evolves_same_objects h sound _ rfl
  | frame frame => exact evolves_same_objects h sound _ rfl
  | slot frame index v => exact evolves_same_objects h sound _ rfl
  | bindings env f => exact evolves_same_objects h sound _ rfl
  | define id key d oneKind fits => exact evolves_define h sound id key d oneKind fits
  | length id d length old isValue => exact evolves_length h sound id d length old isValue
  | delete id key => exact evolves_delete h sound id key
  | close id => exact evolves_close h sound id
  | override v => exact evolves_override h sound v
  | append id more isFunction opened => exact evolves_append h sound id more isFunction opened

end Ecma.Heap

/-!
The changes that running code makes to a heap, with what is known of them: arrays are made with the length
of their elements, a value for the length of an array is converted before and fits a word.
-/

namespace Ecma

-- What an array of elements is made with.
def Object.ofItems (items : List (Option Value)) : Object :=
  { kind := .array, prototype := some Intrinsic.arrayPrototype
    properties := .ofElements [("length", .lasting (.ofNat items.length))] items }

namespace Heap

inductive Regular : Heap → Heap → Prop
  | object (h : Heap) (o : Object) (plain : o.kind.isArray = false) (writable : o.Writable) :
      Regular h (h.addObject o).2
  | array (h : Heap) (items : List (Option Value)) : Regular h (h.addObject (.ofItems items)).2
  | environment (h : Heap) (e : Environment) : Regular h (h.addEnvironment e).2
  | frame (h : Heap) (frame : Array Value) : Regular h (h.addFrame frame).2
  | slot (h : Heap) (frame : FrameId) (index : Nat) (v : Value) : Regular h (h.setSlot frame index v)
  | bindings (h : Heap) (env : EnvironmentId) (f : Bindings → Bindings) : Regular h (h.modifyBindings env f)
  | define (h : Heap) (id : ObjectId) (key : PropertyKey) (d : Definition) (oneKind : d.OneKind)
      (converted : h.isArray id = true → key = .length → d.value = none) : Regular h (h.define id key d).2
  | length (h : Heap) (id : ObjectId) (d : Definition) (length : Nat) (old : Nat × Bool)
      (isValue : d.isAccessor = false) (short : length < Number.wordCount) :
      Regular h (h.defineLength id d length old).2
  | delete (h : Heap) (id : ObjectId) (key : PropertyKey) : Regular h (h.delete id key).2
  | close (h : Heap) (id : ObjectId) : Regular h (h.preventExtensions id)
  | override (h : Heap) (v : Value) :
      Regular h (h.store Intrinsic.errorConstructor (.name "stackTraceLimit") (.free v))
  | append (h : Heap) (id : ObjectId) (more : Dictionary Descriptor)
      (isFunction : (h.callable? id).isSome = true) (opened : (h.object id).extensible = true) :
      Regular h (h.modifyProperties id fun t => { t with names := t.names ++ more })

theorem regular_edit (h k : Heap) (regular : h.Regular k) : Edit h k := by
  cases regular with
  | object o plain writable =>
    refine .object h o (fun isArray => ?_) writable
    rw [plain] at isArray
    cases isArray
  | array items =>
    refine .object h _ (fun _ => ⟨Float.ofNat items.length, true, false, rfl⟩) fun i a mapped => ?_
    cases mapped
  | environment e => exact .environment h e
  | frame frame => exact .frame h frame
  | slot frame index v => exact .slot h frame index v
  | bindings env f => exact .bindings h env f
  | define id key d oneKind converted =>
    exact .define h id key d oneKind fun isArray isLength => .inl (converted isArray isLength)
  | length id d length old isValue short => exact .length h id d length old isValue
  | delete id key => exact .delete h id key
  | close id => exact .close h id
  | override v => exact .override h v
  | append id more isFunction opened => exact .append h id more isFunction opened

end Heap

end Ecma
