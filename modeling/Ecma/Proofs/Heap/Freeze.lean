import Ecma.Builtin.Object
import Ecma.Proofs.Heap.Keys
import Ecma.Proofs.Heap.Length
import Ecma.Proofs.Heap.Ordinary
import Ecma.Proofs.Heap.Pieces

set_option autoImplicit false

/-!
Locking an object of any kind. Each property becomes permanent, and read-only if it has a value and is to be so;
its value and its functions are as before. What has been made read-only takes no change any more.
-/

namespace Ecma

namespace Descriptor

/-- What locking leaves of a property. -/
def locked (readOnly : Bool) : Descriptor → Descriptor
  | .data v w e _ => .data v (w && !readOnly) e false
  | .accessor g s e _ => .accessor g s e false

theorem locked_twice (readOnly : Bool) (d : Descriptor) : (d.locked readOnly).locked readOnly = d.locked readOnly := by
  cases d with
  | data v w e c => cases w <;> cases readOnly <;> rfl
  | accessor g s e c => rfl

-- What is locked cannot be changed, except that a value may be writable still.
theorem locked_flags (readOnly : Bool) (d : Descriptor) (is : d.locked readOnly = d) :
    d.configurable = false ∧ (readOnly = true → d.writable = false) := by
  cases d with
  | data v w e c =>
    injection is with _ writable _ configurable
    refine ⟨configurable.symm, fun frozen => ?_⟩
    rw [frozen, Bool.not_true, Bool.and_false] at writable
    exact writable.symm
  | accessor g s e c =>
    injection is with _ _ _ configurable
    exact ⟨configurable.symm, fun _ => rfl⟩

end Descriptor

section

variable (d : Descriptor) (readOnly : Bool)

theorem lock_one_kind : (lockDefinition d readOnly).OneKind := by
  exact fun _ => rfl

theorem lock_yields : (lockDefinition d readOnly).Yields (some d) (d.locked readOnly) := by
  cases d with
  | data v w e c =>
    refine ⟨(by rintro ⟨⟩), fun _ => rfl, fun _ _ => rfl, fun _ => rfl, fun _ => ?_, (by rintro ⟨⟩), (by rintro ⟨⟩), rfl, rfl⟩
    cases w <;> cases readOnly <;> rfl
  | accessor g s e c =>
    refine ⟨fun _ => rfl, fun data => ?_, fun _ _ => rfl, (by rintro ⟨⟩), (by rintro ⟨⟩), fun _ => rfl, fun _ => rfl, rfl, rfl⟩
    cases readOnly <;> cases data

theorem lock_allowed : (lockDefinition d readOnly).mayChange d = true := by
  cases d with
  | data v w e c => cases w <;> cases c <;> cases readOnly <;> rfl
  | accessor g s e c => cases c <;> cases readOnly <;> rfl

-- A definition that says of a property what locking has made of it says nothing new.
theorem lock_within (is : d.locked readOnly = d) : (lockDefinition d readOnly).isWithin d = true := by
  cases d with
  | data v w e c =>
    injection is with _ writable _ configurable
    subst configurable
    cases w <;> cases readOnly <;> first | rfl | cases writable
  | accessor g s e c =>
    injection is with _ _ _ configurable
    subst configurable
    cases readOnly <;> rfl

end

theorem Dictionary.modify_unchanged {α : Type} (d : Dictionary α) (name : String) (f : α → α)
    (same : ∀ a, d.find? name = some a → f a = a) : d.modify name f = d := by
  induction d with
  | nil => rfl
  | cons entry rest hyp =>
    obtain ⟨key, a⟩ := entry
    rw [Dictionary.modify]
    by_cases here : key = name
    · rw [if_pos here, same a (by rw [Dictionary.find?, if_pos here])]
    · rw [if_neg here, hyp fun b found => same b (by rw [Dictionary.find?, if_neg here, found])]

namespace Heap

/-! Aliases. -/

section

variable (h : Heap) (o : ObjectId)

-- A parameter that gets the value it has stays as it is.
theorem write_read (a : Alias) : h.writeAlias a (h.readAlias a) = h := by
  cases a with
  | slot frame index => exact slot_unchanged h frame index
  | binding env name =>
    refine bindings_unchanged h env _ fun b bindings => ?_
    refine Dictionary.modify_unchanged b name _ fun binding found => ?_
    have value : h.readAlias (.binding env name) = binding.value := by
      rw [read_binding, binding?, bindings]
      change ((Dictionary.find? b name).map Binding.value).getD _ = _
      rw [found]
      rfl
    rw [value, ite_self]

theorem alias_arguments (key : PropertyKey) (a : Alias) (found : h.alias? o key = some a) :
    ∃ i mapped, key = .index i ∧ h.kind o = .arguments mapped := by
  rw [alias?.eq_def] at found
  split at found
  · next kind => exact ⟨_, _, rfl, kind⟩
  · cases found

-- What stands for no parameter and is below the length of an array is defined by the rules for all objects.
theorem define_plain (key : PropertyKey) (d : Definition) (unmapped : h.alias? o key = none)
    (below : h.isArray o = true → ∀ i, key = .index i → i < (h.lengthOf o).1) :
    h.define o key d = h.defineOrdinary o key d := by
  rw [define.eq_def]
  split
  · next i array =>
    have inside := Nat.not_le.mpr (below (by rw [isArray, array]) i rfl)
    rw [defineElement]
    generalize h.lengthOf o = length at inside ⊢
    obtain ⟨n, w⟩ := length
    dsimp only at inside ⊢
    rw [decide_eq_false inside, Bool.false_and, if_neg Bool.false_ne_true]
    generalize h.defineOrdinary o (.index i) d = result
    obtain ⟨accepted, k⟩ := result
    cases accepted with
    | false => rfl
    | true => exact if_neg inside
  · rw [defineArgument, unmapped]
  · rfl

-- A definition that says nothing of a value or of writing leaves the parameter alone.
theorem define_unsaid (i : Nat) (a : Alias) (mapped : h.alias? o (.index i) = some a) (d : Definition)
    (value : d.value = none) (writable : d.writable = none) (isValue : d.isAccessor = false) :
    h.defineArgument o (.index i) d = h.defineOrdinary o (.index i) d := by
  have same : h.freezeAliased o (.index i) d = d := by
    rw [freezeAliased, writable, if_neg (by simp)]
  rw [defineArgument, mapped]
  dsimp only
  rw [same]
  generalize h.defineOrdinary o (.index i) d = result
  obtain ⟨accepted, k⟩ := result
  cases accepted with
  | false => rfl
  | true =>
    dsimp only
    rw [followAlias, isValue, if_neg Bool.false_ne_true, value, writable, if_neg (by rintro ⟨⟩)]

theorem unmap_object (known : o < h.objects.size) (i : Nat) : (h.unmap o (.index i)).object o = unmapped i (h.object o) := by
  rw [unmap_index, object_modify, if_pos ⟨rfl, known⟩]

theorem unmap_elsewhere (key : PropertyKey) (other : ObjectId) (distinct : other ≠ o) :
    (h.unmap o key).object other = h.object other := by
  cases key with
  | index i => rw [unmap_index, object_modify, if_neg fun both => distinct both.1.symm]
  | name s => rfl

theorem unmap_alias (known : o < h.objects.size) (i j : Nat) :
    (h.unmap o (.index i)).alias? o (.index j) = if j = i then none else h.alias? o (.index j) := by
  rw [alias_mapped, alias_mapped, unmap_object h o known, lookup_unmapped]

theorem unmap_whole (known : o < h.objects.size) (i : Nat) (key : PropertyKey) :
    ((h.unmap o (.index i)).object o).own? key = (h.object o).own? key := by
  rw [unmap_object h o known, unmapped]
  split
  · next mapped kind => exact Object.own_mapped _ _ _ kind key
  · rfl

theorem unmap_own (known : o < h.objects.size) (i : Nat) (key : PropertyKey) (distinct : key ≠ .index i) :
    (h.unmap o (.index i)).own? o key = h.own? o key := by
  have shows : (h.unmap o (.index i)).shown o key = h.shown o key := by
    have reads : (h.unmap o (.index i)).readAlias = h.readAlias :=
      funext fun a => same_read h _ a (unmap_stores h o (.index i))
    have same : (h.unmap o (.index i)).alias? o key = h.alias? o key := by
      cases key with
      | index j => rw [unmap_alias h o known, if_neg fun here => distinct (congrArg PropertyKey.index here)]
      | name s => rw [alias_name, alias_name]
    funext d
    rw [shown, shown, aliased?, aliased?, reads, same]
  rw [own_shown, own_shown, unmap_whole h o known, shows]

theorem unmap_own_keys (known : o < h.objects.size) (i : Nat) : (h.unmap o (.index i)).ownKeys o = h.ownKeys o := by
  rw [own_keys_is, own_keys_is, unmap_object h o known, unmapped_properties, unmapped]
  split
  · next mapped kind => rw [kind]; rfl
  · rfl

end

/-! Locking one property. -/

/-- An object of which some properties have been locked. Nothing else has changed, but that parameters may have
been given up by elements that show their values. -/
structure Locks (h k : Heap) (o : ObjectId) (readOnly : Bool) (keys : PropertyKey → Prop) : Prop where
  own : ∀ key, keys key → k.own? o key = (h.own? o key).map (.locked readOnly)
  others : ∀ key, ¬ keys key → k.own? o key = h.own? o key
  ownKeys : k.ownKeys o = h.ownKeys o
  elsewhere : ∀ other, other ≠ o → k.object other = h.object other
  prototype : (k.object o).prototype = (h.object o).prototype
  extensible : (k.object o).extensible = (h.object o).extensible
  kind : k.kind o = h.kind o ∨ ∃ mapped mapped', h.kind o = .arguments mapped ∧ k.kind o = .arguments mapped'
  size : k.objects.size = h.objects.size
  stores : h.SameStores k
  writable : (k.object o).Writable

-- The length of an array is above its elements.
def Spanned (h : Heap) (o : ObjectId) : Prop :=
  h.isArray o = true → ∀ i d, h.own? o (.index i) = some d → i < (h.lengthOf o).1

theorem well_formed_spanned (h : Heap) (o : ObjectId) (formed : h.isArray o = true → h.WellFormed o) : h.Spanned o := by
  intro array i d there
  obtain ⟨n, length, covers⟩ := formed array
  rw [is_array_kind] at array
  obtain ⟨w, c, measured, _⟩ := (has_length_measured h o array n).mp length
  rw [length_of_measured h o array n w c false measured]
  exact covers i d there

section

variable (h : Heap) (o : ObjectId) (known : o < h.objects.size) (writable : (h.object o).Writable)

theorem shown_locked (key : PropertyKey) (d : Descriptor) (there : h.own? o key = some d) (readOnly : Bool) :
    h.shown o key (d.locked readOnly) = d.locked readOnly := by
  rw [own_shown] at there
  obtain ⟨own, _, rfl⟩ := Option.map_eq_some_iff.mp there
  unfold shown
  cases h.aliased? o key with
  | none => rfl
  | some v => cases own <;> rfl

include writable in
theorem element_own (i : Nat) (a : Alias) (mapped : h.alias? o (.index i) = some a) : ∃ v e c,
    (h.object o).properties.find? (.index i) = some (.data v true e c) ∧
      h.own? o (.index i) = some (.data (h.readAlias a) true e c) := by
  obtain ⟨v, e, c, stored⟩ := writable i a (by rw [← alias_mapped]; exact mapped)
  have whole : (h.object o).own? (.index i) = some (.data v true e c) := by
    simp only [Object.own?, stored, Option.some_or]
    cases (h.object o).kind <;> rfl
  refine ⟨v, e, c, stored, ?_⟩
  rw [own_shown, whole, Option.map_some, shown, aliased?, mapped]
  rfl

include known writable

-- Locking by the rules for all objects, if it does not concern the parameter of an element.
theorem lock_ordinary (key : PropertyKey) (d : Descriptor) (there : h.own? o key = some d) (readOnly : Bool)
    (apart : ∀ a, h.alias? o key = some a → (lockDefinition d readOnly).writable = none) :
    ∃ k, h.defineOrdinary o key (lockDefinition d readOnly) = (true, k) ∧ h.Locks k o readOnly (· = key) := by
  have rules := judged_by_rules h o key (lockDefinition d readOnly) known (lock_one_kind d readOnly)
  have accepted := ordinary_accepted h o key _ d there (lock_allowed d readOnly)
  generalize h.defineOrdinary o key (lockDefinition d readOnly) = result at rules accepted
  obtain ⟨accepts, k⟩ := result
  cases accepted
  refine ⟨k, rfl, fun other here => ?_, fun other distinct => apart_own h o key k rules.apart other distinct,
    rules.apart.inPlace (by rw [there]; exact Option.some_ne_none d), rules.apart.elsewhere, rules.apart.prototype,
    rules.apart.extensible, .inl rules.apart.kind, rules.apart.objects, ⟨rules.apart.frames, rules.apart.environments⟩, ?_⟩
  · subst here
    obtain ⟨new, yields, shows⟩ := rules.shows rfl
    rw [there] at yields
    rw [shows, Definition.yields_unique _ _ _ _ yields (lock_yields d readOnly), there,
      shown_locked h o other d there readOnly]
    rfl
  · intro i a mapped
    rw [rules.apart.kind] at mapped
    obtain ⟨v, e, c, stored⟩ := writable i a mapped
    by_cases here : .index i = key
    · subst here
      have open' := apart a ((alias_mapped h o i).trans mapped)
      rcases rules.stores rfl with same | ⟨new, yields, found⟩
      · cases same
        exact ⟨v, e, c, stored⟩
      · rw [stored] at yields
        have isData : new.isData = true := by
          cases given : (lockDefinition d readOnly).isData with
          | true => exact yields.data given
          | false => exact yields.shape rfl given
        cases new with
        | data v' w' e' c' =>
          have open'' : w' = true := by
            rw [show w' = _ from yields.writable rfl, open']
            rfl
          exact ⟨v', e', c', open'' ▸ found⟩
        | accessor g s e' c' => cases isData
    · rw [rules.apart.others _ here]
      exact ⟨v, e, c, stored⟩

-- An element that becomes read-only keeps the value of its parameter and stands for it no longer.
theorem lock_element (i : Nat) (a : Alias) (mapped : h.alias? o (.index i) = some a) (d : Descriptor)
    (there : h.own? o (.index i) = some d) :
    ∃ k, h.defineArgument o (.index i) (lockDefinition d true) = (true, k) ∧ h.Locks k o true (· = .index i) := by
  obtain ⟨v, e, c, stored, own⟩ := element_own h o writable i a mapped
  cases there.symm.trans own
  generalize value : h.readAlias a = x at *
  let frozen : Definition := { value := some x, writable := some false, configurable := some false }
  have is : h.freezeAliased o (.index i) (lockDefinition (.data x true e c) true) = frozen := by
    rw [freezeAliased, own]
    rfl
  have may : frozen.mayChange (.data x true e c) = true :=
    frozen.may_change_writable x e c rfl rfl (by rintro ⟨⟩)
  have changes : ¬ (frozen.isEmpty || frozen.isWithin (.data x true e c)) = true := by
    simp [frozen, Definition.isEmpty, Definition.isGeneric, Definition.isData, Definition.isAccessor,
      Definition.isWithin, Definition.agrees]
  have rules := changed_by_rules h o (.index i) frozen known (fun _ => rfl) _ own may changes
  have defined : h.defineOrdinary o (.index i) frozen =
      (true, h.modifyProperties o fun t => t.modify (.index i) frozen.apply) := by
    rw [defineOrdinary, judge, own]
    simp only [if_neg changes, if_pos may]
  have after : ((h.modifyProperties o fun t => t.modify (.index i) frozen.apply).object o).properties.find? (.index i) =
      some (.data x false e false) := by
    rw [modify_properties_object, if_pos ⟨rfl, known⟩, PropertyTable.find_modify, if_pos rfl, stored]
    rfl
  generalize h.modifyProperties o (fun t => t.modify (.index i) frozen.apply) = k at rules defined after
  have stores : h.SameStores k := ⟨rules.apart.frames, rules.apart.environments⟩
  have kept : k.writeAlias a x = k := by
    rw [← value, ← same_read h k a stores]
    exact write_read k a
  have known' : o < k.objects.size := by
    rw [rules.apart.objects]
    exact known
  refine ⟨k.unmap o (.index i), ?_, ?_⟩
  · rw [defineArgument, mapped]
    dsimp only
    rw [is, defined]
    dsimp only
    rw [followAlias, if_neg (by rintro ⟨⟩)]
    dsimp only [frozen]
    rw [kept, if_pos rfl]
  refine ⟨fun other here => ?_, fun other distinct => ?_, ?_, fun other distinct => ?_, ?_, ?_, ?_, ?_, ?_, ?_⟩
  · subst here
    have free : (k.unmap o (.index i)).alias? o (.index i) = none := by
      rw [unmap_alias k o known', if_pos rfl]
    have whole : (k.object o).own? (.index i) = some (.data x false e false) := by
      simp only [Object.own?, after, Option.some_or]
      cases (k.object o).kind <;> rfl
    rw [own_shown, unmap_whole k o known', whole, Option.map_some, shown, aliased?, free, own]
    rfl
  · rw [unmap_own k o known' i other distinct]
    exact apart_own h o _ k rules.apart other distinct
  · rw [unmap_own_keys k o known']
    exact rules.apart.inPlace (by rw [own]; exact Option.some_ne_none _)
  · rw [unmap_elsewhere k o _ other distinct]
    exact rules.apart.elsewhere other distinct
  · rw [unmap_object k o known', ← rules.apart.prototype, unmapped]
    split <;> rfl
  · rw [unmap_object k o known', ← rules.apart.extensible, unmapped]
    split <;> rfl
  · rw [Heap.kind, Heap.kind, unmap_object k o known', ← rules.apart.kind, unmapped]
    split
    · next mapped' kind => exact .inr ⟨mapped', _, kind, rfl⟩
    · exact .inl rfl
  · rw [unmap_index, size_modify, rules.apart.objects]
  · exact ⟨rules.apart.frames, rules.apart.environments⟩
  · intro j b found
    rw [unmap_object k o known', unmapped_properties] at *
    rw [lookup_unmapped, rules.apart.kind] at found
    split at found
    · cases found
    · next distinct =>
      rw [rules.apart.others _ fun here => distinct (PropertyKey.index.inj here)]
      exact writable j b found

-- A property of an object of any kind; an element of an array has to be below the length.
theorem lock_property (spanned : h.Spanned o) (key : PropertyKey) (d : Descriptor) (there : h.own? o key = some d)
    (readOnly : Bool) :
    ∃ k, h.define o key (lockDefinition d readOnly) = (true, k) ∧ h.Locks k o readOnly (· = key) := by
  have ordinary := lock_ordinary h o known writable key d there readOnly
  cases found : h.alias? o key with
  | none =>
    rw [define_plain h o key _ found fun isArray i is => spanned isArray i d (is ▸ there)]
    exact ordinary fun a mapped => by
      rw [found] at mapped
      cases mapped
  | some a =>
    obtain ⟨i, mapped, rfl, kind⟩ := alias_arguments h o key a found
    have argument : h.define o (.index i) = h.defineArgument o (.index i) := by
      funext d
      delta define
      rw [kind]
    rw [argument]
    cases said : (lockDefinition d readOnly).writable with
    | none =>
      rw [define_unsaid h o i a found _ rfl said rfl]
      exact ordinary fun _ _ => said
    | some w =>
      obtain rfl : readOnly = true := by
        cases readOnly with
        | true => rfl
        | false => cases said
      exact lock_element h o known writable i a found d there

end

-- Locking a property that is locked changes nothing.
theorem relock_property (h : Heap) (o : ObjectId) (writable : (h.object o).Writable) (spanned : h.Spanned o)
    (key : PropertyKey) (d : Descriptor) (there : h.own? o key = some d) (readOnly : Bool)
    (is : d.locked readOnly = d) : h.define o key (lockDefinition d readOnly) = (true, h) := by
  have kept : h.defineOrdinary o key (lockDefinition d readOnly) = (true, h) := by
    have keeps : h.judge o key (lockDefinition d readOnly) = .keep := by
      rw [judge, there]
      dsimp only
      rw [lock_within d readOnly is, Bool.or_true, if_pos rfl]
    rw [defineOrdinary, keeps]
  cases found : h.alias? o key with
  | none => rw [define_plain h o key _ found fun isArray i is => spanned isArray i d (is ▸ there), kept]
  | some a =>
    obtain ⟨i, mapped, rfl, kind⟩ := alias_arguments h o key a found
    obtain ⟨v, e, c, _, own⟩ := element_own h o writable i a found
    cases there.symm.trans own
    obtain rfl : readOnly = false := by
      cases readOnly with
      | false => rfl
      | true => cases (Descriptor.locked_flags true _ is).2 rfl
    delta define
    rw [kind]
    exact (define_unsaid h o i a found _ rfl rfl rfl).trans kept

/-! Locking many properties. -/

section

variable (h k l : Heap) (o : ObjectId) (readOnly : Bool) (p q : PropertyKey → Prop)

theorem locks_absent (writable : (h.object o).Writable) (absent : ∀ key, p key → h.own? o key = none) :
    h.Locks h o readOnly p := by
  refine ⟨fun key is => ?_, fun _ _ => rfl, rfl, fun _ _ => rfl, rfl, rfl, .inl rfl, rfl, ⟨rfl, rfl⟩, writable⟩
  rw [absent key is]
  rfl

theorem locks_trans (first : h.Locks k o readOnly p) (second : k.Locks l o readOnly q) :
    h.Locks l o readOnly fun key => p key ∨ q key := by
  refine ⟨fun key either => ?_, fun key neither => ?_, second.ownKeys.trans first.ownKeys, fun other distinct =>
    (second.elsewhere other distinct).trans (first.elsewhere other distinct), second.prototype.trans first.prototype,
    second.extensible.trans first.extensible, ?_, second.size.trans first.size,
    ⟨second.stores.1.trans first.stores.1, second.stores.2.trans first.stores.2⟩, second.writable⟩
  · by_cases late : q key
    · rw [second.own key late]
      by_cases early : p key
      · rw [first.own key early, Option.map_map]
        exact congrArg (Option.map · (h.own? o key)) (funext fun d => d.locked_twice readOnly)
      · rw [first.others key early]
    · rw [second.others key late, first.own key (either.resolve_right late)]
  · rw [second.others key fun late => neither (.inr late), first.others key fun early => neither (.inl early)]
  · rcases second.kind with same | ⟨mapped, mapped', middle, last⟩
    · rw [same]
      exact first.kind
    · rcases first.kind with same | ⟨before, _, is, _⟩
      · exact .inr ⟨mapped, mapped', same ▸ middle, last⟩
      · exact .inr ⟨before, mapped', is, last⟩

theorem locks_length (locks : h.Locks k o readOnly p) : (k.lengthOf o).1 = (h.lengthOf o).1 := by
  have cases' : k.own? o .length = h.own? o .length ∨ k.own? o .length = (h.own? o .length).map (.locked readOnly) := by
    by_cases here : p .length
    · exact .inr (locks.own _ here)
    · exact .inl (locks.others _ here)
  rcases cases' with same | same
  · rw [lengthOf, lengthOf, same]
  · rw [lengthOf, lengthOf, same]
    cases h.own? o .length with
    | none => rfl
    | some d =>
      cases d with
      | data v w e c => cases v <;> rfl
      | accessor g s e c => rfl

theorem locks_array (locks : h.Locks k o readOnly p) : k.isArray o = h.isArray o := by
  rw [isArray, isArray]
  rcases locks.kind with same | ⟨_, _, before, after⟩
  · rw [same]
  · rw [before, after]

theorem locks_spanned (locks : h.Locks k o readOnly p) (spanned : h.Spanned o) : k.Spanned o := by
  intro array i d there
  rw [locks_array h k o readOnly p locks] at array
  rw [locks_length h k o readOnly p locks]
  by_cases here : p (.index i)
  · rw [locks.own _ here] at there
    obtain ⟨d', before, _⟩ := Option.map_eq_some_iff.mp there
    exact spanned array i d' before
  · rw [locks.others _ here] at there
    exact spanned array i d there

end

/-! Closing. -/

section

variable (h : Heap) (o : ObjectId)

theorem modify_same (f : Object → Object) (same : f (h.object o) = h.object o) : h.modifyObject o f = h := by
  have objects : h.objects.modify o f = h.objects := by
    refine Array.ext_getElem? fun i => ?_
    rw [Array.getElem?_modify]
    split
    · next here =>
      subst here
      cases found : h.objects[o]? with
      | none => rfl
      | some x =>
        rw [object, found] at same
        exact congrArg some same
    · rfl
  rw [modifyObject, objects]

theorem close_closed (closed : (h.object o).extensible = false) : h.preventExtensions o = h := by
  refine modify_same h o _ ?_
  rw [← closed]

theorem close_object_is (known : o < h.objects.size) :
    (h.preventExtensions o).object o = { h.object o with extensible := false } := by
  rw [preventExtensions, object_modify, if_pos ⟨rfl, known⟩]

theorem close_own (known : o < h.objects.size) : (h.preventExtensions o).own? o = h.own? o := by
  have shows : (h.preventExtensions o).shown o = h.shown o := by
    have reads : (h.preventExtensions o).readAlias = h.readAlias := funext fun a => same_read h _ a ⟨rfl, rfl⟩
    funext key d
    rw [shown, shown, aliased?, aliased?, reads, alias_same h _ o]
    rw [Heap.kind, close_object_is h o known]
    rfl
  funext key
  rw [own_shown, own_shown, close_object_is h o known, shows]
  rfl

theorem close_own_keys (known : o < h.objects.size) : (h.preventExtensions o).ownKeys o = h.ownKeys o := by
  rw [own_keys_is, own_keys_is, close_object_is h o known]

end

/-! Objects that take no change. -/

/-- An object that takes no further properties and whose own ones are permanent and read-only. -/
structure Frozen (h : Heap) (o : ObjectId) : Prop where
  closed : (h.object o).extensible = false
  locked : ∀ key d, h.own? o key = some d → d.locked true = d
  unmapped : ∀ key, h.alias? o key = none
  spanned : h.Spanned o

section

variable (h k : Heap) (o : ObjectId)

-- An element that stands for a parameter could be written.
theorem frozen_unmapped (writable : (h.object o).Writable)
    (locked : ∀ key d, h.own? o key = some d → d.locked true = d) (key : PropertyKey) : h.alias? o key = none := by
  cases found : h.alias? o key with
  | none => rfl
  | some a =>
    obtain ⟨i, _, rfl, _⟩ := alias_arguments h o key a found
    obtain ⟨v, e, c, _, own⟩ := element_own h o writable i a found
    cases (Descriptor.locked_flags true _ (locked _ _ own)).2 rfl

variable (frozen : h.Frozen o)
include frozen

theorem frozen_own (same : k.object o = h.object o) : k.own? o = h.own? o := by
  have free (x : Heap) (is : x.object o = h.object o) (key : PropertyKey) : x.shown o key = fun d => d := by
    funext d
    rw [shown, aliased?, alias_same h x o (congrArg Object.kind is), frozen.unmapped]
    rfl
  funext key
  rw [own_shown, own_shown, same, free k same, free h rfl]

theorem frozen_same (same : k.object o = h.object o) : k.Frozen o := by
  have own := frozen_own h k o frozen same
  have kinds : k.kind o = h.kind o := congrArg Object.kind same
  refine ⟨by rw [same]; exact frozen.closed, by rw [own]; exact frozen.locked, fun key => ?_, ?_⟩
  · rw [alias_same h k o kinds]
    exact frozen.unmapped key
  · rw [Spanned, isArray, kinds, ← isArray, lengthOf, own, ← lengthOf]
    exact frozen.spanned

theorem ordinary_frozen (key : PropertyKey) (d : Definition) : (h.defineOrdinary o key d).2 = h := by
  rcases define_ordinary_is h o key d with ⟨_, opened, _⟩ | ⟨current, there, may, changes, _⟩ | is | is
  · exact absurd (opened.symm.trans frozen.closed) (by decide)
  · obtain ⟨fixed, readOnly⟩ := current.locked_flags true (frozen.locked key current there)
    exact absurd ((d.change_is_writable current fixed may changes).symm.trans (readOnly rfl)) (by decide)
  · rw [is]
  · rw [is]

theorem define_frozen (key : PropertyKey) (d : Definition) : (h.define o key d).2 = h := by
  cases there : h.own? o key with
  | some current =>
    rw [define_plain h o key d (frozen.unmapped key) fun array i is => frozen.spanned array i current (is ▸ there)]
    exact ordinary_frozen h o frozen key d
  | none =>
    have rejected : h.defineOrdinary o key d = (false, h) := by
      rw [defineOrdinary, judge, there, frozen.closed]
      rfl
    rw [define.eq_def]
    split
    · rw [defineElement]
      generalize h.lengthOf o = length
      obtain ⟨n, w⟩ := length
      dsimp only
      split
      · rfl
      · rw [rejected]
    · rw [defineArgument, frozen.unmapped, rejected]
    · rw [rejected]

theorem delete_frozen (key : PropertyKey) : (h.delete o key).2 = h := by
  rw [delete]
  cases there : h.own? o key with
  | none => rfl
  | some d =>
    dsimp only
    rw [if_neg]
    rw [(d.locked_flags true (frozen.locked key d there)).1]
    exact Bool.false_ne_true

theorem delete_elements_frozen (indices : List Nat) : (h.deleteElements o indices).2 = h := by
  induction indices with
  | nil => rfl
  | cons i rest hyp =>
    have same := delete_frozen h o frozen (.index i)
    rw [deleteElements]
    generalize h.delete o (.index i) = result at same ⊢
    obtain ⟨gone, k⟩ := result
    cases same
    cases gone with
    | true => exact hyp
    | false => rfl

theorem length_frozen (d : Definition) (length : Nat) (old : Nat × Bool) : (h.defineLength o d length old).2 = h := by
  rw [defineLength]
  split
  · exact ordinary_frozen h o frozen _ _
  · split
    · rfl
    · rw [shrink]
      generalize (if (d.withValue (.ofNat length)).writable = some false then (d.withValue (.ofNat length)).withWritable true
        else d.withValue (.ofNat length)) = e
      have first := ordinary_frozen h o frozen .length e
      dsimp only
      generalize h.defineOrdinary o .length e = result at first ⊢
      obtain ⟨accepted, k'⟩ := result
      obtain rfl : h = k' := first.symm
      cases accepted with
      | false => rfl
      | true =>
        have cut := delete_elements_frozen h o frozen (h.elementsFrom o length)
        dsimp only
        generalize h.deleteElements o (h.elementsFrom o length) = result at cut ⊢
        obtain ⟨stuck, k'⟩ := result
        obtain rfl : h = k' := cut.symm
        cases stuck with
        | some i => exact ordinary_frozen h o frozen _ _
        | none =>
          dsimp only
          split
          · exact ordinary_frozen h o frozen _ _
          · rfl

-- Whatever changes, the object is as it was. Only the number of captured lines is stored over what is there.
theorem edit_frozen (known : o < h.objects.size) (other : o ≠ Intrinsic.errorConstructor) (edit : Edit h k) :
    k.object o = h.object o := by
  cases edit with
  | object x => exact object_add_known h x o known
  | environment e => rfl
  | frame frame => rfl
  | slot frame index v => rfl
  | bindings env f => rfl
  | define id key d =>
    by_cases here : o = id
    · subst here
      rw [define_frozen h o frozen]
    · exact (spares_define h id key d).others o here
  | length id d length old =>
    by_cases here : o = id
    · subst here
      rw [length_frozen h o frozen]
    · exact (spares_length h id d length old).others o here
  | delete id key =>
    by_cases here : o = id
    · subst here
      rw [delete_frozen h o frozen]
    · exact (spares_delete h id key).others o here
  | close id =>
    rw [preventExtensions, object_modify]
    split
    · next both =>
      rw [← frozen.closed]
    · rfl
  | override v =>
    rw [store, modify_properties_object, if_neg fun both => other both.1.symm]
  | append id more isFunction opened =>
    rw [modify_properties_object, if_neg]
    rintro ⟨rfl, _⟩
    exact absurd (opened.symm.trans frozen.closed) (by decide)

end

end Heap

end Ecma
