import Ecma.Proofs.Heap.Edit
import Ecma.Proofs.Number.Whole
import Ecma.Proofs.Property.Table

set_option autoImplicit false

/-!
Arrays are well formed: the length is a hidden number that fits a word, and it is above every element. A
change of the heap keeps this, unless it defines the length by what the length was some time before.
-/

namespace Ecma

/-! What is stored. -/

namespace Definition

-- The flags of a permanent property stay.
theorem permanent_flags (d : Definition) (v : Value) (w e : Bool) (may : d.mayChange (.data v w e false) = true) :
    d.enumerable.getD e = e ∧ d.configurable.getD false = false := by
  simp only [mayChange, Descriptor.configurable, Descriptor.enumerable, Bool.false_or, Bool.and_eq_true] at may
  obtain ⟨⟨permanent, enumerable⟩, _⟩ := may
  refine ⟨?_, ?_⟩
  · cases given : d.enumerable with
    | none => rfl
    | some b =>
      rw [given] at enumerable
      exact beq_iff_eq.mp enumerable
  · cases given : d.configurable with
    | none => rfl
    | some b =>
      rw [given] at permanent
      cases b with
      | true => cases permanent
      | false => rfl

-- A value that can be written can be given another one together with the flags it has.
theorem may_rewrite (d : Definition) (v : Value) (e c : Bool)
    (given : d.value.isSome = true) (enumerable : d.enumerable.getD e = e)
    (configurable : d.configurable.getD c = c) : d.mayChange (.data v true e c) = true := by
  have isData : d.isData = true := by
    rw [Definition.isData, given, Bool.true_or]
  have flag : agrees (fun a b => a == b) d.enumerable e = true := by
    cases said : d.enumerable with
    | none => rfl
    | some b =>
      rw [said] at enumerable
      exact beq_iff_eq.mpr enumerable
  have permanent : c = true ∨ (d.configurable != some true) = true := by
    cases c with
    | true => exact .inl rfl
    | false =>
      refine .inr ?_
      cases said : d.configurable with
      | none => rfl
      | some b =>
        rw [said] at configurable
        cases (configurable : b = false)
        rfl
  rcases permanent with rfl | permanent
  · rfl
  · simp [mayChange, Descriptor.configurable, Descriptor.enumerable, Descriptor.isData, flag, permanent, isData]

-- To be made read-only, a length is first defined as one that stays writable.
theorem opened (d f : Definition) (is : f = if d.writable = some false then d.withWritable true else d) :
    f.isAccessor = d.isAccessor ∧ f.value = d.value ∧ f.enumerable = d.enumerable ∧ f.configurable = d.configurable ∧
      f.writable ≠ some false := by
  subst is
  split
  · exact ⟨d.with_writable_accessor true, rfl, rfl, rfl, fun contra => Bool.noConfusion (Option.some.inj contra : true = false)⟩
  · next writable => exact ⟨rfl, rfl, rfl, rfl, writable⟩

-- Where it stays above an element, it is defined once more.
theorem ended (d f s : Definition) (v : Value)
    (is : s = if d.writable = some false then (f.withValue v).withWritable false else f.withValue v) :
    s.isAccessor = f.isAccessor ∧ s.value = some v ∧ s.enumerable = f.enumerable ∧ s.configurable = f.configurable := by
  subst is
  split
  · exact ⟨(with_writable_accessor _ _).trans (f.with_value_accessor v), rfl, rfl, rfl⟩
  · exact ⟨f.with_value_accessor v, rfl, rfl, rfl⟩

end Definition

namespace PropertyTable

-- The length that is stored fits a word.
structure Measured (t : PropertyTable) (n : Nat) (w e c : Bool) : Prop where
  fits : n < Number.wordCount
  found : t.find? .length = some (.data (.number (.ofNat n)) w e c)

def Bounded (t : PropertyTable) (n : Nat) : Prop :=
  ∀ i d, t.find? (.index i) = some d → i < n

-- What a definition by the rules for all objects does to properties, and whether it is accepted.
inductive Defines (t : PropertyTable) (key : PropertyKey) (d : Definition) : Bool → PropertyTable → Prop
  | add (absent : t.find? key = none) : Defines t key d true (t.insert key d.create)
  | change (current : Descriptor) (there : t.find? key = some current) (may : d.mayChange current = true)
      (changes : ¬ (d.isEmpty || d.isWithin current) = true) : Defines t key d true (t.modify key d.apply)
  | keep (current : Descriptor) (there : t.find? key = some current)
      (same : (d.isEmpty || d.isWithin current) = true) : Defines t key d true t
  | reject (refused : ∀ current, t.find? key = some current → ¬ d.mayChange current = true) : Defines t key d false t

-- Of some elements those have been deleted that are above one that stays, which is permanent; or all of them.
structure Deleted (t : PropertyTable) (keys : List Nat) (stays : Option Nat) (u : PropertyTable) : Prop where
  permanent : ∀ i, stays = some i → i ∈ keys ∧ ∃ d, t.find? (.index i) = some d ∧ d.configurable = false
  gone : ∀ j ∈ keys, (∀ i, stays = some i → i < j) →
    (∀ d, t.find? (.index j) = some d → d.configurable = true) ∧ u.find? (.index j) = none
  rest : ∀ key, (∀ j ∈ keys, (∀ i, stays = some i → i < j) → key ≠ .index j) → u.find? key = t.find? key
  names : u.names.keys = t.names.keys

section

variable (t u : PropertyTable) (d : Definition) (accepted : Bool)

theorem bounded_less (n m : Nat) (less : n ≤ m) (bounded : t.Bounded n) : t.Bounded m := by
  exact fun i d found => Nat.lt_of_lt_of_le (bounded i d found) less

theorem bounded_same (n : Nat) (same : ∀ i, u.find? (.index i) = t.find? (.index i)) (bounded : t.Bounded n) :
    u.Bounded n := by
  intro i d found
  rw [same] at found
  exact bounded i d found

theorem find_erased (i : Nat) : (t.erase (.index i)).find? (.index i) = none := by
  simp [erase, find?]

theorem defines_other (key other : PropertyKey) (defines : t.Defines key d accepted u) (distinct : key ≠ other) :
    u.find? other = t.find? other := by
  cases defines with
  | add absent => rw [find_insert, if_neg distinct]
  | change current there may changes => rw [find_modify, if_neg distinct]
  | keep current there same => rfl
  | reject refused => rfl

theorem defines_there (key : PropertyKey) (defines : t.Defines key d true u) : ∃ x, u.find? key = some x := by
  cases defines with
  | add absent => exact ⟨_, (find_insert _ _ _ _).trans (if_pos rfl)⟩
  | change current there may changes =>
    refine ⟨d.apply current, ?_⟩
    rw [find_modify, if_pos rfl, there]
    rfl
  | keep current there same => exact ⟨current, there⟩

theorem deleted_none : t.Deleted [] none t := by
  exact ⟨by rintro _ ⟨⟩, by rintro _ ⟨⟩, fun _ _ => rfl, rfl⟩

theorem deleted_stuck (i : Nat) (rest : List Nat) (above : ∀ j ∈ rest, i > j)
    (there : ∃ d, t.find? (.index i) = some d ∧ d.configurable = false) : t.Deleted (i :: rest) (some i) t := by
  refine ⟨?_, fun j member beyond => ?_, fun _ _ => rfl, rfl⟩
  · rintro _ ⟨⟩
    exact ⟨List.mem_cons_self, there⟩
  · have higher := beyond i rfl
    rcases List.mem_cons.mp member with rfl | later
    · exact absurd higher (Nat.lt_irrefl _)
    · exact absurd higher (Nat.lt_asymm (above j later))

-- The first element has been deleted, and then others before it.
theorem deleted_more (v : PropertyTable) (i : Nat) (rest : List Nat) (stays : Option Nat) (above : ∀ j ∈ rest, i > j)
    (names : u.names.keys = t.names.keys) (erased : u.find? (.index i) = none)
    (others : ∀ key, key ≠ .index i → u.find? key = t.find? key)
    (free : ∀ d, t.find? (.index i) = some d → d.configurable = true) (deleted : u.Deleted rest stays v) :
    t.Deleted (i :: rest) stays v := by
  have lower (j : Nat) (member : j ∈ rest) : u.find? (.index j) = t.find? (.index j) :=
    others _ fun same => Nat.ne_of_lt (above j member) (PropertyKey.index.inj same)
  refine ⟨fun j is => ?_, fun j member beyond => ?_, fun key other => ?_, deleted.names.trans names⟩
  · obtain ⟨member, there⟩ := deleted.permanent j is
    rw [lower j member] at there
    exact ⟨List.mem_cons_of_mem i member, there⟩
  · rcases List.mem_cons.mp member with rfl | later
    · refine ⟨free, ?_⟩
      rw [deleted.rest _ fun l member _ same => Nat.ne_of_gt (above l member) (PropertyKey.index.inj same)]
      exact erased
    · have gone := deleted.gone j later beyond
      rwa [lower j later] at gone
  · rw [deleted.rest key fun j member beyond => other j (List.mem_cons_of_mem i member) beyond]
    refine others key (other i List.mem_cons_self fun j is => ?_)
    exact above j (deleted.permanent j is).1

theorem measured_other (n : Nat) (w e c : Bool) (measured : t.Measured n w e c)
    (same : u.find? .length = t.find? .length) : u.Measured n w e c := by
  exact ⟨measured.fits, same.trans measured.found⟩

variable (n : Nat) (w e c : Bool) (measured : t.Measured n w e c)
include measured

theorem measured_unique (m : Nat) (w' e' c' : Bool) (other : t.Measured m w' e' c') :
    n = m ∧ w = w' ∧ e = e' ∧ c = c' := by
  have wide : Number.wordCount ≤ 2 ^ 53 := by
    decide
  have same := Option.some.inj (measured.found.symm.trans other.found)
  injection same with value writable enumerable configurable
  exact ⟨Number.whole_injective n m (Nat.lt_of_lt_of_le measured.fits wide) (Nat.lt_of_lt_of_le other.fits wide)
    (Value.number.inj value), writable, enumerable, configurable⟩

theorem within_length (m : Nat) (fits : m < Number.wordCount)
    (value : d.value.getD (.number (.ofNat n)) = .number (.ofNat m))
    (same : (d.isEmpty || d.isWithin (.data (.number (.ofNat n)) w e c)) = true) : n = m := by
  have wide : Number.wordCount ≤ 2 ^ 53 := by
    decide
  have small := Nat.lt_of_lt_of_le measured.fits wide
  have small' := Nat.lt_of_lt_of_le fits wide
  cases given : d.value with
  | none =>
    rw [given] at value
    exact Number.whole_injective n m small small' (Value.number.inj value)
  | some v =>
    rw [given] at value
    subst value
    rcases Bool.or_eq_true_iff.mp same with empty | within
    · simp [Definition.isEmpty, Definition.isGeneric, Definition.isData, given] at empty
    · simp only [Definition.isWithin, Definition.isData, given, Option.isSome_some, Bool.true_or, Bool.not_true,
        Bool.and_false, Bool.false_eq_true, if_false, Bool.and_eq_true, Definition.agrees, sameValue] at within
      exact (Number.whole_injective m n small' small ((Number.same_number_iff _ _).mp within.2.1)).symm

-- What becomes of a length that is defined as a value.
inductive Lengthens (t : PropertyTable) (d : Definition) (n m : Nat) (w e c : Bool) : Bool → PropertyTable → Prop
  | keep (same : n = m) : Lengthens t d n m w e c true t
  | reject (refused : ¬ d.mayChange (.data (.number (.ofNat n)) w e c) = true) : Lengthens t d n m w e c false t
  | change (u : PropertyTable)
      (measured : u.Measured m (d.writable.getD w) (d.enumerable.getD e) (d.configurable.getD c))
      (permanent : c = false → w = true ∧ d.enumerable.getD e = e ∧ d.configurable.getD c = false) :
      Lengthens t d n m w e c true u

theorem defines_length (m : Nat) (fits : m < Number.wordCount) (isValue : d.isAccessor = false)
    (value : d.value.getD (.number (.ofNat n)) = .number (.ofNat m)) (defines : t.Defines .length d accepted u) :
    t.Lengthens d n m w e c accepted u := by
  cases defines with
  | add absent => cases measured.found.symm.trans absent
  | keep current there same =>
    cases measured.found.symm.trans there
    exact .keep (within_length t d n w e c measured m fits value same)
  | reject refused => exact .reject (refused _ measured.found)
  | change current there may changes =>
    cases measured.found.symm.trans there
    refine .change _ ⟨fits, ?_⟩ fun permanent => ?_
    · rw [find_modify, if_pos rfl, there, Option.map_some, d.apply_value _ w e c isValue, value]
    · subst permanent
      obtain ⟨enumerable, configurable⟩ := d.permanent_flags _ w e may
      exact ⟨d.change_is_writable _ rfl may changes, enumerable, configurable⟩

end

end PropertyTable

namespace Heap

-- One object is changed, and nothing becomes an array by it.
structure Spares (h : Heap) (id : ObjectId) (k : Heap) : Prop where
  others : ∀ other, other ≠ id → k.object other = h.object other
  array : (k.object id).kind.isArray = (h.object id).kind.isArray

structure Retabled (h : Heap) (id : ObjectId) (k : Heap) (t : PropertyTable) : Prop extends Spares h id k where
  table : (k.object id).properties = t

section

variable (h : Heap) (id : ObjectId)

theorem spares_refl : h.Spares id h := by
  exact ⟨fun _ _ => rfl, rfl⟩

theorem spares_trans (k l : Heap) (first : h.Spares id k) (second : k.Spares id l) : h.Spares id l := by
  exact ⟨fun other distinct => (second.others other distinct).trans (first.others other distinct),
    second.array.trans first.array⟩

theorem spares_same_objects (k : Heap) (same : k.objects = h.objects) : h.Spares id k := by
  have objects (other : ObjectId) : k.object other = h.object other := by
    rw [object, object, same]
  exact ⟨fun other _ => objects other, by rw [objects]⟩

theorem spares_modify (f : Object → Object) (same : ∀ o, (f o).kind.isArray = o.kind.isArray) :
    h.Spares id (h.modifyObject id f) := by
  refine ⟨fun other distinct => ?_, ?_⟩
  · rw [object_modify, if_neg fun equal => distinct equal.1.symm]
  · rw [object_modify]
    split
    · exact same _
    · rfl

theorem retabled_refl : h.Retabled id h (h.object id).properties := by
  exact ⟨spares_refl h id, rfl⟩

theorem retabled_trans (k l : Heap) (t u : PropertyTable) (first : h.Retabled id k t) (second : k.Retabled id l u) :
    h.Retabled id l u := by
  exact ⟨spares_trans h id k l first.toSpares second.toSpares, second.table⟩

theorem array_known (isArray : (h.object id).kind.isArray = true) : id < h.objects.size := by
  by_contra unknown
  rw [object_unknown h id unknown] at isArray
  cases isArray

theorem retabled_modify (f : PropertyTable → PropertyTable) (known : id < h.objects.size) :
    h.Retabled id (h.modifyProperties id f) (f (h.object id).properties) := by
  refine ⟨spares_modify h id _ fun _ => rfl, ?_⟩
  rw [modifyProperties, object_modify, if_pos ⟨rfl, known⟩]

end

/-! Defining and deleting. -/

section

variable (h : Heap) (id : ObjectId) (isArray : (h.object id).kind.isArray = true)
include isArray

theorem array_ordinary (key : PropertyKey) (d : Definition) :
    ∃ t, h.Retabled id (h.defineOrdinary id key d).2 t ∧
      (h.object id).properties.Defines key d (h.defineOrdinary id key d).1 t := by
  have known := array_known h id isArray
  rw [defineOrdinary, judge, array_own h id key isArray]
  cases there : (h.object id).properties.find? key with
  | none =>
    cases (h.object id).extensible with
    | true => exact ⟨_, retabled_modify h id (fun t => t.insert key d.create) known, .add there⟩
    | false => exact ⟨_, retabled_refl h id, .reject fun current found => by cases there.symm.trans found⟩
  | some current =>
    by_cases same : (d.isEmpty || d.isWithin current) = true
    · simp only [if_pos same]
      exact ⟨_, retabled_refl h id, .keep current there same⟩
    · by_cases may : d.mayChange current = true
      · simp only [if_neg same, if_pos may]
        exact ⟨_, retabled_modify h id (fun t => t.modify key d.apply) known, .change current there may same⟩
      · simp only [if_neg same, if_neg may]
        refine ⟨_, retabled_refl h id, .reject fun other found => ?_⟩
        cases there.symm.trans found
        exact may

omit isArray in
theorem array_unmap (i : Nat) (known : id < h.objects.size) :
    h.Retabled id (h.unmap id (.index i)) (h.object id).properties := by
  refine ⟨spares_modify h id _ (unmapped_array i), ?_⟩
  rw [unmap_index, object_modify, if_pos ⟨rfl, known⟩, unmapped_properties]

theorem array_delete (i : Nat) :
    ∃ t, h.Retabled id (h.delete id (.index i)).2 t ∧ t.names.keys = (h.object id).properties.names.keys ∧
      ((h.delete id (.index i)).1 = true ∧ t.find? (.index i) = none ∧
          (∀ key, key ≠ .index i → t.find? key = (h.object id).properties.find? key) ∧
          (∀ d, (h.object id).properties.find? (.index i) = some d → d.configurable = true) ∨
        (h.delete id (.index i)).1 = false ∧ t = (h.object id).properties ∧
          ∃ d, t.find? (.index i) = some d ∧ d.configurable = false) := by
  have known := array_known h id isArray
  rw [delete, array_own h id _ isArray]
  cases there : (h.object id).properties.find? (.index i) with
  | none => exact ⟨_, retabled_refl h id, rfl, .inl ⟨rfl, there, fun _ _ => rfl, by rintro _ ⟨⟩⟩⟩
  | some d =>
    cases configurable : d.configurable with
    | true =>
      simp only [configurable, if_true]
      have erased := retabled_modify h id (fun t => t.erase (.index i)) known
      have still : id < (h.modifyProperties id fun t => t.erase (.index i)).objects.size := by
        rwa [modifyProperties, size_modify]
      have unmapped := array_unmap _ id i still
      rw [erased.table] at unmapped
      refine ⟨_, retabled_trans h id _ _ _ _ erased unmapped, rfl,
        .inl ⟨trivial, PropertyTable.find_erased _ i, fun key distinct => ?_, fun other is => ?_⟩⟩
      · exact PropertyTable.find_erase _ _ _ distinct.symm
      · cases is
        exact configurable
    | false =>
      simp only [configurable, Bool.false_eq_true, if_false]
      exact ⟨_, retabled_refl h id, rfl, .inr ⟨trivial, rfl, d, there, configurable⟩⟩

-- Elements are deleted from the end on, down to the first that is permanent, if there is one.
theorem array_delete_elements (keys : List Nat) (descend : keys.Pairwise (· > ·)) :
    ∃ t, h.Retabled id (h.deleteElements id keys).2 t ∧
      (h.object id).properties.Deleted keys (h.deleteElements id keys).1 t := by
  induction keys generalizing h with
  | nil => exact ⟨_, retabled_refl h id, PropertyTable.deleted_none _⟩
  | cons i rest hyp =>
    obtain ⟨above, descend⟩ := List.pairwise_cons.mp descend
    obtain ⟨t, deleted, names, outcome⟩ := array_delete h id isArray i
    rw [deleteElements]
    generalize h.delete id (.index i) = result at deleted outcome ⊢
    obtain ⟨gone, k⟩ := result
    rcases outcome with ⟨rfl, erased, others, free⟩ | ⟨rfl, rfl, there⟩
    · obtain ⟨u, after, rest'⟩ := hyp k (deleted.array.trans isArray) descend
      rw [deleted.table] at rest'
      exact ⟨u, retabled_trans h id _ _ _ _ deleted after,
        PropertyTable.deleted_more _ t u i rest _ above names erased others free rest'⟩
    · exact ⟨_, deleted, PropertyTable.deleted_stuck _ i rest above there⟩

omit isArray in
theorem mem_elements_from (start i : Nat) :
    i ∈ h.elementsFrom id start ↔ start ≤ i ∧ ∃ d, (h.object id).properties.find? (.index i) = some d := by
  rw [elementsFrom, List.mem_reverse, List.mem_filter, PropertyTable.mem_indices, Option.isSome_iff_exists,
    decide_eq_true_iff, and_comm]

omit isArray in
theorem elements_from_descend (start : Nat) : (h.elementsFrom id start).Pairwise (· > ·) := by
  exact List.pairwise_reverse.mpr ((PropertyTable.indices_ascend _).filter _)

end

/-! Lengths. -/

section

variable (h : Heap) (id : ObjectId) (isArray : (h.object id).kind.isArray = true) (n : Nat) (w : Bool)
include isArray

theorem array_length_to (e c : Bool) (measured : (h.object id).properties.Measured n w e c) (d : Definition) (m : Nat)
    (fits : m < Number.wordCount) (isValue : d.isAccessor = false)
    (value : d.value.getD (.number (.ofNat n)) = .number (.ofNat m)) :
    ∃ t, h.Retabled id (h.defineOrdinary id .length d).2 t ∧
      (∀ i, t.find? (.index i) = (h.object id).properties.find? (.index i)) ∧
      (h.object id).properties.Lengthens d n m w e c (h.defineOrdinary id .length d).1 t := by
  obtain ⟨t, retabled, defines⟩ := array_ordinary h id isArray .length d
  exact ⟨t, retabled, fun i => PropertyTable.defines_other _ _ _ _ _ _ defines PropertyKey.noConfusion,
    PropertyTable.defines_length _ _ _ _ n w e c measured m fits isValue value defines⟩

omit n w in
-- What is left when all elements from a length on have been deleted, or one of them stays.
theorem array_cut (length : Nat) :
    ∃ t, h.Retabled id (h.deleteElements id (h.elementsFrom id length)).2 t ∧
      (h.object id).properties.Deleted (h.elementsFrom id length) (h.deleteElements id (h.elementsFrom id length)).1 t ∧
      ((h.deleteElements id (h.elementsFrom id length)).1 = none ∧ t.Bounded length ∨
        ∃ i, (h.deleteElements id (h.elementsFrom id length)).1 = some i ∧ length ≤ i ∧
          (∃ d, (h.object id).properties.find? (.index i) = some d) ∧ t.Bounded (i + 1)) := by
  obtain ⟨t, retabled, deleted⟩ := array_delete_elements h id isArray _ (elements_from_descend h id length)
  refine ⟨t, retabled, deleted, ?_⟩
  generalize (h.deleteElements id (h.elementsFrom id length)).1 = stays at deleted ⊢
  -- what is found at or above the length was to be deleted
  have doomed (j : Nat) (x : Descriptor) (found : t.find? (.index j) = some x) (above : length ≤ j) :
      j ∈ h.elementsFrom id length := by
    by_contra missing
    have before := deleted.rest (.index j) fun i member _ same => missing (PropertyKey.index.inj same ▸ member)
    exact missing ((mem_elements_from h id length j).mpr ⟨above, x, before.symm.trans found⟩)
  cases stays with
  | none =>
    refine .inl ⟨rfl, fun j x found => ?_⟩
    by_contra above
    have gone := (deleted.gone j (doomed j x found (Nat.le_of_not_lt above)) (by rintro _ ⟨⟩)).2
    cases gone.symm.trans found
  | some i =>
    obtain ⟨member, d, there, _⟩ := deleted.permanent i rfl
    have above := ((mem_elements_from h id length i).mp member).1
    refine .inr ⟨i, rfl, above, ⟨d, there⟩, fun j x found => ?_⟩
    by_contra higher
    have beyond : i < j := by
      omega
    have gone := (deleted.gone j (doomed j x found (by omega)) (by rintro _ ⟨⟩; exact beyond)).2
    cases gone.symm.trans found

omit n w in
-- The length ends above an element that stays, unless it must not change any more.
theorem array_stuck (w e c : Bool) (length i : Nat) (measured : (h.object id).properties.Measured length w e c)
    (d : Definition) (isValue : d.isAccessor = false) (value : d.value = some (.number (.ofNat (i + 1))))
    (fits : i + 1 < Number.wordCount) (above : length ≤ i) (bounded : (h.object id).properties.Bounded (i + 1)) :
    ∃ t, h.Retabled id (h.defineOrdinary id .length d).2 t ∧ ∃ m w' e' c', t.Measured m w' e' c' ∧
      (c = false → e' = e ∧ c' = false) ∧
      (d.mayChange (.data (.number (.ofNat length)) w e c) = true → t.Bounded m) := by
  obtain ⟨t, retabled, same, lengthens⟩ :=
    array_length_to h id isArray length w e c measured d (i + 1) fits isValue (by rw [value]; rfl)
  refine ⟨t, retabled, ?_⟩
  generalize (h.defineOrdinary id .length d).1 = accepted at lengthens
  cases lengthens with
  | keep equal => omega
  | reject refused => exact ⟨length, w, e, c, measured, fun permanent => ⟨rfl, permanent⟩, fun may => absurd may refused⟩
  | change _ measured' permanent =>
    exact ⟨_, _, _, _, measured', fun fixed => (permanent fixed).2, fun _ => PropertyTable.bounded_same _ _ _ same bounded⟩

end

-- A length as it is left behind: what was permanent still is, and hidden as before; and if nothing was at or
-- above the old length, nothing is at or above the new one.
def Leaves (t u : PropertyTable) (n : Nat) (w c : Bool) : Prop :=
  ∃ m w' e' c', u.Measured m w' e' c' ∧ (c = false → e' = false ∧ c' = false) ∧
    (w = true → t.Bounded n → u.Bounded m)

section

variable (h : Heap) (id : ObjectId) (isArray : (h.object id).kind.isArray = true) (n : Nat) (w c : Bool)
  (measured : (h.object id).properties.Measured n w false c)
include isArray measured

theorem array_shrink (d : Definition) (length : Nat) (isValue : d.isAccessor = false)
    (value : d.value = some (.number (.ofNat length))) (fits : length < Number.wordCount)
    (small : (h.object id).properties.Bounded indexBound) :
    ∃ t, h.Retabled id (h.shrink id d length).2 t ∧ Leaves (h.object id).properties t n w c := by
  rw [shrink]
  dsimp only
  generalize made : (if d.writable = some false then d.withWritable true else d) = e
  obtain ⟨accessor, value', enumerable, configurable, writable⟩ := d.opened e made.symm
  have isValue' : e.isAccessor = false := accessor.trans isValue
  obtain ⟨t, shorter, same, lengthens⟩ := array_length_to h id isArray n w false c measured e length fits isValue'
    (by rw [value', value]; rfl)
  generalize h.defineOrdinary id .length e = result at shorter lengthens ⊢
  obtain ⟨accepted, k⟩ := result
  dsimp only at shorter lengthens
  -- the elements are deleted with the new length in place
  have between : accepted = false ∧ t = (h.object id).properties ∨ accepted = true ∧
      ∃ w' e' c', t.Measured length w' e' c' ∧ (c = false → e' = false ∧ c' = false) ∧
        (w = true → (h.object id).properties.Bounded n → t.Bounded length ∨
          w' = true ∧ d.enumerable.getD e' = e' ∧ d.configurable.getD c' = c') := by
    cases lengthens with
    | reject refused => exact .inl ⟨rfl, rfl⟩
    | keep equal =>
      subst equal
      exact .inr ⟨rfl, w, false, c, measured, fun permanent => ⟨rfl, permanent⟩, fun _ bounded => .inl bounded⟩
    | change _ measured' permanent =>
      refine .inr ⟨rfl, _, _, _, measured', fun fixed => (permanent fixed).2, fun writable' _ => .inr ⟨?_, ?_, ?_⟩⟩
      · cases said : e.writable with
        | none => exact writable'
        | some b => cases b with
          | true => rfl
          | false => exact absurd said writable
      · rw [enumerable]
        cases d.enumerable <;> rfl
      · rw [configurable]
        cases d.configurable <;> rfl
  rcases between with ⟨rfl, rfl⟩ | ⟨rfl, w', e', c', measured', permanent, ready⟩
  · exact ⟨_, shorter, n, w, false, c, measured, fun permanent => ⟨rfl, permanent⟩, fun _ bounded => bounded⟩
  have isArray' : (k.object id).kind.isArray = true := shorter.array.trans isArray
  obtain ⟨u, deleted, cut, outcome⟩ := array_cut k id isArray' length
  have unchanged := cut.rest .length fun _ _ _ => PropertyKey.noConfusion
  rw [shorter.table] at unchanged outcome
  dsimp only
  generalize k.deleteElements id (k.elementsFrom id length) = result at deleted outcome ⊢
  obtain ⟨stays, l⟩ := result
  have both := retabled_trans h id _ _ _ _ shorter deleted
  have isArray'' : (l.object id).kind.isArray = true := both.array.trans isArray
  have still := PropertyTable.measured_other t u length w' e' c' measured' unchanged
  rw [← both.table] at still
  rcases outcome with ⟨rfl, bounded⟩ | ⟨i, rfl, above, ⟨x, there⟩, bounded⟩
  · dsimp only at both still ⊢
    by_cases readOnly : d.writable = some false
    · -- the length becomes read-only last
      simp only [if_pos readOnly]
      obtain ⟨v, closed, same', lengthens'⟩ := array_length_to l id isArray'' length w' e' c' still
        { writable := some false } length fits rfl rfl
      have whole := retabled_trans h id _ _ _ _ both closed
      generalize l.defineOrdinary id .length { writable := some false } = result at lengthens' whole ⊢
      rw [both.table] at same' lengthens'
      have bounded' := PropertyTable.bounded_same _ _ _ same' bounded
      rw [both.table] at still
      obtain ⟨accepted, last⟩ := result
      cases lengthens' with
      | keep equal => exact ⟨_, whole, length, w', e', c', still, permanent, fun _ _ => bounded'⟩
      | reject refused => exact ⟨_, whole, length, w', e', c', still, permanent, fun _ _ => bounded'⟩
      | change _ measured'' permanent' =>
        refine ⟨v, whole, _, _, _, _, measured'', fun fixed => ?_, fun _ _ => bounded'⟩
        exact permanent fixed
    · simp only [if_neg readOnly]
      exact ⟨u, both, length, w', e', c', both.table ▸ still, permanent, fun _ _ => bounded⟩
  · have small' : i < indexBound := by
      rw [same] at there
      exact small i x there
    dsimp only at both still ⊢
    generalize stuck : (if d.writable = some false then (e.withValue (.ofNat (i + 1))).withWritable false
      else e.withValue (.ofNat (i + 1))) = s
    obtain ⟨accessor', value'', kept, kept'⟩ := d.ended e s (.ofNat (i + 1)) stuck.symm
    have isValue'' : s.isAccessor = false := accessor'.trans isValue'
    have enumerable' : s.enumerable = d.enumerable := kept.trans enumerable
    have configurable' : s.configurable = d.configurable := kept'.trans configurable
    obtain ⟨v, last, m, w'', e'', c'', measured'', permanent'', rest⟩ := array_stuck l id isArray'' w' e' c' length i
      still s isValue'' value'' (Nat.add_lt_of_lt_sub small') above (both.table.symm ▸ bounded)
    refine ⟨v, retabled_trans h id _ _ _ _ both last, m, w'', e'', c'', measured'', fun fixed => ?_, fun writable' bounded' => ?_⟩
    · obtain ⟨shown, fixed'⟩ := permanent fixed
      exact ⟨(permanent'' fixed').1.trans shown, (permanent'' fixed').2⟩
    · rcases ready writable' bounded' with none | ⟨rfl, shown, fixed⟩
      · exact absurd (none i x there) (Nat.not_lt_of_le above)
      · refine rest (s.may_rewrite _ _ _ ?_ ?_ ?_)
        · rw [value'']
          rfl
        · rwa [enumerable']
        · rwa [configurable']

theorem array_length (d : Definition) (length : Nat) (old : Nat × Bool) (isValue : d.isAccessor = false)
    (short : length < Number.wordCount) (small : (h.object id).properties.Bounded indexBound) :
    ∃ t, h.Retabled id (h.defineLength id d length old).2 t ∧ ∃ m w' e' c', t.Measured m w' e' c' ∧
      (c = false → e' = false ∧ c' = false) ∧ (old = (n, w) → (h.object id).properties.Bounded n → t.Bounded m) := by
  have isValue' : (d.withValue (.ofNat length)).isAccessor = false := (d.with_value_accessor _).trans isValue
  have idle : h.Retabled id h (h.object id).properties := retabled_refl h id
  rw [defineLength]
  by_cases longer : old.1 ≤ length
  · rw [if_pos longer]
    obtain ⟨t, retabled, same, lengthens⟩ :=
      array_length_to h id isArray n w false c measured (d.withValue (.ofNat length)) length short isValue' rfl
    refine ⟨t, retabled, ?_⟩
    generalize (h.defineOrdinary id .length (d.withValue (.ofNat length))).1 = accepted at lengthens
    cases lengthens with
    | keep equal => exact ⟨n, w, false, c, measured, fun permanent => ⟨rfl, permanent⟩, fun _ bounded => bounded⟩
    | reject refused => exact ⟨n, w, false, c, measured, fun permanent => ⟨rfl, permanent⟩, fun _ bounded => bounded⟩
    | change _ measured' permanent =>
      refine ⟨_, _, _, _, measured', fun fixed => (permanent fixed).2, fun current bounded => ?_⟩
      rw [current] at longer
      exact PropertyTable.bounded_less _ n length longer (PropertyTable.bounded_same _ _ n same bounded)
  · rw [if_neg longer]
    cases writable : old.2 with
    | false => exact ⟨_, idle, n, w, false, c, measured, fun permanent => ⟨rfl, permanent⟩, fun _ bounded => bounded⟩
    | true =>
      obtain ⟨t, retabled, m, w', e', c', measured', permanent, bounded⟩ :=
        array_shrink h id isArray n w c measured _ length isValue' rfl short small
      refine ⟨t, retabled, m, w', e', c', measured', permanent, fun current => bounded ?_⟩
      rwa [current] at writable

omit measured in
theorem length_of_measured (e : Bool) (measured : (h.object id).properties.Measured n w e c) :
    h.lengthOf id = (n, w) := by
  have wide : Number.wordCount ≤ 2 ^ 53 := by
    decide
  rw [lengthOf, array_own h id .length isArray, measured.found]
  dsimp only
  rw [Number.clamp_whole _ n (Nat.lt_of_lt_of_le measured.fits wide) (Nat.le_sub_one_of_lt measured.fits)]

theorem array_element (i : Nat) (d : Definition)
    (small : ((h.defineElement id i d).2.object id).kind.isArray = true →
      ((h.defineElement id i d).2.object id).properties.Bounded indexBound) :
    ∃ t, h.Retabled id (h.defineElement id i d).2 t ∧ ∃ m, t.Measured m w false c ∧
      ((h.object id).properties.Bounded n → t.Bounded m) := by
  have idle : h.Retabled id h (h.object id).properties := retabled_refl h id
  rw [defineElement, length_of_measured h id isArray n w c false measured] at small ⊢
  dsimp only at small ⊢
  by_cases refused : (decide (n ≤ i) && !w) = true
  · rw [if_pos refused]
    exact ⟨_, idle, n, measured, fun bounded => bounded⟩
  rw [if_neg refused] at small ⊢
  obtain ⟨t, retabled, defines⟩ := array_ordinary h id isArray (.index i) d
  generalize h.defineOrdinary id (.index i) d = result at small retabled defines ⊢
  obtain ⟨accepted, k⟩ := result
  have same (key : PropertyKey) (distinct : PropertyKey.index i ≠ key) := PropertyTable.defines_other _ _ _ _ _ key defines distinct
  have still := PropertyTable.measured_other _ t n w false c measured (same .length PropertyKey.noConfusion)
  cases accepted with
  | false =>
    cases defines with
    | reject refused => exact ⟨_, retabled, n, measured, fun bounded => bounded⟩
  | true =>
    dsimp only at small retabled ⊢
    obtain ⟨x, there⟩ := PropertyTable.defines_there _ _ _ _ defines
    have below (m : Nat) (above : i < m) (most : n ≤ m) (bounded : (h.object id).properties.Bounded n) : t.Bounded m := by
      intro j y found
      by_cases here : i = j
      · exact here ▸ above
      · rw [same _ fun equal => here (PropertyKey.index.inj equal)] at found
        exact Nat.lt_of_lt_of_le (bounded j y found) most
    by_cases longer : n ≤ i
    · -- the length follows the element
      rw [if_pos longer] at small ⊢
      have known := array_known k id (retabled.array.trans isArray)
      have follows := retabled_modify k id (fun t => t.modify .length (·.withValue (.ofNat (i + 1)))) known
      rw [retabled.table] at follows
      have index (j : Nat) : (t.modify .length (·.withValue (.ofNat (i + 1)))).find? (.index j) = t.find? (.index j) := by
        rw [PropertyTable.find_modify, if_neg PropertyKey.noConfusion]
      rw [follows.table] at small
      have small' := small ((follows.array.trans retabled.array).trans isArray)
      have names : i < indexBound := small' i x ((index i).trans there)
      refine ⟨_, retabled_trans h id _ _ _ _ retabled follows, i + 1, ⟨Nat.add_lt_of_lt_sub names, ?_⟩, fun bounded => ?_⟩
      · rw [PropertyTable.find_modify, if_pos rfl, still.found]
        rfl
      · exact PropertyTable.bounded_same _ _ _ index (below (i + 1) (Nat.lt_succ_self i) (Nat.le_succ_of_le longer) bounded)
    · rw [if_neg longer]
      exact ⟨t, retabled, n, still, below n (Nat.lt_of_not_le longer) (Nat.le_refl n)⟩

end

end Heap

end Ecma
