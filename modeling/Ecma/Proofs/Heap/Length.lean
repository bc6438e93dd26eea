import Ecma.Proofs.Heap.Array

set_option autoImplicit false

/-!
What each change of the heap does to arrays. The length of an array stays a hidden number that fits a word,
and it stays above the elements as long as it is defined by what it is.
-/

namespace Ecma.Heap

-- The length of an array is a hidden number that fits a word; only that of `Array.prototype` can be
-- configurable.
def HasLength (h : Heap) (id : ObjectId) (n : Nat) : Prop :=
  n < Number.wordCount ∧ ∃ w c, h.own? id .length = some (.data (.number (.ofNat n)) w false c) ∧
    (c = true → id = Intrinsic.arrayPrototype)

def Covers (h : Heap) (id : ObjectId) (n : Nat) : Prop :=
  ∀ i d, h.own? id (.index i) = some d → i < n

def WellFormed (h : Heap) (id : ObjectId) : Prop :=
  ∃ n, h.HasLength id n ∧ h.Covers id n

-- The elements of arrays are at indices, which leave room for a length above them.
def Indexed (h : Heap) : Prop :=
  ∀ id, h.isArray id = true → h.Covers id indexBound

-- A length is defined by what it is no longer, and does not end above the elements.
def Outgrown (h k : Heap) (id : ObjectId) : Prop :=
  ∃ d length old, k = (h.defineLength id d length old).2 ∧ old ≠ h.lengthOf id ∧
    ∃ i x, k.own? id (.index i) = some x ∧ (k.lengthOf id).1 ≤ i

-- The length of `Array.prototype` is deleted, or becomes something else.
def Loosened (h k : Heap) (id : ObjectId) : Prop :=
  id = Intrinsic.arrayPrototype ∧ (k = (h.delete id .length).2 ∧ k ≠ h ∨ ¬ ∃ n, k.HasLength id n)

section

variable (h : Heap) (id : ObjectId)

theorem is_array_kind : h.isArray id = (h.object id).kind.isArray := by
  rw [isArray, Heap.kind]
  cases (h.object id).kind <;> rfl

variable (isArray : (h.object id).kind.isArray = true)
include isArray

theorem has_length_measured (n : Nat) : h.HasLength id n ↔
    ∃ w c, (h.object id).properties.Measured n w false c ∧ (c = true → id = Intrinsic.arrayPrototype) := by
  rw [HasLength, array_own h id .length isArray]
  refine ⟨fun has => ?_, fun has => ?_⟩
  · obtain ⟨fits, w, c, found, loose⟩ := has
    exact ⟨w, c, ⟨fits, found⟩, loose⟩
  · obtain ⟨w, c, measured, loose⟩ := has
    exact ⟨measured.fits, w, c, measured.found, loose⟩

theorem covers_bounded (n : Nat) : h.Covers id n ↔ (h.object id).properties.Bounded n := by
  simp only [Covers, array_own h id _ isArray, PropertyTable.Bounded]

end

-- One change, seen from one array.
structure Steps (h k : Heap) (id : ObjectId) (n : Nat) : Prop where
  length : id ≠ Intrinsic.arrayPrototype → ∃ m, k.HasLength id m
  covers : h.Covers id n → ¬ h.Loosened k id → ¬ h.Outgrown k id → k.WellFormed id

section

variable (h k : Heap) (id : ObjectId) (isArray : (h.object id).kind.isArray = true) (n : Nat)
  (has : h.HasLength id n)
include isArray has

theorem steps_same (same : k.object id = h.object id) : h.Steps k id n := by
  have isArray' : (k.object id).kind.isArray = true := by
    rw [same, isArray]
  have has' : k.HasLength id n := by
    rw [has_length_measured k id isArray', same, ← has_length_measured h id isArray]
    exact has
  refine ⟨fun _ => ⟨n, has'⟩, fun covers _ _ => ⟨n, has', ?_⟩⟩
  rw [covers_bounded k id isArray', same, ← covers_bounded h id isArray]
  exact covers

theorem steps_retabled (t : PropertyTable) (retabled : h.Retabled id k t)
    (step : ∀ w c, (h.object id).properties.Measured n w false c → (c = true → id = Intrinsic.arrayPrototype) →
      (c = false → ∃ m w', t.Measured m w' false false) ∧
      ((h.object id).properties.Bounded n → (∃ m w' c', t.Measured m w' false c') → ¬ h.Outgrown k id →
        ∃ m w' c', t.Measured m w' false c' ∧ (c' = true → c = true) ∧ t.Bounded m)) : h.Steps k id n := by
  have isArray' : (k.object id).kind.isArray = true := retabled.array.trans isArray
  obtain ⟨w, c, measured, loose⟩ := (has_length_measured h id isArray n).mp has
  obtain ⟨length, covers⟩ := step w c measured loose
  refine ⟨fun special => ?_, fun covered fixed still => ?_⟩
  · cases c with
    | true => exact absurd (loose rfl) special
    | false =>
      obtain ⟨m, w', measured'⟩ := length rfl
      refine ⟨m, (has_length_measured k id isArray' m).mpr ⟨w', false, ?_, nofun⟩⟩
      rwa [retabled.table]
  · have has' : ∃ m, k.HasLength id m := by
      by_contra none
      cases c with
      | true => exact fixed ⟨loose rfl, .inr none⟩
      | false =>
        obtain ⟨m, w', measured'⟩ := length rfl
        refine none ⟨m, (has_length_measured k id isArray' m).mpr ⟨w', false, ?_, nofun⟩⟩
        rwa [retabled.table]
    obtain ⟨m, has'⟩ := has'
    obtain ⟨w', c', measured', _⟩ := (has_length_measured k id isArray' m).mp has'
    rw [retabled.table] at measured'
    obtain ⟨m', w'', c'', measured'', loose', bounded⟩ :=
      covers ((covers_bounded h id isArray n).mp covered) ⟨m, w', c', measured'⟩ still
    refine ⟨m', (has_length_measured k id isArray' m').mpr ⟨w'', c'', ?_, fun configurable => ?_⟩, ?_⟩
    · rwa [retabled.table]
    · exact loose (loose' configurable)
    · rwa [covers_bounded k id isArray', retabled.table]

-- A change that gives an array no further elements and leaves its length alone.
theorem steps_beside (t : PropertyTable) (retabled : h.Retabled id k t)
    (length : t.find? .length = (h.object id).properties.find? .length)
    (elements : ∀ i x, t.find? (.index i) = some x → ∃ y, (h.object id).properties.find? (.index i) = some y) :
    h.Steps k id n := by
  refine steps_retabled h k id isArray n has t retabled fun w c measured _ => ⟨fun fixed => ?_, fun bounded _ _ => ?_⟩
  · subst fixed
    exact ⟨n, w, PropertyTable.measured_other _ t n w false false measured length⟩
  · refine ⟨n, w, c, PropertyTable.measured_other _ t n w false c measured length, fun same => same, fun i x found => ?_⟩
    obtain ⟨y, before⟩ := elements i x found
    exact bounded i y before

theorem steps_measured (t : PropertyTable) (retabled : h.Retabled id k t)
    (step : ∀ w c, (h.object id).properties.Measured n w false c → ∃ m w' e' c', t.Measured m w' e' c' ∧
      (c = false → e' = false ∧ c' = false) ∧
      (¬ h.Outgrown k id → (h.object id).properties.Bounded n → t.Bounded m)) : h.Steps k id n := by
  refine steps_retabled h k id isArray n has t retabled fun w c measured _ => ?_
  obtain ⟨m, w', e', c', measured', permanent, bounded'⟩ := step w c measured
  refine ⟨fun fixed => ?_, fun bounded has' still => ?_⟩
  · obtain ⟨rfl, rfl⟩ := permanent fixed
    exact ⟨m, w', measured'⟩
  · obtain ⟨m', w'', c'', other⟩ := has'
    obtain ⟨rfl, rfl, rfl, rfl⟩ := PropertyTable.measured_unique t m w' e' c' measured' _ _ _ _ other
    refine ⟨m, w', c', measured', fun configurable => ?_, bounded' still bounded⟩
    cases c with
    | true => rfl
    | false => exact ((permanent rfl).2.symm.trans configurable)

omit k

theorem steps_define_length (d : Definition) (oneKind : d.OneKind) (kept : d.value = none) :
    h.Steps (h.defineOrdinary id .length d).2 id n := by
  obtain ⟨t, retabled, defines⟩ := array_ordinary h id isArray .length d
  have same (i : Nat) := PropertyTable.defines_other _ t d _ .length (.index i) defines PropertyKey.noConfusion
  cases isAccessor : d.isAccessor with
  | false =>
    refine steps_measured h _ id isArray n has t retabled fun w c measured => ?_
    have lengthens := PropertyTable.defines_length _ t d _ n w false c measured n measured.fits isAccessor
      (by rw [kept]; rfl) defines
    have bounded : (h.object id).properties.Bounded n → t.Bounded n := PropertyTable.bounded_same _ t n same
    generalize (h.defineOrdinary id .length d).1 = accepted at lengthens
    cases lengthens with
    | keep equal => exact ⟨n, w, false, c, measured, fun fixed => ⟨rfl, fixed⟩, fun _ => bounded⟩
    | reject refused => exact ⟨n, w, false, c, measured, fun fixed => ⟨rfl, fixed⟩, fun _ => bounded⟩
    | change _ measured' permanent =>
      exact ⟨n, _, _, _, measured', fun fixed => (permanent fixed).2, fun _ => bounded⟩
  | true =>
    have isData : d.isData = false := by
      by_contra data
      rw [oneKind (Bool.not_eq_false _ ▸ data)] at isAccessor
      cases isAccessor
    refine steps_retabled h _ id isArray n has t retabled fun w c measured _ => ?_
    have idle (same : t = (h.object id).properties) : (c = false → ∃ m w', t.Measured m w' false false) ∧
        ((h.object id).properties.Bounded n → (∃ m w' c', t.Measured m w' false c') → ¬ h.Outgrown (h.defineOrdinary id .length d).2 id →
          ∃ m w' c', t.Measured m w' false c' ∧ (c' = true → c = true) ∧ t.Bounded m) := by
      subst same
      exact ⟨fun fixed => ⟨n, w, fixed ▸ measured⟩, fun bounded _ _ => ⟨n, w, c, measured, fun same => same, bounded⟩⟩
    generalize (h.defineOrdinary id .length d).1 = accepted at defines
    cases defines with
    | add absent => cases measured.found.symm.trans absent
    | keep current there within => exact idle rfl
    | reject refused => exact idle rfl
    | change current there may changes =>
      cases measured.found.symm.trans there
      -- a length that may become an accessor is configurable, and it is no number afterwards
      have found : ((h.object id).properties.modify .length d.apply).find? .length =
          some (d.apply (.data (.number (.ofNat n)) w false c)) := by
        rw [PropertyTable.find_modify, if_pos rfl, there]
        rfl
      refine ⟨fun fixed => ?_, fun _ has' _ => ?_⟩
      · subst fixed
        simp [Definition.mayChange, Definition.isGeneric, Descriptor.configurable, Descriptor.isData, isAccessor,
          isData] at may
      · obtain ⟨m, w', c', measured'⟩ := has'
        have shape := measured'.found.symm.trans found
        simp [Definition.apply, Definition.reshape, isAccessor] at shape

theorem steps_length (d : Definition) (length : Nat) (old : Nat × Bool) (isValue : d.isAccessor = false)
    (short : length < Number.wordCount) (indexed : h.Indexed) :
    h.Steps (h.defineLength id d length old).2 id n := by
  have small := (covers_bounded h id isArray _).mp (indexed id ((is_array_kind h id).trans isArray))
  obtain ⟨w, c, measured, _⟩ := (has_length_measured h id isArray n).mp has
  obtain ⟨t, retabled, m, w', e', c', measured', permanent, bounded⟩ :=
    array_length h id isArray n w c measured d length old isValue short small
  refine steps_measured h _ id isArray n has t retabled fun w₁ c₁ again => ?_
  obtain ⟨_, rfl, _, rfl⟩ := PropertyTable.measured_unique _ n w false c measured _ _ _ _ again
  refine ⟨m, w', e', c', measured', permanent, fun still covered => ?_⟩
  have isArray' := retabled.array.trans isArray
  by_cases current : old = h.lengthOf id
  · rw [length_of_measured h id isArray n w c false measured] at current
    exact bounded current covered
  · intro i x found
    by_contra above
    refine still ⟨d, length, old, rfl, current, i, x, ?_, ?_⟩
    · rw [array_own _ id _ isArray', retabled.table, found]
    · rw [length_of_measured _ id isArray' m w' c' e' (by rwa [retabled.table])]
      exact Nat.le_of_not_lt above

theorem steps_define (key : PropertyKey) (d : Definition) (oneKind : d.OneKind)
    (converted : key = .length → d.value = none) (indexed : (h.define id key d).2.Indexed) :
    h.Steps (h.define id key d).2 id n := by
  have kind : h.kind id = .array := by
    rw [Heap.kind]
    cases kind : (h.object id).kind with
    | array => rfl
    | _ => simp [kind, ObjectKind.isArray] at isArray
  cases key with
  | index i =>
    simp only [define, kind] at indexed ⊢
    have small (isArray' : ((h.defineElement id i d).2.object id).kind.isArray = true) :=
      (covers_bounded _ id isArray' _).mp (indexed id ((is_array_kind _ id).trans isArray'))
    obtain ⟨w, c, measured, _⟩ := (has_length_measured h id isArray n).mp has
    obtain ⟨t, retabled, m, measured', bounded⟩ := array_element h id isArray n w c measured i d small
    refine steps_measured h _ id isArray n has t retabled fun w₁ c₁ again => ?_
    obtain ⟨_, rfl, _, rfl⟩ := PropertyTable.measured_unique _ n w false c measured _ _ _ _ again
    exact ⟨m, w, false, c, measured', fun fixed => ⟨rfl, fixed⟩, fun _ => bounded⟩
  | name s =>
    simp only [define, kind]
    by_cases isLength : s = "length"
    · subst isLength
      exact steps_define_length h id isArray n has d oneKind (converted rfl)
    · obtain ⟨t, retabled, defines⟩ := array_ordinary h id isArray (.name s) d
      have same (key : PropertyKey) (distinct : PropertyKey.name s ≠ key) :=
        PropertyTable.defines_other _ t d _ _ key defines distinct
      refine steps_beside h _ id isArray n has t retabled (same _ ?_) fun i x found => ⟨x, ?_⟩
      · exact fun equal => isLength (PropertyKey.name.inj equal)
      · rwa [same _ PropertyKey.noConfusion] at found

theorem steps_delete (key : PropertyKey) : h.Steps (h.delete id key).2 id n := by
  cases key with
  | index i =>
    obtain ⟨t, retabled, _, outcome⟩ := array_delete h id isArray i
    rcases outcome with ⟨_, gone, others, _⟩ | ⟨_, rfl, _⟩
    · refine steps_beside h _ id isArray n has t retabled (others _ PropertyKey.noConfusion) fun j x found => ⟨x, ?_⟩
      rwa [others] at found
      intro here
      rw [here, gone] at found
      cases found
    · exact steps_beside h _ id isArray n has _ retabled rfl fun j x found => ⟨x, found⟩
  | name s =>
    by_cases same : (h.delete id (.name s)).2 = h
    · exact steps_same h _ id isArray n has (congrArg (fun k => k.object id) same)
    by_cases isLength : s = "length"
    · -- only `Array.prototype` can lose its length
      subst isLength
      obtain ⟨w, c, measured, loose⟩ := (has_length_measured h id isArray n).mp has
      have special : id = Intrinsic.arrayPrototype := by
        cases c with
        | true => exact loose rfl
        | false =>
          refine absurd ?_ same
          rw [delete, array_own h id _ isArray, show PropertyKey.name "length" = .length from rfl, measured.found]
          rfl
      exact ⟨fun other => absurd special other, fun _ fixed _ => absurd ⟨special, .inl ⟨rfl, same⟩⟩ fixed⟩
    · have erased := retabled_modify h id (fun t => t.erase (.name s)) (array_known h id isArray)
      have whole : (h.delete id (.name s)).2 = h.modifyProperties id fun t => t.erase (.name s) := by
        rw [delete] at same ⊢
        split
        · next absent => simp [absent] at same
        · next d there =>
          split
          · rfl
          · next fixed => simp [there, fixed] at same
      rw [whole]
      refine steps_beside h _ id isArray n has _ erased ?_ fun i x found => ⟨x, ?_⟩
      · exact PropertyTable.find_erase _ _ _ fun equal => isLength (PropertyKey.name.inj equal)
      · rwa [PropertyTable.find_erase _ _ _ PropertyKey.noConfusion] at found

end

/-! All changes. -/

section

variable (h : Heap) (id : ObjectId)

theorem spares_ordinary (key : PropertyKey) (d : Definition) : h.Spares id (h.defineOrdinary id key d).2 := by
  rcases define_ordinary_is h id key d with ⟨_, _, is⟩ | ⟨_, _, _, _, is⟩ | is | is
  · rw [is]
    exact spares_modify h id _ fun _ => rfl
  · rw [is]
    exact spares_modify h id _ fun _ => rfl
  · rw [is]
    exact spares_refl h id
  · rw [is]
    exact spares_refl h id

theorem spares_unmap (key : PropertyKey) : h.Spares id (h.unmap id key) := by
  cases key with
  | index i => exact spares_modify h id _ (unmapped_array i)
  | name s => exact spares_refl h id

theorem spares_delete (key : PropertyKey) : h.Spares id (h.delete id key).2 := by
  rw [delete]
  split
  · exact spares_refl h id
  · split
    · have erased : h.Spares id (h.modifyProperties id fun t => t.erase key) := spares_modify h id _ fun _ => rfl
      exact spares_trans h id _ _ erased (spares_unmap _ id key)
    · exact spares_refl h id

theorem spares_follow (key : PropertyKey) (a : Alias) (d : Definition) : h.Spares id (h.followAlias id key a d) := by
  have written (v : Value) : h.Spares id (h.writeAlias a v) := spares_same_objects h id _ (write_alias_objects h a v)
  rw [followAlias]
  split
  · exact spares_unmap h id key
  · cases d.value with
    | none =>
      dsimp only
      split
      · exact spares_unmap h id key
      · exact spares_refl h id
    | some v =>
      dsimp only
      split
      · exact spares_trans h id _ _ (written v) (spares_unmap _ id key)
      · exact written v

theorem spares_element (i : Nat) (d : Definition) : h.Spares id (h.defineElement id i d).2 := by
  have defined := spares_ordinary h id (.index i) d
  rw [defineElement]
  dsimp only
  split
  · exact spares_refl h id
  · generalize h.defineOrdinary id (.index i) d = result at defined ⊢
    obtain ⟨accepted, k⟩ := result
    cases accepted with
    | false => exact defined
    | true =>
      dsimp only at defined ⊢
      split
      · exact spares_trans h id _ _ defined (spares_modify k id _ fun _ => rfl)
      · exact defined

theorem spares_argument (key : PropertyKey) (d : Definition) : h.Spares id (h.defineArgument id key d).2 := by
  rw [defineArgument]
  split
  · exact spares_ordinary h id key d
  · next a found =>
    have defined := spares_ordinary h id key (h.freezeAliased id key d)
    dsimp only
    generalize h.defineOrdinary id key (h.freezeAliased id key d) = result at defined ⊢
    obtain ⟨accepted, k⟩ := result
    cases accepted with
    | false => exact defined
    | true => exact spares_trans h id _ _ defined (spares_follow k id key a _)

theorem spares_define (key : PropertyKey) (d : Definition) : h.Spares id (h.define id key d).2 := by
  cases kind : h.kind id with
  | array =>
    cases key with
    | index i =>
      simp only [define, kind]
      exact spares_element h id i d
    | name s =>
      simp only [define, kind]
      exact spares_ordinary h id _ d
  | arguments mapped =>
    simp only [define, kind]
    exact spares_argument h id key d
  | _ =>
    simp only [define, kind]
    exact spares_ordinary h id key d

theorem spares_delete_elements (keys : List Nat) : h.Spares id (h.deleteElements id keys).2 := by
  induction keys generalizing h with
  | nil => exact spares_refl h id
  | cons i rest hyp =>
    have gone := spares_delete h id (.index i)
    rw [deleteElements]
    generalize h.delete id (.index i) = result at gone ⊢
    obtain ⟨accepted, k⟩ := result
    cases accepted with
    | true => exact spares_trans h id _ _ gone (hyp k)
    | false => exact gone

theorem spares_shrink (d : Definition) (length : Nat) : h.Spares id (h.shrink id d length).2 := by
  rw [shrink]
  dsimp only
  generalize (if d.writable = some false then d.withWritable true else d) = e
  have defined := spares_ordinary h id .length e
  generalize h.defineOrdinary id .length e = result at defined ⊢
  obtain ⟨accepted, k⟩ := result
  cases accepted with
  | false => exact defined
  | true =>
    have gone := spares_delete_elements k id (k.elementsFrom id length)
    dsimp only at defined ⊢
    generalize k.deleteElements id (k.elementsFrom id length) = result at gone ⊢
    obtain ⟨stays, l⟩ := result
    have both := spares_trans h id _ _ defined gone
    cases stays with
    | some i => exact spares_trans h id _ _ both (spares_ordinary l id .length _)
    | none =>
      dsimp only
      split
      · exact spares_trans h id _ _ both (spares_ordinary l id .length _)
      · exact both

theorem spares_length (d : Definition) (length : Nat) (old : Nat × Bool) :
    h.Spares id (h.defineLength id d length old).2 := by
  rw [defineLength]
  split
  · exact spares_ordinary h id .length _
  · split
    · exact spares_refl h id
    · exact spares_shrink h id _ length

end

theorem made_well_formed (h : Heap) (items : List (Option Value)) (short : items.length < Number.wordCount)
    (id : ObjectId) (new : id = h.objects.size) : (h.addObject (.ofItems items)).2.WellFormed id := by
  have object : (h.addObject (.ofItems items)).2.object id = .ofItems items := by
    rw [object_add, if_pos new]
  have isArray : ((h.addObject (.ofItems items)).2.object id).kind.isArray = true := by
    rw [object]
    rfl
  refine ⟨items.length, (has_length_measured _ id isArray _).mpr ⟨true, false, ⟨short, ?_⟩, nofun⟩, ?_⟩
  · rw [object]
    rfl
  · rw [covers_bounded _ id isArray, object]
    intro i d found
    rcases PropertyTable.added_bounded items 0 ∅ i d found with inside | nothing
    · rwa [Nat.zero_add] at inside
    · rw [Std.TreeMap.getElem?_emptyc] at nothing
      cases nothing

-- Each change either makes an array, which is well formed, or takes a step with it.
theorem regular_steps (h k : Heap) (regular : h.Regular k) (indexed : h.Indexed) (indexed' : k.Indexed)
    (short : ∀ items, k = (h.addObject (.ofItems items)).2 → items.length < Number.wordCount) (id : ObjectId)
    (isArray : k.isArray id = true) :
    h.isArray id = false ∧ k.WellFormed id ∨ h.isArray id = true ∧ ∀ n, h.HasLength id n → h.Steps k id n := by
  -- an array that is left alone
  have same (unchanged : k.object id = h.object id) :
      h.isArray id = true ∧ ∀ n, h.HasLength id n → h.Steps k id n := by
    have before : (h.object id).kind.isArray = true := by
      rwa [is_array_kind, unchanged] at isArray
    exact ⟨(is_array_kind h id).trans before, fun n has => steps_same h k id before n has unchanged⟩
  -- a change of one object, which may be this array
  have changed (target : ObjectId) (spares : h.Spares target k)
      (step : target = id → (h.object id).kind.isArray = true → ∀ n, h.HasLength id n → h.Steps k id n) :
      h.isArray id = true ∧ ∀ n, h.HasLength id n → h.Steps k id n := by
    by_cases here : target = id
    · subst here
      have before : (h.object target).kind.isArray = true := by
        rwa [is_array_kind, spares.array] at isArray
      exact ⟨(is_array_kind h target).trans before, step rfl before⟩
    · exact same (spares.others id fun equal => here equal.symm)
  cases regular with
  | object o plain writable =>
    by_cases new : id = h.objects.size
    · rw [is_array_kind, object_add, if_pos new, plain] at isArray
      cases isArray
    · exact .inr (same ((object_add h o id).trans (if_neg new)))
  | array items =>
    by_cases new : id = h.objects.size
    · refine .inl ⟨?_, ?_⟩
      · rw [is_array_kind, object_unknown h id (new ▸ Nat.lt_irrefl _)]
        rfl
      · exact made_well_formed h items (short items rfl) id new
    · exact .inr (same ((object_add h _ id).trans (if_neg new)))
  | environment e => exact .inr (same rfl)
  | frame frame => exact .inr (same rfl)
  | slot frame index v => exact .inr (same rfl)
  | bindings env f => exact .inr (same rfl)
  | define target key d oneKind converted =>
    refine .inr (changed target (spares_define h target key d) ?_)
    rintro rfl before n has
    exact steps_define h target before n has key d oneKind (converted ((is_array_kind h target).trans before)) indexed'
  | length target d length old isValue fits =>
    refine .inr (changed target (spares_length h target d length old) ?_)
    rintro rfl before n has
    exact steps_length h target before n has d length old isValue fits indexed
  | delete target key =>
    refine .inr (changed target (spares_delete h target key) ?_)
    rintro rfl before n has
    exact steps_delete h target before n has key
  | close target =>
    have spares : h.Spares target (h.preventExtensions target) := spares_modify h target _ fun _ => rfl
    refine .inr (changed target spares ?_)
    rintro rfl before n has
    refine steps_beside h _ target before n has _ ⟨spares, ?_⟩ rfl fun i x found => ⟨x, found⟩
    rw [preventExtensions, object_modify, if_pos ⟨rfl, array_known h target before⟩]
  | override v =>
    refine .inr (changed Intrinsic.errorConstructor (spares_modify h _ _ fun _ => rfl) ?_)
    rintro rfl before n has
    have stored := retabled_modify h Intrinsic.errorConstructor (fun t => t.insert (.name "stackTraceLimit") (.free v))
      (array_known h _ before)
    refine steps_beside h _ _ before n has _ stored ?_ fun i x found => ⟨x, ?_⟩
    · rw [PropertyTable.find_insert, if_neg (by decide)]
    · rwa [PropertyTable.find_insert, if_neg PropertyKey.noConfusion] at found
  | append target more isFunction opened =>
    refine .inr (changed target (spares_modify h _ _ fun _ => rfl) ?_)
    rintro rfl before n has
    -- a function is no array
    rw [callable?, Heap.kind] at isFunction
    cases kind : (h.object target).kind with
    | array => simp [kind, ObjectKind.callable?] at isFunction
    | _ => simp [kind, ObjectKind.isArray] at before

end Ecma.Heap
