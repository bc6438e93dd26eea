import Ecma.Operation.Property
import Ecma.Proofs.Heap.Array
import Ecma.Proofs.Heap.Ordinary
import Ecma.Proofs.Run.Course

set_option autoImplicit false

/-!
Defining the properties of an array. The length stays above all elements: it follows an element that is added
behind it, and when it is made less, the elements that it no longer covers go, from the end on, until one
of them is permanent.
-/

namespace Ecma

/-! Only one object's properties change. -/

namespace Heap

def withTable (h : Heap) (id : ObjectId) (t : PropertyTable) : Heap :=
  h.modifyProperties id fun _ => t

section

variable (h k l : Heap) (id : ObjectId) (known : id < h.objects.size)

-- What matters of a change is what it does to the object that is there.
theorem modify_agrees (f g : Object → Object) (agree : f (h.object id) = g (h.object id)) :
    h.modifyObject id f = h.modifyObject id g := by
  have same : h.objects.modify id f = h.objects.modify id g := by
    apply Array.ext
    · simp only [Array.size_modify]
    · intro i inside inside'
      rw [Array.size_modify] at inside
      rw [Array.getElem_modify, Array.getElem_modify]
      split
      · next here =>
        subst here
        have there : h.object id = h.objects[id] := by
          rw [object, Array.getElem?_eq_getElem inside]
          rfl
        rw [← there, agree]
      · rfl
  rw [modifyObject, modifyObject, same]

theorem table_modify (f : PropertyTable → PropertyTable) :
    h.modifyProperties id f = h.withTable id (f (h.object id).properties) := by
  exact modify_agrees h id _ _ rfl

theorem table_object : h.withTable id (h.object id).properties = h := by
  have unchanged : h.modifyObject id (fun o => o) = h := by
    have same : h.objects.modify id (fun o => o) = h.objects := by
      apply Array.ext
      · exact Array.size_modify
      · intro i inside inside'
        rw [Array.getElem_modify]
        split <;> rfl
    rw [modifyObject, same]
  exact (modify_agrees h id _ (fun o => o) rfl).trans unchanged

theorem table_twice (t u : PropertyTable) : (h.withTable id t).withTable id u = h.withTable id u := by
  exact modify_twice h id _ _

include known in
theorem with_table_object (t : PropertyTable) : (h.withTable id t).object id = { h.object id with properties := t } := by
  rw [withTable, modify_properties_object, if_pos ⟨rfl, known⟩]

-- Of one heap and another, at most the properties of an object differ.
def Tabled : Prop :=
  k = h.withTable id (k.object id).properties

theorem tabled_refl : h.Tabled h id := by
  exact (table_object h id).symm

theorem tabled_trans (first : h.Tabled k id) (second : k.Tabled l id) : h.Tabled l id := by
  rw [Tabled] at first second
  rw [Tabled]
  refine second.trans ?_
  rw [first]
  exact table_twice h id _ _

include known in
theorem tabled_modify (f : PropertyTable → PropertyTable) : h.Tabled (h.modifyProperties id f) id := by
  rw [table_modify, Tabled, with_table_object h id known]

theorem ordinary_tabled (key : PropertyKey) (d : Definition) (known : id < h.objects.size) :
    h.Tabled (h.defineOrdinary id key d).2 id := by
  rcases define_ordinary_is h id key d with ⟨_, _, is⟩ | ⟨_, _, _, _, is⟩ | is | is
  · rw [is]
    exact tabled_modify h id known fun t => t.insert key d.create
  · rw [is]
    exact tabled_modify h id known fun t => t.modify key d.apply
  · rw [is]
    exact tabled_refl h id
  · rw [is]
    exact tabled_refl h id

theorem delete_tabled (i : Nat) (isArray : (h.object id).kind.isArray = true) :
    h.Tabled (h.delete id (.index i)).2 id := by
  have known := array_known h id isArray
  rw [delete]
  split
  · exact tabled_refl h id
  · split
    · -- an array has no parameters that could be forgotten
      have erased := tabled_modify h id known fun t => t.erase (.index i)
      have same : (h.modifyProperties id fun t => t.erase (.index i)).unmap id (.index i) =
          h.modifyProperties id fun t => t.erase (.index i) := by
        rw [unmap_index, modifyProperties, modify_twice]
        refine modify_agrees h id _ _ ?_
        rw [unmapped]
        split
        · next mapped kind =>
          change (h.object id).kind = .arguments mapped at kind
          rw [kind] at isArray
          cases isArray
        · rfl
      rw [same]
      exact erased
    · exact tabled_refl h id

theorem delete_elements_tabled (keys : List Nat) (isArray : (h.object id).kind.isArray = true) :
    h.Tabled (h.deleteElements id keys).2 id := by
  induction keys generalizing h with
  | nil => exact tabled_refl h id
  | cons i rest hyp =>
    have deleted := delete_tabled h id i isArray
    obtain ⟨t, retabled, _⟩ := array_delete h id isArray i
    rw [deleteElements]
    generalize h.delete id (.index i) = result at deleted retabled ⊢
    obtain ⟨gone, k⟩ := result
    cases gone with
    | true => exact tabled_trans h k _ id deleted (hyp k (retabled.array.trans isArray))
    | false => exact deleted

end

end Heap

/-! The length. -/

-- The keys that are left of an array of such a length.
def PropertyKey.under (n : Nat) : PropertyKey → Bool
  | .index i => i < n
  | .name _ => true

namespace PropertyTable

-- The length is another, and that is all.
structure Relengthened (t : PropertyTable) (n : Nat) (w e : Bool) (u : PropertyTable) : Prop where
  length : u.find? .length = some (.data (.ofNat n) w e false)
  others : ∀ key, key ≠ .length → u.find? key = t.find? key
  keys : u.keys = t.keys

-- The elements that a length does not cover are gone.
structure Covered (t : PropertyTable) (n : Nat) (u : PropertyTable) : Prop where
  others : ∀ key, key ≠ .length → u.find? key = if key.under n then t.find? key else none
  keys : u.keys = t.keys.filter (·.under n)

structure Shortened (t : PropertyTable) (n : Nat) (w e : Bool) (u : PropertyTable) : Prop extends Covered t n u where
  length : u.find? .length = some (.data (.ofNat n) w e false)

-- How short an array can be made, and whether that is as short as it was to be: elements that are permanent
-- stay, and the length is above the last of them.
inductive Shortest (t : PropertyTable) (length : Nat) : Nat → Bool → Prop
  | reached (free : ∀ i d, length ≤ i → t.find? (.index i) = some d → d.configurable = true) :
      Shortest t length length true
  | stopped (i : Nat) (d : Descriptor) (above : length ≤ i) (there : t.find? (.index i) = some d)
      (permanent : d.configurable = false)
      (free : ∀ j d, i < j → t.find? (.index j) = some d → d.configurable = true) : Shortest t length (i + 1) false

section

variable (t u v : PropertyTable)

theorem relengthened_covered (n m : Nat) (w e : Bool) (first : t.Relengthened n w e u) (rest : u.Covered m v) :
    t.Covered m v := by
  refine ⟨fun key other => ?_, by rw [rest.keys, first.keys]⟩
  rw [rest.others key other, first.others key other]

theorem covered_relengthened (n : Nat) (w e : Bool) (first : t.Covered n u) (rest : u.Relengthened n w e v) :
    t.Shortened n w e v := by
  exact ⟨⟨fun key other => (rest.others key other).trans (first.others key other), rest.keys.trans first.keys⟩, rest.length⟩

-- A length that can be written becomes another.
theorem defines_relengthened (d : Definition) (accepted : Bool) (n m : Nat) (e : Bool) (isValue : d.isAccessor = false)
    (found : t.find? .length = some (.data (.ofNat n) true e false))
    (value : d.value.getD (.ofNat n) = .ofNat m) (allowed : d.Allowed (.data (.ofNat n) true e false))
    (defines : t.Defines .length d accepted u) :
    accepted = true ∧ t.Relengthened m (d.writable.getD true) e u := by
  have oneKind : d.OneKind := fun _ => isValue
  have may := (d.may_change_iff oneKind _).mpr allowed
  cases defines with
  | add absent => cases found.symm.trans absent
  | reject refused => exact absurd may (refused _ found)
  | change current there _ changes =>
    cases found.symm.trans there
    refine ⟨rfl, ?_, fun key other => ?_, keys_modify t _ _⟩
    · rw [find_modify, if_pos rfl, found, Option.map_some, d.apply_writable _ _ e oneKind may, value]
    · rw [find_modify, if_neg other.symm]
  | keep current there same =>
    cases found.symm.trans there
    have describes : d.Describes (.data (.ofNat n) true e false) := by
      rcases Bool.or_eq_true_iff.mp same with empty | within
      · exact d.empty_describes _ empty
      · exact d.within_describes oneKind _ within
    have content : .ofNat n = d.value.getD (.ofNat n) := Definition.stays _ _ (describes.value rfl)
    have flag : true = d.writable.getD true := Definition.stays _ _ (describes.writable rfl)
    refine ⟨rfl, ?_, fun _ _ => rfl, rfl⟩
    rw [found, ← value, ← content, ← flag]

theorem shortest_same (length m : Nat) (reached : Bool) (same : ∀ i, u.find? (.index i) = t.find? (.index i))
    (shortest : u.Shortest length m reached) : t.Shortest length m reached := by
  cases shortest with
  | reached free => exact .reached fun i d above there => free i d above ((same i).trans there)
  | stopped i d above there permanent free =>
    exact .stopped i d above ((same i).symm.trans there) permanent fun j x higher found =>
      free j x higher ((same j).trans found)

/-! Deleting elements. -/

-- The length that is left when elements have been deleted down to one that stays.
def lengthLeft (length : Nat) (stays : Option Nat) : Nat :=
  (stays.map (· + 1)).getD length

variable (length : Nat) (keys : List Nat) (stays : Option Nat) (deleted : t.Deleted keys stays u)
  (listed : ∀ i, i ∈ keys ↔ length ≤ i ∧ ∃ d, t.find? (.index i) = some d)
include deleted listed

theorem deleted_shortest : t.Shortest length (lengthLeft length stays) stays.isNone := by
  cases stays with
  | none => exact .reached fun i d above there => (deleted.gone i ((listed i).mpr ⟨above, d, there⟩) (by rintro _ ⟨⟩)).1 d there
  | some i =>
    obtain ⟨member, d, there, permanent⟩ := deleted.permanent i rfl
    have above := ((listed i).mp member).1
    refine .stopped i d above there permanent fun j x higher found => ?_
    have doomed := (listed j).mpr ⟨Nat.le_trans above (Nat.le_of_lt higher), x, found⟩
    exact (deleted.gone j doomed (by rintro _ ⟨⟩; exact higher)).1 x found

-- What is not covered is what was to be deleted and was not spared.
theorem not_covered (j : Nat) (x : Descriptor) (there : t.find? (.index j) = some x) :
    lengthLeft length stays ≤ j ↔ j ∈ keys ∧ ∀ i, stays = some i → i < j := by
  cases stays with
  | none => exact ⟨fun above => ⟨(listed j).mpr ⟨above, x, there⟩, by rintro _ ⟨⟩⟩, fun both => ((listed j).mp both.1).1⟩
  | some i =>
    have above := ((listed i).mp (deleted.permanent i rfl).1).1
    constructor
    · intro (higher : i < j)
      exact ⟨(listed j).mpr ⟨Nat.le_trans above (Nat.le_of_lt higher), x, there⟩, by rintro _ ⟨⟩; exact higher⟩
    · exact fun both => both.2 i rfl

theorem deleted_find (key : PropertyKey) :
    u.find? key = if key.under (lengthLeft length stays) then t.find? key else none := by
  cases key with
  | name s => exact deleted.rest (.name s) fun _ _ _ => PropertyKey.noConfusion
  | index j =>
    by_cases doomed : j ∈ keys ∧ ∀ i, stays = some i → i < j
    · obtain ⟨x, there⟩ := ((listed j).mp doomed.1).2
      have above := (not_covered t u length keys stays deleted listed j x there).mpr doomed
      rw [(deleted.gone j doomed.1 doomed.2).2, if_neg]
      simpa [PropertyKey.under] using above
    · have spared : u.find? (.index j) = t.find? (.index j) := by
        refine deleted.rest _ fun i member beyond same => doomed ?_
        cases same
        exact ⟨member, beyond⟩
      rw [spared]
      cases there : t.find? (.index j) with
      | none => rw [ite_self]
      | some x =>
        have below := mt (not_covered t u length keys stays deleted listed j x there).mp doomed
        rw [if_pos]
        simpa [PropertyKey.under] using below

theorem deleted_covered : t.Covered (lengthLeft length stays) u := by
  have find := deleted_find t u length keys stays deleted listed
  refine ⟨fun key _ => find key, ?_⟩
  have indices : u.indices = t.indices.filter fun i => PropertyKey.under (lengthLeft length stays) (.index i) := by
    refine List.Pairwise.eq_of_mem_iff (indices_ascend u) ((indices_ascend t).filter _) fun i => ?_
    rw [List.mem_filter, mem_indices, mem_indices, find]
    split
    · next under => exact (and_iff_left under).symm
    · next past => exact iff_of_false Bool.false_ne_true fun both => past both.2
  have names : (t.names.keys.map PropertyKey.name).filter (·.under (lengthLeft length stays)) =
      t.names.keys.map PropertyKey.name := by
    refine List.filter_eq_self.mpr fun key member => ?_
    obtain ⟨s, _, rfl⟩ := List.mem_map.mp member
    rfl
  rw [PropertyTable.keys, PropertyTable.keys, List.filter_append, names, deleted.names, indices, List.filter_map]
  rfl

end

end PropertyTable

namespace Heap

/-! An array is made shorter. -/

section

variable (h : Heap) (id : ObjectId) (n : Nat) (e : Bool)

theorem array_relengthened (isArray : (h.object id).kind.isArray = true) (m : Nat) (d : Definition)
    (isValue : d.isAccessor = false)
    (found : (h.object id).properties.find? .length = some (.data (.ofNat n) true e false))
    (value : d.value.getD (.ofNat n) = .ofNat m) (allowed : d.Allowed (.data (.ofNat n) true e false)) :
    ∃ t, h.defineOrdinary id .length d = (true, h.withTable id t) ∧
      (h.object id).properties.Relengthened m (d.writable.getD true) e t := by
  obtain ⟨t, retabled, defines⟩ := array_ordinary h id isArray .length d
  have tabled := ordinary_tabled h id .length d (array_known h id isArray)
  obtain ⟨accepted, relengthened⟩ :=
    PropertyTable.defines_relengthened _ t d _ n m e isValue found value allowed defines
  rw [Tabled, retabled.table] at tabled
  exact ⟨t, Prod.ext accepted tabled, relengthened⟩

-- What is not made read-only stays writable.
theorem stays_writable (flag : Option Bool) (other : flag ≠ some false) : flag.getD true = true := by
  cases flag with
  | none => rfl
  | some b =>
    cases b with
    | true => rfl
    | false => exact absurd rfl other

-- What can be said about a length that can be written but is permanent.
theorem allowed_length (d : Definition) (v : Value) (isValue : d.isAccessor = false)
    (configurable : d.configurable ≠ some true) (enumerable : ∀ b, d.enumerable = some b → b = e) :
    d.Allowed (.data v true e false) := by
  refine fun _ => ⟨configurable, enumerable, fun _ => rfl, fun accessor => ?_, (by rintro _ ⟨⟩), (by rintro _ ⟨⟩), (by rintro ⟨⟩),
    (by rintro ⟨⟩)⟩
  exact absurd accessor (isValue ▸ Bool.false_ne_true)

theorem shrink_refused (isArray : (h.object id).kind.isArray = true) (d : Definition) (length : Nat)
    (found : (h.object id).properties.find? .length = some (.data (.ofNat n) true e false)) (isValue : d.isAccessor = false)
    (refused : ¬ d.Allowed (.data (.ofNat n) true e false)) :
    (h.shrink id d length).1 = false ∧ (h.shrink id d length).2 = h := by
  rw [shrink]
  dsimp only
  generalize made : (if d.writable = some false then d.withWritable true else d) = f
  obtain ⟨accessor, _, enumerable, configurable, _⟩ := d.opened f made.symm
  have oneKind : f.OneKind := fun _ => accessor.trans isValue
  -- both definitions would be let through
  have same (allowed : f.Allowed (.data (.ofNat n) true e false)) : d.Allowed (.data (.ofNat n) true e false) := by
    have harmless := allowed rfl
    exact allowed_length e d _ isValue (configurable ▸ harmless.configurable) (enumerable ▸ harmless.enumerable)
  obtain ⟨t, retabled, defines⟩ := array_ordinary h id isArray .length f
  have rejected := ordinary_rejected h id .length f
  generalize h.defineOrdinary id .length f = result at defines rejected ⊢
  obtain ⟨accepted, k⟩ := result
  cases defines with
  | add absent => cases found.symm.trans absent
  | change current there may _ =>
    cases found.symm.trans there
    exact absurd (same ((f.may_change_iff oneKind _).mp may)) refused
  | keep current there kept =>
    cases found.symm.trans there
    refine absurd (same (f.describes_allowed _ ?_)) refused
    rcases Bool.or_eq_true_iff.mp kept with empty | within
    · exact f.empty_describes _ empty
    · exact f.within_describes oneKind _ within
  | reject _ => exact ⟨rfl, rejected rfl⟩

theorem array_shortened (isArray : (h.object id).kind.isArray = true) (d : Definition) (length : Nat)
    (found : (h.object id).properties.find? .length = some (.data (.ofNat n) true e false))
    (isValue : d.isAccessor = false) (value : d.value = some (.ofNat length))
    (allowed : d.Allowed (.data (.ofNat n) true e false)) :
    ∃ m t, (h.object id).properties.Shortest length m (h.shrink id d length).1 ∧
      (h.shrink id d length).2 = h.withTable id t ∧
      (h.object id).properties.Shortened m (d.writable.getD true) e t := by
  have harmless := allowed rfl
  have permitted (f : Definition) (v : Value) (isValue : f.isAccessor = false) (enumerable : f.enumerable = d.enumerable)
      (configurable : f.configurable = d.configurable) : f.Allowed (.data v true e false) := by
    refine allowed_length e f v isValue ?_ ?_
    · rw [configurable]
      exact harmless.configurable
    · rw [enumerable]
      exact harmless.enumerable
  rw [shrink]
  dsimp only
  generalize made : (if d.writable = some false then d.withWritable true else d) = f
  obtain ⟨accessor, value', enumerable, configurable, writable⟩ := d.opened f made.symm
  have isValue' : f.isAccessor = false := accessor.trans isValue
  obtain ⟨t, shorter, relengthened⟩ := array_relengthened h id n e isArray length f isValue' found
    (by rw [value', value]; rfl) (permitted f _ isValue' enumerable configurable)
  rw [stays_writable _ writable] at relengthened
  rw [shorter]
  dsimp only
  have known := array_known h id isArray
  have object := with_table_object h id known t
  have isArray' : ((h.withTable id t).object id).kind.isArray = true := by
    rw [object]
    exact isArray
  obtain ⟨u, retabled, deleted⟩ :=
    array_delete_elements (h.withTable id t) id isArray' _ (elements_from_descend _ id length)
  have tabled := delete_elements_tabled (h.withTable id t) id ((h.withTable id t).elementsFrom id length) isArray'
  rw [Tabled, retabled.table, table_twice] at tabled
  have listed := mem_elements_from (h.withTable id t) id length
  generalize (h.withTable id t).elementsFrom id length = keys at *
  rw [object] at deleted listed
  generalize (h.withTable id t).deleteElements id keys = result at deleted tabled ⊢
  obtain ⟨stays, l⟩ := result
  dsimp only at deleted tabled
  subst tabled
  have covered := PropertyTable.relengthened_covered _ t u length _ true e relengthened
    (PropertyTable.deleted_covered t u length keys stays deleted listed)
  have shortest := PropertyTable.shortest_same _ t length _ _ (fun i => relengthened.others (.index i) PropertyKey.noConfusion)
    (PropertyTable.deleted_shortest t u length keys stays deleted listed)
  have there : u.find? .length = some (.data (.ofNat length) true e false) :=
    (deleted.rest .length fun _ _ _ => PropertyKey.noConfusion).trans relengthened.length
  -- and then it is defined once more, where it ends or for what it was to become
  have again (f : Definition) (m : Nat) (isValue : f.isAccessor = false)
      (allowed : f.Allowed (.data (.ofNat length) true e false)) (value : f.value.getD (.ofNat length) = .ofNat m) :
      ∃ v, (h.withTable id u).defineOrdinary id .length f = (true, h.withTable id v) ∧
        u.Relengthened m (f.writable.getD true) e v := by
    have object' := with_table_object h id known u
    obtain ⟨v, last, relengthened⟩ := array_relengthened (h.withTable id u) id length e (by rw [object']; exact isArray) m f
      isValue (by rw [object']; exact there) value allowed
    rw [table_twice] at last
    rw [object'] at relengthened
    exact ⟨v, last, relengthened⟩
  cases stays with
  | none =>
    dsimp only
    by_cases readOnly : d.writable = some false
    · obtain ⟨v, last, relengthened⟩ := again { writable := some false } length rfl
        (allowed_length e _ _ rfl (by decide) (by rintro _ ⟨⟩)) rfl
      simp only [if_pos readOnly, last]
      rw [readOnly]
      exact ⟨length, v, shortest, rfl, PropertyTable.covered_relengthened _ u v length _ e covered relengthened⟩
    · simp only [if_neg readOnly]
      rw [stays_writable _ readOnly]
      exact ⟨length, u, shortest, rfl, covered, there⟩
  | some i =>
    dsimp only
    generalize stuck : (if d.writable = some false then (f.withValue (.ofNat (i + 1))).withWritable false
      else f.withValue (.ofNat (i + 1))) = s
    obtain ⟨accessor', value'', kept, kept'⟩ := d.ended f s (.ofNat (i + 1)) stuck.symm
    have isValue'' : s.isAccessor = false := accessor'.trans isValue'
    have enumerable' : s.enumerable = d.enumerable := kept.trans enumerable
    have configurable' : s.configurable = d.configurable := kept'.trans configurable
    have writable' : s.writable.getD true = d.writable.getD true := by
      subst stuck
      split
      · next readOnly =>
        rw [readOnly]
        rfl
      · next open' => exact (stays_writable _ writable).trans (stays_writable _ open').symm
    obtain ⟨v, last, relengthened⟩ := again s (i + 1) isValue'' (permitted s _ isValue'' enumerable' configurable')
      (by rw [value'']; rfl)
    rw [last]
    rw [writable'] at relengthened
    exact ⟨i + 1, v, shortest, rfl, PropertyTable.covered_relengthened _ u v (i + 1) _ e covered relengthened⟩

end

/-! What becomes of an array. -/

-- An array has a permanent length that is above all its elements.
structure MeasuredArray (h : Heap) (id : ObjectId) (n : Nat) (w e : Bool) : Prop where
  isArray : (h.object id).kind.isArray = true
  measured : (h.object id).properties.Measured n w e false
  bounded : (h.object id).properties.Bounded n

-- An element is defined by the rules for all objects, unless it would need a longer array that must not become
-- longer; and the length follows it.
structure ElementDefined (h : Heap) (id : ObjectId) (n : Nat) (w e : Bool) (i : Nat) (d : Definition) (accepted : Bool)
    (k : Heap) : Prop where
  accepts : accepted = true ↔ (i < n ∨ w = true) ∧ (h.defineOrdinary id (.index i) d).1 = true
  rejects : accepted = false → k = h
  stores : accepted = true → ∃ t, k = (h.defineOrdinary id (.index i) d).2.withTable id t ∧
    ((h.defineOrdinary id (.index i) d).2.object id).properties.Relengthened (if n ≤ i then i + 1 else n) w e t

-- The length is defined by the rules for all objects, if it does not become less. Otherwise, if the rules let it
-- through, it becomes as little as it can, and the elements that it no longer covers are gone.
structure LengthDefined (h : Heap) (id : ObjectId) (n : Nat) (w e : Bool) (length : Nat) (d : Definition) (accepted : Bool)
    (k : Heap) : Prop where
  longer : n ≤ length → (accepted, k) = h.defineOrdinary id .length (d.withValue (.ofNat length))
  refused : length < n → ¬ (d.withValue (.ofNat length)).Allowed (.data (.ofNat n) w e false) → accepted = false ∧ k = h
  shorter : length < n → (d.withValue (.ofNat length)).Allowed (.data (.ofNat n) w e false) →
    ∃ m t, (h.object id).properties.Shortest length m accepted ∧ k = h.withTable id t ∧
      (h.object id).properties.Shortened m (d.writable.getD true) e t

section

variable (h : Heap) (id : ObjectId) (n : Nat) (w e : Bool) (has : h.MeasuredArray id n w e)
include has

theorem element_defined (i : Nat) (d : Definition) :
    h.ElementDefined id n w e i d (h.defineElement id i d).1 (h.defineElement id i d).2 := by
  rw [defineElement, length_of_measured h id has.isArray n w false e has.measured]
  dsimp only
  by_cases refused : (decide (n ≤ i) && !w) = true
  · rw [if_pos refused]
    refine ⟨iff_of_false Bool.false_ne_true fun both => ?_, fun _ => rfl, (by rintro ⟨⟩)⟩
    obtain ⟨beyond, readOnly⟩ := Bool.and_eq_true_iff.mp refused
    rcases both.1 with inside | writable
    · exact absurd (of_decide_eq_true beyond) (Nat.not_le_of_lt inside)
    · rw [writable] at readOnly
      cases readOnly
  rw [if_neg refused]
  have room : i < n ∨ w = true := by
    by_cases inside : i < n
    · exact .inl inside
    · refine .inr ?_
      cases w with
      | true => rfl
      | false => exact absurd (by simpa using inside) refused
  obtain ⟨t, retabled, defines⟩ := array_ordinary h id has.isArray (.index i) d
  have rejected := ordinary_rejected h id (.index i) d
  generalize ordinary : h.defineOrdinary id (.index i) d = result at retabled defines rejected
  obtain ⟨accepted, k⟩ := result
  cases accepted with
  | false =>
    refine ⟨?_, fun _ => rejected rfl, (by rintro ⟨⟩)⟩
    rw [ordinary]
    exact iff_of_false Bool.false_ne_true fun both => Bool.false_ne_true both.2
  | true =>
    dsimp only at retabled ⊢
    have found : (k.object id).properties.find? .length = some (.data (.ofNat n) w e false) := by
      rw [retabled.table, PropertyTable.defines_other _ _ _ _ _ _ defines PropertyKey.noConfusion]
      exact has.measured.found
    have accepts : true = true ↔ (i < n ∨ w = true) ∧ (h.defineOrdinary id (.index i) d).1 = true := by
      rw [ordinary]
      exact iff_of_true rfl ⟨room, rfl⟩
    by_cases beyond : n ≤ i
    · simp only [if_pos beyond]
      refine ⟨accepts, (by rintro ⟨⟩), fun _ => ⟨_, (table_modify _ id _).trans (by rw [ordinary]), ?_⟩⟩
      rw [ordinary, if_pos beyond]
      refine ⟨?_, fun key other => ?_, PropertyTable.keys_modify _ _ _⟩
      · rw [PropertyTable.find_modify, if_pos rfl, found]
        rfl
      · rw [PropertyTable.find_modify, if_neg other.symm]
    · simp only [if_neg beyond]
      refine ⟨accepts, (by rintro ⟨⟩), fun _ => ⟨_, (table_object k id).symm.trans (by rw [ordinary]), ?_⟩⟩
      rw [ordinary, if_neg beyond]
      exact ⟨found, fun _ _ => rfl, rfl⟩

theorem length_defined (d : Definition) (length : Nat) (fits : length < Number.wordCount) (isValue : d.isAccessor = false) :
    h.LengthDefined id n w e length d (h.defineLength id d length (n, w)).1 (h.defineLength id d length (n, w)).2 := by
  have isValue' : (d.withValue (.ofNat length)).isAccessor = false := (d.with_value_accessor _).trans isValue
  rw [defineLength]
  dsimp only
  by_cases longer : n ≤ length
  · rw [if_pos longer]
    exact ⟨fun _ => rfl, fun less => absurd longer (Nat.not_le_of_lt less), fun less => absurd longer (Nat.not_le_of_lt less)⟩
  rw [if_neg longer]
  have found := has.measured.found
  cases w with
  | false =>
    refine ⟨fun more => absurd more longer, fun _ _ => ⟨rfl, rfl⟩, fun less allowed => ?_⟩
    have wide : Number.wordCount ≤ 2 ^ 53 := by
      decide
    -- a read-only length can only be defined as what it is
    have same := (allowed rfl).value rfl rfl _ rfl
    have equal := Number.whole_injective length n (Nat.lt_of_lt_of_le fits wide)
      (Nat.lt_of_lt_of_le has.measured.fits wide) (Value.number.inj same)
    exact absurd equal (Nat.ne_of_lt less)
  | true =>
    simp only [Bool.not_true, Bool.false_eq_true, if_false]
    refine ⟨fun more => absurd more longer, fun _ refused => ?_, fun _ allowed => ?_⟩
    · exact shrink_refused h id n e has.isArray _ length found isValue' refused
    · exact array_shortened h id n e has.isArray _ length found isValue' rfl allowed

end

end Heap

/-! Running code. -/

open Run

-- How a definition ends that was accepted or not. With the flag, one that was not is a type error.
def definitionEnds (key : PropertyKey) (throws accepted : Bool) (r : Realm) : EStateM.Result Interrupt Realm Bool :=
  if accepted || !throws then .ok accepted r
  else
    let name := key.text
    .error (.thrown (.object r.heap.objects.size)) (r.withError .typeError s!"Cannot redefine property: {name}")

theorem accept_ends (key : PropertyKey) (throws accepted : Bool) (m : Machine) (r : Realm) :
    accept key throws accepted m r = definitionEnds key throws accepted r := by
  cases accepted with
  | true => cases throws <;> rfl
  | false =>
    cases throws with
    | false => rfl
    | true => exact (bind_at _ _ m r).trans (by rw [throwTypeError, throw_at]; rfl)

-- A number that is a length: every whole number that fits a word, and zero with a sign too.
theorem is_length_iff (x : Float) :
    isLength x = true ↔ ∃ n, n < Number.wordCount ∧ (Float.ofNat n == x) = true := by
  constructor
  · exact fun equal => ⟨Number.toUint32 x, Number.word_fits x, equal⟩
  · rintro ⟨n, fits, equal⟩
    rw [isLength, Number.word_of_equal x n fits equal]
    exact equal

theorem number_of_primitive (v : Value) (primitive : v.isObject = false) (m : Machine) (r : Realm) :
    toNumber v m r = .ok v.primitiveNumber r := by
  cases v with
  | object id => cases primitive
  | _ => rfl

section

variable (m : Machine) (r : Realm) (id : ObjectId) (n : Nat) (w e : Bool) (has : r.heap.MeasuredArray id n w e)
  (key : PropertyKey) (d : Definition) (throws : Bool)

-- So far there is nothing special about arrays.
theorem define_own_ends (other : r.heap.isArray id = false ∨ key ≠ .length ∨ d.value = none) :
    defineOwn id key d throws m r =
      definitionEnds key throws (r.heap.define id key d).1 (r.withHeap (r.heap.define id key d).2) := by
  rw [← accept_ends key throws _ m, defineOwn, heap_at]
  cases given : d.value with
  | none => rfl
  | some v =>
    have differs : (r.heap.isArray id && key == PropertyKey.length) = false := by
      rcases other with plain | other | none
      · rw [plain, Bool.false_and]
      · rw [beq_false_of_ne other, Bool.and_false]
      · cases given.symm.trans none
    simp only [differs, Bool.false_eq_true, if_false]
    rfl

include has

theorem array_kind : r.heap.kind id = .array := by
  have isArray := has.isArray
  rw [Heap.kind]
  generalize (r.heap.object id).kind = kind at isArray
  cases kind with
  | array => rfl
  | _ => cases isArray

theorem define_length_ends (v : Value) (given : d.value = some v) (primitive : v.isObject = false) :
    defineOwn id .length d throws m r =
      if isLength v.primitiveNumber then
        definitionEnds .length throws (r.heap.defineLength id d (Number.toUint32 v.primitiveNumber) (n, w)).1
          (r.withHeap (r.heap.defineLength id d (Number.toUint32 v.primitiveNumber) (n, w)).2)
      else .error (.thrown (.object r.heap.objects.size)) (r.withError .rangeError "Invalid array length") := by
  have isArray : r.heap.isArray id = true := by
    rw [Heap.isArray, array_kind r id n w e has]
  rw [defineOwn, heap_at, given]
  simp only [isArray, beq_self_eq_true, Bool.and_true, if_true]
  rw [defineArrayLength, heap_at, Heap.length_of_measured r.heap id has.isArray n w false e has.measured, bind_at,
    number_of_primitive v primitive]
  dsimp only
  cases length : isLength v.primitiveNumber with
  | true =>
    rw [← accept_ends .length throws _ m]
    rfl
  | false => exact (bind_at _ _ m r).trans (by rw [throw_at]; rfl)

/-- A definition of a property of an array whose length is permanent and above all its elements. What
is said of an element is defined as on all objects, unless a read-only length does not let it, and the
length follows; a length that is no length is a range error; and a length that becomes less takes the
elements with it that it no longer covers, from the last one on, as far as they can be deleted. -/
theorem array_definitions (oneKind : d.OneKind) (primitive : ∀ v, d.value = some v → v.isObject = false) :
    (∀ i, key = .index i → ∃ accepted k, defineOwn id key d throws m r = definitionEnds key throws accepted (r.withHeap k) ∧
        r.heap.ElementDefined id n w e i d accepted k) ∧
      (∀ v, key = .length → d.value = some v →
        (∀ length, length < Number.wordCount → (Float.ofNat length == v.primitiveNumber) = true →
          ∃ accepted k, defineOwn id key d throws m r = definitionEnds key throws accepted (r.withHeap k) ∧
            r.heap.LengthDefined id n w e length d accepted k) ∧
        ((∀ length, length < Number.wordCount → (Float.ofNat length == v.primitiveNumber) = false) →
          defineOwn id key d throws m r = .error (.thrown (.object r.heap.objects.size))
            (r.withError .rangeError "Invalid array length"))) ∧
      ((∀ i, key ≠ .index i) → (key = .length → d.value = none) →
        defineOwn id key d throws m r = definitionEnds key throws (r.heap.defineOrdinary id key d).1
          (r.withHeap (r.heap.defineOrdinary id key d).2)) := by
  have kind := array_kind r id n w e has
  refine ⟨?_, ?_, fun element length => ?_⟩
  · rintro i rfl
    refine ⟨_, _, define_own_ends m r id (.index i) d throws (.inr (.inl PropertyKey.noConfusion)), ?_⟩
    simp only [Heap.define, kind]
    exact Heap.element_defined r.heap id n w e has i d
  · rintro v rfl given
    have ends := define_length_ends m r id n w e has d throws v given (primitive v given)
    refine ⟨fun length fits equal => ?_, fun none => ?_⟩
    · rw [if_pos ((is_length_iff _).mpr ⟨length, fits, equal⟩), Number.word_of_equal _ length fits equal] at ends
      refine ⟨_, _, ends, Heap.length_defined r.heap id n w e has d length fits (oneKind ?_)⟩
      rw [Definition.isData, given, Option.isSome_some, Bool.true_or]
    · rw [ends, if_neg]
      intro isLength
      obtain ⟨length, fits, equal⟩ := (is_length_iff _).mp isLength
      exact Bool.false_ne_true ((none length fits).symm.trans equal)
  · have ends := define_own_ends m r id key d throws (by
      by_cases is : key = .length
      · exact .inr (.inr (length is))
      · exact .inr (.inl is))
    rw [ends]
    cases key with
    | index i => exact absurd rfl (element i)
    | name s => simp only [Heap.define, kind]

end

-- The second of three elements is permanent, and the length is to be zero and read-only: it ends as two.
theorem array_definitions_stuck :
    let t : PropertyTable :=
      { elements := ((Std.TreeMap.empty.insert 0 (.free .null)).insert 1 (.final .null)).insert 2 (.free .null)
        names := [("length", .lasting (.ofNat 3))] }
    let r : Realm := { heap := Heap.lone { kind := .array, properties := t }, config := {} }
    let d : Definition := { value := some (.number (.ofNat 0)), writable := some false }
    let m : Machine := ⟨0, .resolved, fun _ => throw .exhausted⟩
    r.heap.MeasuredArray 0 3 true false ∧ d.OneKind ∧ (∀ v, d.value = some v → v.isObject = false) ∧
      ∃ u, defineOwn 0 .length d true m r =
          definitionEnds .length true false (r.withHeap (r.heap.withTable 0 u)) ∧ t.Shortened 2 false false u := by
  intro t r d m
  have elements (i : Nat) : t.find? (.index i) = if 2 = i then some (.free .null) else if 1 = i then some (.final .null)
      else if 0 = i then some (.free .null) else none := by
    simp [t, PropertyTable.find?, Std.TreeMap.getElem?_insert]
  have has : r.heap.MeasuredArray 0 3 true false := by
    refine ⟨rfl, ⟨by decide, rfl⟩, fun i x (found : t.find? (.index i) = some x) => ?_⟩
    rw [elements] at found
    by_contra beyond
    rw [if_neg (by omega), if_neg (by omega), if_neg (by omega)] at found
    cases found
  have primitive (v : Value) (is : d.value = some v) : v.isObject = false := by
    cases is
    rfl
  refine ⟨has, fun _ => rfl, primitive, ?_⟩
  obtain ⟨_, length, _⟩ := array_definitions m r 0 3 true false has .length d true (fun _ => rfl) primitive
  obtain ⟨accepted, k, ends, defined⟩ := (length _ rfl rfl).1 0 (by decide) rfl
  obtain ⟨n, u, (shortest : t.Shortest 0 n accepted), rfl, shortened⟩ :=
    defined.shorter (by decide) (Heap.allowed_length false _ _ rfl (by decide) (by rintro _ ⟨⟩))
  cases shortest with
  | reached free =>
    have permanent := free 1 (.final .null) (Nat.zero_le 1) (elements 1)
    cases permanent
  | stopped i x _ there permanent _ =>
    rw [elements] at there
    have second : 1 = i := by
      by_contra other
      rw [if_neg other] at there
      split at there
      · cases there
        cases permanent
      · split at there
        · cases there
          cases permanent
        · cases there
    subst second
    exact ⟨u, ends, shortened⟩

end Ecma
