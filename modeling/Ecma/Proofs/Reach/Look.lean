import Ecma.Proofs.Reach.Region

set_option autoImplicit false

/-!
Definitions and deletions in two heaps that agree on a part: they are accepted in both or in none, and the heaps
still agree.
-/

namespace Ecma.Heap

/-- The same is given, and the heaps agree afterwards. -/
structure Joint {α : Type} (w : Reach) (a b : α × Heap) : Prop where
  result : b.1 = a.1
  heap : a.2.Alike w b.2

theorem unmapped_prototype (i : Nat) (o : Object) : (unmapped i o).prototype = o.prototype := by
  rw [unmapped]
  split <;> rfl

theorem unmapped_callable (i : Nat) (o : Object) : (unmapped i o).kind.callable? = o.kind.callable? := by
  rw [unmapped]
  split
  · next mapped kind => rw [kind]; rfl
  · rfl

variable {w : Reach} (h k : Heap) (alike : h.Alike w k) (id : ObjectId) (inside : w.object id)
include alike inside

theorem modify_key_alike (key : PropertyKey) (f : Descriptor → Descriptor)
    (keeps : ∀ d : Descriptor, d.All (Value.Near w) → (f d).All (Value.Near w)) :
    (h.modifyProperties id fun t => t.modify key f).Alike w (k.modifyProperties id fun t => t.modify key f) := by
  exact alike_properties h k alike id _ inside fun all => PropertyTable.all_modify _ all key f keeps

theorem store_alike (key : PropertyKey) (d : Descriptor) (near : d.All (Value.Near w)) :
    (h.store id key d).Alike w (k.store id key d) := by
  exact alike_properties h k alike id _ inside fun all => PropertyTable.all_insert _ all key d near

theorem ordinary_joint (key : PropertyKey) (d : Definition) (near : d.All (Value.Near w)) :
    Joint w (h.defineOrdinary id key d) (k.defineOrdinary id key d) := by
  have blank : Value.Near w .undefined := trivial
  rw [defineOrdinary, defineOrdinary, judge_alike h k alike.part id key d inside]
  cases h.judge id key d with
  | add => exact ⟨rfl, store_alike h k alike id inside key _ (Definition.all_create blank d near)⟩
  | change =>
    exact ⟨rfl, modify_key_alike h k alike id inside key _ fun e held => Definition.all_apply blank d near e held⟩
  | keep => exact ⟨rfl, alike⟩
  | reject => exact ⟨rfl, alike⟩

theorem unmap_alike (key : PropertyKey) : (h.unmap id key).Alike w (k.unmap id key) := by
  cases key with
  | name s => exact alike
  | index i =>
    rw [unmap_index, unmap_index]
    refine alike_modify h k alike id (unmapped i) inside (fun near => ?_) fun j a found => ?_
    · refine ⟨?_, ?_, ?_⟩
      · rw [unmapped_prototype]
        exact near.prototype
      · rw [unmapped_callable]
        exact near.callable
      · rw [unmapped_properties]
        exact near.table
    · rw [lookup_unmapped] at found
      split at found
      · cases found
      · exact found

theorem delete_joint (key : PropertyKey) : Joint w (h.delete id key) (k.delete id key) := by
  rw [delete, delete, own_alike h k alike.part id key inside]
  split
  · exact ⟨rfl, alike⟩
  · split
    · refine ⟨rfl, unmap_alike _ _ ?_ id inside key⟩
      exact alike_properties h k alike id _ inside fun all => PropertyTable.all_erase _ all key
    · exact ⟨rfl, alike⟩

theorem delete_elements_joint (indices : List Nat) :
    Joint w (h.deleteElements id indices) (k.deleteElements id indices) := by
  induction indices generalizing h k with
  | nil => exact ⟨rfl, alike⟩
  | cons i rest hyp =>
    obtain ⟨same, after⟩ := delete_joint h k alike id inside (.index i)
    rw [deleteElements, deleteElements]
    generalize h.delete id (.index i) = a at same after
    generalize k.delete id (.index i) = b at same after
    obtain ⟨gone, h'⟩ := a
    obtain ⟨gone', k'⟩ := b
    cases same
    cases gone with
    | true => exact hyp h' k' after
    | false => exact ⟨rfl, after⟩

theorem shrink_joint (d : Definition) (length : Nat) (near : d.All (Value.Near w)) :
    Joint w (h.shrink id d length) (k.shrink id d length) := by
  have flagged (b : Bool) (d : Definition) (held : d.All (Value.Near w)) : (d.withWritable b).All (Value.Near w) :=
    Definition.all_with_writable d b held
  have opened : (if d.writable = some false then d.withWritable true else d).All (Value.Near w) := by
    split
    · exact flagged true d near
    · exact near
  rw [shrink, shrink]
  dsimp only
  generalize (if d.writable = some false then d.withWritable true else d) = e at opened
  obtain ⟨same, after⟩ := ordinary_joint h k alike id inside .length e opened
  generalize h.defineOrdinary id .length e = a at same after
  generalize k.defineOrdinary id .length e = b at same after
  obtain ⟨accepted, h'⟩ := a
  obtain ⟨accepted', k'⟩ := b
  cases same
  cases accepted with
  | false => exact ⟨rfl, after⟩
  | true =>
    dsimp only at after ⊢
    rw [elements_from_alike h' k' after.part id length inside]
    obtain ⟨same, after⟩ := delete_elements_joint h' k' after id inside (h'.elementsFrom id length)
    generalize h'.deleteElements id (h'.elementsFrom id length) = a at same after
    generalize k'.deleteElements id (h'.elementsFrom id length) = b at same after
    obtain ⟨stuck, h''⟩ := a
    obtain ⟨stuck', k''⟩ := b
    cases same
    cases stuck with
    | some i =>
      have short : (e.withValue (.ofNat (i + 1))).All (Value.Near w) := Definition.all_with_value e _ trivial
      refine ⟨rfl, (ordinary_joint h'' k'' after id inside .length _ ?_).heap⟩
      split
      · exact flagged false _ short
      · exact short
    | none =>
      dsimp only at after ⊢
      split
      · exact ⟨rfl, (ordinary_joint h'' k'' after id inside .length _ (Definition.all_flags _ rfl rfl rfl)).heap⟩
      · exact ⟨rfl, after⟩

theorem length_joint (d : Definition) (length : Nat) (old : Nat × Bool) :
    Joint w (h.defineLength id d length old) (k.defineLength id d length old) := by
  have measured : (d.withValue (.ofNat length)).All (Value.Near w) := Definition.all_with_value d _ trivial
  rw [defineLength, defineLength]
  split
  · exact ordinary_joint h k alike id inside .length _ measured
  · split
    · exact ⟨rfl, alike⟩
    · exact shrink_joint h k alike id inside _ length measured

theorem element_joint (i : Nat) (d : Definition) (near : d.All (Value.Near w)) :
    Joint w (h.defineElement id i d) (k.defineElement id i d) := by
  rw [defineElement, defineElement, length_of_alike h k alike.part id inside]
  dsimp only
  split
  · exact ⟨rfl, alike⟩
  · obtain ⟨same, after⟩ := ordinary_joint h k alike id inside (.index i) d near
    generalize h.defineOrdinary id (.index i) d = a at same after
    generalize k.defineOrdinary id (.index i) d = b at same after
    obtain ⟨accepted, h'⟩ := a
    obtain ⟨accepted', k'⟩ := b
    cases same
    cases accepted with
    | false => exact ⟨rfl, after⟩
    | true =>
      dsimp only at after ⊢
      split
      · exact ⟨rfl, modify_key_alike h' k' after id inside .length _ fun e held =>
          Descriptor.all_with_value e _ held trivial⟩
      · exact ⟨rfl, after⟩

theorem follow_alike (key : PropertyKey) (a : Alias) (d : Definition) (near : d.All (Value.Near w)) :
    (h.followAlias id key a d).Alike w (k.followAlias id key a d) := by
  rw [followAlias, followAlias]
  split
  · exact unmap_alike h k alike id inside key
  · cases value : d.value with
    | none =>
      dsimp only
      split
      · exact unmap_alike h k alike id inside key
      · exact alike
    | some v =>
      have written := alike_write h k alike a v (near.value v value)
      dsimp only
      split
      · exact unmap_alike _ _ written id inside key
      · exact written

theorem frozen_near (key : PropertyKey) (d : Definition) (near : d.All (Value.Near w)) :
    (h.freezeAliased id key d).All (Value.Near w) := by
  rw [freezeAliased]
  split
  · split
    · next v x e c found =>
      exact Definition.all_with_value d v
        ((Descriptor.all_data v x e c).mp (own_in h k alike.part id key inside _ found))
    · exact near
  · exact near

theorem argument_joint (key : PropertyKey) (d : Definition) (near : d.All (Value.Near w)) :
    Joint w (h.defineArgument id key d) (k.defineArgument id key d) := by
  rw [defineArgument, defineArgument, (aliased_alike h k alike.part id key inside).1]
  cases h.alias? id key with
  | none => exact ordinary_joint h k alike id inside key d near
  | some a =>
    have frozen := frozen_near h k alike id inside key d near
    dsimp only
    rw [freeze_aliased_alike h k alike.part id key d inside]
    obtain ⟨same, after⟩ := ordinary_joint h k alike id inside key _ frozen
    generalize h.defineOrdinary id key (h.freezeAliased id key d) = a at same after
    generalize k.defineOrdinary id key (h.freezeAliased id key d) = b at same after
    obtain ⟨accepted, h'⟩ := a
    obtain ⟨accepted', k'⟩ := b
    cases same
    cases accepted with
    | false => exact ⟨rfl, after⟩
    | true => exact ⟨rfl, follow_alike h' k' after id inside key _ _ frozen⟩

theorem define_joint (key : PropertyKey) (d : Definition) (near : d.All (Value.Near w)) :
    Joint w (h.define id key d) (k.define id key d) := by
  have ordinary := ordinary_joint h k alike id inside key d near
  cases kind : h.kind id with
  | array =>
    cases key with
    | index i =>
      simp only [define, kind_alike h k alike.part id inside, kind]
      exact element_joint h k alike id inside i d near
    | name s =>
      simp only [define, kind_alike h k alike.part id inside, kind]
      exact ordinary
  | arguments mapped =>
    simp only [define, kind_alike h k alike.part id inside, kind]
    exact argument_joint h k alike id inside key d near
  | _ =>
    simp only [define, kind_alike h k alike.part id inside, kind]
    exact ordinary

theorem close_alike : (h.preventExtensions id).Alike w (k.preventExtensions id) := by
  exact alike_modify h k alike id _ inside (fun near => ⟨near.prototype, near.callable, near.table⟩)
    fun _ _ found => found

theorem append_alike (more : Dictionary Descriptor) (near : Dictionary.All (Descriptor.All (Value.Near w)) more) :
    (h.modifyProperties id fun t => { t with names := t.names ++ more }).Alike w
      (k.modifyProperties id fun t => { t with names := t.names ++ more }) := by
  exact alike_properties h k alike id _ inside fun all => PropertyTable.all_append _ all more near

end Ecma.Heap
