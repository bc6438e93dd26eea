import Ecma.Proofs.Heap.Lock
import Ecma.Proofs.Property.Table

set_option autoImplicit false

/-!
The own keys of an object are the keys of its own properties, each once: indices ascending, and the names
behind them. This takes an object whose names are distinct and, if it is a string, has no property stored
under one of its characters.
-/

namespace Ecma

namespace Text

theorem units_of_char_length (c : Char) : (unitsOfChar c).length = unitWidth c := by
  rw [unitsOfChar, unitWidth]
  split <;> rfl

theorem unit_length_list (cs : List Char) (n : Nat) :
    cs.foldl (fun n c => n + unitWidth c) n = n + (unitsOfChars cs).length := by
  induction cs generalizing n with
  | nil => rfl
  | cons c rest hyp =>
    rw [List.foldl_cons, hyp, unitsOfChars, unitsOfChars, List.flatMap_cons, List.length_append, units_of_char_length, Nat.add_assoc]

theorem unit_length_units (s : String) : unitLength s = (units s).length := by
  rw [unitLength, String.foldl_eq_foldl_toList, unit_length_list, Nat.zero_add, units]

theorem unit_of_chars (cs : List Char) (i : Nat) : unitOfCharsAt cs i = (unitsOfChars cs)[i]? := by
  induction cs generalizing i with
  | nil => rfl
  | cons c rest hyp =>
    rw [unitOfCharsAt, unitsOfChars, List.flatMap_cons, ← units_of_char_length]
    by_cases here : i < (unitsOfChar c).length
    · rw [if_pos here, List.getElem?_append_left here]
    · rw [if_neg here, hyp, List.getElem?_append_right (Nat.le_of_not_lt here), unitsOfChars]

-- A string has a unit at each place below its length and at no other.
theorem unit_at_some (s : String) (i : Nat) : (unitAt s i).isSome = true ↔ i < unitLength s := by
  rw [unitAt, unit_of_chars, unit_length_units, units, Option.isSome_iff_exists]
  simp [List.getElem?_eq_some_iff]

end Text

/-! Objects. -/

structure Object.Tidy (o : Object) : Prop where
  distinct : o.properties.names.keys.Nodup
  clear : ∀ s i, o.kind = .string s → i < Text.unitLength s → o.properties.find? (.index i) = none

def PropertyKey.name? : PropertyKey → Option String
  | .index _ => none
  | .name s => some s

-- Indices ascend, and names come behind them.
def Arranged (keys : List PropertyKey) : Prop :=
  ∃ (indices : List Nat) (names : List String), keys = indices.map PropertyKey.index ++ names.map PropertyKey.name ∧
    indices.Pairwise (· < ·) ∧ names.Nodup

theorem arranged_nodup (keys : List PropertyKey) (arranged : Arranged keys) : keys.Nodup := by
  obtain ⟨indices, names, rfl, ascend, distinct⟩ := arranged
  refine List.nodup_append.mpr ⟨?_, ?_, ?_⟩
  · exact List.Nodup.map (fun i j same => PropertyKey.index.inj same) (ascend.imp fun less => Nat.ne_of_lt less)
  · exact List.Nodup.map (fun s s' same => PropertyKey.name.inj same) distinct
  · intro a left b right same
    obtain ⟨i, _, rfl⟩ := List.mem_map.mp left
    obtain ⟨s, _, rfl⟩ := List.mem_map.mp right
    cases same

namespace Heap

variable (h : Heap)

def ownNames (id : ObjectId) : List String :=
  (h.object id).properties.names.keys

def ownIndices (id : ObjectId) : List Nat :=
  match (h.object id).kind with
  | .string s => List.range (Text.unitLength s) ++ (h.object id).properties.indices
  | _ => (h.object id).properties.indices

theorem own_keys_parts (id : ObjectId) :
    h.ownKeys id = (h.ownIndices id).map .index ++ (h.ownNames id).map .name := by
  rw [ownKeys, ownIndices, ownNames]
  cases kind : (h.object id).kind with
  | string s =>
    dsimp only
    rw [List.map_append, List.append_assoc]
    rfl
  | _ => rfl

-- There is a property where one is stored, and where a string has a character.
theorem own_is_some (id : ObjectId) (key : PropertyKey) :
    (h.own? id key).isSome = true ↔ ((h.object id).properties.find? key).isSome = true ∨
      ∃ s i, (h.object id).kind = .string s ∧ key = .index i ∧ i < Text.unitLength s := by
  cases kind : (h.object id).kind with
  | string s =>
    have whole : h.own? id key = ((h.object id).properties.find? key).or (character? s key) := by
      rw [own?]
      simp only [kind]
    rw [whole, Option.isSome_or, Bool.or_eq_true]
    refine or_congr Iff.rfl ?_
    cases key with
    | name name =>
      refine ⟨fun found => Bool.noConfusion found, ?_⟩
      rintro ⟨_, _, _, same, _⟩
      cases same
    | index i =>
      rw [character?, Option.isSome_map, Text.unit_at_some]
      constructor
      · exact fun less => ⟨s, i, rfl, rfl, less⟩
      · rintro ⟨_, _, same, here, less⟩
        cases same
        cases here
        exact less
  | arguments mapped =>
    rw [or_iff_left (by rintro ⟨_, _, same, _⟩; cases same), own?]
    simp only [kind]
    cases h.aliased? id key with
    | none => rfl
    | some v =>
      dsimp only
      rw [Option.isSome_map]
  | _ =>
    rw [or_iff_left (by rintro ⟨_, _, same, _⟩; cases same), own?]
    simp only [kind]

theorem mem_own_keys (id : ObjectId) (key : PropertyKey) :
    key ∈ h.ownKeys id ↔ (h.own? id key).isSome = true := by
  rw [own_is_some, ← PropertyTable.mem_keys, ownKeys]
  cases kind : (h.object id).kind with
  | string s =>
    rw [List.mem_append, or_comm, List.mem_map]
    refine or_congr Iff.rfl ⟨?_, ?_⟩
    · rintro ⟨i, inside, rfl⟩
      exact ⟨s, i, rfl, rfl, List.mem_range.mp inside⟩
    · rintro ⟨_, i, same, rfl, less⟩
      cases same
      exact ⟨i, List.mem_range.mpr less, rfl⟩
  | _ =>
    refine (or_iff_left ?_).symm
    rintro ⟨_, _, same, _⟩
    cases same

theorem own_indices_ascend (id : ObjectId) (tidy : (h.object id).Tidy) :
    (h.ownIndices id).Pairwise (· < ·) := by
  have stored := (h.object id).properties.indices_ascend
  rw [ownIndices]
  split
  · next s kind =>
    refine List.pairwise_append.mpr ⟨List.pairwise_lt_range, stored, fun i character j member => ?_⟩
    -- what is stored lies behind the characters
    refine Nat.lt_of_lt_of_le (List.mem_range.mp character) (Nat.le_of_not_lt fun less => ?_)
    have found := (PropertyTable.mem_indices _ j).mp member
    rw [tidy.clear s j kind less] at found
    cases found
  · exact stored

theorem own_keys_arranged (id : ObjectId) (tidy : (h.object id).Tidy) : Arranged (h.ownKeys id) := by
  exact ⟨_, _, own_keys_parts h id, own_indices_ascend h id tidy, tidy.distinct⟩

theorem own_keys_nodup (id : ObjectId) (tidy : (h.object id).Tidy) : (h.ownKeys id).Nodup := by
  exact arranged_nodup _ (own_keys_arranged h id tidy)

end Heap

end Ecma
