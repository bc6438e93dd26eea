import Mathlib.Data.List.Nodup
import Ecma.Proofs.Heap.Bindings
import Ecma.Property.Table
import Std.Data.TreeMap.Lemmas

set_option autoImplicit false

/-!
What is found in a table after a change of one key, and which keys there are.
-/

namespace Ecma.PropertyTable

variable (t : PropertyTable) (key other : PropertyKey)

theorem find_insert (d : Descriptor) :
    (t.insert key d).find? other = if key = other then some d else t.find? other := by
  cases key with
  | index i =>
    cases other with
    | index j => simp [insert, find?, Std.TreeMap.getElem?_insert]
    | name s => simp [insert, find?]
  | name s =>
    cases other with
    | index j => simp [insert, find?]
    | name s' => simp [insert, find?, Dictionary.find_put]

theorem find_modify (f : Descriptor → Descriptor) :
    (t.modify key f).find? other = if key = other then (t.find? other).map f else t.find? other := by
  cases key with
  | index i =>
    cases other with
    | index j =>
      by_cases same : i = j
      · simp [modify, find?, same]
      · simp [modify, find?, Std.TreeMap.getElem?_modify, same]
    | name s => simp [modify, find?]
  | name s =>
    cases other with
    | index j => simp [modify, find?]
    | name s' => simp [modify, find?, Dictionary.find_modify]

theorem find_erase (distinct : key ≠ other) : (t.erase key).find? other = t.find? other := by
  cases key with
  | index i =>
    cases other with
    | index j =>
      have different : i ≠ j := fun same => distinct (congrArg PropertyKey.index same)
      simp [erase, find?, Std.TreeMap.getElem?_erase, different]
    | name s => simp [erase, find?]
  | name s =>
    cases other with
    | index j => simp [erase, find?]
    | name s' =>
      have different : s ≠ s' := fun same => distinct (congrArg PropertyKey.name same)
      simp [erase, find?, Dictionary.find_erase _ _ _ different]

/-! Names that are appended. -/

theorem find_append (names more : Dictionary Descriptor) (name : String) :
    Dictionary.find? (names ++ more) name = (names.find? name).or (Dictionary.find? more name) := by
  induction names with
  | nil => rfl
  | cons entry rest hyp =>
    obtain ⟨other, d⟩ := entry
    by_cases same : other = name
    · simp [Dictionary.find?, same]
    · simp [Dictionary.find?, same, hyp]

/-! Consecutive elements. -/

-- One element more; a hole leaves the map as it is.
def added (state : Nat × Std.TreeMap Nat Descriptor) (item : Option Value) :
    Nat × Std.TreeMap Nat Descriptor :=
  match item with
  | some v => (state.1 + 1, state.2.insert state.1 (.free v))
  | none => (state.1 + 1, state.2)

theorem elements_of (names : Dictionary Descriptor) (items : List (Option Value)) :
    (ofElements names items).elements = (items.foldl added (0, ∅)).2 := by
  rfl

theorem added_find (items : List Value) (start : Nat) (m : Std.TreeMap Nat Descriptor) (i : Nat) :
    ((items.map some).foldl added (start, m)).2[i]? =
      if start ≤ i then (items[i - start]?.map Descriptor.free).or m[i]? else m[i]? := by
  induction items generalizing start m with
  | nil => simp
  | cons v rest hyp =>
    rw [List.map_cons, List.foldl_cons, added, hyp]
    by_cases before : start ≤ i
    · by_cases here : start = i
      · subst here
        have passed : ¬ start + 1 ≤ start := Nat.not_succ_le_self start
        simp [passed]
      · have after : start + 1 ≤ i := by omega
        have shift : i - start = i - (start + 1) + 1 := by omega
        simp [before, after, shift, Std.TreeMap.getElem?_insert, here]
    · have early : ¬ start + 1 ≤ i := by omega
      have different : start ≠ i := by omega
      simp [before, early, Std.TreeMap.getElem?_insert, different]

-- Nothing is added beyond the items, some of which may be missing.
theorem added_bounded (items : List (Option Value)) (start : Nat) (m : Std.TreeMap Nat Descriptor) (i : Nat)
    (d : Descriptor) (found : (items.foldl added (start, m)).2[i]? = some d) :
    i < start + items.length ∨ m[i]? = some d := by
  induction items generalizing start m with
  | nil => exact .inr found
  | cons item rest hyp =>
    rw [List.length_cons]
    cases item with
    | none =>
      rcases hyp (start + 1) m found with inside | before
      · exact .inl (by omega)
      · exact .inr before
    | some v =>
      rcases hyp (start + 1) (m.insert start (.free v)) found with inside | before
      · exact .inl (by omega)
      · rw [Std.TreeMap.getElem?_insert] at before
        by_cases here : start = i
        · exact .inl (by omega)
        · rw [if_neg (by simpa using here)] at before
          exact .inr before

theorem find_element (names : Dictionary Descriptor) (items : List Value) (i : Nat) (inside : i < items.length) :
    (ofElements names (items.map some)).find? (.index i) = some (.free items[i]) := by
  rw [find?, elements_of, added_find]
  simp [inside]

end Ecma.PropertyTable

/-!
The keys of a table: which there are, each once, and in which order. Indices ascend; a name that is there
keeps its place among the names, and a name that is added goes behind them.
-/

namespace Ecma

namespace Dictionary

variable {α : Type}

theorem mem_keys (d : Dictionary α) (name : String) : name ∈ d.keys ↔ (d.find? name).isSome = true := by
  induction d with
  | nil => exact ⟨fun member => absurd member List.not_mem_nil, fun found => Bool.noConfusion found⟩
  | cons entry rest hyp =>
    obtain ⟨other, a⟩ := entry
    change name ∈ other :: keys rest ↔ _
    rw [List.mem_cons, hyp, find?]
    by_cases same : other = name
    · simp [same]
    · rw [if_neg same]
      exact ⟨fun either => either.resolve_left fun here => same here.symm, .inr⟩

theorem keys_put (d : Dictionary α) (name : String) (a : α) :
    (d.put name a).keys = if name ∈ d.keys then d.keys else d.keys ++ [name] := by
  induction d with
  | nil => rfl
  | cons entry rest hyp =>
    obtain ⟨other, b⟩ := entry
    rw [put]
    by_cases same : other = name
    · rw [if_pos same, if_pos (same ▸ List.mem_cons_self)]
      rfl
    · rw [if_neg same]
      change other :: keys (put rest name a) = if name ∈ other :: keys rest then _ else _
      rw [hyp]
      have member : name ∈ other :: keys rest ↔ name ∈ keys rest :=
        ⟨fun here => (List.mem_cons.mp here).resolve_left fun this => same this.symm, List.mem_cons_of_mem other⟩
      by_cases there : name ∈ keys rest
      · rw [if_pos there, if_pos (member.mpr there)]
        rfl
      · rw [if_neg there, if_neg (mt member.mp there)]
        rfl

theorem keys_modify (d : Dictionary α) (name : String) (f : α → α) : (d.modify name f).keys = d.keys := by
  induction d with
  | nil => rfl
  | cons entry rest hyp =>
    obtain ⟨other, b⟩ := entry
    rw [modify]
    by_cases same : other = name
    · rw [if_pos same]
      rfl
    · rw [if_neg same]
      exact congrArg (other :: ·) hyp

theorem keys_erase (d : Dictionary α) (name : String) : (d.erase name).keys = d.keys.erase name := by
  induction d with
  | nil => rfl
  | cons entry rest hyp =>
    obtain ⟨other, b⟩ := entry
    rw [erase]
    change _ = (other :: keys rest).erase name
    by_cases same : other = name
    · rw [if_pos same, List.erase_cons, if_pos (beq_iff_eq.mpr same)]
    · rw [if_neg same, List.erase_cons, if_neg (mt beq_iff_eq.mp same)]
      exact congrArg (other :: ·) hyp

theorem keys_append (d more : Dictionary α) : keys (d ++ more) = d.keys ++ keys more := by
  exact List.map_append

end Dictionary

/-! Names that come and go. -/

-- Names that stay keep their places, and new ones come behind them.
def Later (before after : List String) : Prop :=
  after = before.filter (· ∈ after) ++ after.filter (· ∉ before)

theorem later_refl (names : List String) : Later names names := by
  have all : names.filter (· ∈ names) = names := List.filter_eq_self.mpr fun a here => decide_eq_true here
  have none : names.filter (· ∉ names) = [] :=
    List.filter_eq_nil_iff.mpr fun a here outside => of_decide_eq_true outside here
  rw [Later, all, none, List.append_nil]

theorem later_append (names more : List String) (fresh : ∀ a ∈ more, a ∉ names) :
    Later names (names ++ more) := by
  have all : names.filter (· ∈ names ++ more) = names :=
    List.filter_eq_self.mpr fun a here => decide_eq_true (List.mem_append_left more here)
  have old : names.filter (· ∉ names) = [] :=
    List.filter_eq_nil_iff.mpr fun a here outside => of_decide_eq_true outside here
  have new : more.filter (· ∉ names) = more :=
    List.filter_eq_self.mpr fun a here => decide_eq_true (fresh a here)
  rw [Later, all, List.filter_append, old, new, List.nil_append]

theorem later_erase (names : List String) (name : String) (nodup : names.Nodup) :
    Later names (names.erase name) := by
  have kept : names.filter (· ∈ names.erase name) = names.erase name := by
    rw [nodup.erase_eq_filter]
    refine List.filter_congr fun a here => ?_
    rw [Bool.eq_iff_iff]
    simp [here]
  have none : (names.erase name).filter (· ∉ names) = [] :=
    List.filter_eq_nil_iff.mpr fun a here outside => of_decide_eq_true outside (List.mem_of_mem_erase here)
  rw [Later, kept, none, List.append_nil]

namespace PropertyTable

variable (t : PropertyTable)

theorem mem_indices (i : Nat) : i ∈ t.indices ↔ (t.find? (.index i)).isSome = true := by
  rw [indices, Std.TreeMap.mem_keys, Std.TreeMap.mem_iff_isSome_getElem?]
  rfl

theorem indices_ascend : t.indices.Pairwise (· < ·) := by
  exact t.elements.ordered_keys.imp Nat.compare_eq_lt.mp

theorem mem_keys (key : PropertyKey) : key ∈ t.keys ↔ (t.find? key).isSome = true := by
  rw [keys, List.mem_append, List.mem_map, List.mem_map]
  cases key with
  | index i =>
    rw [← mem_indices]
    constructor
    · rintro (⟨j, member, same⟩ | ⟨_, _, same⟩)
      · exact PropertyKey.index.inj same ▸ member
      · cases same
    · exact fun member => .inl ⟨i, member, rfl⟩
  | name s =>
    rw [show t.find? (.name s) = t.names.find? s from rfl, ← Dictionary.mem_keys]
    constructor
    · rintro (⟨_, _, same⟩ | ⟨s', member, same⟩)
      · cases same
      · exact PropertyKey.name.inj same ▸ member
    · exact fun member => .inr ⟨s, member, rfl⟩

-- A change of one key leaves the names distinct, and each in its place.
structure Reorders (t u : PropertyTable) : Prop where
  distinct : u.names.keys.Nodup
  later : Later t.names.keys u.names.keys

section

variable (distinct : t.names.keys.Nodup)
include distinct

theorem reorders_same (u : PropertyTable) (same : u.names.keys = t.names.keys) : t.Reorders u := by
  refine ⟨same ▸ distinct, ?_⟩
  rw [same]
  exact later_refl _

theorem reorders_insert (key : PropertyKey) (d : Descriptor) : t.Reorders (t.insert key d) := by
  cases key with
  | index i => exact reorders_same t distinct _ rfl
  | name s =>
    have keys := Dictionary.keys_put t.names s d
    by_cases there : s ∈ t.names.keys
    · rw [if_pos there] at keys
      exact reorders_same t distinct _ keys
    · rw [if_neg there] at keys
      have fresh : ∀ a ∈ [s], a ∉ t.names.keys := fun a here => List.mem_singleton.mp here ▸ there
      refine ⟨?_, ?_⟩
      · change (t.names.put s d).keys.Nodup
        rw [keys]
        refine List.nodup_append.mpr ⟨distinct, List.nodup_singleton s, fun a member b here same => ?_⟩
        exact fresh b here (same ▸ member)
      · change Later _ (t.names.put s d).keys
        rw [keys]
        exact later_append _ _ fresh

theorem reorders_erase (key : PropertyKey) : t.Reorders (t.erase key) := by
  cases key with
  | index i => exact reorders_same t distinct _ rfl
  | name s =>
    have keys := Dictionary.keys_erase t.names s
    refine ⟨?_, ?_⟩
    · change (t.names.erase s).keys.Nodup
      rw [keys]
      exact distinct.erase s
    · change Later _ (t.names.erase s).keys
      rw [keys]
      exact later_erase _ s distinct

theorem reorders_append (more : Dictionary Descriptor) (fresh : ∀ a ∈ more.keys, a ∉ t.names.keys)
    (apart : more.keys.Nodup) : t.Reorders { t with names := t.names ++ more } := by
  have keys : Dictionary.keys (t.names ++ more) = t.names.keys ++ more.keys := Dictionary.keys_append _ _
  refine ⟨?_, ?_⟩
  · change (Dictionary.keys (t.names ++ more)).Nodup
    rw [keys]
    refine List.nodup_append.mpr ⟨distinct, apart, fun a member b here same => ?_⟩
    exact fresh b here (same ▸ member)
  · change Later _ (Dictionary.keys (t.names ++ more))
    rw [keys]
    exact later_append _ _ fresh

end

end PropertyTable

end Ecma

/-!
What descriptors, definitions and tables hold on to. A change of a table holds on to nothing but what was there
and what it is made with.
-/

namespace Ecma

-- Everything a descriptor holds on to.
def Descriptor.All (P : Value → Prop) (d : Descriptor) : Prop :=
  ∀ v ∈ d.references, P v

structure Definition.All (P : Value → Prop) (d : Definition) : Prop where
  value : ∀ v, d.value = some v → P v
  getter : ∀ f, d.getter = some (some f) → P (.object f)
  setter : ∀ f, d.setter = some (some f) → P (.object f)

section

variable {P : Value → Prop}

namespace Descriptor

theorem all_data (v : Value) (w e c : Bool) : (Descriptor.data v w e c).All P ↔ P v := by
  exact ⟨fun all => all v List.mem_cons_self, fun held v' member => List.mem_singleton.mp member ▸ held⟩

theorem all_accessor (g s : Option ObjectId) (e c : Bool) : (Descriptor.accessor g s e c).All P ↔
    (∀ f, g = some f → P (.object f)) ∧ ∀ f, s = some f → P (.object f) := by
  constructor
  · intro all
    refine ⟨fun f given => all _ (List.mem_append_left _ ?_), fun f given => all _ (List.mem_append_right _ ?_)⟩
    all_goals
      rw [given]
      exact List.mem_cons_self
  · rintro ⟨getter, setter⟩ v member
    rcases List.mem_append.mp member with first | second
    · cases g with
      | none => cases first
      | some f => exact List.mem_singleton.mp first ▸ getter f rfl
    · cases s with
      | none => cases second
      | some f => exact List.mem_singleton.mp second ▸ setter f rfl

theorem all_imp {Q : Value → Prop} (d : Descriptor) (imp : ∀ v, P v → Q v) (all : d.All P) : d.All Q := by
  exact fun v member => imp v (all v member)

theorem all_with_value (d : Descriptor) (v : Value) (all : d.All P) (held : P v) : (d.withValue v).All P := by
  cases d with
  | data v' w e c => exact (all_data v w e c).mpr held
  | accessor g s e c => exact all

end Descriptor

namespace Definition

theorem all_of_value (v : Value) (held : P v) : (Definition.ofValue v).All P := by
  exact ⟨fun _ same => Option.some.inj same ▸ held, nofun, nofun⟩

theorem all_of_descriptor (d : Descriptor) (all : d.All P) : (Definition.ofDescriptor d).All P := by
  cases d with
  | data v w e c =>
    have held := (Descriptor.all_data v w e c).mp all
    exact ⟨fun _ same => Option.some.inj same ▸ held, nofun, nofun⟩
  | accessor g s e c =>
    have held := (Descriptor.all_accessor g s e c).mp all
    exact ⟨nofun, fun f same => held.1 f (Option.some.inj same), fun f same => held.2 f (Option.some.inj same)⟩

theorem all_with_value (d : Definition) (v : Value) (held : P v) : (d.withValue v).All P := by
  refine ⟨fun _ same => Option.some.inj same ▸ held, fun f given => ?_, fun f given => ?_⟩
  · rw [withValue] at given
    cases getter : d.getter <;> rw [getter] at given <;> cases given
  · rw [withValue] at given
    cases setter : d.setter <;> rw [setter] at given <;> cases given

theorem all_with_writable (d : Definition) (w : Bool) (all : d.All P) : (d.withWritable w).All P := by
  refine ⟨all.value, fun f given => ?_, fun f given => ?_⟩
  · rw [withWritable] at given
    cases getter : d.getter <;> rw [getter] at given <;> cases given
  · rw [withWritable] at given
    cases setter : d.setter <;> rw [setter] at given <;> cases given

-- A definition that mentions no value and no function.
theorem all_flags (d : Definition) (value : d.value = none) (getter : d.getter = none) (setter : d.setter = none) :
    d.All P := by
  refine ⟨fun v given => ?_, fun f given => ?_, fun f given => ?_⟩
  · cases value.symm.trans given
  · cases getter.symm.trans given
  · cases setter.symm.trans given

variable (blank : P .undefined)
include blank

theorem all_create (d : Definition) (all : d.All P) : d.create.All P := by
  rw [create]
  split
  · refine (Descriptor.all_accessor _ _ _ _).mpr ⟨fun f given => all.getter f ?_, fun f given => all.setter f ?_⟩
    · cases getter : d.getter with
      | none => rw [getter] at given; cases given
      | some g => rw [getter] at given; exact congrArg some given
    · cases setter : d.setter with
      | none => rw [setter] at given; cases given
      | some s => rw [setter] at given; exact congrArg some given
  · refine (Descriptor.all_data _ _ _ _).mpr ?_
    cases value : d.value with
    | none => exact blank
    | some v => exact all.value v value

theorem all_reshape (d : Definition) (current : Descriptor) (there : current.All P) :
    (d.reshape current).All P := by
  cases current with
  | data v w e c =>
    rw [reshape]
    split
    · exact (Descriptor.all_accessor _ _ _ _).mpr ⟨nofun, nofun⟩
    · exact there
  | accessor g s e c =>
    rw [reshape]
    split
    · exact (Descriptor.all_data _ _ _ _).mpr blank
    · exact there

theorem all_apply (d : Definition) (all : d.All P) (current : Descriptor) (there : current.All P) :
    (d.apply current).All P := by
  have reshaped := all_reshape blank d current there
  rw [apply]
  generalize d.reshape current = shape at reshaped
  cases shape with
  | data v w e c =>
    refine (Descriptor.all_data _ _ _ _).mpr ?_
    cases value : d.value with
    | none => exact (Descriptor.all_data v w e c).mp reshaped
    | some v => exact all.value v value
  | accessor g s e c =>
    obtain ⟨first, second⟩ := (Descriptor.all_accessor g s e c).mp reshaped
    refine (Descriptor.all_accessor _ _ _ _).mpr ⟨fun f given => ?_, fun f given => ?_⟩
    · cases getter : d.getter with
      | none => rw [getter] at given; exact first f given
      | some g => rw [getter] at given; exact all.getter f (getter.trans (congrArg some given))
    · cases setter : d.setter with
      | none => rw [setter] at given; exact second f given
      | some s => rw [setter] at given; exact all.setter f (setter.trans (congrArg some given))

end Definition

/-! Dictionaries and tables. -/

namespace Dictionary

variable {α : Type} (Q : α → Prop)

def All (d : Dictionary α) : Prop :=
  ∀ entry ∈ d, Q entry.2

theorem all_cons (entry : String × α) (rest : Dictionary α) :
    All Q (entry :: rest) ↔ Q entry.2 ∧ All Q rest := by
  exact List.forall_mem_cons

section

variable (d : Dictionary α) (all : All Q d)
include all

theorem all_find (name : String) (a : α) (found : d.find? name = some a) : Q a := by
  induction d with
  | nil => cases found
  | cons entry rest hyp =>
    obtain ⟨held, others⟩ := (all_cons Q entry rest).mp all
    rw [find?] at found
    split at found
    · exact Option.some.inj found ▸ held
    · exact hyp others found

theorem all_put (name : String) (a : α) (held : Q a) : All Q (d.put name a) := by
  induction d with
  | nil => exact (all_cons Q _ _).mpr ⟨held, nofun⟩
  | cons entry rest hyp =>
    obtain ⟨first, others⟩ := (all_cons Q entry rest).mp all
    rw [put]
    split
    · exact (all_cons Q _ _).mpr ⟨held, others⟩
    · exact (all_cons Q _ _).mpr ⟨first, hyp others⟩

theorem all_modify (name : String) (f : α → α) (keeps : ∀ a, Q a → Q (f a)) : All Q (d.modify name f) := by
  induction d with
  | nil => exact all
  | cons entry rest hyp =>
    obtain ⟨first, others⟩ := (all_cons Q entry rest).mp all
    rw [modify]
    split
    · exact (all_cons Q _ _).mpr ⟨keeps _ first, others⟩
    · exact (all_cons Q _ _).mpr ⟨first, hyp others⟩

theorem all_erase (name : String) : All Q (d.erase name) := by
  induction d with
  | nil => exact all
  | cons entry rest hyp =>
    obtain ⟨first, others⟩ := (all_cons Q entry rest).mp all
    rw [erase]
    split
    · exact others
    · exact (all_cons Q _ _).mpr ⟨first, hyp others⟩

end

theorem all_append (d more : Dictionary α) (all : All Q d) (others : All Q more) : All Q (d ++ more) := by
  intro entry member
  exact (List.mem_append.mp member).elim (all entry) (others entry)

end Dictionary

structure PropertyTable.All (P : Value → Prop) (t : PropertyTable) : Prop where
  elements : ∀ i d, t.find? (.index i) = some d → d.All P
  names : Dictionary.All (Descriptor.All P) t.names

namespace PropertyTable

theorem all_of_names (names : List (String × Descriptor)) (held : Dictionary.All (Descriptor.All P) names) :
    (ofNames names).All P := by
  refine ⟨fun i d found => ?_, held⟩
  have none : (ofNames names).find? (.index i) = none := Std.TreeMap.getElem?_emptyc
  cases none.symm.trans found

-- An element is one of the items, or was there before.
theorem added_origin (items : List (Option Value)) (start : Nat) (m : Std.TreeMap Nat Descriptor) (i : Nat)
    (d : Descriptor) (found : (items.foldl added (start, m)).2[i]? = some d) :
    (∃ v, some v ∈ items ∧ d = .free v) ∨ m[i]? = some d := by
  induction items generalizing start m with
  | nil => exact .inr found
  | cons item rest hyp =>
    have later (m' : Std.TreeMap Nat Descriptor)
        (found : (rest.foldl added (start + 1, m')).2[i]? = some d) :
        (∃ v, some v ∈ item :: rest ∧ d = .free v) ∨ m'[i]? = some d := by
      rcases hyp (start + 1) m' found with ⟨v, member, same⟩ | before
      · exact .inl ⟨v, List.mem_cons_of_mem item member, same⟩
      · exact .inr before
    cases item with
    | none => exact later m found
    | some v =>
      rcases later (m.insert start (.free v)) found with given | before
      · exact .inl given
      · rw [Std.TreeMap.getElem?_insert] at before
        split at before
        · exact .inl ⟨v, List.mem_cons_self, (Option.some.inj before).symm⟩
        · exact .inr before

theorem all_of_elements (names : Dictionary Descriptor) (items : List (Option Value))
    (held : Dictionary.All (Descriptor.All P) names) (each : ∀ v, some v ∈ items → P v) :
    (ofElements names items).All P := by
  refine ⟨fun i d found => ?_, held⟩
  rcases added_origin items 0 ∅ i d found with ⟨v, member, rfl⟩ | before
  · exact (Descriptor.all_data v true true true).mpr (each v member)
  · have none : (∅ : Std.TreeMap Nat Descriptor)[i]? = none := Std.TreeMap.getElem?_emptyc
    cases none.symm.trans before

variable (t : PropertyTable) (all : t.All P)
include all

theorem all_find (key : PropertyKey) (d : Descriptor) (found : t.find? key = some d) : d.All P := by
  cases key with
  | index i => exact all.elements i d found
  | name s => exact Dictionary.all_find _ t.names all.names s d found

theorem all_insert (key : PropertyKey) (d : Descriptor) (held : d.All P) : (t.insert key d).All P := by
  cases key with
  | index i =>
    refine ⟨fun j e found => ?_, all.names⟩
    rw [find_insert] at found
    split at found
    · exact Option.some.inj found ▸ held
    · exact all.elements j e found
  | name s => exact ⟨all.elements, Dictionary.all_put _ t.names all.names s d held⟩

theorem all_modify (key : PropertyKey) (f : Descriptor → Descriptor) (keeps : ∀ d : Descriptor, d.All P → (f d).All P) :
    (t.modify key f).All P := by
  cases key with
  | index i =>
    refine ⟨fun j e found => ?_, all.names⟩
    rw [find_modify] at found
    split at found
    · obtain ⟨d, there, rfl⟩ := Option.map_eq_some_iff.mp found
      exact keeps d (all.elements j d there)
    · exact all.elements j e found
  | name s => exact ⟨all.elements, Dictionary.all_modify _ t.names all.names s f keeps⟩

theorem all_erase (key : PropertyKey) : (t.erase key).All P := by
  cases key with
  | index i =>
    refine ⟨fun j e found => all.elements j e ?_, all.names⟩
    by_cases same : i = j
    · have gone : (t.erase (.index i)).find? (.index j) = none := by
        simp [erase, find?, same]
      cases gone.symm.trans found
    · rwa [find_erase _ _ _ fun equal => same (PropertyKey.index.inj equal)] at found
  | name s => exact ⟨all.elements, Dictionary.all_erase _ t.names all.names s⟩

theorem all_append (more : Dictionary Descriptor) (others : Dictionary.All (Descriptor.All P) more) :
    PropertyTable.All P { t with names := t.names ++ more } := by
  exact ⟨all.elements, Dictionary.all_append _ t.names more all.names others⟩

end PropertyTable

end

end Ecma
