import Ecma.Builtin.Object
import Ecma.Proofs.Heap.Pieces
import Ecma.Proofs.Operation.Array
import Ecma.Proofs.Operation.Primitive

set_option autoImplicit false

/-!
Property descriptors as objects of scripts. A descriptor object says everything that a descriptor says and
nothing else, so a property can be copied from one object to another through it.
-/

namespace Ecma

open Run

namespace Descriptor

-- The names that descriptor objects are read under.
def fieldNames : List String :=
  ["enumerable", "configurable", "value", "writable", "get", "set"]

-- The getter and the setter, where there are such, are functions.
def Functional (h : Heap) (d : Descriptor) : Prop :=
  ∀ f, d.getter = some f ∨ d.setter = some f → (h.callable? f).isSome = true

end Descriptor

namespace Heap

variable (h : Heap)

/-- An object that describes a property. Its fields are its own, and no other object adds one. -/
structure Describes (p : ObjectId) (d : Descriptor) : Prop where
  unmapped : ∀ key, h.alias? p key = none
  own : ∀ name, h.own? p (.name name) = (Dictionary.find? (descriptorFields d) name).map .free
  bare : ∀ link, h.prototype? p = some link →
    h.prototype? link = none ∧ ∀ name ∈ Descriptor.fieldNames, h.own? link (.name name) = none

theorem describes_property (p : ObjectId) (d : Descriptor) (describes : h.Describes p d) (name : String)
    (field : name ∈ Descriptor.fieldNames) : h.property? p (.name name) = h.own? p (.name name) := by
  rw [property?, prototype_chain_step, List.findSome?_cons]
  cases own : h.own? p (.name name) with
  | some d => rfl
  | none =>
    cases link : h.prototype? p with
    | none => rfl
    | some above =>
      obtain ⟨last, none⟩ := describes.bare above link
      rw [Option.elim_some, prototype_chain_step, last, List.findSome?_cons, none name field]
      rfl

-- The object that is made for a descriptor.
def descriptorObject (d : Descriptor) : Object :=
  { prototype := some Intrinsic.objectPrototype
    properties := .ofNames ((descriptorFields d).map fun (name, v) => (name, .free v)) }

theorem find_fields (fields : List (String × Value)) (name : String) :
    Dictionary.find? (fields.map fun (name, v) => (name, Descriptor.free v)) name =
      (Dictionary.find? fields name).map .free := by
  induction fields with
  | nil => rfl
  | cons entry rest hyp =>
    rw [List.map_cons, Dictionary.find?, Dictionary.find?, hyp]
    split <;> rfl

theorem added_describes (d : Descriptor)
    (bare : ∀ name ∈ Descriptor.fieldNames, h.own? Intrinsic.objectPrototype (.name name) = none) :
    (h.addObject (descriptorObject d)).2.Describes h.objects.size d := by
  have here : (h.addObject (descriptorObject d)).2.object h.objects.size = descriptorObject d := by
    rw [object_add, if_pos rfl]
  refine ⟨fun key => ?_, fun name => ?_, fun link above => ?_⟩
  · rw [alias?.eq_def, Heap.kind, here]
    rfl
  · rw [own?, here]
    exact find_fields (descriptorFields d) name
  · have less := prototype_less _ _ _ above
    have is : link = Intrinsic.objectPrototype := by
      rw [prototype?, here] at above
      exact (Option.some.inj (Option.filter_eq_some_iff.mp above).1).symm
    subst is
    refine ⟨?_, fun name field => ?_⟩
    · cases further : (h.addObject (descriptorObject d)).2.prototype? Intrinsic.objectPrototype with
      | none => rfl
      | some below => exact absurd (prototype_less _ _ _ further) (Nat.not_lt_zero below)
    · rw [← bare name field]
      exact own_kept h _ _ _ (object_add_known h _ _ less) ⟨rfl, rfl⟩

end Heap

section

variable (m : Machine) (r : Realm) (p : ObjectId) (d : Descriptor) (describes : r.heap.Describes p d)
include describes

-- A field of a descriptor object is read without running code.
theorem field_at (name : String) (known : name ∈ Descriptor.fieldNames) :
    field p name m r = .ok (Dictionary.find? (descriptorFields d) name) r := by
  have property : r.heap.property? p (.name name) = (Dictionary.find? (descriptorFields d) name).map .free :=
    (Heap.describes_property r.heap p d describes name known).trans (describes.own name)
  have unguarded : (PropertyKey.name name == .name "caller") = false := by
    refine beq_false_of_ne fun same => ?_
    rw [PropertyKey.name.inj same] at known
    exact absurd known (by decide)
  rw [field, heap_at, Heap.hasProperty, property]
  cases found : Dictionary.find? (descriptorFields d) name with
  | none => rfl
  | some v =>
    rw [found, Option.map_some] at property
    have read : get p (.name name) m r = .ok v r := by
      rw [get, heap_at, Heap.aliased?, describes.unmapped]
      change (heap >>= fun h => readDescriptor (h.property? p (.name name)) (.object p) >>= _) m r = _
      rw [heap_at, property, bind_at]
      change (heap >>= fun h => _ : Run Value) m r = _
      rw [heap_at, unguarded]
      rfl
    rw [Option.map_some, Option.isSome_some, if_pos rfl, bind_at, read]
    rfl

omit describes in
theorem accessor_function_at (f : Option ObjectId) (which : String)
    (functional : ∀ id, f = some id → (r.heap.callable? id).isSome = true) :
    accessorFunction (functionOrUndefined f) which m r = .ok f r := by
  cases f with
  | none => rfl
  | some id =>
    have callable : r.heap.isCallable (.object id) = true := functional id rfl
    change accessorFunction (.object id) which m r = _
    rw [accessorFunction, heap_at, callable]
    · rfl
    · exact fun undefined => Value.noConfusion undefined

-- Reading a descriptor object gives a definition that mentions the fields of the descriptor and no other.
theorem definition_of_at (functional : d.Functional r.heap) :
    definitionOf p m r = .ok (.ofDescriptor d) r := by
  have fields (name : String) (known : name ∈ Descriptor.fieldNames) := field_at m r p d describes name known
  rw [definitionOf, bind_at, fields _ (by decide)]
  dsimp only
  rw [bind_at, fields _ (by decide)]
  dsimp only
  rw [bind_at, fields _ (by decide)]
  dsimp only
  rw [bind_at, fields _ (by decide)]
  dsimp only
  rw [bind_at, fields _ (by decide)]
  dsimp only
  rw [bind_at, fields _ (by decide)]
  dsimp only
  cases d with
  | data v w e c => rfl
  | accessor g s e c =>
    change (optionalAccessor (some (functionOrUndefined g)) "getter" >>= fun getter =>
      optionalAccessor (some (functionOrUndefined s)) "setter" >>= fun setter =>
      pure { getter := getter, setter := setter, enumerable := some e, configurable := some c } : Run Definition) m r = _
    rw [optionalAccessor, bind_at, bind_at, accessor_function_at m r g _ fun f same => functional f (.inl same)]
    change ((accessorFunction (functionOrUndefined s) "setter" >>= fun f => pure (some f)) >>= fun setter =>
      pure { getter := some g, setter := setter, enumerable := some e, configurable := some c } : Run Definition) m r = _
    rw [bind_at, bind_at, accessor_function_at m r s _ fun f same => functional f (.inr same)]
    rfl

end

/-! Copying properties. -/

section

variable (m : Machine) (r : Realm)

theorem object_argument_at (id : ObjectId) (rest : List Value) (method : String) :
    objectArgument (.object id :: rest) method m r = .ok id r := by
  rfl

-- The realm in which a descriptor object has been made.
def describing (d : Descriptor) : Realm :=
  r.withHeap (r.heap.addObject (Heap.descriptorObject d)).2

theorem described (this : Value) (o : ObjectId) (v : Value) (primitive : v.isObject = false) (d : Descriptor)
    (there : r.heap.own? o (.ofPrimitive v) = some d) :
    ObjectFunction.run .getOwnPropertyDescriptor this [.object o, v] m r =
      .ok (.object r.heap.objects.size) (describing r d) := by
  have key : toPropertyKey (argument [.object o, v] 1) m r = .ok (.ofPrimitive v) r := primitive_key_at m r v primitive
  rw [ObjectFunction.run, bind_at, object_argument_at]
  dsimp only
  rw [bind_at, key]
  dsimp only
  rw [heap_at, there]
  rfl

theorem defined (this : Value) (t p : ObjectId) (v : Value) (primitive : v.isObject = false) (d : Definition)
    (r' : Realm) (reads : definitionOf p m r = .ok d r) (accepts : defineOwn t (.ofPrimitive v) d true m r = .ok true r') :
    ObjectFunction.run .defineProperty this [.object t, v, .object p] m r = .ok (.object t) r' := by
  have key : toPropertyKey (argument [.object t, v, .object p] 1) m r = .ok (.ofPrimitive v) r :=
    primitive_key_at m r v primitive
  have definition : toDefinition (argument [.object t, v, .object p] 2) m r = .ok d r := reads
  rw [ObjectFunction.run, bind_at, object_argument_at]
  dsimp only
  rw [bind_at, key]
  dsimp only
  rw [bind_at, definition]
  dsimp only
  rw [bind_at, discard_ok _ m r r' true accepts]
  rfl

end

namespace Heap

section

variable (h : Heap) (t : ObjectId) (key : PropertyKey) (d : Descriptor)
  (other : ∀ mapped, h.kind t ≠ .arguments mapped)
include other

theorem define_copy (notArray : h.isArray t = false) (extensible : (h.object t).extensible = true)
    (absent : h.own? t key = none) : h.define t key (.ofDescriptor d) = (true, h.store t key d) := by
  have creates : (Definition.ofDescriptor d).create = d := by
    cases d <;> rfl
  have ordinary : h.define t key (.ofDescriptor d) = h.defineOrdinary t key (.ofDescriptor d) := by
    rw [isArray] at notArray
    rw [define.eq_def]
    split
    · next array => simp [array] at notArray
    · next mapped is => exact absurd is (other mapped)
    · rfl
  rw [ordinary, defineOrdinary, judge, absent, extensible]
  dsimp only
  rw [if_pos rfl, creates]

theorem store_own (known : t < h.objects.size) (absent : h.own? t key = none) : (h.store t key d).own? t key = some d := by
  rw [apart_stored h t key _ (store_apart h t key known absent d) d (store_found h t key known d), shown_plain h t key other]

end

end Heap

-- A realm in which nothing adds to the fields of a descriptor object.
def Realm.Undescribed (r : Realm) : Prop :=
  ∀ name ∈ Descriptor.fieldNames, r.heap.own? Intrinsic.objectPrototype (.name name) = none

/-- What a descriptor object says is read back from it, field by field. So a property of whatever object, if its
getter and setter are functions, is made anew on another object by what describes it. -/
theorem descriptors_survive (m : Machine) (r : Realm) (bare : r.Undescribed) :
    (∀ d : Descriptor, d.Functional r.heap →
      ∃ p r', newDescriptorObject d m r = .ok p r' ∧ toDefinition (.object p) m r' = .ok (.ofDescriptor d) r') ∧
    ∀ (o t : ObjectId) (v : Value) (d : Descriptor), v.isObject = false → r.heap.own? o (.ofPrimitive v) = some d →
      d.Functional r.heap → t < r.heap.objects.size → r.heap.isArray t = false →
      (∀ mapped, r.heap.kind t ≠ .arguments mapped) → (r.heap.object t).extensible = true →
      r.heap.own? t (.ofPrimitive v) = none →
      ∃ p r₁ r₂, (∀ this, ObjectFunction.run .getOwnPropertyDescriptor this [.object o, v] m r = .ok (.object p) r₁) ∧
        (∀ this, ObjectFunction.run .defineProperty this [.object t, v, .object p] m r₁ = .ok (.object t) r₂) ∧
        r₂.heap.own? t (.ofPrimitive v) = some d ∧ r₂.heap.own? o (.ofPrimitive v) = some d := by
  have added (d : Descriptor) : (describing r d).heap.Describes r.heap.objects.size d :=
    Heap.added_describes r.heap d bare
  have kept (d : Descriptor) (id : ObjectId) (known : id < r.heap.objects.size) :
      (describing r d).heap.object id = r.heap.object id := Heap.object_add_known _ _ _ known
  have reads (d : Descriptor) (functional : d.Functional r.heap) :
      definitionOf r.heap.objects.size m (describing r d) = .ok (.ofDescriptor d) (describing r d) := by
    refine definition_of_at m _ _ d (added d) fun f half => ?_
    have callable := functional f half
    obtain ⟨c, found⟩ := Option.isSome_iff_exists.mp callable
    rw [Heap.callable?, Heap.kind, kept d f (Heap.callable_known r.heap f c found)]
    exact callable
  refine ⟨fun d functional => ⟨_, _, rfl, reads d functional⟩, ?_⟩
  intro o t v d primitive there functional known notArray other extensible absent
  have distinct : o ≠ t := by
    rintro rfl
    cases there.symm.trans absent
  have shows (id : ObjectId) (known : id < r.heap.objects.size) (key : PropertyKey) :
      (describing r d).heap.own? id key = r.heap.own? id key :=
    Heap.own_kept _ _ _ _ (kept d id known) ⟨rfl, rfl⟩
  have size : t < (describing r d).heap.objects.size := by
    change t < (r.heap.objects.push _).size
    rw [Array.size_push]
    exact Nat.lt_succ_of_lt known
  have absent' := (shows t known (.ofPrimitive v)).trans absent
  have other' : ∀ mapped, (describing r d).heap.kind t ≠ .arguments mapped := by
    rw [Heap.kind, kept d t known]
    exact other
  have plain : (describing r d).heap.isArray t = false := by
    rw [Heap.isArray, Heap.kind, kept d t known]
    exact notArray
  have accepts := Heap.define_copy _ t (.ofPrimitive v) d other' plain (by rw [kept d t known]; exact extensible) absent'
  have defines : defineOwn t (.ofPrimitive v) (.ofDescriptor d) true m (describing r d) =
      .ok true ((describing r d).withHeap ((describing r d).heap.store t (.ofPrimitive v) d)) := by
    rw [define_own_ends m _ t _ _ true (.inl plain), accepts]
    rfl
  have apart := Heap.store_apart _ t (.ofPrimitive v) size absent' d
  refine ⟨_, _, _, fun this => described m r this o v primitive d there, fun this =>
    defined m _ this t _ v primitive _ _ (reads d functional) defines, ?_, ?_⟩
  · exact Heap.store_own _ t _ d other' size absent'
  · rw [← there, ← shows o (Heap.own_known _ _ _ _ there)]
    exact Heap.own_kept _ _ _ _ (apart.elsewhere o distinct) ⟨apart.frames, apart.environments⟩

-- A heap of `Object.prototype`, one more object, and one without properties.
def threeObjects (o : Object) : Realm :=
  { heap := { objects := #[{}, o, {}] }, config := {} }

theorem three_undescribed (o : Object) : (threeObjects o).Undescribed := by
  intro name _
  rfl

-- A machine that enters no code.
def idleMachine : Machine :=
  { rounds := 0, lookup := fun _ _ _ => .error .exhausted, enter := fun _ => throw .exhausted }

-- The first character of a string object becomes a property like all others.
theorem descriptors_survive_character :
    (threeObjects { kind := .string "ab" }).Undescribed ∧
    (threeObjects { kind := .string "ab" }).heap.own? 1 (.ofPrimitive (.string "0")) =
      some (.data (.string "a") false true false) ∧
    ∃ p r₁ r₂, ObjectFunction.run .getOwnPropertyDescriptor .undefined [.object 1, .string "0"] idleMachine
        (threeObjects { kind := .string "ab" }) = .ok (.object p) r₁ ∧
      ObjectFunction.run .defineProperty .undefined [.object 2, .string "0", .object p] idleMachine r₁ =
        .ok (.object 2) r₂ ∧
      r₂.heap.own? 2 (.ofPrimitive (.string "0")) = some (.data (.string "a") false true false) := by
  have there : (threeObjects { kind := .string "ab" }).heap.own? 1 (.ofPrimitive (.string "0")) =
      some (.data (.string "a") false true false) := by decide +kernel
  obtain ⟨p, r₁, r₂, gives, defines, copied, _⟩ :=
    (descriptors_survive idleMachine (threeObjects { kind := .string "ab" }) (three_undescribed _)).2 1 2 (.string "0")
      (.data (.string "a") false true false) rfl there (fun f half => by rcases half with half | half <;> cases half)
      (by decide) rfl (fun mapped is => by cases is) rfl rfl
  exact ⟨three_undescribed _, there, p, r₁, r₂, gives _, defines _, copied⟩

-- A getter that is no function is read back as a type error.
theorem descriptors_lost :
    ¬ ∀ (m : Machine) (r : Realm) (o t : ObjectId) (v : Value) (d : Descriptor), r.Undescribed → v.isObject = false →
      r.heap.own? o (.ofPrimitive v) = some d → t < r.heap.objects.size → r.heap.isArray t = false →
      (∀ mapped, r.heap.kind t ≠ .arguments mapped) → (r.heap.object t).extensible = true →
      r.heap.own? t (.ofPrimitive v) = none →
      ∃ p r₁ r₂, ObjectFunction.run .getOwnPropertyDescriptor .undefined [.object o, v] m r = .ok (.object p) r₁ ∧
        ObjectFunction.run .defineProperty .undefined [.object t, v, .object p] m r₁ = .ok (.object t) r₂ := by
  intro survives
  have there : (threeObjects { properties := .ofNames [("k", .accessor (some 0) none true true)] }).heap.own? 1
      (.ofPrimitive (.string "k")) = some (.accessor (some 0) none true true) := by rfl
  obtain ⟨p, r₁, r₂, gives, defines⟩ := survives idleMachine
    (threeObjects { properties := .ofNames [("k", .accessor (some 0) none true true)] }) 1 2 (.string "k") _
    (three_undescribed _) rfl there (by decide) rfl (fun mapped is => by cases is) rfl rfl
  cases gives.symm.trans (described idleMachine _ .undefined 1 (.string "k") rfl _ there)
  have fails : ∃ e r, ObjectFunction.run .defineProperty .undefined [.object 2, .string "k", .object 3] idleMachine
      (describing (threeObjects { properties := .ofNames [("k", .accessor (some 0) none true true)] })
        (.accessor (some 0) none true true)) = .error e r := ⟨_, _, rfl⟩
  obtain ⟨e, r, is⟩ := fails
  cases is.symm.trans defines

end Ecma
