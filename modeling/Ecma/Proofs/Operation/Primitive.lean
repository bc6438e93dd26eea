import Ecma.Eval.Expression
import Ecma.Program.Compile
import Ecma.Proofs.Heap.Ordinary
import Ecma.Proofs.Number.IndexText
import Ecma.Proofs.Run.Course

set_option autoImplicit false

/-!
Primitives as bases of properties. A primitive is read through the prototype of its wrapper and written by way of
a wrapper that nothing else sees. Reading finds what the wrapper has, and writing changes nothing by itself: only a
setter that the wrapper inherits takes the value, and it is called on the primitive.
-/

namespace Ecma

open Run

namespace Value

/-- The object that wraps a primitive; undefined and null have none. -/
def wrapper? : Value → Option Object
  | .boolean b => some { kind := .boolean b, prototype := some Intrinsic.booleanPrototype }
  | .number x => some { kind := .number x, prototype := some Intrinsic.numberPrototype }
  | .string s => some {
      kind := .string s, prototype := some Intrinsic.stringPrototype
      properties := .ofNames [("length", .final (.ofNat (Text.unitLength s)))] }
  | _ => none

/-- The properties that a wrapper has by itself: the length and the characters of a string. -/
def wrapped? (key : PropertyKey) : Value → Option Descriptor
  | .string s => if key = .length then some (.final (.ofNat (Text.unitLength s))) else Heap.character? s key
  | _ => none

theorem wrapped_read_only (p : Value) (key : PropertyKey) (d : Descriptor) (own : p.wrapped? key = some d) :
    ∃ v e c, d = .data v false e c := by
  cases p with
  | string s =>
    rw [wrapped?] at own
    split at own
    · cases own
      exact ⟨_, _, _, rfl⟩
    · cases key with
      | index i =>
        obtain ⟨unit, _, is⟩ := Option.map_eq_some_iff.mp own
        exact ⟨_, _, _, is.symm⟩
      | name s => cases own
  | _ => cases own

end Value

/-- What is said of a write to a primitive that is lost, by what its wrapper has. -/
def lostWrite (p : Value) (key : PropertyKey) (d : Option Descriptor) : String :=
  let name := key.text
  let value := p.primitiveText
  if d.all Descriptor.writable then s!"Cannot create property '{name}' on {value}"
  else s!"Cannot assign to read only property '{name}'"

/-! Wrappers. -/

section

variable (p : Value) (w : Object) (wraps : p.wrapper? = some w) (m : Machine) (r : Realm) (key : PropertyKey)

-- The realm with a new wrapper.
def Realm.wrapping (r : Realm) (w : Object) : Realm :=
  r.withHeap (r.heap.addObject w).2

theorem wrapper_here : (r.wrapping w).heap.object r.heap.objects.size = w := by
  rw [Realm.wrapping, Realm.withHeap, Heap.object_add, if_pos rfl]

include wraps

theorem to_object_at : toObject p m r = .ok r.heap.objects.size (r.wrapping w) := by
  cases p <;> cases wraps <;> rfl

theorem wrapper_kind : (∀ mapped, w.kind ≠ .arguments mapped) ∧ ∀ f, w.kind ≠ .function f := by
  cases p <;> cases wraps <;> exact ⟨fun _ => ObjectKind.noConfusion, fun _ => ObjectKind.noConfusion⟩

theorem wrapper_open : w.extensible = true := by
  cases p <;> cases wraps <;> rfl

theorem wrapper_own : (r.wrapping w).heap.own? r.heap.objects.size key = p.wrapped? key := by
  rw [Heap.own?, wrapper_here]
  cases p with
  | string s =>
    cases wraps
    rw [Value.wrapped?]
    by_cases length : key = .length
    · subst length
      rfl
    · rw [if_neg length]
      cases key with
      | index i => rfl
      | name other =>
        have absent : Dictionary.find? [("length", Descriptor.final (.ofNat (Text.unitLength s)))] other = none :=
          if_neg fun same => length (congrArg PropertyKey.name same.symm)
        exact congrArg (·.or (Heap.character? s (.name other))) absent
  | boolean b =>
    cases wraps
    cases key <;> rfl
  | number x =>
    cases wraps
    cases key <;> rfl
  | _ => cases wraps

-- What a wrapper inherits was there before it.
omit wraps in
theorem wrapper_inherits : ((r.wrapping w).heap.prototype? r.heap.objects.size).bind
      (fun link => (r.wrapping w).heap.property? link key) =
    w.prototype.bind fun link => r.heap.property? link key := by
  rw [Heap.prototype?, wrapper_here]
  cases w.prototype with
  | none => rfl
  | some link =>
    by_cases known : link < r.heap.objects.size
    · rw [Heap.below, Option.filter_some, if_pos (decide_eq_true known), Option.bind_some, Option.bind_some]
      exact r.heap.adds_property link key _ (r.heap.object_adds w) known
    · rw [Heap.below, Option.filter_some, if_neg (by simpa using known), Option.bind_some,
        r.heap.property_unknown link key known]
      rfl

theorem wrapper_property : (r.wrapping w).heap.property? r.heap.objects.size key =
    (p.wrapped? key).or (w.prototype.bind fun link => r.heap.property? link key) := by
  rw [Heap.property_step, wrapper_own p w wraps, wrapper_inherits]

/-! Reading. -/

-- A primitive reads what its wrapper has, and is the receiver itself.
theorem get_of_wrapped : getOf p key m r =
    readDescriptor ((r.wrapping w).heap.property? r.heap.objects.size key) p m r := by
  rw [wrapper_property p w wraps]
  cases p with
  | string s =>
    cases wraps
    rw [Value.wrapped?, getOf]
    by_cases length : key = .length
    · rw [if_pos length, if_pos (beq_iff_eq.mpr length)]
      rfl
    · rw [if_neg length, if_neg (by simpa using length)]
      cases found : Heap.character? s key with
      | none => rfl
      | some d =>
        obtain ⟨v, e, c, rfl⟩ := Value.wrapped_read_only (.string s) key d (by rw [Value.wrapped?, if_neg length, found])
        rfl
  | boolean b =>
    cases wraps
    rfl
  | number x =>
    cases wraps
    rfl
  | _ => cases wraps

-- A wrapper is no function, so nothing is kept secret about one.
theorem wrapper_get (v : Value)
    (reads : readDescriptor ((r.wrapping w).heap.property? r.heap.objects.size key) (.object r.heap.objects.size) m
      (r.wrapping w) = .ok v (r.wrapping w)) :
    get r.heap.objects.size key m (r.wrapping w) = .ok v (r.wrapping w) := by
  obtain ⟨unmapped, noFunction⟩ := wrapper_kind p w wraps
  have kind : (r.wrapping w).heap.kind r.heap.objects.size = w.kind := congrArg Object.kind (wrapper_here w r)
  have free : (r.wrapping w).heap.aliased? r.heap.objects.size key = none := by
    rw [Heap.aliased?, Heap.alias?.eq_def, kind]
    split
    · next mapped i is => exact absurd is (unmapped mapped)
    · rfl
  have open' : guardsCaller (r.wrapping w).heap r.heap.objects.size = false := by
    rw [guardsCaller, kind]
    split
    · next f is => exact absurd is (noFunction f)
    · next mapped is => exact absurd is (unmapped mapped)
    · rfl
  rw [get, heap_at, free]
  dsimp only
  rw [heap_at, bind_at, reads]
  dsimp only
  rw [heap_at, open', Bool.and_false]
  rfl

/-! Writing. -/

-- Properties of its own refuse to be written, and what it inherits is all that decides otherwise.
theorem wrapper_can_put : canPut (r.wrapping w).heap r.heap.objects.size key =
    match (r.wrapping w).heap.property? r.heap.objects.size key with
    | some (.accessor _ setter _ _) => setter.isSome
    | some (.data _ writable _ _) => writable
    | none => true := by
  have extensible : ((r.wrapping w).heap.object r.heap.objects.size).extensible = true := by
    rw [wrapper_here, wrapper_open p w wraps]
  rw [canPut, wrapper_property p w wraps, wrapper_own p w wraps, wrapper_inherits]
  cases own : p.wrapped? key with
  | some d =>
    obtain ⟨x, e, c, rfl⟩ := p.wrapped_read_only key d own
    rfl
  | none =>
    dsimp only
    rw [Option.none_or, extensible]
    rcases w.prototype.bind _ with _ | ⟨_, _, _, _⟩ | ⟨_, _, _, _⟩ <;> rfl

theorem put_of_wrapped (v : Value) (strict : Bool) : putOf p key v strict m r =
    match (r.wrapping w).heap.property? r.heap.objects.size key with
    | some (.accessor _ (some setter) _ _) => (discard <| call (.object setter) p [v] : Run Unit) m (r.wrapping w)
    | d => (if strict then throwTypeError (lostWrite p key d) else pure () : Run Unit) m (r.wrapping w) := by
  unfold putOf
  split
  · cases wraps
  rw [bind_at, to_object_at p w wraps]
  dsimp only
  rw [heap_at, wrapper_can_put p w wraps, wrapper_own p w wraps]
  have property := wrapper_property p w wraps r key
  cases own : p.wrapped? key with
  | some d =>
    obtain ⟨x, e, c, rfl⟩ := p.wrapped_read_only key d own
    rw [own, Option.some_or] at property
    rw [property]
    cases strict <;> rfl
  | none =>
    rcases (r.wrapping w).heap.property? r.heap.objects.size key with
      _ | ⟨_, _ | _, _, _⟩ | ⟨_, _ | setter, _, _⟩ <;> cases strict <;> rfl

end

theorem wrapper_of (p : Value) (primitive : p.isObject = false) (held : p.isNullish = false) :
    ∃ w, p.wrapper? = some w := by
  cases p with
  | undefined => cases held
  | null => cases held
  | object id => cases primitive
  | _ => exact ⟨_, rfl⟩

/-- A string, a number or a boolean is read and written as its wrapper, which is a new object, would be. Where the
wrapper has no getter, both read the same; a getter is called on the primitive. A setter that the wrapper has is
called on the primitive too, and all other writes change nothing and are errors in strict code. -/
theorem primitives_wrapped (m : Machine) (r : Realm) (p : Value) (primitive : p.isObject = false)
    (held : p.isNullish = false) (key : PropertyKey) :
    ∃ o k, (∀ m, toObject p m r = .ok o (r.withHeap k)) ∧ r.heap.Adds k ∧ o = r.heap.objects.size ∧
      (match k.property? o key with
        | some (.accessor (some getter) _ _ _) => getOf p key m r = call (.object getter) p [] m r
        | d => getOf p key m r = .ok (d.elim .undefined Descriptor.value) r ∧
            get o key m (r.withHeap k) = .ok (d.elim .undefined Descriptor.value) (r.withHeap k)) ∧
      ∀ v, match k.property? o key with
        | some (.accessor _ (some setter) _ _) =>
          ∀ strict, putOf p key v strict m r = (discard <| call (.object setter) p [v] : Run Unit) m (r.withHeap k)
        | d => putOf p key v false m r = .ok () (r.withHeap k) ∧
            putOf p key v true m r = .error (.thrown (.object k.objects.size))
              ((r.withHeap k).withError .typeError (lostWrite p key d)) := by
  obtain ⟨w, wraps⟩ := wrapper_of p primitive held
  refine ⟨_, (r.wrapping w).heap, fun m => to_object_at p w wraps m r, r.heap.object_adds w, rfl, ?_, fun v => ?_⟩
  · have reads := get_of_wrapped p w wraps m r key
    have same := wrapper_get p w wraps m r key
    generalize (r.wrapping w).heap.property? r.heap.objects.size key = d at reads same ⊢
    rcases d with _ | ⟨_, _, _, _⟩ | ⟨_ | getter, _, _, _⟩
    case some.accessor.some => exact reads
    all_goals exact ⟨reads, same _ rfl⟩
  · have writes := put_of_wrapped p w wraps m r key v
    generalize (r.wrapping w).heap.property? r.heap.objects.size key = d at writes ⊢
    rcases d with _ | ⟨_, _, _, _⟩ | ⟨_, _ | setter, _, _⟩
    case some.accessor.some => exact writes
    all_goals exact ⟨writes false, (writes true).trans (throw_at ..)⟩

-- A realm in which strings have an accessor.
def accessorRealm : Realm where
  heap := { objects := #[{}, {}, {}, { properties := .ofNames [("k", .accessor (some 0) (some 1) false true)] }] }
  config := {}

theorem primitives_wrapped_accessor :
    (Value.string "ab").isObject = false ∧ (Value.string "ab").isNullish = false ∧ ∀ m,
      getOf (.string "ab") (.name "k") m accessorRealm = call (.object 0) (.string "ab") [] m accessorRealm ∧
      ∃ k, accessorRealm.heap.Adds k ∧ ∀ v strict, putOf (.string "ab") (.name "k") v strict m accessorRealm =
        (discard <| call (.object 1) (.string "ab") [v] : Run Unit) m (accessorRealm.withHeap k) := by
  refine ⟨rfl, rfl, fun m => ?_⟩
  obtain ⟨o, k, made, adds, rfl, reads, writes⟩ := primitives_wrapped m accessorRealm (.string "ab") rfl rfl (.name "k")
  obtain ⟨w, wraps⟩ := wrapper_of (.string "ab") rfl rfl
  have same : k = (accessorRealm.wrapping w).heap := by
    injection (made m).symm.trans (to_object_at _ w wraps m accessorRealm) with _ realms
    exact congrArg Realm.heap realms
  have property : k.property? accessorRealm.heap.objects.size (.name "k") =
      some (.accessor (some 0) (some 1) false true) := by
    cases wraps
    rw [same]
    rfl
  rw [property] at reads
  refine ⟨reads, k, adds, fun v strict => ?_⟩
  have write := writes v
  rw [property] at write
  exact write strict

end Ecma

/-!
Primitives as keys of properties. A constant has its key before the program runs, a number that is an index needs no
text, and all other primitives go by their texts; whichever way is taken, the key is the same.
-/

namespace Ecma

open Ecma.Program Run

theorem primitive_key_at (m : Machine) (r : Realm) (v : Value) (primitive : v.isObject = false) :
    toPropertyKey v m r = .ok (.ofPrimitive v) r := by
  cases v with
  | object id => cases primitive
  | number x =>
    rw [toPropertyKey]
    cases index : PropertyKey.ofIndexNumber? x with
    | some key => exact congrArg (EStateM.Result.ok · r) (index_number_key x key index).symm
    | none => rfl
  | _ => rfl

theorem known_expression (t : Typed) (v : Value) (known : t.value? = some v) : t.expr = .constant v := by
  rw [Typed.value?] at known
  split at known
  · next is =>
    cases known
    exact is
  · cases known

/-- A primitive names the key of its text: when it is a constant and the key is known before the program runs, and
when the key is computed by the running program. -/
theorem primitive_keys_agree (m : Machine) (r : Realm) (v : Value) (primitive : v.isObject = false) :
    ∃ text, toText v m r = .ok text r ∧
      toPropertyKey v m r = .ok (.ofString text) r ∧
      ∀ t : Typed, t.value? = some v → compileKey t = .known (.ofString text) ∧
        ∀ strict, evaluateKey strict (compileKey t) m r = .ok (.ofString text) r ∧
          evaluateKey strict (.computed t.expr) m r = .ok (.ofString text) r := by
  have converts : toText v m r = .ok v.primitiveText r := by
    cases v with
    | object id => cases primitive
    | _ => rfl
  have computes := primitive_key_at m r v primitive
  refine ⟨v.primitiveText, converts, computes, fun t known => ?_⟩
  have folds : compileKey t = .known (.ofString v.primitiveText) := by
    rw [compileKey, known]
    rfl
  refine ⟨folds, fun strict => ⟨?_, ?_⟩⟩
  · rw [folds, evaluateKey]
    rfl
  · rw [evaluateKey, known_expression t v known, evaluate]
    exact computes

-- The last index, and the number after it, which is none.
theorem primitive_keys_agree_last :
    (Value.number 4294967294.0).isObject = false ∧ (Value.number 4294967295.0).isObject = false ∧ ∀ m r,
      (toPropertyKey (.number 4294967294.0) m r = .ok (.index 4294967294) r ∧
        compileKey (.constant (.number 4294967294.0)) = .known (.index 4294967294)) ∧
      toPropertyKey (.number 4294967295.0) m r = .ok (.name "4294967295") r ∧
        compileKey (.constant (.number 4294967295.0)) = .known (.name "4294967295") := by
  have last : PropertyKey.ofString (Number.text 4294967294.0) = .index 4294967294 := by decide +kernel
  have next : PropertyKey.ofString (Number.text 4294967295.0) = .name "4294967295" := by decide +kernel
  refine ⟨rfl, rfl, fun m r => ⟨?_, ?_⟩⟩
  · obtain ⟨text, converts, computes, folds⟩ := primitive_keys_agree m r (.number 4294967294.0) rfl
    injection converts with is
    rw [← is] at computes folds
    exact ⟨last ▸ computes, last ▸ (folds _ rfl).1⟩
  · obtain ⟨text, converts, computes, folds⟩ := primitive_keys_agree m r (.number 4294967295.0) rfl
    injection converts with is
    rw [← is] at computes folds
    exact ⟨next ▸ computes, next ▸ (folds _ rfl).1⟩

end Ecma
