import Ecma.Builtin.Function
import Ecma.Proofs.Property.Rules
import Ecma.Proofs.Heap.View
import Ecma.Proofs.Run.Result

set_option autoImplicit false

/-!
Runs that are made of a fixed set of steps and decide what to do by what can be seen. They find no names
and enter no environments, so they do the same wherever bindings live. The provided functions and all
operations on properties are such runs.
-/

namespace Ecma

open Ecma.Program Ecma.Syntax

/-- A kind of object with nothing that cannot be seen. -/
def ObjectKind.isPlain : ObjectKind → Bool
  | .function (.script _ _) => false
  | .arguments _ => false
  | _ => true

-- An array is plain too, but one of its properties has a role.
def ObjectKind.isBare : ObjectKind → Bool
  | .array => false
  | k => k.isPlain

theorem ObjectKind.bare_plain (k : ObjectKind) (bare : k.isBare = true) : k.isPlain = true := by
  cases k <;> first | rfl | exact bare

namespace Run

-- A change of the realm beside its heap and its contexts.
structure Outward (f : Realm → Realm) : Prop where
  heap : ∀ r, (f r).heap = r.heap
  running : ∀ r, (f r).running = r.running
  waiting : ∀ r, (f r).waiting = r.waiting
  hosts : ∀ r, (f r).hosts = r.hosts
  collapse : ∀ r, (f r).config.collapse = r.config.collapse
  steps : ∀ r, (f r).steps = r.steps ∨ (f r).steps = 0
  same : ∀ r s, r.SameView s → (f r).SameView (f s)

inductive Uniform : {α : Type} → Run α → Prop
  | pure {α : Type} (a : α) : Uniform (pure a)
  /-- The rest has to be uniform only for what the first part can give. -/
  | given {α β : Type} (x : Run α) (f : α → Run β) (first : Uniform x)
      (second : ∀ m r a r', x m r = .ok a r' → Uniform (f a)) : Uniform (x >>= f)
  | throwing {α : Type} (v : Value) : Uniform (throw (.thrown v) : Run α)
  /-- What follows depends on what can be seen of the realm. -/
  | look {α : Type} (f : Realm → Run α) (same : ∀ r s, r.SameView s → f r = f s)
      (each : ∀ r, Uniform (f r)) : Uniform (MonadState.get >>= f)
  | beside (f : Realm → Realm) (outward : Outward f) : Uniform (modify f)
  | newObject (kind : ObjectKind) (prototype : Option ObjectId) (properties : PropertyTable)
      (bare : kind.isBare = true) : Uniform (newObject kind prototype properties)
  | newArray (items : List (Option Value)) : Uniform (newSparseArray items)
  /-- A value for the length of an array is never stored as it is. -/
  | define {α : Type} (id : ObjectId) (key : PropertyKey) (d : Definition) (other : Run α) (k : Bool → Run α)
      (oneKind : d.OneKind) (otherwise : Uniform other) (after : ∀ accepted, Uniform (k accepted)) :
      Uniform (heap >>= fun h => if h.isArray id && key == .length && d.value.isSome then other
        else updateHeap (fun h => h.define id key d) >>= k)
  | defineLength (id : ObjectId) (d : Definition) (length : Nat) (old : Nat × Bool)
      (isValue : d.isAccessor = false) : Uniform (updateHeap fun h => h.defineLength id d length old)
  | delete (id : ObjectId) (key : PropertyKey) : Uniform (updateHeap fun h => h.delete id key)
  | preventExtensions (id : ObjectId) : Uniform (modifyHeap fun h => h.preventExtensions id)
  | setTraceLimit (v : Value) :
      Uniform (modifyHeap fun h => h.store Intrinsic.errorConstructor (.name "stackTraceLimit") (.free v))
  | call (f : ObjectId) (this : Value) (args : List Value) : Uniform (enter (.call f this args))
  | construct (f : ObjectId) (args : List Value) : Uniform (enter (.construct f args))
  /-- Code given as text runs in the global environment. -/
  | evaluation (text : String) : Uniform (runEvalCode text false globalContext)
  | functionOfTexts (texts : List String) : Uniform (newFunctionOfTexts texts)

theorem Uniform.bind {α β : Type} (x : Run α) (f : α → Run β) (first : Uniform x) (second : ∀ a, Uniform (f a)) :
    Uniform (x >>= f) := by
  exact Uniform.given x f first fun _ _ a _ _ => second a

end Run

end Ecma

/-!
What provided functions and operations are made of. They are uniform, and more can be said of them: they do
not look at the number of steps that have been counted, the lengths they give to arrays fit a word, and the
limits of the realm are left alone by all of them but one.
-/

namespace Ecma

open Ecma.Program Ecma.Syntax

def Realm.withSteps (r : Realm) (steps : Nat) : Realm :=
  { r with steps := steps }

namespace Run

-- A change that does not depend on the steps counted so far.
def Stepless (f : Realm → Realm) : Prop :=
  ∀ r n, r.steps ≤ n → ∃ m, (f r).steps ≤ m ∧ f (r.withSteps n) = (f r).withSteps m

-- A change after which everything is held to the same limits, from the same count on.
def KeepsLimits (f : Realm → Realm) : Prop :=
  ∀ r, (f r).config = r.config ∧ (f r).steps = r.steps

-- The flag says whether limits may change.
inductive Native (limits : Bool) : {α : Type} → Run α → Prop
  | pure {α : Type} (a : α) : Native limits (pure a)
  /-- The rest has to be native only for what the first part can give. -/
  | given {α β : Type} (x : Run α) (f : α → Run β) (first : Native limits x)
      (second : ∀ m r a r', x m r = .ok a r' → Native limits (f a)) : Native limits (x >>= f)
  | throwing {α : Type} (v : Value) : Native limits (throw (.thrown v) : Run α)
  | look {α : Type} (f : Realm → Run α) (same : ∀ r s, r.SameView (s.withSteps r.steps) → f r = f s)
      (each : ∀ r, Native limits (f r)) : Native limits (MonadState.get >>= f)
  | beside (f : Realm → Realm) (outward : Outward f) (stepless : Stepless f)
      (kept : limits = false → KeepsLimits f) : Native limits (modify f)
  | newObject (kind : ObjectKind) (prototype : Option ObjectId) (properties : PropertyTable)
      (bare : kind.isBare = true) : Native limits (newObject kind prototype properties)
  | newArray (items : List (Option Value)) : Native limits (newSparseArray items)
  | define {α : Type} (id : ObjectId) (key : PropertyKey) (d : Definition) (other : Run α) (k : Bool → Run α)
      (oneKind : d.OneKind) (otherwise : Native limits other) (after : ∀ accepted, Native limits (k accepted)) :
      Native limits (heap >>= fun h => if h.isArray id && key == .length && d.value.isSome then other
        else updateHeap (fun h => h.define id key d) >>= k)
  | defineLength (id : ObjectId) (d : Definition) (length : Nat) (old : Nat × Bool)
      (isValue : d.isAccessor = false) (short : length < Number.wordCount) :
      Native limits (updateHeap fun h => h.defineLength id d length old)
  | delete (id : ObjectId) (key : PropertyKey) : Native limits (updateHeap fun h => h.delete id key)
  | preventExtensions (id : ObjectId) : Native limits (modifyHeap fun h => h.preventExtensions id)
  | setTraceLimit (v : Value) :
      Native limits (modifyHeap fun h => h.store Intrinsic.errorConstructor (.name "stackTraceLimit") (.free v))
  | call (f : ObjectId) (this : Value) (args : List Value) : Native limits (enter (.call f this args))
  | construct (f : ObjectId) (args : List Value) : Native limits (enter (.construct f args))
  | evaluation (text : String) : Native limits (runEvalCode text false globalContext)
  | functionOfTexts (texts : List String) : Native limits (newFunctionOfTexts texts)

theorem native_uniform {α : Type} (limits : Bool) (x : Run α) (native : Native limits x) : Uniform x := by
  induction native with
  | pure a => exact .pure a
  | given x f _ _ first second => exact .given x f first second
  | throwing v => exact .throwing v
  | look f same _ each =>
    refine .look f (fun r s seen => same r s ?_) each
    have steps : s.withSteps r.steps = s := by
      rw [seen.steps]
      rfl
    rw [steps]
    exact seen
  | beside f outward => exact .beside f outward
  | newObject kind prototype properties bare => exact .newObject kind prototype properties bare
  | newArray items => exact .newArray items
  | define id key d other k oneKind _ _ otherwise after => exact .define id key d other k oneKind otherwise after
  | defineLength id d length old isValue => exact .defineLength id d length old isValue
  | delete id key => exact .delete id key
  | preventExtensions id => exact .preventExtensions id
  | setTraceLimit v => exact .setTraceLimit v
  | call f this args => exact .call f this args
  | construct f args => exact .construct f args
  | evaluation text => exact .evaluation text
  | functionOfTexts texts => exact .functionOfTexts texts

theorem Native.uniform {α : Type} {x : Run α} (native : Native true x) : Uniform x := by
  exact native_uniform true x native

section

variable {limits : Bool} {α β : Type}

theorem Native.bind (x : Run α) (f : α → Run β) (first : Native limits x) (second : ∀ a, Native limits (f a)) :
    Native limits (x >>= f) := by
  exact Native.given x f first fun _ _ a _ _ => second a

theorem native_heap (f : Heap → Run α) (same : ∀ h k, h.SameView k → f h = f k)
    (each : ∀ h, Native limits (f h)) : Native limits (heap >>= f) := by
  have whole : (heap >>= f) = ((MonadState.get : Run Realm) >>= fun r => f r.heap) := by
    rfl
  rw [whole]
  exact Native.look _ (fun r s seen => same r.heap s.heap seen.heap) fun r => each r.heap

theorem native_map (f : α → β) (x : Run α) (native : Native limits x) : Native limits (f <$> x) := by
  rw [← bind_pure_comp]
  exact Native.bind _ _ native fun a => Native.pure _

theorem native_discard (x : Run α) (native : Native limits x) : Native limits (discard x : Run PUnit) := by
  have whole : (discard x : Run PUnit) = (fun _ => PUnit.unit) <$> x := by
    rfl
  rw [whole]
  exact native_map _ x native

theorem native_ite (c : Prop) [Decidable c] (x y : Run α) (yes : Native limits x) (no : Native limits y) :
    Native limits (if c then x else y) := by
  split
  · exact yes
  · exact no

/-! Errors. -/

theorem new_error_from_native (prototype : ObjectId) (message : Option Value) :
    Native limits (newErrorFrom prototype message) := by
  refine Native.look _ (fun r s same => ?_) fun r => ?_
  · dsimp only
    rw [Realm.capture_same r _ same]
    rfl
  · exact Native.newObject _ _ _ rfl

theorem new_error_native (kind : ErrorKind) (message : String) : Native limits (newError kind message) := by
  exact new_error_from_native _ _

theorem throw_value_native (v : Value) : Native limits (throwValue v : Run α) := by
  exact Native.throwing v

theorem throw_error_native (kind : ErrorKind) (message : String) :
    Native limits (Run.throwError kind message : Run α) := by
  exact Native.bind _ _ (new_error_native kind message) fun _ => throw_value_native _

theorem throw_type_error_native (message : String) :
    Native limits (throwTypeError message : Run α) := by
  exact throw_error_native _ _

theorem new_plain_object_native : Native limits newPlainObject := by
  exact Native.newObject _ _ _ rfl

end

end Run

end Ecma
