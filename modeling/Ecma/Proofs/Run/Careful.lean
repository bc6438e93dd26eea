import Ecma.Eval.Statement
import Ecma.Proofs.Heap.Grounded
import Ecma.Proofs.Heap.Edit
import Ecma.Proofs.Run.Course
import Ecma.Proofs.Run.Native

set_option autoImplicit false

/-!
Runs that put nothing into a realm but what there is. What they are given leads to objects and environments that
have been made, and so does what they store, throw and give back.
-/

namespace Ecma

open Ecma.Program Ecma.Syntax Run

/-! What leads to what there is. -/

-- Something that can be known of what a run gives, in a realm with so many objects and environments.
abbrev Fact (α : Type) :=
  Extent → α → Prop

def Anything {α : Type} : Fact α :=
  fun _ _ => True

section

variable (w : Extent)

def Interrupt.Within : Interrupt → Prop
  | .thrown v => v.Within w
  | .stackOverflow v => v.Within w
  | _ => True

def Values.Within (vs : List Value) : Prop :=
  ∀ v ∈ vs, v.Within w

def Items.Within (items : List (Option Value)) : Prop :=
  ∀ v, some v ∈ items → v.Within w

def OptionalValue.Within (v : Option Value) : Prop :=
  ∀ u, v = some u → u.Within w

theorem OptionalValue.within_none : OptionalValue.Within w none := by
  intro u same
  cases same

def Completion.Within (c : Completion) : Prop :=
  OptionalValue.Within w c.value

def Definition.Within (d : Definition) : Prop :=
  d.All (Value.Within w)

def Reference.Within (r : Reference) : Prop :=
  match r.base with
  | .value v => v.Within w
  | .environment env => w.Encloses env
  | .unresolvable => True

def Place.Within : Place → Prop
  | .reference r => r.Within w
  | .property base _ => base.Within w
  | _ => True

structure Context.Within (c : Context) : Prop where
  this : c.this.Within w
  lexical : w.Encloses c.lexicalEnv
  «variable» : w.Encloses c.variableEnv

def Invocation.Within : Invocation → Prop
  | .call f this args => w.Has f ∧ this.Within w ∧ Values.Within w args
  | .construct f args => w.Has f ∧ Values.Within w args
  | .code routine lexicalEnv variableEnv this _ =>
    routine.Plain ∧ w.Encloses lexicalEnv ∧ w.Encloses variableEnv ∧ this.Within w

end

namespace Realm

def extent (r : Realm) : Extent :=
  r.heap.extent

structure Grounded (r : Realm) : Prop where
  heap : r.heap.Grounded
  running : r.running.Within r.extent
  waiting : ∀ c ∈ r.waiting, c.Within r.extent
  handlers : Dictionary.All (Value.Within r.extent) r.handlers

theorem Grounded.intrinsic {r : Realm} (grounded : r.Grounded) (id : ObjectId) (first : id ≤ 16) : r.extent.Has id := by
  exact Nat.lt_of_le_of_lt first grounded.heap.intrinsics

theorem Grounded.global {r : Realm} (grounded : r.Grounded) : r.extent.Encloses Intrinsic.globalEnvironment := by
  exact grounded.heap.global

end Realm

section

variable {w w' : Extent} (upto : w.Upto w')
include upto

theorem Values.Within.more {vs : List Value} (within : Values.Within w vs) : Values.Within w' vs := by
  exact fun v member => (within v member).more upto

theorem OptionalValue.Within.more {v : Option Value} (within : OptionalValue.Within w v) :
    OptionalValue.Within w' v := by
  exact fun u same => (within u same).more upto

theorem Definition.Within.more {d : Definition} (within : d.Within w) : d.Within w' := by
  exact ⟨fun v same => (within.value v same).more upto, fun f same => (within.getter f same).more upto,
    fun f same => (within.setter f same).more upto⟩

theorem Context.Within.more {c : Context} (within : c.Within w) : c.Within w' := by
  exact ⟨within.this.more upto, within.lexical.more upto, within.variable.more upto⟩

theorem Invocation.Within.more {invocation : Invocation} (within : invocation.Within w) : invocation.Within w' := by
  cases invocation with
  | call f this args => exact ⟨within.1.more upto, within.2.1.more upto, Values.Within.more upto within.2.2⟩
  | construct f args => exact ⟨within.1.more upto, Values.Within.more upto within.2⟩
  | code routine lexicalEnv variableEnv this deletable =>
    exact ⟨within.1, within.2.1.more upto, within.2.2.1.more upto, within.2.2.2.more upto⟩

end

/-! Careful runs. -/

-- The flag says whether the place of the code that runs may move. What follows is careful in all realms that have
-- at least as much in them.
inductive Careful : {α : Type} → Extent → Bool → Run α → Fact α → Prop
  | pure {α : Type} {w : Extent} {moves : Bool} (a : α) (gives : Fact α)
      (held : ∀ w', w.Upto w' → gives w' a) : Careful w moves (pure a) gives
  | imp {α : Type} {w : Extent} {moves : Bool} (x : Run α) (gives gives' : Fact α) (careful : Careful w moves x gives)
      (imp : ∀ w' a, w.Upto w' → gives w' a → gives' w' a) : Careful w moves x gives'
  | bind {α β : Type} {w : Extent} {moves : Bool} (x : Run α) (f : α → Run β) (gives : Fact α) (gives' : Fact β)
      (first : Careful w moves x gives)
      (second : ∀ a w', w.Upto w' → gives w' a → Careful w' moves (f a) gives') : Careful w moves (x >>= f) gives'
  /-- What is known of the realm in which a run starts can be used to see that it is careful. -/
  | here {α : Type} {w : Extent} {moves : Bool} (x : Run α) (gives : Fact α)
      (each : ∀ r : Realm, r.Grounded → w.Upto r.extent → Careful r.extent moves x gives) : Careful w moves x gives
  | throwing {α : Type} {w : Extent} {moves : Bool} (v : Value) (gives : Fact α) (held : v.Within w) :
      Careful w moves (throw (.thrown v) : Run α) gives
  | look {α : Type} {w : Extent} {moves : Bool} (f : Realm → Run α) (gives : Fact α)
      (each : ∀ r, r.Grounded → w.Upto r.extent → Careful r.extent moves (f r) gives) :
      Careful w moves (MonadState.get >>= f) gives
  | found {w : Extent} {moves : Bool} (v : Variable) (strict : Bool) : Careful w moves (placeOf v strict) Place.Within
  | beside {w : Extent} {moves : Bool} (f : Realm → Realm) (outward : Outward f)
      (handlers : ∀ r, r.Grounded → w.Upto r.extent → Dictionary.All (Value.Within r.extent) (f r).handlers) :
      Careful w moves (modify f) Anything
  | update {α : Type} {w : Extent} {moves : Bool} (f : Heap → α × Heap) (gives : Fact α)
      (regular : ∀ h : Heap, h.Regular (f h).2)
      (orderly : ∀ h : Heap, h.Grounded → w.Upto h.extent → h.Orderly (f h).2)
      (held : ∀ h : Heap, h.Grounded → w.Upto h.extent → gives (f h).2.extent (f h).1) :
      Careful w moves (updateHeap f) gives
  | define {α : Type} {w : Extent} {moves : Bool} (id : ObjectId) (key : PropertyKey) (d : Definition) (other : Run α)
      (k : Bool → Run α) (gives : Fact α) (oneKind : d.OneKind) (held : d.Within w)
      (otherwise : Careful w moves other gives) (after : ∀ accepted w', w.Upto w' → Careful w' moves (k accepted) gives) :
      Careful w moves (heap >>= fun h => if h.isArray id && key == .length && d.value.isSome then other
        else updateHeap (fun h => h.define id key d) >>= k) gives
  | function {w : Extent} {moves : Bool} (routine : Routine) (scope : EnvironmentId) (plain : routine.Plain)
      (encloses : w.Encloses scope) : Careful w moves (newFunction routine scope) Extent.Has
  | place {w : Extent} (f : Context → Context) (same : ∀ c : Context, c.SameCode (f c))
      (held : ∀ w' c, w.Upto w' → c.Within w' → (f c).Within w') : Careful w true (modifyRunning f) Anything
  | step {w : Extent} {moves : Bool} : Careful w moves step Anything
  | within {α : Type} {w : Extent} (env : EnvironmentId) (body : Run α) (gives : Fact α) (encloses : w.Encloses env)
      (inside : Careful w true body gives) : Careful w true (inEnvironment env body) gives
  | catching {w : Extent} {moves : Bool} (block : Run Completion) (handler : Value → Run Completion)
      (body : Careful w moves block Completion.Within)
      (rest : ∀ v w', w.Upto w' → v.Within w' → Careful w' moves (handler v) Completion.Within) :
      Careful w moves (catching block handler) Completion.Within
  | thenFinally {w : Extent} {moves : Bool} (block finalizer : Run Completion)
      (body : Careful w moves block Completion.Within)
      (rest : ∀ w', w.Upto w' → Careful w' moves finalizer Completion.Within) :
      Careful w moves (thenFinally block finalizer) Completion.Within
  | whileRounds {w : Extent} {moves : Bool} (labels : List Label) (test : Run Bool) (body : Run Completion)
      (update : Run Unit) (tests : ∀ w', w.Upto w' → Careful w' moves test Anything)
      (runs : ∀ w', w.Upto w' → Careful w' moves body Completion.Within)
      (updates : ∀ w', w.Upto w' → Careful w' moves update Anything) :
      Careful w moves (whileRounds labels test body update) Completion.Within
  | doRounds {w : Extent} {moves : Bool} (labels : List Label) (body : Run Completion) (test : Run Bool)
      (runs : ∀ w', w.Upto w' → Careful w' moves body Completion.Within)
      (tests : ∀ w', w.Upto w' → Careful w' moves test Anything) :
      Careful w moves (doRounds labels body test) Completion.Within
  | nameRounds {w : Extent} {moves : Bool} (labels : List Label) (id : ObjectId) (assign : Value → Run Unit)
      (body : Run Completion) (assigns : ∀ s w', w.Upto w' → Careful w' moves (assign (.string s)) Anything)
      (runs : ∀ w', w.Upto w' → Careful w' moves body Completion.Within) :
      Careful w moves (nameRounds labels id assign body) Completion.Within
  | enter {w : Extent} {moves : Bool} (invocation : Invocation) (held : invocation.Within w) :
      Careful w moves (enter invocation) Value.Within
  | rescuing {α : Type} {w : Extent} {moves : Bool} (block : Run α) (handler : Interrupt → Option (Run α))
      (gives : Fact α) (body : Careful w moves block gives)
      (each : ∀ e x w', w.Upto w' → e.Within w' → handler e = some x → Careful w' moves x gives) :
      Careful w moves (rescuing block handler) gives

section

variable {w : Extent} {moves : Bool} {α β : Type}

theorem careful_then (x : Run α) (f : α → Run β) (gives : Fact α) (gives' : Fact β) (first : Careful w moves x gives)
    (second : ∀ a w', w.Upto w' → Careful w' moves (f a) gives') : Careful w moves (x >>= f) gives' := by
  exact .bind x f gives gives' first fun a w' upto _ => second a w' upto

theorem careful_after (x : Run α) (f : α → β) (gives : Fact α) (gives' : Fact β) (first : Careful w moves x gives)
    (imp : ∀ w' a, w.Upto w' → gives w' a → ∀ w'', w'.Upto w'' → gives' w'' (f a)) :
    Careful w moves (x >>= fun a => pure (f a)) gives' := by
  exact .bind x _ gives gives' first fun a w' upto held => .pure (f a) _ (imp w' a upto held)

end

/-! Objects with named properties. -/

theorem names_single {P : Value → Prop} (name : String) (d : Descriptor) (held : d.All P) :
    Dictionary.All (Descriptor.All P) [(name, d)] := by
  exact fun entry member => List.mem_singleton.mp member ▸ held

theorem poisoned_keys (names : List String) : Dictionary.keys (poisoned names) = names := by
  rw [poisoned, Dictionary.keys, List.map_map]
  exact List.map_id names

theorem poisoned_all {P : Value → Prop} (thrower : P (.object Intrinsic.throwTypeError)) (names : List String) :
    Dictionary.All (Descriptor.All P) (poisoned names) := by
  intro entry member
  obtain ⟨name, _, rfl⟩ := List.mem_map.mp member
  refine (Descriptor.all_accessor _ _ _ _).mpr ⟨fun f same => ?_, fun f same => ?_⟩
  · cases same
    exact thrower
  · cases same
    exact thrower

end Ecma
