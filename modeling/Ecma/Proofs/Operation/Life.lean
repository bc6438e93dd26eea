import Ecma.Operation.Reference
import Ecma.Proofs.Heap.Access
import Ecma.Proofs.Property.Table
import Ecma.Proofs.Run.Course

set_option autoImplicit false

/-!
The life of a binding. Calls on a declarative environment follow one another, and some of them fail; what
becomes of a name depends on the calls with that name alone, and the answer of a call on the life of its
name.
-/

namespace Ecma

open Run

/-! Calls. -/

/-- The calls that a declarative environment answers. -/
inductive BindingCall where
  | createMutable (name : String) (deletable : Bool)
  | createConstant (name : String)
  | initialise (name : String) (v : Value)
  | set (name : String) (v : Value) (strict : Bool)
  /-- A write that takes effect if it can, and fails in no case. -/
  | setDirect (name : String) (v : Value)
  | read (name : String) (strict : Bool)
  | delete (name : String)

namespace BindingCall

def name : BindingCall → String
  | .createMutable name _ | .createConstant name | .initialise name _ | .set name _ _ | .setDirect name _
  | .read name _ | .delete name => name

/-- Makes the call; a call that has nothing to say answers undefined. -/
def run (env : EnvironmentId) : BindingCall → Run Value
  | .createMutable name deletable => do
    createBinding env name deletable
    return .undefined
  | .createConstant name => do
    modifyHeap fun h => h.modifyBindings env fun b => b.createConstant name
    return .undefined
  | .initialise name v => do
    modifyHeap fun h => h.modifyBindings env fun b => b.initializeConstant name v
    return .undefined
  | .set name v strict => do
    setBinding env name v strict
    return .undefined
  | .setDirect name v => do
    let written := ((← heap).bindings? env).any fun b => b.canWrite name
    modifyHeap fun h => h.writeAlias (.binding env name) v
    return .boolean written
  | .read name strict => getBinding env name strict
  | .delete name => return .boolean (← deleteBinding env name)

/-- What the call does to the bindings. -/
def change : BindingCall → Bindings → Bindings
  | .createMutable name deletable, b => b.createMutable name deletable
  | .createConstant name, b => b.createConstant name
  | .initialise name v, b => b.initializeConstant name v
  | .set name v _, b => b.write name v
  | .setDirect name v, b => b.write name v
  | .read _ _, b => b
  | .delete name, b => b.delete name

def creates : BindingCall → Bool
  | .createMutable _ _ | .createConstant _ => true
  | _ => false

/-- The value that the call writes to a name. -/
def written? (name : String) : BindingCall → Option Value
  | .set other v _ | .setDirect other v => if other = name then some v else none
  | _ => none

/-- The value that the call initialises a name with. -/
def initial? (name : String) : BindingCall → Option Value
  | .initialise other v => if other = name then some v else none
  | _ => none

end BindingCall

/-- The realm after some calls; one that fails does not keep the next from being made. -/
def Realm.afterCalls (env : EnvironmentId) (m : Machine) (r : Realm) (calls : List BindingCall) : Realm :=
  calls.foldl (fun r call => endOf (call.run env m r)) r

/-! Lives. -/

/-- How far a name has come. -/
inductive Life where
  | absent
  /-- A variable with its value. -/
  | holding (v : Value) (deletable : Bool)
  /-- A constant that has no value yet. -/
  | awaiting
  | constant (v : Value)

namespace Life

/-- A variable that cannot be deleted, or a constant. -/
def isLasting : Life → Bool
  | .absent => false
  | .holding _ deletable => !deletable
  | .awaiting => true
  | .constant _ => true

def isConstant : Life → Bool
  | .awaiting => true
  | .constant _ => true
  | _ => false

/-- What becomes of a name by a call with it. -/
def after : Life → BindingCall → Life
  | .absent, .createMutable _ deletable => .holding .undefined deletable
  | .absent, .createConstant _ => .awaiting
  | .awaiting, .initialise _ v => .constant v
  | .holding _ deletable, .set _ v _ => .holding v deletable
  | .holding _ deletable, .setDirect _ v => .holding v deletable
  | .holding _ true, .delete _ => .absent
  | life, _ => life

end Life

def Binding.life (binding : Binding) : Life :=
  match binding.state with
  | .deletable => .holding binding.value true
  | .lasting => .holding binding.value false
  | .uninitialized => .awaiting
  | .constant => .constant binding.value

namespace Bindings

open Dictionary

def lifeOf : Option Binding → Life
  | none => .absent
  | some binding => binding.life

def life (b : Bindings) (name : String) : Life :=
  lifeOf (Dictionary.find? b name)

theorem modify_unchanged (b : Bindings) (name : String) (f : Binding → Binding)
    (same : ∀ binding, Dictionary.find? b name = some binding → f binding = binding) :
    Dictionary.modify b name f = b := by
  induction b with
  | nil => rfl
  | cons entry rest hyp =>
    obtain ⟨key, binding⟩ := entry
    rw [Dictionary.modify]
    by_cases here : key = name
    · rw [if_pos here, same binding (if_pos here)]
    · rw [if_neg here, hyp fun binding found => same binding ((if_neg here).trans found)]

theorem find_erased (b : Bindings) (name : String) (distinct : (Dictionary.keys b).Nodup) :
    Dictionary.find? (Dictionary.erase b name) name = none := by
  have gone : name ∉ Dictionary.keys (Dictionary.erase b name) := by
    rw [Dictionary.keys_erase]
    exact distinct.not_mem_erase
  rw [Dictionary.mem_keys, Bool.not_eq_true, Option.isSome_eq_false_iff, Option.isNone_iff_eq_none] at gone
  exact gone

section

variable (b : Bindings) (name : String)

theorem create_life (state : BindingState) : (Bindings.create b name state).life name =
    match b.life name with
    | .absent => Binding.life { state := state }
    | life => life := by
  rw [life, life, Bindings.create, Dictionary.has]
  cases found : Dictionary.find? b name with
  | none =>
    rw [Option.isSome_none, if_neg Bool.false_ne_true, find_put, if_pos rfl]
    rfl
  | some binding =>
    obtain ⟨v, state⟩ := binding
    rw [Option.isSome_some, if_pos rfl, found]
    cases state <;> rfl

theorem modify_life (f : Binding → Binding) :
    Bindings.life (Dictionary.modify b name f) name = lifeOf ((Dictionary.find? b name).map f) := by
  rw [life, find_modify, if_pos rfl]

theorem initialise_life (v : Value) : (Bindings.initializeConstant b name v).life name =
    (b.life name).after (.initialise name v) := by
  rw [Bindings.initializeConstant, modify_life, life]
  cases Dictionary.find? b name with
  | none => rfl
  | some binding =>
    obtain ⟨_, state⟩ := binding
    cases state <;> rfl

theorem write_life (v : Value) : (Bindings.write b name v).life name = match b.life name with
    | .holding _ deletable => .holding v deletable
    | life => life := by
  rw [Bindings.write, modify_life, life]
  cases Dictionary.find? b name with
  | none => rfl
  | some binding =>
    obtain ⟨_, state⟩ := binding
    cases state <;> rfl

theorem write_constant (v : Value) (constant : (b.life name).isConstant = true) : Bindings.write b name v = b := by
  refine modify_unchanged b name _ fun binding found => ?_
  rw [life, found] at constant
  obtain ⟨_, state⟩ := binding
  cases state <;> first | rfl | cases constant

theorem can_delete_life : b.canDelete name = !(b.life name).isLasting := by
  rw [canDelete, state?, life]
  cases Dictionary.find? b name with
  | none => rfl
  | some binding =>
    obtain ⟨_, state⟩ := binding
    cases state <;> rfl

theorem delete_life (distinct : (Dictionary.keys b).Nodup) :
    (Bindings.delete b name).life name = (b.life name).after (.delete name) := by
  have gone : life (Dictionary.erase b name) name = .absent := by
    rw [life, find_erased b name distinct]
    rfl
  rw [Bindings.delete, can_delete_life]
  cases is : b.life name with
  | absent => exact gone
  | holding v deletable =>
    cases deletable with
    | true => exact gone
    | false => exact is
  | awaiting | constant v => exact is

end

theorem initialise_concerns (name : String) (v : Value) :
    Concerns (fun b => Bindings.initializeConstant b name v) name :=
  modify_concerns name _

end Bindings

namespace BindingCall

open Bindings

theorem change_concerns (call : BindingCall) : Concerns call.change call.name := by
  cases call with
  | createMutable name deletable => exact create_mutable_concerns name deletable
  | createConstant name => exact create_concerns name _
  | initialise name v => exact initialise_concerns name v
  | set name v _ | setDirect name v => exact write_concerns name v
  | read name _ => exact ⟨fun _ _ _ => rfl, fun _ _ _ => rfl, fun _ _ _ => rfl⟩
  | delete name => exact delete_concerns name

theorem change_distinct (call : BindingCall) (b : Bindings) (distinct : (Dictionary.keys b).Nodup) :
    (Dictionary.keys (call.change b)).Nodup := by
  have created (name : String) (state : BindingState) : (Dictionary.keys (b.create name state)).Nodup := by
    rw [Bindings.create]
    split
    · exact distinct
    · rw [Dictionary.keys_put]
      split
      · exact distinct
      · next new => exact distinct.append (List.nodup_singleton name) (List.disjoint_singleton.mpr new)
  have modified (name : String) (f : Binding → Binding) : (Dictionary.keys (Dictionary.modify b name f)).Nodup := by
    rw [Dictionary.keys_modify]
    exact distinct
  cases call with
  | createMutable name deletable => exact created name _
  | createConstant name => exact created name _
  | initialise name v => exact modified name _
  | set name v _ | setDirect name v => exact modified name _
  | read name _ => exact distinct
  | delete name =>
    change (Dictionary.keys (b.delete name)).Nodup
    rw [Bindings.delete]
    split
    · rw [Dictionary.keys_erase]
      exact distinct.erase name
    · exact distinct

/-- A call changes the life of its own name only. -/
theorem change_life (call : BindingCall) (b : Bindings) (distinct : (Dictionary.keys b).Nodup) (name : String) :
    (call.change b).life name = if call.name = name then (b.life name).after call else b.life name := by
  by_cases own : call.name = name
  · rw [if_pos own]
    subst own
    cases call with
    | createMutable name deletable =>
      refine (create_life b name _).trans ?_
      change _ = (b.life name).after _
      cases b.life name <;> cases deletable <;> rfl
    | createConstant name =>
      refine (create_life b name _).trans ?_
      change _ = (b.life name).after _
      cases b.life name <;> rfl
    | initialise name v => exact initialise_life b name v
    | set name v strict | setDirect name v =>
      refine (write_life b name v).trans ?_
      change _ = (b.life name).after _
      cases b.life name <;> rfl
    | read name strict =>
      change b.life name = (b.life name).after _
      cases b.life name <;> rfl
    | delete name => exact delete_life b name distinct
  · rw [if_neg own, life, (change_concerns call).others b name own]
    rfl

end BindingCall

/-! What the calls answer. -/

section

variable (env : EnvironmentId) (m : Machine) (r : Realm) (b : Bindings) (outer : Option EnvironmentId)
  (found : r.heap.environments[env]? = some ⟨.declarative b, outer⟩)
include found

theorem with_same_heap (f : Bindings → Bindings) (same : f b = b) :
    r.withHeap (r.heap.modifyBindings env f) = r := by
  have unchanged : r.heap.modifyBindings env f = r.heap := by
    refine r.heap.bindings_unchanged env f fun b' found' => ?_
    rw [r.heap.bindings_of env b outer found] at found'
    cases found'
    exact same
  rw [unchanged]
  rfl

theorem create_mutable_at (name : String) (deletable : Bool) :
    (BindingCall.createMutable name deletable).run env m r =
      .ok .undefined (r.withHeap (r.heap.modifyBindings env fun b => b.createMutable name deletable)) := by
  rw [BindingCall.run, createBinding, bind_at, heap_at, r.heap.environment_of env _ found]
  rfl

/-- Only a strict write of a constant fails. -/
theorem set_at (name : String) (v : Value) (strict : Bool) : setBinding env name v strict m r =
    if strict && (b.life name).isConstant then
      .error (.thrown (.object r.heap.objects.size)) (r.withError .typeError s!"Assignment to constant variable '{name}'")
    else .ok () (r.withHeap (r.heap.modifyBindings env fun b => b.write name v)) := by
  have refused : (Dictionary.has b name && !b.canWrite name) = (b.life name).isConstant := by
    rw [Dictionary.has, Bindings.canWrite, Bindings.state?, Bindings.life]
    cases Dictionary.find? b name with
    | none => rfl
    | some binding =>
      obtain ⟨_, state⟩ := binding
      cases state <;> rfl
  rw [setBinding, heap_at, r.heap.environment_of env _ found]
  change ((if (strict && Dictionary.has b name && !b.canWrite name) = true then _ else _ : Run Unit) m
    (r.withHeap (r.heap.modifyBindings env fun b => b.write name v))) = _
  rw [Bool.and_assoc, refused]
  split
  · next fails =>
    have same := b.write_constant name v (Bool.and_eq_true_iff.mp fails).2
    rw [with_same_heap env r b outer found _ same, throwTypeError, throw_at]
  · rfl

/-- A name cannot be read before it is there, nor, in strict code, before it has a value. -/
theorem read_at (name : String) (strict : Bool) : getBinding env name strict m r =
    match b.life name with
    | .absent => .error (.thrown (.object r.heap.objects.size)) (r.withError .referenceError s!"{name} is not defined")
    | .holding v _ => .ok v r
    | .awaiting =>
      if strict then
        .error (.thrown (.object r.heap.objects.size)) (r.withError .referenceError s!"{name} is not initialized")
      else .ok .undefined r
    | .constant v => .ok v r := by
  rw [getBinding, heap_at, r.heap.environment_of env _ found]
  dsimp only
  rw [Bindings.life]
  cases Dictionary.find? b name with
  | none => exact throw_at m r .referenceError _
  | some binding =>
    obtain ⟨v, state⟩ := binding
    cases state with
    | uninitialized =>
      cases strict with
      | true =>
        change ((Run.throwError .referenceError _ >>= fun _ : PUnit => pure .undefined : Run Value) m r) = _
        rw [bind_at, throw_at]
        rfl
      | false => rfl
    | deletable | lasting | constant => rfl

theorem delete_at (name : String) : deleteBinding env name m r =
    .ok (!(b.life name).isLasting) (r.withHeap (r.heap.modifyBindings env fun b => b.delete name)) := by
  rw [deleteBinding, heap_at, r.heap.environment_of env _ found, ← Bindings.can_delete_life]
  rfl

/-- Whatever a call ends with, it has done to the environment what it does to the bindings. -/
theorem call_changes (call : BindingCall) :
    (endOf (call.run env m r)).heap.environments[env]? = some ⟨.declarative (call.change b), outer⟩ := by
  have changed (f : Bindings → Bindings) := r.heap.environment_modify_same env f b outer found
  cases call with
  | createMutable name deletable =>
    rw [create_mutable_at env m r b outer found]
    exact changed _
  | createConstant name | initialise name v | setDirect name v => exact changed _
  | set name v strict =>
    rw [BindingCall.run, bind_at, set_at env m r b outer found]
    by_cases fails : (strict && (b.life name).isConstant) = true
    · have same := b.write_constant name v (Bool.and_eq_true_iff.mp fails).2
      rw [if_pos fails, BindingCall.change, same]
      exact found
    · rw [if_neg fails]
      exact changed _
  | read name strict =>
    rw [BindingCall.run, read_at env m r b outer found]
    cases b.life name with
    | absent | holding v deletable | constant v => exact found
    | awaiting => cases strict <;> exact found
  | delete name =>
    rw [BindingCall.run, bind_at, delete_at env m r b outer found]
    exact changed _

end

/-- An operation throws a new error, which is all it leaves. -/
def Throws {α : Type} (kind : ErrorKind) (r : Realm) (result : EStateM.Result Interrupt Realm α) : Prop :=
  ∃ message, result = .error (.thrown (.object r.heap.objects.size)) (r.withError kind message)

/-- The answers to calls with a name that has come so far. -/
structure Life.Answers (env : EnvironmentId) (m : Machine) (r : Realm) (name : String) (life : Life) : Prop where
  /-- To create what is there changes nothing. -/
  create : ∀ call : BindingCall, call.creates = true → call.name = name → life ≠ .absent →
    call.run env m r = .ok .undefined r
  /-- A strict write fails exactly if there is a constant. -/
  strict : ∀ v, if life.isConstant then Throws .typeError r ((BindingCall.set name v true).run env m r)
    else ∃ s, (BindingCall.set name v true).run env m r = .ok .undefined s
  lenient : ∀ v, ∃ s, (BindingCall.set name v false).run env m r = .ok .undefined s
  direct : ∀ v, ∃ s, (BindingCall.setDirect name v).run env m r =
    .ok (.boolean (match life with | .holding _ _ => true | _ => false)) s
  /-- Reading fails exactly if there is nothing, or in strict code a constant without a value. -/
  unread : ∀ strict, life = .absent ∨ life = .awaiting ∧ strict = true ↔
    ∃ e s, (BindingCall.read name strict).run env m r = .error e s
  read : ∀ strict v, ((∃ deletable, life = .holding v deletable) ∨ life = .constant v) →
    (BindingCall.read name strict).run env m r = .ok v r
  await : life = .awaiting → (BindingCall.read name false).run env m r = .ok .undefined r
  delete : ∃ s, (BindingCall.delete name).run env m r = .ok (.boolean (!life.isLasting)) s

/-- How the calls lead a name from one point of its life to another. -/
structure Life.Leads (name : String) (calls : List BindingCall) (start finish : Life) : Prop where
  /-- Calls with other names make no difference. -/
  own : finish = (calls.filter fun call => call.name = name).foldl Life.after start
  stays : start.isLasting = true → finish.isLasting = true
  /-- The first initialisation counts, and no other change. -/
  awaiting : start = .awaiting →
    finish = ((calls.findSome? (BindingCall.initial? name)).map Life.constant).getD .awaiting
  constant : ∀ v, start = .constant v → finish = .constant v
  /-- The last write counts. -/
  holding : ∀ v deletable, start = .holding v deletable → (deletable = true → BindingCall.delete name ∉ calls) →
    finish = .holding ((calls.filterMap (BindingCall.written? name)).getLastD v) deletable

/-! Runs of calls. -/

namespace Life

/-- What becomes of a name by any call. -/
def next (name : String) (life : Life) (call : BindingCall) : Life :=
  if call.name = name then life.after call else life

section

variable (name : String) (calls : List BindingCall)

theorem own_history (life : Life) :
    calls.foldl (next name) life = (calls.filter fun call => call.name = name).foldl after life := by
  induction calls generalizing life with
  | nil => rfl
  | cons call rest hyp =>
    rw [List.foldl_cons, hyp, next, List.filter_cons]
    by_cases own : call.name = name
    · rw [if_pos own, if_pos (decide_eq_true own), List.foldl_cons]
    · rw [if_neg own, if_neg (mt of_decide_eq_true own)]

theorem after_lasting (life : Life) (call : BindingCall) (lasting : life.isLasting = true) :
    (life.after call).isLasting = true := by
  cases life with
  | absent => cases lasting
  | holding v deletable =>
    cases deletable with
    | true => cases lasting
    | false => cases call <;> rfl
  | awaiting | constant v => cases call <;> rfl

theorem lasting_stays (life : Life) (lasting : life.isLasting = true) :
    (calls.foldl (next name) life).isLasting = true := by
  induction calls generalizing life with
  | nil => exact lasting
  | cons call rest hyp =>
    refine hyp _ ?_
    rw [next]
    split
    · exact after_lasting life call lasting
    · exact lasting

theorem constant_stays (v : Value) : calls.foldl (next name) (.constant v) = .constant v := by
  induction calls with
  | nil => rfl
  | cons call rest hyp =>
    have same : next name (.constant v) call = .constant v := by
      rw [next]
      cases call <;> exact ite_self _
    rw [List.foldl_cons, same, hyp]

theorem awaiting_ends : calls.foldl (next name) .awaiting =
    ((calls.findSome? (BindingCall.initial? name)).map Life.constant).getD .awaiting := by
  induction calls with
  | nil => rfl
  | cons call rest hyp =>
    rw [List.foldl_cons, List.findSome?_cons]
    have step : next name .awaiting call = ((call.initial? name).map Life.constant).getD .awaiting := by
      rw [next]
      cases call with
      | initialise other v =>
        rw [BindingCall.name, BindingCall.initial?]
        split <;> rfl
      | _ => exact ite_self _
    rw [step]
    cases call.initial? name with
    | none => exact hyp
    | some v => exact constant_stays name rest v

theorem holding_ends (v : Value) (deletable : Bool) (kept : deletable = true → BindingCall.delete name ∉ calls) :
    calls.foldl (next name) (.holding v deletable) =
      .holding ((calls.filterMap (BindingCall.written? name)).getLastD v) deletable := by
  induction calls generalizing v with
  | nil => rfl
  | cons call rest hyp =>
    have step : next name (.holding v deletable) call =
        .holding ((call.written? name).getD v) deletable := by
      rw [next]
      cases call with
      | set other w strict | setDirect other w =>
        rw [BindingCall.name, BindingCall.written?]
        split <;> rfl
      | delete other =>
        rw [BindingCall.name]
        split
        · next same =>
          subst same
          cases deletable with
          | true => exact absurd List.mem_cons_self (kept rfl)
          | false => rfl
        · rfl
      | _ => exact ite_self _
    rw [List.foldl_cons, step, hyp _ fun yes member => kept yes (List.mem_cons_of_mem _ member), List.filterMap_cons]
    cases call.written? name with
    | none => rfl
    | some w => rw [Option.getD_some, List.getLastD_cons]

/-- Where the calls lead is told by the calls. -/
theorem leads (life : Life) : life.Leads name calls (calls.foldl (next name) life) where
  own := own_history name calls life
  stays := lasting_stays name calls life
  awaiting is := is ▸ awaiting_ends name calls
  constant v is := is ▸ constant_stays name calls v
  holding v deletable is kept := is ▸ holding_ends name calls v deletable kept

end

end Life

section

variable (env : EnvironmentId) (m : Machine) (outer : Option EnvironmentId)

theorem calls_change (calls : List BindingCall) (r : Realm) (b : Bindings)
    (found : r.heap.environments[env]? = some ⟨.declarative b, outer⟩) (distinct : (Dictionary.keys b).Nodup) :
    ∃ b', (r.afterCalls env m calls).heap.environments[env]? = some ⟨.declarative b', outer⟩ ∧
      (Dictionary.keys b').Nodup ∧ ∀ name, b'.life name = calls.foldl (Life.next name) (b.life name) := by
  induction calls generalizing r b with
  | nil => exact ⟨b, found, distinct, fun _ => rfl⟩
  | cons call rest hyp =>
    obtain ⟨b', found', distinct', lives⟩ := hyp _ _ (call_changes env m r b outer found call)
      (call.change_distinct b distinct)
    refine ⟨b', found', distinct', fun name => ?_⟩
    rw [lives name, call.change_life b distinct name]
    rfl

-- A name that is there stays as it is.
theorem create_known (b : Bindings) (name : String) (state : BindingState) (there : b.life name ≠ .absent) :
    b.create name state = b := by
  rw [Bindings.create, if_pos]
  rw [Dictionary.has, Option.isSome_iff_ne_none]
  intro absent
  rw [Bindings.life, absent] at there
  exact there rfl

theorem can_write_life (b : Bindings) (name : String) :
    b.canWrite name = match b.life name with | .holding _ _ => true | _ => false := by
  rw [Bindings.canWrite, Bindings.state?, Bindings.life]
  cases Dictionary.find? b name with
  | none => rfl
  | some binding =>
    obtain ⟨_, state⟩ := binding
    cases state <;> rfl

/-- Every call is answered by the life of its name. -/
theorem life_answers (r : Realm) (b : Bindings)
    (found : r.heap.environments[env]? = some ⟨.declarative b, outer⟩) (name : String) :
    (b.life name).Answers env m r name where
  create call creates named there := by
    subst named
    cases call with
    | createMutable name deletable =>
      rw [create_mutable_at env m r b outer found, with_same_heap env r b outer found]
      exact create_known b name _ there
    | createConstant name =>
      change EStateM.Result.ok Value.undefined (r.withHeap (r.heap.modifyBindings env fun b => b.createConstant name)) = _
      rw [with_same_heap env r b outer found]
      exact create_known b name _ there
    | _ => cases creates
  strict v := by
    rw [BindingCall.run, bind_at, set_at env m r b outer found, Bool.true_and]
    cases (b.life name).isConstant with
    | true => exact ⟨_, rfl⟩
    | false => exact ⟨_, rfl⟩
  lenient v := by
    rw [BindingCall.run, bind_at, set_at env m r b outer found]
    exact ⟨_, rfl⟩
  direct v := by
    refine ⟨r.withHeap (r.heap.modifyBindings env fun b => b.write name v), ?_⟩
    rw [← can_write_life, BindingCall.run, heap_at, r.heap.bindings_of env b outer found]
    rfl
  unread strict := by
    rw [BindingCall.run, read_at env m r b outer found]
    cases b.life name <;> cases strict <;> simp
  read strict v is := by
    rw [BindingCall.run, read_at env m r b outer found]
    rcases is with ⟨deletable, is⟩ | is <;> rw [is]
  await is := by
    rw [BindingCall.run, read_at env m r b outer found, is]
    rfl
  delete := by
    rw [BindingCall.run, bind_at, delete_at env m r b outer found]
    exact ⟨_, rfl⟩

end

/-- Whatever calls are made on a declarative environment, in any order and with any of them failing, each name
lives its own life: it is where the calls with that name lead, and it answers by how far it has come. -/
theorem bindings_live (env : EnvironmentId) (m : Machine) (r : Realm) (b : Bindings) (outer : Option EnvironmentId)
    (calls : List BindingCall) (found : r.heap.environments[env]? = some ⟨.declarative b, outer⟩)
    (distinct : (Dictionary.keys b).Nodup) :
    ∃ b', (r.afterCalls env m calls).heap.environments[env]? = some ⟨.declarative b', outer⟩ ∧
      (Dictionary.keys b').Nodup ∧
      ∀ name, (b.life name).Leads name calls (b'.life name) ∧
        (b'.life name).Answers env m (r.afterCalls env m calls) name := by
  obtain ⟨b', found', distinct', lives⟩ := calls_change env m outer calls r b found distinct
  refine ⟨b', found', distinct', fun name => ⟨?_, life_answers env m outer _ b' found' name⟩⟩
  rw [lives name]
  exact Life.leads name calls (b.life name)

/-- A constant that is created twice, initialised twice and written. -/
theorem bindings_live_constant :
    let calls : List BindingCall :=
      [.createConstant "f", .createMutable "f" true, .set "f" .null false, .initialise "f" (.boolean true),
        .initialise "f" .null, .delete "f"]
    let r : Realm := { heap := { environments := #[⟨.declarative [], none⟩] }, config := {} }
    ∃ b' : Bindings, (r.afterCalls 0 ⟨0, .resolved, fun _ => throw .exhausted⟩ calls).heap.environments[0]? =
        some ⟨.declarative b', none⟩ ∧
      (Dictionary.keys b').Nodup ∧
      ∀ name, (Bindings.life [] name).Leads name calls (b'.life name) ∧
        (b'.life name).Answers 0 ⟨0, .resolved, fun _ => throw .exhausted⟩
          (r.afterCalls 0 ⟨0, .resolved, fun _ => throw .exhausted⟩ calls) name :=
  bindings_live 0 _ _ [] none _ rfl List.nodup_nil

end Ecma
