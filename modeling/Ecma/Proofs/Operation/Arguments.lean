import Ecma.Builtin.Object
import Ecma.Proofs.Eval.Arguments
import Ecma.Proofs.Operation.Native
import Ecma.Proofs.Run.Course

set_option autoImplicit false

/-!
What running code does with an arguments object and the parameters of its call: each way to write, define,
delete or lock its properties comes down to a few operations, and so does an assignment to a parameter.
-/

namespace Ecma.Call

open Ecma.Program Run

variable (c : Call)

/-- An operation, if it is accepted. -/
def accepted (h : Heap) (op : Deed) : List Deed :=
  if (c.perform h op).1 then [op] else []

/-- The definitions that lock the properties under some keys. -/
def locking (h : Heap) (readOnly : Bool) (keys : List PropertyKey) : List Deed :=
  keys.filterMap fun key => (h.own? c.object key).map fun d => .define key (lockDefinition d readOnly)

/-- Where a parameter is read and written. -/
def place (name : String) (strict : Bool) : Place :=
  match Header.slot? c.header name with
  | some index => .slot index
  | none => .reference ⟨.environment c.env, name, strict⟩

-- A run whose changes are those operations, and that ends with a value or an error that scripts can catch.
structure Performs {α : Type} (m : Machine) (r : Realm) (done : List Deed) (x : Run α) : Prop where
  history : c.History r.heap done (endOf (x m r)).heap
  quiet : signalOf (x m r) = none

section

variable (h : Heap) (standing : c.Standing h)

theorem history_perform (op : Deed) : c.History h (c.accepted h op) (c.perform h op).2 := by
  rw [accepted]
  by_cases accepts : (c.perform h op).1 = true
  · rw [if_pos accepts]
    exact .accepted h _ op [] accepts (.nil _)
  · rw [if_neg accepts]
    exact .rejected h _ op [] (eq_false_of_ne_true accepts) (.nil _)

include standing in
-- A new object is none of the call's.
theorem beside_object (o : Object) : c.Beside h (h.addObject o).2 := by
  have known := h.known_arguments c.object standing.aliasing
  refine ⟨?_, fun name _ => Heap.same_read h _ _ ⟨rfl, rfl⟩, fun name _ live => Heap.same_live h _ _ ⟨rfl, rfl⟩ live⟩
  rw [Heap.object_add, if_neg fun same => Nat.lt_irrefl _ (same ▸ known)]

end

/-! Definitions and deletions. -/

section

variable (m : Machine) (r : Realm) (standing : c.Standing r.heap)

include standing

-- A refusal may be an error, and its object is new.
theorem performs_throw {α : Type} (done : List Deed) (h : Heap) (history : c.History r.heap done h)
    (kind : ErrorKind) (message : String) (x : Run α)
    (is : x m r = (Run.throwError kind message : Run α) m (r.withHeap h)) : c.Performs m r done x := by
  have after := history_standing c _ h done history standing
  have new : c.History h [] ((r.withHeap h).withError kind message).heap :=
    .beside h _ _ [] (beside_object c h after _) (.nil _)
  rw [throw_at] at is
  refine ⟨?_, ?_⟩
  · rw [is, ← done.append_nil]
    exact history_append c _ _ _ done [] history new
  · rw [is]
    rfl

omit standing in
theorem performs_ok {α : Type} (done : List Deed) (h : Heap) (history : c.History r.heap done h) (a : α)
    (x : Run α) (is : x m r = .ok a (r.withHeap h)) : c.Performs m r done x := by
  refine ⟨?_, ?_⟩
  · rw [is]
    exact history
  · rw [is]
    rfl

omit standing in
theorem performs_discard {α : Type} (done : List Deed) (x : Run α) (performs : c.Performs m r done x) :
    c.Performs m r done (discard x) := by
  obtain ⟨history, quiet⟩ := performs
  have ends : endOf ((discard x : Run PUnit) m r) = endOf (x m r) ∧
      signalOf ((discard x : Run PUnit) m r) = signalOf (x m r) := by
    change endOf (EStateM.map _ (x m) r) = _ ∧ signalOf (EStateM.map _ (x m) r) = _
    rw [EStateM.map]
    cases x m r with
    | ok a s => exact ⟨rfl, rfl⟩
    | error e s => cases e <;> exact ⟨rfl, rfl⟩
  refine ⟨?_, ?_⟩
  · rw [ends.1]
    exact history
  · rw [ends.2]
    exact quiet

theorem define_own_at (key : PropertyKey) (d : Definition) (throws : Bool) :
    defineOwn c.object key d throws m r =
      accept key throws (c.perform r.heap (.define key d)).1 m (r.withHeap (c.perform r.heap (.define key d)).2) := by
  obtain ⟨mapped, kind⟩ := standing.aliasing.arguments
  have other : r.heap.isArray c.object = false := by
    rw [Heap.isArray, kind]
  rw [define_own_is, heap_at, other]
  rfl

theorem define_performs (key : PropertyKey) (d : Definition) (throws : Bool) :
    c.Performs m r (c.accepted r.heap (.define key d)) (defineOwn c.object key d throws) := by
  have history := history_perform c r.heap (.define key d)
  have is := define_own_at c m r standing key d throws
  generalize c.perform r.heap (.define key d) = result at history is
  obtain ⟨accepts, h⟩ := result
  by_cases refuses : (!accepts && throws) = true
  · refine performs_throw c m r standing _ h history .typeError s!"Cannot redefine property: {key.text}" _ (is.trans ?_)
    rw [accept, if_pos refuses]
    rfl
  · refine performs_ok c m r _ h history accepts _ (is.trans ?_)
    rw [accept, if_neg refuses]
    rfl

theorem delete_performs (key : PropertyKey) (throws : Bool) :
    c.Performs m r (c.accepted r.heap (.delete key)) (deleteOwn c.object key throws) := by
  have history := history_perform c r.heap (.delete key)
  have is : deleteOwn c.object key throws m r = (do
      if !(c.perform r.heap (.delete key)).1 && throws then throwTypeError s!"Cannot delete property '{key.text}'"
      return (c.perform r.heap (.delete key)).1 : Run Bool) m (r.withHeap (c.perform r.heap (.delete key)).2) := by
    rfl
  generalize c.perform r.heap (.delete key) = result at history is
  obtain ⟨accepts, h⟩ := result
  by_cases refuses : (!accepts && throws) = true
  · refine performs_throw c m r standing _ h history .typeError s!"Cannot delete property '{key.text}'" _ (is.trans ?_)
    rw [if_pos refuses]
    rfl
  · refine performs_ok c m r _ h history accepts _ (is.trans ?_)
    rw [if_neg refuses]
    rfl

/-! Writes. -/

omit standing in
theorem performs_same {α : Type} (done : List Deed) (x y : Run α) (same : y m r = x m r)
    (performs : c.Performs m r done x) : c.Performs m r done y := by
  refine ⟨?_, ?_⟩
  · rw [same]
    exact performs.history
  · rw [same]
    exact performs.quiet

theorem put_replaces (key : PropertyKey) (v : Value) (throws : Bool) (way : route r.heap c.object key = .replace) :
    c.Performs m r (c.accepted r.heap (.define key (.ofValue v))) (put c.object key v throws) := by
  refine performs_same c m r _ _ _ ?_ (performs_discard c m r _ _ (define_performs c m r standing key _ throws))
  rw [put, heap_at, way]

theorem put_adds (key : PropertyKey) (v : Value) (throws : Bool) (way : route r.heap c.object key = .add) :
    c.Performs m r (c.accepted r.heap (.define key (.ofDescriptor (.free v)))) (put c.object key v throws) := by
  refine performs_same c m r _ _ _ ?_ (performs_discard c m r _ _ (define_performs c m r standing key _ throws))
  rw [put, heap_at, way]

theorem put_refuses (key : PropertyKey) (v : Value) (throws : Bool) (way : route r.heap c.object key = .refuse) :
    c.Performs m r [] (put c.object key v throws) := by
  cases throws with
  | false =>
    refine performs_ok c m r [] r.heap (.nil _) () _ ?_
    rw [put, heap_at, way]
    rfl
  | true =>
    refine performs_throw c m r standing [] r.heap (.nil _) .typeError
      s!"Cannot assign to read only property '{key.text}'" _ ?_
    rw [put, heap_at, way]
    rfl

omit standing in
theorem put_calls (key : PropertyKey) (v : Value) (throws : Bool) (setter : ObjectId)
    (way : route r.heap c.object key = .callSetter setter) :
    put c.object key v throws m r = (discard <| call (.object setter) (.object c.object) [v] : Run Unit) m r := by
  rw [put, heap_at, way]

-- A write to an element that stands for a parameter replaces its value.
theorem put_mapped (i : Nat) (name : String) (stands : c.Stands r.heap i name) :
    route r.heap c.object (.index i) = .replace := by
  obtain ⟨e, f, own⟩ := r.heap.mapped_own c.object standing.aliasing i _ stands
  rw [route, own]

end

/-! Locking. -/

theorem lock_is_data (d : Descriptor) (readOnly : Bool) : ((lockDefinition d readOnly).apply d).isData = d.isData := by
  cases d with
  | data v w e f =>
    simp [lockDefinition, Definition.apply, Definition.reshape, Definition.isAccessor, Descriptor.isData]
  | accessor g s e f =>
    simp [lockDefinition, Definition.apply, Definition.reshape, Definition.isData, Descriptor.isData]

theorem lock_may_change (d : Descriptor) (readOnly : Bool) : (lockDefinition d readOnly).mayChange d = true := by
  cases d with
  | data v w e f =>
    cases readOnly <;> simp [lockDefinition, Definition.mayChange, Definition.isGeneric, Definition.isData,
      Definition.isAccessor, Definition.agrees, Descriptor.isData]
  | accessor g s e f =>
    simp [lockDefinition, Definition.mayChange, Definition.isGeneric, Definition.isData, Definition.isAccessor,
      Definition.agrees, Descriptor.isData]

-- What locks a property depends on its kind only.
theorem lock_same (d e : Descriptor) (readOnly : Bool) (same : d.isData = e.isData) :
    lockDefinition d readOnly = lockDefinition e readOnly := by
  rw [lockDefinition, lockDefinition, same]

section

variable (h : Heap) (standing : c.Standing h) (key : PropertyKey) (d : Descriptor)
  (there : h.own? c.object key = some d) (readOnly : Bool)
include standing there

theorem lock_accepted : (c.perform h (.define key (lockDefinition d readOnly))).1 = true := by
  rcases h.define_cases c.object standing.aliasing key (lockDefinition d readOnly) with
    ⟨_, is⟩ | ⟨i, a, e, rfl, mapped, _⟩
  · rw [perform, is]
    exact h.ordinary_accepted c.object key _ d there (lock_may_change d readOnly)
  · exact h.define_accepted c.object standing.aliasing i a mapped (lockDefinition d readOnly) rfl rfl
      fun same => Bool.noConfusion (Option.some.inj same)

omit there in
-- Locking one property leaves the others as they are, and this one a value or a pair of functions as it was.
theorem lock_other (other : PropertyKey) (distinct : key ≠ other) :
    (c.perform h (.define key (lockDefinition d readOnly))).2.own? c.object other = h.own? c.object other := by
  have after := perform_aliasing c h standing (.define key (lockDefinition d readOnly))
  have alias' : (c.perform h (.define key (lockDefinition d readOnly))).2.alias? c.object other =
      h.alias? c.object other := by
    cases other with
    | name s => rw [Heap.alias_name, Heap.alias_name]
    | index j =>
      exact (h.define_alias c.object standing.aliasing key _ j).trans (if_neg fun all => distinct all.2.1)
  have reads (a : Alias) : (c.perform h (.define key (lockDefinition d readOnly))).2.readAlias a = h.readAlias a := by
    refine (h.define_read c.object standing.aliasing key _ a).trans ?_
    split <;> rfl
  rw [Heap.own_argument _ c.object after, h.own_argument c.object standing.aliasing, alias']
  have found := h.define_other c.object standing.aliasing key other (lockDefinition d readOnly) distinct
  rw [perform] at reads ⊢
  rw [found]
  cases h.alias? c.object other with
  | none => rfl
  | some a =>
    dsimp only
    rw [reads]

theorem lock_itself :
    ∃ e, (c.perform h (.define key (lockDefinition d readOnly))).2.own? c.object key = some e ∧
      e.isData = d.isData := by
  have accepts := lock_accepted c h standing key d there readOnly
  cases mapped : h.alias? c.object key with
  | some a =>
    cases key with
    | name s =>
      rw [Heap.alias_name] at mapped
      cases mapped
    | index i =>
      obtain ⟨name, _, rfl⟩ := standing.paired i a mapped
      obtain ⟨_, e, f, own⟩ := standing_defined c h standing i name _ mapped rfl accepts
      obtain ⟨e', f', own'⟩ := h.mapped_own c.object standing.aliasing i _ mapped
      cases own'.symm.trans there
      exact ⟨_, own, rfl⟩
  | none =>
    have after := perform_aliasing c h standing (.define key (lockDefinition d readOnly))
    have still : (c.perform h (.define key (lockDefinition d readOnly))).2.alias? c.object key = none := by
      cases key with
      | name s => exact Heap.alias_name _ _ _
      | index i =>
        refine (h.define_alias c.object standing.aliasing (.index i) _ i).trans ?_
        rw [mapped]
        exact ite_self _
    have stored : (h.object c.object).properties.find? key = some d := by
      rw [← h.own_unmapped c.object standing.aliasing key mapped]
      exact there
    have is : c.perform h (.define key (lockDefinition d readOnly)) =
        h.defineOrdinary c.object key (lockDefinition d readOnly) := by
      rcases h.define_cases c.object standing.aliasing key (lockDefinition d readOnly) with
        ⟨_, is⟩ | ⟨i, a, _, rfl, mapped', _⟩
      · exact is
      · rw [mapped] at mapped'
        cases mapped'
    rw [Heap.own_unmapped _ c.object after key still, is]
    rw [is] at accepts
    rcases h.define_ordinary_is c.object key (lockDefinition d readOnly) with
      ⟨absent, _⟩ | ⟨_, _, _, _, changed⟩ | kept | rejected
    · rw [there] at absent
      cases absent
    · refine ⟨(lockDefinition d readOnly).apply d, ?_, lock_is_data d readOnly⟩
      rw [changed, Heap.modify_properties_object,
        if_pos ⟨rfl, h.known_arguments c.object standing.aliasing⟩, PropertyTable.find_modify, if_pos rfl, stored]
      rfl
    · rw [kept]
      exact ⟨d, stored, rfl⟩
    · rw [rejected] at accepts
      cases accepts

end

-- Locking some properties, seen from an earlier heap whose properties were of the same kinds.
theorem lock_keys_at (m : Machine) (readOnly : Bool) (h : Heap) (keys : List PropertyKey) (r : Realm)
    (standing : c.Standing r.heap)
    (kinds : ∀ key, (r.heap.own? c.object key).map Descriptor.isData = (h.own? c.object key).map Descriptor.isData) :
    ∃ k, lockKeys c.object readOnly keys m r = .ok () (r.withHeap k) ∧
      c.History r.heap (c.locking h readOnly keys) k := by
  induction keys generalizing r with
  | nil => exact ⟨r.heap, rfl, .nil _⟩
  | cons key rest hyp =>
    cases there : r.heap.own? c.object key with
    | none =>
      have none' : h.own? c.object key = none := by
        have same := kinds key
        rw [there] at same
        exact Option.map_eq_none_iff.mp same.symm
      obtain ⟨k, is, history⟩ := hyp r standing kinds
      refine ⟨k, ?_, ?_⟩
      · rw [lockKeys, heap_at, there]
        exact is
      · rw [locking, List.filterMap_cons, none']
        exact history
    | some d =>
      have same := kinds key
      rw [there] at same
      obtain ⟨e, before, kind⟩ := Option.map_eq_some_iff.mp same.symm
      have accepts := lock_accepted c r.heap standing key d there readOnly
      have standing' := perform_standing c r.heap standing (.define key (lockDefinition d readOnly))
      obtain ⟨k, is, history⟩ := hyp (r.withHeap (c.perform r.heap (.define key (lockDefinition d readOnly))).2)
        standing' fun other => by
          by_cases here : key = other
          · subst here
            obtain ⟨e', own, kind'⟩ := lock_itself c r.heap standing key d there readOnly
            rw [Realm.withHeap, own, before, Option.map_some, Option.map_some, kind, kind']
          · rw [Realm.withHeap, lock_other c r.heap standing key d readOnly other here]
            exact kinds other
      refine ⟨k, ?_, ?_⟩
      · have defined := define_own_at c m r standing key (lockDefinition d readOnly) true
        rw [accepts] at defined
        rw [lockKeys, heap_at, there]
        dsimp only
        rw [bind_at, discard_ok _ m r _ true defined]
        exact is
      · rw [locking, List.filterMap_cons, before, Option.map_some, lock_same e d readOnly kind]
        exact .accepted _ _ _ _ accepts history

theorem lock_performs (m : Machine) (r : Realm) (standing : c.Standing r.heap) (readOnly : Bool) :
    c.Performs m r (c.locking r.heap readOnly (r.heap.ownKeys c.object) ++ [.close]) (lock c.object readOnly) := by
  obtain ⟨k, is, history⟩ :=
    lock_keys_at c m readOnly r.heap (r.heap.ownKeys c.object) r standing fun _ => rfl
  have closed : c.History k [.close] (k.preventExtensions c.object) := .accepted k _ .close [] rfl (.nil _)
  refine performs_ok c m r _ _ (history_append c _ _ _ _ _ history closed) () _ ?_
  rw [lock, heap_at, bind_at, is]
  rfl

/-! Parameters. -/

-- A parameter is read and written where it lives.
theorem place_at (m : Machine) (r : Realm) (standing : c.Standing r.heap) (name : String)
    (member : name ∈ c.header.params) (inside : r.running.frame = c.frame) (strict : Bool) :
    (c.place name strict).read m r = .ok (c.value r.heap name) r ∧
      ∀ v, (c.place name strict).write v strict m r = .ok () (r.withHeap (c.perform r.heap (.assign name v)).2) := by
  have live := standing.live name member
  change (c.place name strict).read m r = .ok (r.heap.readAlias (c.location name)) r ∧
    ∀ v, (c.place name strict).write v strict m r = .ok () (r.withHeap (r.heap.writeAlias (c.location name) v))
  rw [location, aliasOf] at live ⊢
  rw [place]
  cases slot : Header.slot? c.header name with
  | some index =>
    rw [← inside]
    exact ⟨rfl, fun v => rfl⟩
  | none =>
    rw [slot] at live
    obtain ⟨b, found, writable⟩ := live
    obtain ⟨all, record, there⟩ := r.heap.binding_record c.env name b found
    refine ⟨?_, fun v => ?_⟩
    · have known : ¬ b.state = .uninitialized := fun same => by
        rw [same] at writable
        cases writable
      change getBinding c.env name strict m r = _
      rw [getBinding, heap_at, record]
      dsimp only
      rw [there, Heap.read_binding, found]
      dsimp only
      rw [if_neg known]
      rfl
    · have takes : Bindings.canWrite all name = true := by
        rw [Bindings.canWrite, Bindings.state?, there]
        exact writable
      change setBinding c.env name v strict m r = _
      rw [setBinding, heap_at, record]
      dsimp only
      rw [takes, Bool.not_true, Bool.and_false]
      rfl

/-! All of it together. -/

-- What running code does to the arguments object and to the parameters, as operations.
structure Driven (m : Machine) (r : Realm) : Prop where
  defines : ∀ key d throws, c.Performs m r (c.accepted r.heap (.define key d)) (defineOwn c.object key d throws)
  deletes : ∀ key throws, c.Performs m r (c.accepted r.heap (.delete key)) (deleteOwn c.object key throws)
  -- A write replaces a value, adds a property, is refused, or is a call of a setter and nothing else.
  replaces : ∀ key v throws, route r.heap c.object key = .replace →
    c.Performs m r (c.accepted r.heap (.define key (.ofValue v))) (put c.object key v throws)
  adds : ∀ key v throws, route r.heap c.object key = .add →
    c.Performs m r (c.accepted r.heap (.define key (.ofDescriptor (.free v)))) (put c.object key v throws)
  refuses : ∀ key v throws, route r.heap c.object key = .refuse → c.Performs m r [] (put c.object key v throws)
  calls : ∀ key v throws setter, route r.heap c.object key = .callSetter setter →
    put c.object key v throws m r = (discard <| call (.object setter) (.object c.object) [v] : Run Unit) m r
  mapped : ∀ i name, c.Stands r.heap i name → route r.heap c.object (.index i) = .replace
  -- Sealing and freezing lock each property, and then the object.
  locks : ∀ readOnly, c.Performs m r (c.locking r.heap readOnly (r.heap.ownKeys c.object) ++ [.close])
    (lock c.object readOnly)
  parameters : ∀ name ∈ c.header.params, r.running.frame = c.frame → ∀ strict,
    (c.place name strict).read m r = .ok (c.value r.heap name) r ∧
      ∀ v, (c.place name strict).write v strict m r = .ok () (r.withHeap (c.perform r.heap (.assign name v)).2)

theorem standing_driven (m : Machine) (r : Realm) (standing : c.Standing r.heap) : c.Driven m r where
  defines := define_performs c m r standing
  deletes := delete_performs c m r standing
  replaces := put_replaces c m r standing
  adds := put_adds c m r standing
  refuses := put_refuses c m r standing
  calls := put_calls c m r
  mapped := put_mapped c r standing
  locks := lock_performs c m r standing
  parameters := fun name member inside strict => place_at c m r standing name member inside strict

end Ecma.Call
