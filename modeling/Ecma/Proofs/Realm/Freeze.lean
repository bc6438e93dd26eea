import Ecma.Proofs.Heap.Freeze
import Ecma.Proofs.Operation.Array
import Ecma.Proofs.Realm.Lock

set_option autoImplicit false

/-!
`Object.freeze` and `Object.seal`. They lock an object of any kind without running code, and what they have locked
stays so. The one exception is the number of captured lines that the constructor `Error` holds.
-/

namespace Ecma

open Run

section

variable (o : ObjectId) (readOnly : Bool)

theorem lock_property_run (r : Realm) (known : o < r.heap.objects.size) (sound : r.heap.Sound)
    (spanned : r.heap.Spanned o) (key : PropertyKey) (d : Descriptor) (there : r.heap.own? o key = some d) :
    ∃ k, (∀ m, defineOwn o key (lockDefinition d readOnly) true m r = .ok true (r.withHeap k)) ∧
      r.heap.Locks k o readOnly (· = key) ∧ r.heap.Evolves k := by
  obtain ⟨k, defined, locks⟩ := r.heap.lock_property o known (sound.writable o) spanned key d there readOnly
  have edit := Heap.Edit.define r.heap o key (lockDefinition d readOnly) (lock_one_kind d readOnly) fun _ _ => .inl rfl
  rw [defined] at edit
  refine ⟨k, fun m => ?_, locks, r.heap.edit_evolves k edit sound⟩
  rw [define_own_ends m r o key _ true (.inr (.inr rfl)), defined]
  rfl

theorem lock_keys_run (keys : List PropertyKey) (r : Realm) (known : o < r.heap.objects.size) (sound : r.heap.Sound)
    (spanned : r.heap.Spanned o) :
    ∃ k, (∀ m, lockKeys o readOnly keys m r = .ok () (r.withHeap k)) ∧ r.heap.Locks k o readOnly (· ∈ keys) ∧
      r.heap.Evolves k := by
  induction keys generalizing r with
  | nil =>
    refine ⟨r.heap, fun _ => rfl, ?_, r.heap.evolves_refl sound⟩
    exact r.heap.locks_absent o readOnly _ (sound.writable o) fun key member => absurd member List.not_mem_nil
  | cons key rest hyp =>
    have more (k l : Heap) (first : r.heap.Locks k o readOnly (· = key)) (second : k.Locks l o readOnly (· ∈ rest)) :
        r.heap.Locks l o readOnly (· ∈ key :: rest) := by
      simpa only [List.mem_cons] using r.heap.locks_trans k l o readOnly _ _ first second
    cases there : r.heap.own? o key with
    | none =>
      obtain ⟨l, is, locks, evolves⟩ := hyp r known sound spanned
      refine ⟨l, fun m => ?_, more r.heap l ?_ locks, evolves⟩
      · rw [lockKeys, heap_at, there]
        exact is m
      · exact r.heap.locks_absent o readOnly _ (sound.writable o) fun _ same => same ▸ there
    | some d =>
      obtain ⟨k, defined, first, evolves⟩ := lock_property_run o readOnly r known sound spanned key d there
      obtain ⟨l, is, second, evolves'⟩ := hyp (r.withHeap k) (first.size ▸ known) evolves.sound
        (r.heap.locks_spanned k o readOnly _ first spanned)
      refine ⟨l, fun m => ?_, more k l first second, r.heap.evolves_trans k l evolves evolves'⟩
      rw [lockKeys, heap_at, there]
      dsimp only
      rw [bind_at, discard_ok _ m r _ true (defined m)]
      exact is m

end

/-- An object that has been locked whole. -/
structure Heap.LocksAll (h k : Heap) (o : ObjectId) (readOnly : Bool) : Prop where
  own : ∀ key, k.own? o key = (h.own? o key).map (.locked readOnly)
  ownKeys : k.ownKeys o = h.ownKeys o
  elsewhere : ∀ other, other ≠ o → k.object other = h.object other
  prototype : (k.object o).prototype = (h.object o).prototype
  closed : (k.object o).extensible = false
  kind : k.kind o = h.kind o ∨ ∃ mapped mapped', h.kind o = .arguments mapped ∧ k.kind o = .arguments mapped'
  stores : h.SameStores k
  isSealed : k.isSealed o = true
  isFrozen : readOnly = true → k.isFrozen o = true

section

variable (o : ObjectId) (readOnly : Bool) (r : Realm) (known : o < r.heap.objects.size)
  (sound : r.heap.Sound) (spanned : r.heap.Spanned o)
include known sound spanned

theorem lock_run : ∃ k, (∀ m, lock o readOnly m r = .ok () (r.withHeap k)) ∧ r.heap.LocksAll k o readOnly ∧
    r.heap.Evolves k ∧ k.Spanned o ∧ o < k.objects.size := by
  obtain ⟨k, is, locks, evolves⟩ := lock_keys_run o readOnly (r.heap.ownKeys o) r known sound spanned
  have known' : o < k.objects.size := locks.size ▸ known
  have object := k.close_object_is o known'
  have own (key : PropertyKey) : (k.preventExtensions o).own? o key = (r.heap.own? o key).map (.locked readOnly) := by
    rw [k.close_own o known']
    by_cases member : key ∈ r.heap.ownKeys o
    · exact locks.own key member
    · have absent : r.heap.own? o key = none :=
        Option.not_isSome_iff_eq_none.mp (mt (r.heap.mem_own_keys o key).mpr member)
      rw [locks.others key member, absent]
      rfl
  have all (locked : Descriptor → Bool) (each : ∀ d : Descriptor, locked (d.locked readOnly) = true) :
      (k.preventExtensions o).isLocked o locked = true := by
    rw [Heap.isLocked, object, Bool.not_false, Bool.true_and, List.all_eq_true]
    intro d member
    obtain ⟨key, _, there⟩ := List.mem_filterMap.mp member
    rw [own] at there
    obtain ⟨old, _, rfl⟩ := Option.map_eq_some_iff.mp there
    exact each old
  have spanned' := r.heap.locks_spanned k o readOnly _ locks spanned
  refine ⟨k.preventExtensions o, fun m => ?_, ⟨own, ?_, fun other distinct => ?_, ?_, by rw [object], ?_, locks.stores, ?_, ?_⟩,
    r.heap.evolves_trans _ _ evolves (k.edit_evolves _ (.close k o) evolves.sound), ?_, ?_⟩
  · rw [lock, heap_at, bind_at, is m]
    rfl
  · rw [k.close_own_keys o known', locks.ownKeys]
  · rw [Heap.preventExtensions, Heap.object_modify, if_neg fun both => distinct both.1.symm]
    exact locks.elsewhere other distinct
  · rw [object]
    exact locks.prototype
  · rw [Heap.kind, object]
    exact locks.kind
  · refine all _ fun d => ?_
    cases d <;> rfl
  · rintro rfl
    refine all _ fun d => ?_
    cases d with
    | data v w e c => cases w <;> rfl
    | accessor g s e c => rfl
  · rw [Heap.Spanned, Heap.isArray, Heap.kind, object, Heap.lengthOf, k.close_own o known']
    exact spanned'
  · rw [Heap.preventExtensions, Heap.size_modify]
    exact known'

omit known in
-- What is locked already is left as it is.
theorem lock_again (m : Machine) (closed : (r.heap.object o).extensible = false)
    (locked : ∀ key d, r.heap.own? o key = some d → d.locked readOnly = d) : lock o readOnly m r = .ok () r := by
  have nothing (keys : List PropertyKey) : lockKeys o readOnly keys m r = .ok () r := by
    induction keys with
    | nil => rfl
    | cons key rest hyp =>
      rw [lockKeys, heap_at]
      cases there : r.heap.own? o key with
      | none => exact hyp
      | some d =>
        have defined : defineOwn o key (lockDefinition d readOnly) true m r = .ok true r := by
          rw [define_own_ends m r o key _ true (.inr (.inr rfl)),
            r.heap.relock_property o (sound.writable o) spanned key d there readOnly (locked key d there)]
          rfl
        dsimp only
        rw [bind_at, discard_ok _ m r _ true defined]
        exact hyp
  rw [lock, heap_at, bind_at, nothing]
  change EStateM.Result.ok () (r.withHeap (r.heap.preventExtensions o)) = _
  rw [r.heap.close_closed o closed]
  rfl

end

/-! Afterwards. -/

-- A heap shows of an object what another one did, but for the number of captured lines.
def Heap.Shows (h k : Heap) (o : ObjectId) : Prop :=
  ∀ key, ¬ Heap.Overridden o key → k.own? o key = h.own? o key

theorem Descriptor.keeps_locked (d e : Descriptor) (locked : d.locked true = d) (keeps : d.Keeps e) : e = d := by
  obtain ⟨fixed, readOnly⟩ := d.locked_flags true locked
  have configurable := keeps.configurable
  have enumerable := keeps.enumerable
  have shape := keeps.shape
  cases d with
  | data v w x c =>
    obtain ⟨writable, value⟩ := keeps.value rfl (readOnly rfl)
    cases e with
    | data v' w' x' c' =>
      cases fixed
      cases configurable
      cases enumerable
      cases value
      cases (readOnly rfl : w = false)
      cases writable
      rfl
    | accessor g s x' c' => cases shape
  | accessor g s x c =>
    obtain ⟨getter, setter⟩ := keeps.functions rfl
    cases e with
    | data v' w' x' c' => cases shape
    | accessor g' s' x' c' =>
      cases fixed
      cases configurable
      cases enumerable
      cases getter
      cases setter
      rfl

section

variable (o : ObjectId)

theorem lawful_frozen (n : Moment) (lawful : n.Lawful) (frozen : n.before.heap.Frozen o)
    (known : o < n.before.heap.objects.size) (other : o ≠ Intrinsic.errorConstructor) :
    n.after.heap.object o = n.before.heap.object o ∧ o < n.after.heap.objects.size := by
  cases lawful with
  | change r s changes =>
    cases changes with
    | heap h edit =>
      exact ⟨r.heap.edit_frozen h o frozen known other edit,
        Nat.lt_of_lt_of_le known (r.heap.edit_extends h edit).objects⟩
    | beside _ heap running waiting hosts steps =>
      dsimp only at known ⊢
      rw [heap]
      exact ⟨rfl, known⟩
  | refuse r x frames isError full =>
    refine ⟨r.heap.object_add_known x o known, Nat.lt_of_lt_of_le known (r.heap.extends_object x).objects⟩
  | leave r =>
    obtain ⟨c, waiting, same⟩ := leave_only_contexts r
    dsimp only at known ⊢
    rw [same]
    exact ⟨rfl, known⟩
  | _ => exact ⟨rfl, known⟩

theorem chain_frozen (r s : Realm) (t : List Moment) (chain : Chain r t s) (frozen : r.heap.Frozen o)
    (known : o < r.heap.objects.size) (other : o ≠ Intrinsic.errorConstructor) :
    (∀ n ∈ t, n.after.heap.object o = r.heap.object o) ∧ s.heap.object o = r.heap.object o ∧ o < s.heap.objects.size := by
  induction chain with
  | nil r => exact ⟨fun n member => absurd member List.not_mem_nil, rfl, known⟩
  | cons n t s lawful rest hyp =>
    obtain ⟨same, known'⟩ := lawful_frozen o n lawful frozen known other
    obtain ⟨each, last, known''⟩ := hyp (n.before.heap.frozen_same n.after.heap o frozen same) known'
    refine ⟨fun n' member => ?_, last.trans same, known''⟩
    rcases List.mem_cons.mp member with rfl | later
    · exact same
    · exact (each n' later).trans same

theorem visits_frozen (host : HostFunction) (r s : Realm) (t : List Moment) (visits : Visits host r t s)
    (frozen : r.heap.Frozen o) (known : o < r.heap.objects.size) (other : o ≠ Intrinsic.errorConstructor) :
    (∀ n ∈ t, n.after.heap.object o = r.heap.object o) ∧ s.heap.object o = r.heap.object o := by
  induction visits with
  | nil r => exact ⟨fun n member => absurd member List.not_mem_nil, rfl⟩
  | run x r s t t' course rest hyp =>
    have chain := course_chain host boundless boundless false x r t course
    obtain ⟨each, middle, known'⟩ := chain_frozen o r _ t chain frozen known other
    obtain ⟨each', last⟩ := hyp (r.heap.frozen_same _ o frozen middle) known'
    refine ⟨fun n member => ?_, last.trans middle⟩
    rcases List.mem_append.mp member with early | late
    · exact each n early
    · exact (each' n late).trans middle
  | beside r r' s t same rest hyp =>
    rw [← same] at frozen known ⊢
    exact hyp frozen known

theorem frozen_shows (h k : Heap) (frozen : h.Frozen o) (keeps : h.Keeps k)
    (same : o ≠ Intrinsic.errorConstructor → k.object o = h.object o) : h.Shows k o := by
  intro key allowed
  by_cases here : o = Intrinsic.errorConstructor
  · cases there : h.own? o key with
    | none => exact (keeps.closed o frozen.closed).2 key allowed there
    | some d =>
      have locked := frozen.locked key d there
      have unloosened : ¬ Heap.Loose o key := fun loose => absurd (here.symm.trans loose.1) (by decide)
      obtain ⟨e, found, kept⟩ := keeps.fixed o key d unloosened allowed there (d.locked_flags true locked).1
      rw [found, d.keeps_locked e locked kept]
  · rw [h.frozen_own k o frozen (same here)]

end

section

variable (h : Heap) (o : ObjectId)

-- A write is refused, or a setter takes it.
theorem route_frozen (frozen : h.Frozen o) (key : PropertyKey) :
    route h o key = .refuse ∨ ∃ setter, route h o key = .callSetter setter := by
  rw [route, h.property_step o key, canPut]
  cases there : h.own? o key with
  | some d =>
    cases d with
    | data v w e c =>
      cases (Descriptor.locked_flags true _ (frozen.locked key _ there)).2 rfl
      exact .inl rfl
    | accessor getter setter e c =>
      cases setter with
      | none => exact .inl rfl
      | some setter => exact .inr ⟨setter, rfl⟩
  | none =>
    rw [frozen.closed, Option.none_or]
    generalize (h.prototype? o).bind (fun link => h.property? link key) = inherited
    cases inherited with
    | none => exact .inl rfl
    | some d =>
      cases d with
      | data v w e c => exact .inl rfl
      | accessor getter setter e c =>
        cases setter with
        | none => exact .inl rfl
        | some setter => exact .inr ⟨setter, rfl⟩

theorem locks_all_twice (k : Heap) (readOnly : Bool) (locks : h.LocksAll k o readOnly) (key : PropertyKey)
    (d : Descriptor) (there : k.own? o key = some d) : d.locked readOnly = d := by
  rw [locks.own] at there
  obtain ⟨old, _, rfl⟩ := Option.map_eq_some_iff.mp there
  exact old.locked_twice readOnly

theorem locks_all_frozen (k : Heap) (locks : h.LocksAll k o true) (sound : k.Sound) (spanned : k.Spanned o) :
    k.Frozen o := by
  have locked := locks_all_twice h o k true locks
  exact ⟨locks.closed, locked, k.frozen_unmapped o (sound.writable o) locked, spanned⟩

end

/-! The functions of scripts. -/

/-- A state that a realm comes to. -/
def Realm.Occurs (host : HostFunction) (config : Config) (r : Realm) : Prop :=
  ∃ t s, Visits host (Realm.create config) t s ∧ (r = s ∨ ∃ n ∈ t, r = n.after)

theorem occurs_sound (host : HostFunction) (config : Config) (r : Realm) (occurs : r.Occurs host config) :
    r.heap.Sound := by
  obtain ⟨t, s, visits, here⟩ := occurs
  obtain ⟨last, each, _⟩ := visits_evolve host _ s t visits (create_sound config)
  rcases here with rfl | ⟨n, member, rfl⟩
  · exact last.sound
  · exact (each n member).1.sound

/-- An object that no definition and no deletion changes. A write to it is refused, or a setter takes it. -/
structure Heap.Rigid (h : Heap) (o : ObjectId) : Prop where
  define : ∀ key d, (h.define o key d).2 = h
  delete : ∀ key, (h.delete o key).2 = h
  route : ∀ key, Ecma.route h o key = .refuse ∨ ∃ setter, Ecma.route h o key = .callSetter setter

theorem frozen_rigid (h : Heap) (o : ObjectId) (frozen : h.Frozen o) : h.Rigid o := by
  exact ⟨h.define_frozen o frozen, h.delete_frozen o frozen, route_frozen h o frozen⟩

/-- Whatever code runs on in a realm and whatever its host does with it afterwards, each state shows of an object
what the realm does. -/
def Realm.Stays (host : HostFunction) (r : Realm) (o : ObjectId) : Prop :=
  ∀ {α : Type} (rounds d : Nat) (moves : Bool) (x : Run α), Coded true true moves x →
    ∃ t, Course host rounds d moves x r t ∧ (∀ n ∈ t, r.heap.Shows n.after.heap o) ∧
      ∀ t' s, Visits host (endOf (x (machine host .resolved rounds d) r)) t' s →
        (∀ n ∈ t', r.heap.Shows n.after.heap o) ∧ r.heap.Shows s.heap o

theorem frozen_stays (host : HostFunction) (allowed : host.Public) (r : Realm) (o : ObjectId)
    (known : o < r.heap.objects.size) (sound : r.heap.Sound) (frozen : r.heap.Frozen o) : r.Stays host o := by
  intro α rounds d moves x coded
  obtain ⟨t, course, _⟩ := hosted_traced true true host (public_host_coded host allowed) rounds d x moves coded r
  have chain := course_chain host rounds d moves x r t course
  obtain ⟨middle, each, _⟩ := chain_evolves r _ t chain sound
  refine ⟨t, course, fun n member => ?_, fun t' s visits => ?_⟩
  · exact frozen_shows o _ _ frozen (each n member).1.keeps fun other => (chain_frozen o r _ t chain frozen known other).1
      n member
  · obtain ⟨last, each', _⟩ := visits_evolve host _ s t' visits middle.sound
    have same (other : o ≠ Intrinsic.errorConstructor) := by
      obtain ⟨_, first, known'⟩ := chain_frozen o r _ t chain frozen known other
      obtain ⟨later, final⟩ := visits_frozen o host _ s t' visits (r.heap.frozen_same _ o frozen first) known' other
      exact And.intro (fun n member => (later n member).trans first) (final.trans first)
    refine ⟨fun n member => ?_, ?_⟩
    · exact frozen_shows o _ _ frozen (Heap.keeps_trans _ _ _ middle.keeps (each' n member).1.keeps) fun other =>
        (same other).1 n member
    · exact frozen_shows o _ _ frozen (Heap.keeps_trans _ _ _ middle.keeps last.keeps) fun other => (same other).2

def lockFunction (readOnly : Bool) : ObjectFunction :=
  if readOnly then .freeze else .seal

theorem lock_function_run (readOnly : Bool) (this : Value) (o : ObjectId) (rest : List Value) (m : Machine) (r s : Realm)
    (locked : lock o readOnly m r = .ok () s) :
    (lockFunction readOnly).run this (.object o :: rest) m r = .ok (.object o) s := by
  have is : (lockFunction readOnly).run this (.object o :: rest) = (do lock o readOnly; return .object o) := by
    cases readOnly <;> rfl
  rw [is, bind_at, locked]
  rfl

/-- Objects of every kind are locked. Neither function throws or runs code, whatever the machine, and what was
frozen stays so whatever happens. An array has to be longer than its elements. -/
theorem freezing_locks (host : HostFunction) (allowed : host.Public) (config : Config) :
    (∀ (uses : List Use) (r : Realm), ∃ t, Visits host r t (uses.foldl (fun r use => use.after host r) r)) ∧
      ∀ r : Realm, r.Occurs host config → ∀ o < r.heap.objects.size, r.heap.Spanned o → ∀ readOnly : Bool,
        ∃ k, r.heap.LocksAll k o readOnly ∧
          (∀ m this rest,
            (lockFunction readOnly).run this (.object o :: rest) m r = .ok (.object o) (r.withHeap k) ∧
            (lockFunction readOnly).run this (.object o :: rest) m (r.withHeap k) = .ok (.object o) (r.withHeap k) ∧
            ObjectFunction.run .isSealed this (.object o :: rest) m (r.withHeap k) =
              .ok (.boolean true) (r.withHeap k) ∧
            (readOnly = true → ObjectFunction.run .isFrozen this (.object o :: rest) m (r.withHeap k) =
              .ok (.boolean true) (r.withHeap k))) ∧
          (readOnly = true → k.Rigid o ∧ (r.withHeap k).Stays host o ∧
            ∀ key a v, r.heap.alias? o key = some a → (k.writeAlias a v).own? o = k.own? o) := by
  refine ⟨visits_uses host allowed, fun r occurs o known spanned readOnly => ?_⟩
  obtain ⟨k, runs, locks, evolves, spanned', known'⟩ :=
    lock_run o readOnly r known (occurs_sound host config r occurs) spanned
  refine ⟨k, locks, fun m this rest => ⟨?_, ?_, ?_, fun frozen => ?_⟩, ?_⟩
  · exact lock_function_run readOnly this o rest m r _ (runs m)
  · exact lock_function_run readOnly this o rest m (r.withHeap k) _ (lock_again o readOnly (r.withHeap k) evolves.sound
      spanned' m locks.closed (locks_all_twice r.heap o k readOnly locks))
  · change EStateM.Result.ok (Value.boolean (k.isSealed o)) (r.withHeap k) = _
    rw [locks.isSealed]
  · change EStateM.Result.ok (Value.boolean (k.isFrozen o)) (r.withHeap k) = _
    rw [locks.isFrozen frozen]
  · rintro rfl
    have frozen := locks_all_frozen r.heap o k locks evolves.sound spanned'
    refine ⟨frozen_rigid k o frozen, frozen_stays host allowed (r.withHeap k) o known' evolves.sound frozen,
      fun key a v _ => k.frozen_own _ o frozen ?_⟩
    rw [Heap.object, Heap.object, Heap.write_alias_objects]

-- An array that a host may come to hold.
def arrayRealm : Realm :=
  endOf ((newArray [.null]).on callingHost (Realm.create {}))

theorem array_realm_occurs : arrayRealm.Occurs callingHost {} := by
  obtain ⟨t, visits, _⟩ := visited_run true true callingHost (public_host_coded _ calling_host_public) _
    (.native (newArray [.null]) (new_array_native _)) (Realm.create {})
  exact ⟨t, _, visits, .inl rfl⟩

theorem freezing_locks_array :
    ∃ o, arrayRealm.Occurs callingHost {} ∧ o < arrayRealm.heap.objects.size ∧ arrayRealm.heap.Spanned o ∧
      arrayRealm.heap.own? o (.index 0) = some (.free .null) ∧
      ∃ k, (∀ m this, ObjectFunction.run .freeze this [.object o] m arrayRealm =
          .ok (.object o) (arrayRealm.withHeap k)) ∧
        k.own? o (.index 0) = some (.data .null false true false) ∧ k.Rigid o ∧
        (arrayRealm.withHeap k).Stays callingHost o := by
  have heap : arrayRealm.heap = ((Realm.create {}).heap.addObject (.ofItems [some .null])).2 := rfl
  generalize (Realm.create {}).heap = before at heap
  have known : before.objects.size < arrayRealm.heap.objects.size := by
    rw [heap]
    change _ < (before.objects.push _).size
    rw [Array.size_push]
    exact Nat.lt_succ_self _
  have spanned : arrayRealm.heap.Spanned before.objects.size := by
    refine Heap.well_formed_spanned _ _ fun _ => ?_
    rw [heap]
    exact Heap.made_well_formed before [some .null] (by decide) _ rfl
  have there : arrayRealm.heap.own? before.objects.size (.index 0) = some (.free .null) := by
    rw [heap, Heap.own?, Heap.object_add, if_pos rfl]
    rfl
  obtain ⟨k, locks, runs, frozen⟩ := (freezing_locks callingHost calling_host_public {}).2 arrayRealm array_realm_occurs
    before.objects.size known spanned true
  refine ⟨_, array_realm_occurs, known, spanned, there, k, fun m this => (runs m this []).1, ?_, (frozen rfl).1,
    (frozen rfl).2.1⟩
  rw [locks.own, there]
  rfl

end Ecma
