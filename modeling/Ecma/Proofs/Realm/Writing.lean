import Ecma.Proofs.Heap.Length
import Ecma.Proofs.Heap.Ordinary
import Ecma.Proofs.Storage.Promise

set_option autoImplicit false

/-!
Writes to properties that have a value and can be written. The write replaces the value, and that of the
parameter that the property stands for, and nothing else of the heap; no code runs. What was written is read.
-/

namespace Ecma

open Run

namespace Heap

section

variable (h : Heap) (id : ObjectId) (key : PropertyKey) (v : Value) (e c : Bool)

/-- The parameter that a property stands for gets a value, if there is one. -/
def assignAliased : Heap :=
  match h.alias? id key with
  | some a => h.writeAlias a v
  | none => h

/-- A heap in which only the value of one property is another one. -/
structure Replaced (k : Heap) : Prop where
  here : k.own? id key = some (.data v true e c)
  others : ∀ other other', ¬ (other = id ∧ other' = key) → k.own? other other' = h.own? other other'
  keys : ∀ other, k.ownKeys other = h.ownKeys other
  extensible : ∀ other, (k.object other).extensible = (h.object other).extensible
  prototype : ∀ other, (k.object other).prototype = (h.object other).prototype
  kind : ∀ other, k.kind other = h.kind other
  size : k.objects.size = h.objects.size
  -- All else that is stored is as before, but for the parameter that the property stands for.
  stores : (h.assignAliased id key v).SameStores k
  parameter : ∀ a, h.alias? id key = some a → k.readAlias a = v
  parameters : ∀ b, h.alias? id key ≠ some b → k.readAlias b = h.readAlias b
  tied : k.Tied

end

/-! What is left alone. -/

section

variable (h k : Heap)

theorem tied_kept (tied : h.Tied) (kinds : ∀ id, k.kind id = h.kind id) (live : ∀ a, h.Live a → k.Live a) : k.Tied := by
  have mapped (id : ObjectId) (key : PropertyKey) : k.alias? id key = h.alias? id key := alias_same h k id (kinds id) key
  refine ⟨fun id i a found => ?_, fun id id' i i' a first second => ?_⟩
  · rw [mapped] at found
    exact live a (tied.live id i a found)
  · rw [mapped] at first second
    exact tied.own id id' i i' a first second

end

/-! Writes to parameters. -/

section

variable (h : Heap) (tied : h.Tied) (id : ObjectId) (key : PropertyKey) (a : Alias)
  (mapped : h.alias? id key = some a) (v : Value)

include mapped in
theorem alias_index : ∃ i, key = .index i := by
  cases key with
  | index i => exact ⟨i, rfl⟩
  | name s =>
    rw [alias_name] at mapped
    cases mapped

theorem write_object (other : ObjectId) : (h.writeAlias a v).object other = h.object other := by
  rw [object, object, write_alias_objects]

theorem write_kind (other : ObjectId) : (h.writeAlias a v).kind other = h.kind other := by
  rw [Heap.kind, Heap.kind, write_object]

-- Stores that were the same are the same after the same write.
theorem write_stores (k : Heap) (stores : h.SameStores k) : (h.writeAlias a v).SameStores (k.writeAlias a v) := by
  cases a with
  | slot frame index =>
    refine ⟨?_, stores.2⟩
    rw [writeAlias, writeAlias, setSlot, setSlot, stores.1]
  | binding env name =>
    refine ⟨stores.1, ?_⟩
    rw [writeAlias, writeAlias, modifyBindings, modifyBindings, stores.2]

include tied in
theorem write_tied : (h.writeAlias a v).Tied := by
  exact tied_kept h _ tied (write_kind h a v) fun b live => write_live h a b v live

include tied mapped

theorem alias_taken : h.Live a := by
  obtain ⟨i, rfl⟩ := alias_index h id key a mapped
  exact tied.live id i a mapped

-- A parameter is shown by one property only.
theorem write_shown (other : ObjectId) (other' : PropertyKey) (distinct : ¬ (other = id ∧ other' = key)) :
    (h.writeAlias a v).own? other other' = h.own? other other' := by
  have shows : (h.writeAlias a v).shown other other' = h.shown other other' := by
    funext d
    rw [shown, shown, aliased?, aliased?, alias_same h _ other (write_kind h a v other)]
    cases found : h.alias? other other' with
    | none => rfl
    | some b =>
      have apart : a ≠ b := by
        rintro rfl
        obtain ⟨i, rfl⟩ := alias_index h id key a mapped
        obtain ⟨j, rfl⟩ := alias_index h other other' a found
        obtain ⟨rfl, rfl⟩ := tied.own other id j i a found mapped
        exact distinct ⟨rfl, rfl⟩
      rw [Option.map_some, Option.map_some, read_write_other h a b v apart]
  rw [own_shown, own_shown, write_object, shows]

theorem write_shown_here (d : Descriptor) (own : h.own? id key = some d) :
    (h.writeAlias a v).own? id key = some (d.withValue v) := by
  have shows (x : Heap) (w : Value) (same : x.alias? id key = some a) (reads : x.readAlias a = w) :
      x.shown id key = fun d => d.withValue w := by
    funext d
    rw [shown, aliased?, same, Option.map_some, reads]
  have same : (h.writeAlias a v).alias? id key = some a :=
    (alias_same h _ id (write_kind h a v id) key).trans mapped
  rw [own_shown, shows h _ mapped rfl] at own
  rw [own_shown, write_object, shows _ v same (read_write_same h a v (alias_taken h tied id key a mapped))]
  obtain ⟨stored, found, rfl⟩ := Option.map_eq_some_iff.mp own
  rw [found, Option.map_some]
  cases stored <;> rfl

end

/-! Definitions of a value. -/

section

variable (h : Heap) (tied : h.Tied) (id : ObjectId) (key : PropertyKey) (x : Value) (e c : Bool)
  (own : h.own? id key = some (.data x true e c)) (v : Value)

include own

theorem value_accepted : (h.defineOrdinary id key (.ofValue v)).1 = true := by
  exact ordinary_accepted h id key _ _ own (Definition.may_change_writable _ x e c rfl rfl nofun)

theorem value_by_rules : h.DefinedByRules id key (.ofValue v) true (h.defineOrdinary id key (.ofValue v)).2 := by
  have rules := judged_by_rules h id key (.ofValue v) (own_known h id key _ own) fun _ => rfl
  rwa [value_accepted h id key x e c own v] at rules

theorem value_shown :
    (h.defineOrdinary id key (.ofValue v)).2.own? id key = some (h.shown id key (.data v true e c)) := by
  obtain ⟨new, yields, shows⟩ := (value_by_rules h id key x e c own v).shows rfl
  rw [own] at yields
  have is := Definition.yields_unique _ _ _ _ yields (Definition.apply_yields (.ofValue v) (fun _ => rfl) _)
  rw [shows, is]
  rfl

include tied

theorem value_tied : (h.defineOrdinary id key (.ofValue v)).2.Tied := by
  have apart := (value_by_rules h id key x e c own v).apart
  refine tied_kept h _ tied (fun other => ?_) fun a live => same_live h _ a (ordinary_stores h id key _) live
  by_cases same : other = id
  · rw [same]
    exact apart.kind
  · exact congrArg Object.kind (apart.elsewhere other same)

omit tied in
theorem value_others (other : ObjectId) (other' : PropertyKey) (distinct : ¬ (other = id ∧ other' = key)) :
    (h.defineOrdinary id key (.ofValue v)).2.own? other other' = h.own? other other' := by
  have apart := (value_by_rules h id key x e c own v).apart
  by_cases same : other = id
  · subst same
    exact apart_own h other key _ apart other' fun here => distinct ⟨rfl, here⟩
  · exact own_kept h other other' _ (apart.elsewhere other same) (ordinary_stores h id key _)

-- Where the property stands for a parameter, it is still to follow.
theorem value_followed (k : Heap) (is : k = (h.defineOrdinary id key (.ofValue v)).2.assignAliased id key v) :
    h.Replaced id key v e c k := by
  have apart := (value_by_rules h id key x e c own v).apart
  have stores := ordinary_stores h id key (.ofValue v)
  have shows := value_shown h id key x e c own v
  have others := value_others h id key x e c own v
  have tied' := value_tied h tied id key x e c own v
  have same : (h.defineOrdinary id key (.ofValue v)).2.alias? id key = h.alias? id key :=
    alias_same h _ id apart.kind key
  generalize (h.defineOrdinary id key (.ofValue v)).2 = l at is apart stores shows others tied' same
  have objects (other : ObjectId) : (l.object other).kind = (h.object other).kind ∧
      (l.object other).prototype = (h.object other).prototype ∧
      (l.object other).extensible = (h.object other).extensible ∧ l.ownKeys other = h.ownKeys other := by
    by_cases here : other = id
    · rw [here]
      exact ⟨apart.kind, apart.prototype, apart.extensible, apart.inPlace (by rw [own]; exact Option.some_ne_none _)⟩
    · rw [own_keys_is, own_keys_is, apart.elsewhere other here]
      exact ⟨rfl, rfl, rfl, rfl⟩
  rw [assignAliased, same] at is
  cases mapped : h.alias? id key with
  | none =>
    rw [mapped] at is
    subst is
    rw [shown, aliased?, mapped] at shows
    exact {
      here := shows
      others := others
      keys := fun other => (objects other).2.2.2
      extensible := fun other => (objects other).2.2.1
      prototype := fun other => (objects other).2.1
      kind := fun other => (objects other).1
      size := apart.objects
      stores := by
        rw [assignAliased, mapped]
        exact stores
      parameter := fun a found => by rw [mapped] at found; cases found
      parameters := fun b _ => same_read h _ b stores
      tied := tied' }
  | some a =>
    rw [mapped] at is
    subst is
    have mapped' := same.trans mapped
    have live := alias_taken l tied' id key a mapped'
    have shows' := write_shown_here l tied' id key a mapped' v _ shows
    rw [shown, aliased?, mapped] at shows'
    exact {
      here := shows'
      others := fun other other' distinct =>
        (write_shown l tied' id key a mapped' v other other' distinct).trans (others other other' distinct)
      keys := fun other => by
        rw [own_keys_is, write_object, ← own_keys_is]
        exact (objects other).2.2.2
      extensible := fun other => by
        rw [write_object]
        exact (objects other).2.2.1
      prototype := fun other => by
        rw [write_object]
        exact (objects other).2.1
      kind := fun other => by
        rw [write_kind]
        exact (objects other).1
      size := by
        rw [write_alias_objects]
        exact apart.objects
      stores := by
        rw [assignAliased, mapped]
        exact write_stores h a v l stores
      parameter := fun b found => by
        rw [mapped] at found
        cases found
        exact read_write_same l a v live
      parameters := fun b other => by
        rw [mapped] at other
        rw [read_write_other l a b v fun here => other (congrArg some here)]
        exact same_read h l b stores
      tied := write_tied l tied' a v }

-- Each kind of object has its own way to define a property.
theorem value_replaced (array : h.isArray id = true → h.WellFormed id) :
    (h.define id key (.ofValue v)).1 = true ∧ h.Replaced id key v e c (h.define id key (.ofValue v)).2 := by
  have accepted := value_accepted h id key x e c own v
  have followed := value_followed h tied id key x e c own v
  have apart := (value_by_rules h id key x e c own v).apart
  have same : (h.defineOrdinary id key (.ofValue v)).2.alias? id key = h.alias? id key :=
    alias_same h _ id apart.kind key
  have plain (unmapped : h.alias? id key = none) : h.Replaced id key v e c (h.defineOrdinary id key (.ofValue v)).2 := by
    refine followed _ ?_
    rw [assignAliased, same, unmapped]
  have unmapped (other : ∀ mapped, h.kind id ≠ .arguments mapped) : h.alias? id key = none := by
    rw [alias?]
    exact fun mapped i kind _ => other mapped kind
  delta define
  cases kind : h.kind id with
  | arguments mapped =>
    dsimp only
    rw [defineArgument]
    cases found : h.alias? id key with
    | none => exact ⟨accepted, plain found⟩
    | some a =>
      have whole : h.freezeAliased id key (.ofValue v) = .ofValue v := rfl
      dsimp only
      rw [whole]
      generalize h.defineOrdinary id key (.ofValue v) = result at accepted followed same
      obtain ⟨accepts, l⟩ := result
      cases accepted
      refine ⟨rfl, followed _ ?_⟩
      rw [assignAliased, same, found]
      rfl
  | array =>
    have free := unmapped fun mapped is => by rw [kind] at is; cases is
    cases key with
    | name s => exact ⟨accepted, plain free⟩
    | index i =>
      have isArray : (h.object id).kind.isArray = true := by
        rw [Heap.kind] at kind
        rw [kind]
        rfl
      obtain ⟨n, has, covers⟩ := array (by rw [is_array_kind, isArray])
      obtain ⟨w, c', measured, _⟩ := (has_length_measured h id isArray n).mp has
      have inside : ¬ n ≤ i := Nat.not_le_of_lt (covers i _ own)
      have is : h.defineElement id i (.ofValue v) = h.defineOrdinary id (.index i) (.ofValue v) := by
        rw [defineElement, length_of_measured h id isArray n w c' false measured]
        dsimp only
        rw [decide_eq_false inside, Bool.false_and, if_neg Bool.false_ne_true]
        generalize h.defineOrdinary id (.index i) (.ofValue v) = result
        obtain ⟨accepts, l⟩ := result
        cases accepts with
        | false => rfl
        | true => exact if_neg inside
      dsimp only
      rw [is]
      exact ⟨accepted, plain free⟩
  | _ => exact ⟨accepted, plain (unmapped fun mapped is => by rw [kind] at is; cases is)⟩

end

end Heap

/-! Runs. -/

theorem guards_kept (h k : Heap) (id : ObjectId) (same : k.kind id = h.kind id) :
    guardsCaller k id = guardsCaller h id := by
  delta guardsCaller
  rw [same]

section

variable (m : Machine) (r : Realm) (id : ObjectId) (key : PropertyKey) (x : Value) (e c : Bool)
  (own : r.heap.own? id key = some (.data x true e c)) (v : Value)
include own

theorem put_value (throws : Bool) (length : r.heap.isArray id = true → key ≠ .length)
    (accepted : (r.heap.define id key (.ofValue v)).1 = true) :
    put id key v throws m r = .ok () (r.withHeap (r.heap.define id key (.ofValue v)).2) := by
  have way : route r.heap id key = .replace := by
    rw [route, own]
  have other : (r.heap.isArray id && key == .length) = false := by
    cases isArray : r.heap.isArray id with
    | false => rfl
    | true => exact beq_false_of_ne (length isArray)
  rw [put, heap_at, way]
  refine discard_ok _ m r _ true ?_
  rw [define_own_is, heap_at, other, Bool.false_and, if_neg Bool.false_ne_true]
  change accept key throws (r.heap.define id key (.ofValue v)).1 m _ = _
  rw [accepted]
  rfl

theorem get_value (caller : key = .name "caller" → guardsCaller r.heap id = false) :
    get id key m r = .ok x r := by
  have first : r.heap.property? id key = some (.data x true e c) := by
    rw [Heap.property?, Heap.prototype_chain_step, List.findSome?_cons, own]
  rw [get, heap_at]
  cases aliased : r.heap.aliased? id key with
  | some w =>
    rw [Heap.own_shown] at own
    obtain ⟨stored, _, shows⟩ := Option.map_eq_some_iff.mp own
    rw [Heap.shown, aliased] at shows
    cases stored with
    | data _ _ _ _ =>
      cases shows
      rfl
    | accessor _ _ _ _ => cases shows
  | none =>
    have free (h : Heap) (same : h = r.heap) :
        ¬ (key == .name "caller" && h.isStrictFunction x && guardsCaller h id) = true := by
      intro guarded
      simp only [Bool.and_eq_true, beq_iff_eq] at guarded
      rw [same, caller guarded.1.1] at guarded
      exact Bool.false_ne_true guarded.2
    dsimp only
    rw [heap_at, first]
    change (if key == .name "caller" && r.heap.isStrictFunction x && guardsCaller r.heap id
      then throwTypeError _ else pure x : Run Value) m r = _
    rw [if_neg (free r.heap rfl)]
    rfl

end

/-! Realms that are reached. -/

namespace Storage

theorem matched_tied (r₁ r₂ : Realm) (matched : Matched r₁ r₂) : r₁.heap.Tied ∧ r₂.heap.Tied := by
  obtain ⟨W, related⟩ := matched.related
  exact related_tied W [] [] _ _ related.heap

theorem history_tied (host : HostFunction) (hosted : host.Sighted) (uses : List Use) (r₁ r₂ : Realm)
    (matched : Matched r₁ r₂) :
    (∀ moment ∈ history host .resolved r₁ uses, moment.2.heap.Tied) ∧
      ∀ moment ∈ history host .resolved r₂ uses, moment.2.heap.Tied := by
  have wary := trusting_wary _ resolved_trusting
  induction uses generalizing r₁ r₂ with
  | nil => exact ⟨List.forall_mem_nil _, List.forall_mem_nil _⟩
  | cons use rest hyp =>
    have after := (perform_matched host hosted .resolved .resolved wary wary use r₁ r₂ matched).matched
    obtain ⟨tied₁, tied₂⟩ := matched_tied _ _ after
    obtain ⟨rest₁, rest₂⟩ := hyp _ _ after
    rw [history, history]
    exact ⟨List.forall_mem_cons.mpr ⟨tied₁, rest₁⟩, List.forall_mem_cons.mpr ⟨tied₂, rest₂⟩⟩

end Storage

/-- The realms that uses by a host come to: the fresh one, those between uses, and those in which code looks a
name up. -/
inductive Reached (host : HostFunction) (config : Config) : Realm → Prop
  | fresh : Reached host config (Realm.create config)
  | between (uses : List Use) (outcome : Outcome) (r : Realm)
      (member : (outcome, r) ∈ history host .resolved (Realm.create config) uses) : Reached host config r
  | within (uses : List Use) (v : Program.Variable) (strict : Bool) (r : Realm)
      (looks : LooksUp host config uses v strict r) : Reached host config r

section

variable (host : HostFunction) (hosted : host.Sighted) (config : Config)

include hosted

theorem looked_up_tied (uses : List Use) (v : Program.Variable) (strict : Bool) (r : Realm)
    (looks : LooksUp host config uses v strict r) : r.heap.Tied := by
  obtain ⟨answer, differs⟩ := looks
  by_contra loose
  refine differs (wary_history host hosted config uses _ fun v' strict' r' _ tied => ?_)
  rw [Lookup.except, if_neg]
  rintro ⟨_, _, rfl⟩
  exact loose tied

theorem reached_tied (r : Realm) (reached : Reached host config r) : r.heap.Tied := by
  cases reached with
  | fresh =>
    obtain ⟨first, second⟩ := Storage.matched_tied _ _ (Storage.fresh_matched config)
    obtain ⟨depthLimit, stepsLimit, traceLimit, collapse⟩ := config
    cases collapse with
    | true => exact first
    | false => exact second
  | between uses outcome r member =>
    obtain ⟨first, second⟩ := Storage.history_tied host hosted uses _ _ (Storage.fresh_matched config)
    obtain ⟨depthLimit, stepsLimit, traceLimit, collapse⟩ := config
    cases collapse with
    | true => exact first _ member
    | false => exact second _ member
  | within uses v strict r looks => exact looked_up_tied host hosted config uses v strict r looks

/-- A write to a property with a value that can be written, whatever the object, replaces the value and that of
the parameter the property stands for. It succeeds and runs no code, all else stays as it was, and what was
written is read. This holds in all realms in which elements of arguments objects stand for parameters of their
own, as they do wherever a host and its code come. -/
theorem writes_confined : (∀ r, Reached host config r → r.heap.Tied) ∧
    ∀ r : Realm, r.heap.Tied → ∀ id key x e c, r.heap.own? id key = some (.data x true e c) →
      (r.heap.isArray id = true → key ≠ .length ∧ r.heap.WellFormed id) →
      (key = .name "caller" → guardsCaller r.heap id = false) → ∀ v : Value,
        ∃ k, r.heap.Replaced id key v e c k ∧
          (∀ m throws, put id key v throws m r = .ok () (r.withHeap k)) ∧
          ∀ m, get id key m (r.withHeap k) = .ok v (r.withHeap k) := by
  refine ⟨reached_tied host hosted config, fun r tied id key x e c own array caller v => ?_⟩
  obtain ⟨accepted, replaced⟩ := r.heap.value_replaced tied id key x e c own v fun isArray => (array isArray).2
  refine ⟨_, replaced, fun m throws => ?_, fun m => ?_⟩
  · exact put_value m r id key x e c own v throws (fun isArray => (array isArray).1) accepted
  · refine get_value m (r.withHeap _) id key v e c replaced.here fun named => ?_
    rw [← caller named]
    exact guards_kept _ _ id (replaced.kind id)

end

/-- An arguments object with one element, which stands for a parameter in a slot. -/
def mappedHeap : Heap where
  objects := #[{ kind := .arguments [(0, .slot 0 0)], properties := .ofElements [] [some .undefined] }]
  frames := #[#[.null]]

theorem mapped_tied : mappedHeap.Tied := by
  have only (id : ObjectId) (i : Nat) (a : Alias) (mapped : mappedHeap.alias? id (.index i) = some a) :
      id = 0 ∧ i = 0 ∧ a = .slot 0 0 := by
    cases id with
    | zero =>
      cases i with
      | zero => exact ⟨rfl, rfl, (Option.some.inj mapped).symm⟩
      | succ i => cases mapped
    | succ id => cases mapped
  refine ⟨fun id i a mapped => ?_, fun id id' i i' a first second => ?_⟩
  · obtain ⟨_, _, rfl⟩ := only id i a mapped
    exact ⟨#[.null], rfl, by decide⟩
  · obtain ⟨rfl, rfl, _⟩ := only id i a first
    obtain ⟨rfl, rfl, _⟩ := only id' i' a second
    exact ⟨rfl, rfl⟩

-- The element shows the parameter, not what is stored for it.
theorem writes_confined_mapped :
    let r := (Realm.create {}).withHeap mappedHeap
    callingHost.Sighted ∧ r.heap.Tied ∧ r.heap.own? 0 (.index 0) = some (.data .null true true true) ∧
      r.heap.isArray 0 = false ∧ PropertyKey.index 0 ≠ .name "caller" ∧
        ∃ k, r.heap.Replaced 0 (.index 0) .undefined true true k ∧
          (∀ m throws, put 0 (.index 0) .undefined throws m r = .ok () (r.withHeap k)) ∧
          ∀ m, get 0 (.index 0) m (r.withHeap k) = .ok .undefined (r.withHeap k) := by
  refine ⟨calling_host_sighted, mapped_tied, by decide, rfl, nofun, ?_⟩
  exact (writes_confined callingHost calling_host_sighted {}).2 ((Realm.create {}).withHeap mappedHeap) mapped_tied 0
    (.index 0) .null true true (by decide) (fun array => Bool.noConfusion (array : false = true)) nofun .undefined

end Ecma
