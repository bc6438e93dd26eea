import Ecma.Eval.Declaration
import Ecma.Proofs.Heap.Freeze
import Ecma.Proofs.Number.IndexText
import Ecma.Proofs.Operation.Array
import Ecma.Proofs.Realm.Writing

set_option autoImplicit false

/-!
Declaring names. Global and eval code declares its functions and variables in its variable environment, which is the
global object or has bindings of its own. What comes to stand for a name, and whether it can be deleted, depends on
what has been there; functions may be refused.
-/

namespace Ecma

open Ecma.Program Run

/-- A binding as a property: only constants cannot be written. -/
def Binding.descriptor (b : Binding) : Descriptor :=
  .data b.value b.state.isMutable true (b.state = .deletable)

namespace Heap

/-! What an environment has under a name. -/

/-- What is bound to a name, and what may be done to it. An object has properties, which it may inherit. -/
def bound? (h : Heap) (env : EnvironmentId) (name : String) : Option Descriptor :=
  match (h.environment env).record with
  | .declarative b => (Dictionary.find? b name).map Binding.descriptor
  | .object id _ => h.property? id (.ofString name)

theorem has_bound (h : Heap) (env : EnvironmentId) (name : String) :
    h.hasBinding env name = (h.bound? env name).isSome := by
  rw [hasBinding, bound?]
  cases (h.environment env).record with
  | declarative b => exact (Option.isSome_map ..).symm
  | object id receiver => rfl

-- Under other keys nothing changes.
theorem apart_property (h k : Heap) (id : ObjectId) (key : PropertyKey) (apart : h.Apart id key k) (other : PropertyKey)
    (distinct : other ≠ key) (o : ObjectId) : k.property? o other = h.property? o other := by
  refine property_kept h o other k (fun o' _ => ?_) fun o' _ => ?_
  · by_cases here : o' = id
    · rw [here]
      exact apart_own h id key k apart other distinct
    · exact own_kept h o' other k (apart.elsewhere o' here) ⟨apart.frames, apart.environments⟩
  · by_cases here : o' = id
    · rw [here]
      exact apart.prototype
    · rw [apart.elsewhere o' here]

theorem apart_trans (h k l : Heap) (id : ObjectId) (key : PropertyKey) (first : h.Apart id key k)
    (second : k.Apart id key l) (there : k.own? id key ≠ none) : h.Apart id key l := by
  exact {
    elsewhere := fun other distinct => (second.elsewhere other distinct).trans (first.elsewhere other distinct)
    kind := second.kind.trans first.kind
    prototype := second.prototype.trans first.prototype
    extensible := second.extensible.trans first.extensible
    others := fun other distinct => (second.others other distinct).trans (first.others other distinct)
    otherKeys := second.otherKeys.trans first.otherKeys
    inPlace := fun before => (second.inPlace there).trans (first.inPlace before)
    objects := second.objects.trans first.objects
    environments := second.environments.trans first.environments
    frames := second.frames.trans first.frames }

/-! Environments in which code declares names. -/

/-- The global environment keeps its names in the global object, which takes further ones. -/
structure GlobalScope (h : Heap) : Prop where
  record : (h.environment Intrinsic.globalEnvironment).record = .object Intrinsic.global false
  kind : h.kind Intrinsic.global = .ordinary
  known : Intrinsic.global < h.objects.size
  opened : (h.object Intrinsic.global).extensible = true

/-- All other environments in which code declares names have bindings of their own, none of which is constant. -/
structure LocalScope (h : Heap) (env : EnvironmentId) (b : Bindings) : Prop where
  found : ∃ outer, h.environments[env]? = some ⟨.declarative b, outer⟩
  mutable : ∀ name binding, Dictionary.find? b name = some binding → binding.state.isMutable = true
  other : env ≠ Intrinsic.globalEnvironment

def Declares (h : Heap) (env : EnvironmentId) : Prop :=
  (env = Intrinsic.globalEnvironment ∧ h.GlobalScope) ∨ ∃ b, h.LocalScope env b

/-- A global name that a function cannot be declared under. -/
def Blocks (h : Heap) (name : String) : Prop :=
  ∃ d, h.property? Intrinsic.global (.ofString name) = some d ∧ d.configurable = false ∧ blocksFunction d = true

/-- A name has a value that can be written. In the global environment it is one of the global object itself. -/
structure Holds (h : Heap) (env : EnvironmentId) (name : String) (v : Value) (c : Bool) : Prop where
  bound : h.bound? env name = some (.data v true true c)
  own : env = Intrinsic.globalEnvironment → h.own? Intrinsic.global (.ofString name) = some (.data v true true c)

/-- Nothing about a name has changed. -/
structure SameUnder (h k : Heap) (env : EnvironmentId) (name : String) : Prop where
  bound : k.bound? env name = h.bound? env name
  own : env = Intrinsic.globalEnvironment →
    k.own? Intrinsic.global (.ofString name) = h.own? Intrinsic.global (.ofString name)

/-- Whether a name that is declared can be deleted afterwards: as it is asked for if the name is new, or if the global
object has a property that can be configured. What was declared before stays as it was or becomes as it is asked for. -/
structure Marks (h : Heap) (env : EnvironmentId) (name : String) (deletable c : Bool) : Prop where
  new : h.bound? env name = none → c = deletable
  reset : ∀ d, env = Intrinsic.globalEnvironment → h.bound? env name = some d → d.configurable = true → c = deletable
  before : ∀ v old, h.Holds env name v old → c = deletable ∨ c = old

/-- A declared name has got a value. -/
structure Binds (h k : Heap) (env : EnvironmentId) (name : String) (v : Value) (deletable : Bool) : Prop where
  declares : k.Declares env
  here : ∃ c, k.Holds env name v c ∧ h.Marks env name deletable c
  others : ∀ other, other ≠ name → h.SameUnder k env other
  size : k.objects.size = h.objects.size
  callable : ∀ id, k.callable? id = h.callable? id

section

variable (h k l : Heap) (env : EnvironmentId) (name : String) (deletable : Bool)

theorem same_under_trans (first : h.SameUnder k env name) (second : k.SameUnder l env name) : h.SameUnder l env name := by
  exact ⟨second.bound.trans first.bound, fun global => (second.own global).trans (first.own global)⟩

theorem holds_same (v : Value) (c : Bool) (same : h.SameUnder k env name) (held : h.Holds env name v c) :
    k.Holds env name v c := by
  exact ⟨same.bound.trans held.bound, fun global => (same.own global).trans (held.own global)⟩

theorem marks_same (c : Bool) (same : h.SameUnder k env name) (marks : k.Marks env name deletable c) :
    h.Marks env name deletable c := by
  refine ⟨fun absent => marks.new (same.bound.trans absent), fun d global bound => ?_, fun v old held => ?_⟩
  · exact marks.reset d global (same.bound.trans bound)
  · exact marks.before v old (holds_same h k env name v old same held)

-- Once a name has been declared, declaring it anew leaves it as deletable as it is.
theorem marks_trans (v : Value) (c c' : Bool) (first : h.Marks env name deletable c) (held : k.Holds env name v c)
    (second : k.Marks env name deletable c') : h.Marks env name deletable c' := by
  have either := second.before v c held
  refine ⟨fun absent => ?_, fun d global bound loose => ?_, fun w old before => ?_⟩
  · have is := first.new absent
    rcases either with is' | is'
    · exact is'
    · exact is'.trans is
  · have is := first.reset d global bound loose
    rcases either with is' | is'
    · exact is'
    · exact is'.trans is
  · rcases either with is' | is'
    · exact .inl is'
    · rw [is']
      exact first.before w old before

theorem binds_trans (v w : Value) (first : h.Binds k env name v deletable) (second : k.Binds l env name w deletable) :
    h.Binds l env name w deletable := by
  obtain ⟨c, held, marks⟩ := first.here
  obtain ⟨c', held', marks'⟩ := second.here
  refine ⟨second.declares, ⟨c', held', marks_trans h k env name deletable v c c' marks held marks'⟩, fun other distinct => ?_,
    second.size.trans first.size, fun id => (second.callable id).trans (first.callable id)⟩
  exact same_under_trans h k l env other (first.others other distinct) (second.others other distinct)

end

/-! The global environment. -/

section

variable (h : Heap) (scope : h.GlobalScope) (name : String)
include scope

theorem global_unmapped (key : PropertyKey) : h.alias? Intrinsic.global key = none := by
  cases found : h.alias? Intrinsic.global key with
  | none => rfl
  | some a =>
    obtain ⟨_, _, _, kind⟩ := alias_arguments h _ key a found
    cases scope.kind.symm.trans kind

theorem global_array : h.isArray Intrinsic.global = false := by
  rw [isArray, scope.kind]

theorem global_define (key : PropertyKey) (d : Definition) :
    h.define Intrinsic.global key d = h.defineOrdinary Intrinsic.global key d := by
  refine define_plain h _ key d (global_unmapped h scope key) fun array => ?_
  rw [global_array h scope] at array
  cases array

theorem global_shown (key : PropertyKey) : h.shown Intrinsic.global key = fun d => d := by
  refine shown_plain h _ key fun mapped kind => ?_
  cases scope.kind.symm.trans kind

theorem global_bound : h.bound? Intrinsic.globalEnvironment name = h.property? Intrinsic.global (.ofString name) := by
  rw [bound?, scope.record]

theorem global_apart (k : Heap) (key : PropertyKey) (apart : h.Apart Intrinsic.global key k) : k.GlobalScope := by
  refine ⟨?_, ?_, ?_, ?_⟩
  · rw [environment, apart.environments]
    exact scope.record
  · rw [Heap.kind, apart.kind]
    exact scope.kind
  · rw [apart.objects]
    exact scope.known
  · rw [apart.extensible]
    exact scope.opened

-- A property of the global object becomes one with a value, if nothing stands in the way.
theorem global_takes (key : PropertyKey) (v : Value) (c : Bool)
    (free : ∀ d, h.own? Intrinsic.global key = some d → d.configurable = true) :
    ∃ k, h.define Intrinsic.global key (.ofDescriptor (.data v true true c)) = (true, k) ∧
      k.own? Intrinsic.global key = some (.data v true true c) ∧ h.Apart Intrinsic.global key k := by
  have rules := judged_by_rules h _ key (.ofDescriptor (.data v true true c)) scope.known fun _ => rfl
  rw [global_define h scope key]
  have accepted : (h.defineOrdinary Intrinsic.global key (.ofDescriptor (.data v true true c))).1 = true := by
    rw [rules.accepts]
    cases own : h.own? Intrinsic.global key with
    | none => exact scope.opened
    | some d => exact fun fixed => absurd ((free d own).symm.trans fixed) (by decide)
  generalize h.defineOrdinary Intrinsic.global key (.ofDescriptor (.data v true true c)) = result at rules accepted
  obtain ⟨_, k⟩ := result
  cases accepted
  obtain ⟨new, yields, shows⟩ := rules.shows rfl
  have whole : (Definition.ofDescriptor (.data v true true c)).Yields (h.own? Intrinsic.global key)
      (.data v true true c) := by
    exact ⟨(by rintro ⟨⟩), fun _ => rfl, (by rintro _ ⟨⟩), fun _ => rfl, fun _ => rfl, (by rintro ⟨⟩), (by rintro ⟨⟩), rfl, rfl⟩
  refine ⟨k, rfl, ?_, rules.apart⟩
  rw [shows, global_shown h scope, Definition.yields_unique _ _ _ _ yields whole]

-- What was put under a name of the global object.
theorem global_binds (k : Heap) (v : Value) (deletable c : Bool) (apart : h.Apart Intrinsic.global (.ofString name) k)
    (own : k.own? Intrinsic.global (.ofString name) = some (.data v true true c))
    (marks : h.Marks Intrinsic.globalEnvironment name deletable c) :
    h.Binds k Intrinsic.globalEnvironment name v deletable := by
  have scope' := global_apart h scope k _ apart
  have kinds (id : ObjectId) : k.kind id = h.kind id := by
    by_cases here : id = Intrinsic.global
    · rw [here]
      exact apart.kind
    · exact congrArg Object.kind (apart.elsewhere id here)
  refine ⟨.inl ⟨rfl, scope'⟩, ⟨c, ⟨?_, fun _ => own⟩, marks⟩, fun other distinct => ?_, apart.objects, fun id => ?_⟩
  · rw [global_bound k scope', property_step, own, Option.some_or]
  · have keys : PropertyKey.ofString other ≠ .ofString name := fun same => distinct (key_of_text _ _ same)
    have inherited := apart_property h k _ _ apart _ keys Intrinsic.global
    exact ⟨by rw [global_bound k scope', global_bound h scope, inherited], fun _ => apart_own h _ _ k apart _ keys⟩
  · rw [callable?, callable?, kinds]

end


/-! Environments with bindings of their own. -/

section

variable (h : Heap) (env : EnvironmentId) (b : Bindings) (scope : h.LocalScope env b) (name : String)
include scope

theorem local_record : (h.environment env).record = .declarative b := by
  obtain ⟨outer, found⟩ := scope.found
  rw [environment_of h env _ found]

theorem local_bound : h.bound? env name = (Dictionary.find? b name).map Binding.descriptor := by
  rw [bound?, local_record h env b scope]

-- A change of the binding of a name that leaves it mutable.
theorem local_binds (v : Value) (deletable : Bool) (f : Bindings → Bindings) (concerns : Bindings.Concerns f name)
    (state : BindingState) (there : Dictionary.find? (f b) name = some ⟨v, state⟩) (mutable : state.isMutable = true)
    (new : Dictionary.find? b name = none → decide (state = .deletable) = deletable)
    (before : ∀ binding, Dictionary.find? b name = some binding → state = binding.state) :
    (h.modifyBindings env f).LocalScope env (f b) ∧ h.Binds (h.modifyBindings env f) env name v deletable := by
  obtain ⟨outer, found⟩ := scope.found
  have scope' : (h.modifyBindings env f).LocalScope env (f b) := by
    refine ⟨⟨outer, environment_modify_same h env f b outer found⟩, fun other binding found' => ?_, scope.other⟩
    by_cases here : name = other
    · subst here
      cases there.symm.trans found'
      exact mutable
    · rw [concerns.others b other here] at found'
      exact scope.mutable other binding found'
  refine ⟨scope', .inr ⟨f b, scope'⟩, ⟨decide (state = .deletable), ⟨?_, fun same => absurd same scope.other⟩, ?_, ?_, ?_⟩,
    fun other distinct => ⟨?_, fun same => absurd same scope.other⟩, rfl, fun _ => rfl⟩
  · rw [local_bound _ env _ scope', there, Option.map_some, Binding.descriptor, mutable]
  · intro absent
    rw [local_bound h env b scope, Option.map_eq_none_iff] at absent
    exact new absent
  · exact fun _ same => absurd same scope.other
  · intro w old held
    have bound := held.bound
    rw [local_bound h env b scope] at bound
    obtain ⟨binding, found', is⟩ := Option.map_eq_some_iff.mp bound
    injection is with _ _ _ flag
    exact .inr (by rw [before binding found', flag])
  · rw [local_bound _ env _ scope', local_bound h env b scope, concerns.others b other (Ne.symm distinct)]

end

end Heap

/-! Binding one name. -/

section

variable (m : Machine) (r : Realm) (scope : r.heap.GlobalScope) (name : String) (strict deletable : Bool)
include scope

theorem define_global_at (key : PropertyKey) (d : Definition) (throws : Bool)
    (accepted : (r.heap.define Intrinsic.global key d).1 = true) :
    defineOwn Intrinsic.global key d throws m r = .ok true (r.withHeap (r.heap.define Intrinsic.global key d).2) := by
  rw [define_own_ends m r _ key d throws (.inl (r.heap.global_array scope)), accepted]
  rfl

-- A property is made, or made anew.
theorem make_global_at (v : Value) (c : Bool) (throws : Bool)
    (free : ∀ d, r.heap.own? Intrinsic.global (.ofString name) = some d → d.configurable = true) :
    ∃ k, defineOwn Intrinsic.global (.ofString name) (.ofDescriptor (.data v true true c)) throws m r =
        .ok true (r.withHeap k) ∧
      k.own? Intrinsic.global (.ofString name) = some (.data v true true c) ∧
      r.heap.Apart Intrinsic.global (.ofString name) k := by
  obtain ⟨k, defined, own, apart⟩ := r.heap.global_takes scope (.ofString name) v c free
  have is := define_global_at m r scope _ _ throws (congrArg Prod.fst defined)
  rw [defined] at is
  exact ⟨k, is, own, apart⟩

theorem set_global_is (v : Value) :
    setBinding Intrinsic.globalEnvironment name v strict m r = put Intrinsic.global (.ofString name) v strict m r := by
  rw [setBinding, heap_at, scope.record]

theorem set_global_at (x v : Value) (c : Bool)
    (own : r.heap.own? Intrinsic.global (.ofString name) = some (.data x true true c)) :
    ∃ k, setBinding Intrinsic.globalEnvironment name v strict m r = .ok () (r.withHeap k) ∧
      k.own? Intrinsic.global (.ofString name) = some (.data v true true c) ∧
      r.heap.Apart Intrinsic.global (.ofString name) k := by
  have ordinary := r.heap.global_define scope (.ofString name) (.ofValue v)
  have accepted := r.heap.value_accepted _ _ x true c own v
  have shows := r.heap.value_shown _ _ x true c own v
  have apart := (r.heap.value_by_rules _ _ x true c own v).apart
  rw [r.heap.global_shown scope] at shows
  rw [← ordinary] at accepted shows apart
  refine ⟨_, ?_, shows, apart⟩
  rw [set_global_is m r scope]
  refine put_value m r _ _ x true c own v strict (fun array => ?_) accepted
  rw [r.heap.global_array scope] at array
  cases array

-- A property that can be written is inherited; the global object gets one of its own.
theorem add_global_at (v : Value) (absent : r.heap.own? Intrinsic.global (.ofString name) = none) (x : Value) (e c : Bool)
    (inherited : r.heap.property? Intrinsic.global (.ofString name) = some (.data x true e c)) :
    ∃ k, setBinding Intrinsic.globalEnvironment name v strict m r = .ok () (r.withHeap k) ∧
      k.own? Intrinsic.global (.ofString name) = some (.data v true true true) ∧
      r.heap.Apart Intrinsic.global (.ofString name) k := by
  obtain ⟨k, made, own, apart⟩ := make_global_at m r scope name v true strict fun d there => by
    rw [absent] at there
    cases there
  have above := inherited
  rw [Heap.property_step, absent, Option.none_or] at above
  have way : route r.heap Intrinsic.global (.ofString name) = .add := by
    rw [route, absent, canPut, absent, above, scope.opened, inherited]
    rfl
  refine ⟨k, ?_, own, apart⟩
  rw [set_global_is m r scope, put, heap_at, way]
  exact discard_ok _ m r _ true made

theorem create_global_at (free : ∀ d, r.heap.own? Intrinsic.global (.ofString name) = some d → d.configurable = true) :
    ∃ k, createBinding Intrinsic.globalEnvironment name deletable m r = .ok () (r.withHeap k) ∧
      k.own? Intrinsic.global (.ofString name) = some (.data .undefined true true deletable) ∧
      r.heap.Apart Intrinsic.global (.ofString name) k := by
  obtain ⟨k, made, own, apart⟩ := make_global_at m r scope name .undefined deletable true free
  refine ⟨k, ?_, own, apart⟩
  rw [createBinding, heap_at, scope.record]
  exact discard_ok _ m r _ true made

-- Of what the global object has under a name, nothing is in the way.
theorem fresh_global_at (v : Value)
    (free : ∀ d, r.heap.property? Intrinsic.global (.ofString name) = some d → d.configurable = true) :
    ∃ k, (createBinding Intrinsic.globalEnvironment name deletable >>= fun _ =>
        setBinding Intrinsic.globalEnvironment name v strict) m r = .ok () (r.withHeap k) ∧
      r.heap.Binds k Intrinsic.globalEnvironment name v deletable := by
  obtain ⟨k, made, own, apart⟩ := create_global_at m r scope name deletable fun d there => free d (by
    rw [Heap.property_step, there, Option.some_or])
  obtain ⟨l, set, own', apart'⟩ := set_global_at m (r.withHeap k) (r.heap.global_apart scope k _ apart) name strict
    .undefined v deletable own
  refine ⟨l, ?_, r.heap.global_binds scope name l v deletable deletable
    (r.heap.apart_trans k l _ _ apart apart' (by rw [own]; exact Option.some_ne_none _)) own' ⟨?_, ?_, ?_⟩⟩
  · rw [bind_at, made]
    exact set
  · exact fun _ => rfl
  · exact fun _ _ _ _ => rfl
  · exact fun _ _ _ => .inl rfl

theorem function_global_at (f : ObjectId) (unblocked : ¬ r.heap.Blocks name) :
    ∃ k, declareFunction Intrinsic.globalEnvironment strict deletable name f m r = .ok () (r.withHeap k) ∧
      r.heap.Binds k Intrinsic.globalEnvironment name (.object f) deletable := by
  rw [declareFunction, heap_at, r.heap.has_bound, r.heap.global_bound scope]
  cases there : r.heap.property? Intrinsic.global (.ofString name) with
  | none =>
    exact fresh_global_at m r scope name strict deletable (.object f) fun d found => by
      rw [there] at found
      cases found
  | some d =>
    have redeclares : redeclareGlobal name deletable m r = (if d.configurable then
        discard <| defineOwn Intrinsic.global (.ofString name) (.ofDescriptor (.data .undefined true true deletable)) true
      else if blocksFunction d then throwTypeError s!"Cannot redeclare function '{name}'" else pure ()) m r := by
      rw [redeclareGlobal, heap_at, there]
    change ∃ k, (redeclareGlobal name deletable >>= fun _ =>
      setBinding Intrinsic.globalEnvironment name (.object f) strict) m r = .ok () (r.withHeap k) ∧ _
    rw [bind_at, redeclares]
    by_cases configurable : d.configurable = true
    · obtain ⟨k, is, binds⟩ := fresh_global_at m r scope name strict deletable (.object f) fun e found => by
        cases there.symm.trans found
        exact configurable
      rw [createBinding, bind_at, heap_at, scope.record] at is
      rw [if_pos configurable]
      exact ⟨k, is, binds⟩
    · have fixed := eq_false_of_ne_true configurable
      have open' : blocksFunction d = false :=
        eq_false_of_ne_true fun blocks => unblocked ⟨d, there, fixed, blocks⟩
      obtain ⟨x, rfl⟩ : ∃ x, d = .data x true true false := by
        cases d with
        | data x w e c =>
          cases fixed
          cases w <;> cases e <;> cases open'
          exact ⟨x, rfl⟩
        | accessor g s e c => cases open'
      rw [if_neg configurable, open', if_neg Bool.false_ne_true]
      cases own : r.heap.own? Intrinsic.global (.ofString name) with
      | some e =>
        obtain rfl : e = .data x true true false := by
          rw [Heap.property_step, own, Option.some_or] at there
          exact Option.some.inj there
        obtain ⟨k, set, own', apart⟩ := set_global_at m r scope name strict x (.object f) false own
        refine ⟨k, set, r.heap.global_binds scope name k _ deletable false apart own' ⟨?_, ?_, ?_⟩⟩
        · intro absent
          rw [r.heap.global_bound scope, there] at absent
          cases absent
        · intro e _ bound loose
          rw [r.heap.global_bound scope, there] at bound
          cases bound
          cases loose
        · intro w old held
          cases own.symm.trans (held.own rfl)
          exact .inr rfl
      | none =>
        obtain ⟨k, set, own', apart⟩ := add_global_at m r scope name strict (.object f) own x true false there
        refine ⟨k, set, r.heap.global_binds scope name k _ deletable true apart own' ⟨?_, ?_, ?_⟩⟩
        · intro absent
          rw [r.heap.global_bound scope, there] at absent
          cases absent
        · intro e _ bound loose
          rw [r.heap.global_bound scope, there] at bound
          cases bound
          cases loose
        · intro w old held
          cases own.symm.trans (held.own rfl)

theorem function_refused_at (f : ObjectId) (blocked : r.heap.Blocks name) :
    declareFunction Intrinsic.globalEnvironment strict deletable name f m r =
      .error (.thrown (.object r.heap.objects.size)) (r.withError .typeError s!"Cannot redeclare function '{name}'") := by
  obtain ⟨d, there, fixed, blocks⟩ := blocked
  rw [declareFunction, heap_at, r.heap.has_bound, r.heap.global_bound scope, there]
  change (redeclareGlobal name deletable >>= fun _ =>
    setBinding Intrinsic.globalEnvironment name (.object f) strict) m r = _
  rw [bind_at, redeclareGlobal, heap_at, there]
  dsimp only
  rw [fixed, blocks, if_neg Bool.false_ne_true, if_pos rfl, throwTypeError, throw_at]

end

section

variable (m : Machine) (r : Realm) (env : EnvironmentId) (b : Bindings) (scope : r.heap.LocalScope env b) (name : String)
  (strict deletable : Bool)
include scope

theorem set_local_at (v : Value) : setBinding env name v strict m r =
    .ok () (r.withHeap (r.heap.modifyBindings env fun b => b.write name v)) := by
  have allowed : (strict && Dictionary.has b name && !Bindings.canWrite b name) = false := by
    rw [Bindings.canWrite, Bindings.state?]
    cases found : Dictionary.find? b name with
    | none => simp [Dictionary.has, found]
    | some binding => simp [scope.mutable name binding found]
  rw [setBinding, heap_at, r.heap.local_record env b scope]
  dsimp only
  rw [allowed]
  rfl

omit scope in
theorem written_binding (v : Value) (binding : Binding) (found : Dictionary.find? b name = some binding)
    (mutable : binding.state.isMutable = true) :
    Dictionary.find? (Bindings.write b name v) name = some ⟨v, binding.state⟩ := by
  rw [Bindings.write, Dictionary.find_modify, if_pos rfl, found, Option.map_some, if_pos mutable]

theorem set_local_binds (v : Value) (binding : Binding) (found : Dictionary.find? b name = some binding) :
    r.heap.Binds (r.heap.modifyBindings env fun b => b.write name v) env name v deletable := by
  have mutable := scope.mutable name binding found
  refine (r.heap.local_binds env b scope name v deletable _ (Bindings.write_concerns name v) binding.state
    (written_binding b name v binding found mutable) mutable (fun absent => ?_) fun other found' => ?_).2
  · cases absent.symm.trans found
  · cases found.symm.trans found'
    rfl

theorem fresh_local_at (v : Value) (absent : Dictionary.find? b name = none) :
    ∃ k, (createBinding env name deletable >>= fun _ => setBinding env name v strict) m r = .ok () (r.withHeap k) ∧
      r.heap.Binds k env name v deletable := by
  let state : BindingState := if deletable then .deletable else .lasting
  have flags : state.isMutable = true ∧ decide (state = .deletable) = deletable := by
    cases deletable <;> exact ⟨rfl, rfl⟩
  have made : Dictionary.find? (Bindings.createMutable b name deletable) name = some ⟨.undefined, state⟩ := by
    rw [Bindings.createMutable, Bindings.create, Dictionary.has, absent, if_neg (by decide), Dictionary.find_put,
      if_pos rfl]
  obtain ⟨scope', binds⟩ := r.heap.local_binds env b scope name .undefined deletable _
    (Bindings.create_mutable_concerns name deletable) state made flags.1 (fun _ => flags.2) fun binding found => by
      cases absent.symm.trans found
  refine ⟨_, ?_, r.heap.binds_trans _ _ env name deletable .undefined v binds
    (set_local_binds (r.withHeap _) env _ scope' name deletable v _ made)⟩
  rw [createBinding, bind_at, heap_at, r.heap.local_record env b scope]
  exact set_local_at m (r.withHeap _) env _ scope' name strict v

theorem function_local_at (f : ObjectId) :
    ∃ k, declareFunction env strict deletable name f m r = .ok () (r.withHeap k) ∧
      r.heap.Binds k env name (.object f) deletable := by
  rw [declareFunction, heap_at, r.heap.has_bound, r.heap.local_bound env b scope]
  cases found : Dictionary.find? b name with
  | none => exact fresh_local_at m r env b scope name strict deletable (.object f) found
  | some binding =>
    refine ⟨_, ?_, set_local_binds r env b scope name deletable (.object f) binding found⟩
    rw [Option.map_some, Option.isSome_some, Bool.not_true, if_neg Bool.false_ne_true,
      beq_false_of_ne scope.other, if_neg Bool.false_ne_true]
    exact set_local_at m r env b scope name strict (.object f)

end

/-! Declaring one name. -/

section

variable (m : Machine) (r : Realm) (env : EnvironmentId) (declares : r.heap.Declares env) (name : String)
  (strict deletable : Bool)
include declares

theorem declare_function_at (f : ObjectId) (unblocked : env = Intrinsic.globalEnvironment → ¬ r.heap.Blocks name) :
    ∃ k, declareFunction env strict deletable name f m r = .ok () (r.withHeap k) ∧
      r.heap.Binds k env name (.object f) deletable := by
  rcases declares with ⟨rfl, scope⟩ | ⟨b, scope⟩
  · exact function_global_at m r scope name strict deletable f (unblocked rfl)
  · exact function_local_at m r env b scope name strict deletable f

theorem declare_variable_at (absent : r.heap.bound? env name = none) :
    ∃ k, (createBinding env name deletable >>= fun _ => setBinding env name .undefined strict) m r =
        .ok () (r.withHeap k) ∧
      r.heap.Binds k env name .undefined deletable := by
  rcases declares with ⟨rfl, scope⟩ | ⟨b, scope⟩
  · rw [r.heap.global_bound scope] at absent
    refine fresh_global_at m r scope name strict deletable .undefined fun d found => ?_
    rw [absent] at found
    cases found
  · rw [r.heap.local_bound env b scope, Option.map_eq_none_iff] at absent
    exact fresh_local_at m r env b scope name strict deletable .undefined absent

end

/-! Declaring functions. -/

/-- The last of some functions with a name. -/
def lastNamed (name : String) : List Routine → Option Routine
  | [] => none
  | routine :: rest => (lastNamed name rest).or (if routine.header.name = some name then some routine else none)

section

variable (name : String) (routine : Routine) (rest : List Routine)

theorem last_named_rest (other : routine.header.name ≠ some name) :
    lastNamed name (routine :: rest) = lastNamed name rest := by
  rw [lastNamed, if_neg other, Option.or_none]

theorem last_named_here (named : routine.header.name = some name) :
    lastNamed name (routine :: rest) = some ((lastNamed name rest).getD routine) := by
  rw [lastNamed, if_pos named]
  cases lastNamed name rest <;> rfl

end

theorem last_named_member (name : String) (routines : List Routine) :
    lastNamed name routines ≠ none ↔ name ∈ routines.filterMap fun f => f.header.name := by
  induction routines with
  | nil => exact iff_of_false (fun named => named rfl) List.not_mem_nil
  | cons routine rest hyp =>
    by_cases here : routine.header.name = some name
    · rw [last_named_here name routine rest here, List.filterMap_cons, here]
      exact iff_of_true (Option.some_ne_none _) List.mem_cons_self
    · rw [last_named_rest name routine rest here, hyp, List.filterMap_cons]
      cases named : routine.header.name with
      | none => rfl
      | some other =>
        refine ⟨List.mem_cons_of_mem _, fun member => (List.mem_cons.mp member).resolve_left ?_⟩
        rintro rfl
        exact here named

namespace Heap

/-- Functions have been declared: each name stands for the last function with it. -/
structure FunctionsBound (h k : Heap) (env : EnvironmentId) (deletable : Bool) (routines : List Routine) : Prop where
  declares : k.Declares env
  size : h.objects.size ≤ k.objects.size
  callable : ∀ id < h.objects.size, k.callable? id = h.callable? id
  last : ∀ name routine, lastNamed name routines = some routine →
    ∃ f c, h.objects.size ≤ f ∧ f < k.objects.size ∧ k.callable? f = some (.script routine env) ∧
      k.Holds env name (.object f) c ∧ h.Marks env name deletable c
  others : ∀ name, lastNamed name routines = none → h.SameUnder k env name

/-- Variables have been declared: those that are new are undefined. -/
structure VariablesBound (h k : Heap) (env : EnvironmentId) (deletable : Bool) (names : List String) : Prop where
  declares : k.Declares env
  callable : ∀ id, k.callable? id = h.callable? id
  new : ∀ name ∈ names, h.bound? env name = none → k.Holds env name .undefined deletable
  kept : ∀ name, name ∉ names ∨ h.bound? env name ≠ none → h.SameUnder k env name

section

variable (h k : Heap) (env : EnvironmentId) (adds : h.Adds k) (declares : h.Declares env)
include adds declares

theorem adds_same (name : String) : h.SameUnder k env name := by
  rcases declares with ⟨rfl, scope⟩ | ⟨b, scope⟩
  · refine ⟨?_, fun _ => own_kept h _ _ k (adds.object _ scope.known) adds.stores⟩
    rw [bound?, bound?, environment, adds.stores.2, ← environment, scope.record]
    exact adds_property h Intrinsic.global (.ofString name) k adds scope.known
  · refine ⟨?_, fun global => absurd global scope.other⟩
    rw [bound?, bound?, environment, adds.stores.2, ← environment, local_record h env b scope]

theorem adds_declares : k.Declares env := by
  rcases declares with ⟨rfl, scope⟩ | ⟨b, scope⟩
  · refine .inl ⟨rfl, ?_, ?_, Nat.lt_of_lt_of_le scope.known adds.size, ?_⟩
    · rw [environment, adds.stores.2]
      exact scope.record
    · rw [Heap.kind, adds.object _ scope.known]
      exact scope.kind
    · rw [adds.object _ scope.known]
      exact scope.opened
  · refine .inr ⟨b, ?_, scope.mutable, scope.other⟩
    rw [adds.stores.2]
    exact scope.found

omit declares in
theorem adds_callable (id : ObjectId) (known : id < h.objects.size) : k.callable? id = h.callable? id := by
  rw [callable?, callable?, Heap.kind, Heap.kind, adds.object id known]

end

theorem global_declares (h : Heap) (declares : h.Declares Intrinsic.globalEnvironment) : h.GlobalScope := by
  rcases declares with ⟨_, scope⟩ | ⟨b, scope⟩
  · exact scope
  · exact absurd rfl scope.other

theorem blocks_same (h k : Heap) (before : h.Declares Intrinsic.globalEnvironment)
    (after : k.Declares Intrinsic.globalEnvironment) (name : String)
    (same : h.SameUnder k Intrinsic.globalEnvironment name) : k.Blocks name ↔ h.Blocks name := by
  have bound := same.bound
  rw [global_bound k (global_declares k after), global_bound h (global_declares h before)] at bound
  rw [Blocks, Blocks, bound]

-- A function can be declared anew.
theorem holds_unblocked (h : Heap) (declares : h.Declares Intrinsic.globalEnvironment) (name : String) (v : Value) (c : Bool)
    (held : h.Holds Intrinsic.globalEnvironment name v c) : ¬ h.Blocks name := by
  rintro ⟨d, there, _, blocks⟩
  have bound := held.bound
  rw [global_bound h (global_declares h declares), there] at bound
  cases bound
  cases blocks

-- A function without a name is not declared.
theorem functions_skip (h k : Heap) (env : EnvironmentId) (deletable : Bool) (routine : Routine) (rest : List Routine)
    (unnamed : routine.header.name = none) (after : h.FunctionsBound k env deletable rest) :
    h.FunctionsBound k env deletable (routine :: rest) := by
  have skips (name : String) : lastNamed name (routine :: rest) = lastNamed name rest :=
    last_named_rest name routine rest (by rw [unnamed]; exact (Option.some_ne_none name).symm)
  refine ⟨after.declares, after.size, after.callable, fun name routine' last => ?_, fun name none' => ?_⟩
  · rw [skips] at last
    exact after.last name routine' last
  · rw [skips] at none'
    exact after.others name none'

-- The first of some functions and the rest of them.
theorem functions_cons (h j k l : Heap) (env : EnvironmentId) (deletable : Bool) (routine : Routine) (rest : List Routine)
    (name : String) (named : routine.header.name = some name) (declares : h.Declares env) (adds : h.Adds j)
    (larger : h.objects.size < j.objects.size) (made : j.callable? h.objects.size = some (.script routine env))
    (binds : j.Binds k env name (.object h.objects.size) deletable) (after : k.FunctionsBound l env deletable rest) :
    h.FunctionsBound l env deletable (routine :: rest) := by
  obtain ⟨c, held, marks⟩ := binds.here
  have known : h.objects.size < k.objects.size := by
    rw [binds.size]
    exact larger
  have marks' := marks_same h j env name deletable c (adds_same h j env adds declares name) marks
  have same (other : String) (distinct : other ≠ name) : h.SameUnder k env other :=
    same_under_trans h j k env other (adds_same h j env adds declares other) (binds.others other distinct)
  refine ⟨after.declares, Nat.le_trans (Nat.le_of_lt known) after.size, fun id less => ?_, fun other r' last => ?_,
    fun other none' => ?_⟩
  · rw [after.callable id (Nat.lt_trans less known), binds.callable, adds_callable h j adds id less]
  · by_cases here : other = name
    · subst here
      cases later : lastNamed other rest with
      | some r'' =>
        rw [last_named_here other routine rest named, later] at last
        cases last
        obtain ⟨f, c', above, below, callable, held', marks''⟩ := after.last other _ later
        exact ⟨f, c', Nat.le_trans (Nat.le_of_lt known) above, below, callable, held',
          marks_trans h k env other deletable _ c c' marks' held marks''⟩
      | none =>
        rw [last_named_here other routine rest named, later] at last
        cases last
        refine ⟨h.objects.size, c, Nat.le_refl _, Nat.lt_of_lt_of_le known after.size, ?_,
          holds_same k l env other _ c (after.others other later) held, marks'⟩
        rw [after.callable _ known, binds.callable]
        exact made
    · rw [last_named_rest other routine rest (by rw [named]; exact fun is => here (Option.some.inj is).symm)] at last
      obtain ⟨f, c', above, below, callable, held', marks''⟩ := after.last other _ last
      exact ⟨f, c', Nat.le_trans (Nat.le_of_lt known) above, below, callable, held',
        marks_same h k env other deletable c' (same other here) marks''⟩
  · have distinct : other ≠ name := by
      rintro rfl
      rw [last_named_here other routine rest named] at none'
      cases none'
    rw [last_named_rest other routine rest (by rw [named]; exact fun is => distinct (Option.some.inj is).symm)] at none'
    exact same_under_trans h k l env other (same other distinct) (after.others other none')

end Heap

-- Two objects are added, and the first gets some more properties.
theorem pair_adds (h : Heap) (o p : Object) (f : PropertyTable → PropertyTable) :
    h.Adds (((h.addObject o).2.addObject p).2.modifyProperties h.objects.size f) ∧
      (((h.addObject o).2.addObject p).2.modifyProperties h.objects.size f).objects.size = h.objects.size + 2 ∧
      (((h.addObject o).2.addObject p).2.modifyProperties h.objects.size f).kind h.objects.size = o.kind ∧
      (((h.addObject o).2.addObject p).2.modifyProperties h.objects.size f).kind (h.objects.size + 1) = p.kind := by
  have first : (h.addObject o).2.objects.size = h.objects.size + 1 := Array.size_push o
  have second : ((h.addObject o).2.addObject p).2.objects.size = h.objects.size + 1 + 1 :=
    (Array.size_push p).trans (congrArg (· + 1) first)
  have size : (((h.addObject o).2.addObject p).2.modifyProperties h.objects.size f).objects.size = h.objects.size + 1 + 1 :=
    (Heap.size_modify _ _ _).trans second
  refine ⟨⟨by omega, fun id known => ?_, rfl, rfl⟩, size, ?_, ?_⟩
  · rw [Heap.modify_properties_object, if_neg fun both => Nat.ne_of_lt known both.1.symm,
      Heap.object_add_known (h.addObject o).2 p id (first ▸ Nat.lt_succ_of_lt known), Heap.object_add_known h o id known]
  · rw [Heap.kind, Heap.modify_properties_object, if_pos ⟨rfl, second ▸ Nat.lt_succ_of_lt (Nat.lt_succ_self _)⟩,
      Heap.object_add_known (h.addObject o).2 p _ (first ▸ Nat.lt_succ_self _), Heap.object_add, if_pos rfl]
  · rw [Heap.kind, Heap.modify_properties_object, if_neg fun both => Nat.ne_of_lt (Nat.lt_succ_self _) both.1,
      Heap.object_add, if_pos first.symm]

/-- A function is made together with its prototype. -/
theorem function_made (routine : Routine) (scope : EnvironmentId) (m : Machine) (r : Realm) :
    ∃ k, newFunction routine scope m r = .ok r.heap.objects.size (r.withHeap k) ∧ r.heap.Adds k ∧
      k.objects.size = r.heap.objects.size + 2 ∧ k.kind r.heap.objects.size = .function (.script routine scope) ∧
      k.kind (r.heap.objects.size + 1) = .ordinary := by
  exact ⟨_, rfl, pair_adds r.heap _ _ _⟩

section

variable (m : Machine) (env : EnvironmentId) (strict deletable : Bool)

/-- Functions are declared one after the other, up to the first one whose name is blocked. -/
theorem declare_functions_at (routines : List Routine) (r : Realm) (declares : r.heap.Declares env) :
    (∃ k, declareFunctions env strict deletable routines m r = .ok () (r.withHeap k) ∧
        r.heap.FunctionsBound k env deletable routines ∧
        (env = Intrinsic.globalEnvironment → ∀ name, lastNamed name routines ≠ none → ¬ r.heap.Blocks name)) ∨
      env = Intrinsic.globalEnvironment ∧ ∃ before routine after name k, routines = before ++ routine :: after ∧
        routine.header.name = some name ∧ r.heap.Blocks name ∧ k.Blocks name ∧
        r.heap.FunctionsBound k env deletable before ∧
        declareFunctions env strict deletable routines m r = .error (.thrown (.object k.objects.size))
          ((r.withHeap k).withError .typeError s!"Cannot redeclare function '{name}'") := by
  induction routines generalizing r with
  | nil =>
    refine .inl ⟨r.heap, rfl, ⟨declares, Nat.le_refl _, fun _ _ => rfl, fun name routine last => ?_,
      fun _ _ => ⟨rfl, fun _ => rfl⟩⟩, fun _ name named => absurd rfl named⟩
    cases last
  | cons routine rest hyp =>
    cases named : routine.header.name with
    | none =>
      have is : declareFunctions env strict deletable (routine :: rest) m r =
          declareFunctions env strict deletable rest m r := by
        rw [declareFunctions, named]
      have skips (name : String) : lastNamed name (routine :: rest) = lastNamed name rest :=
        last_named_rest name routine rest (by rw [named]; exact (Option.some_ne_none name).symm)
      rw [is]
      rcases hyp r declares with ⟨k, ends, bound, free⟩ | ⟨global, before, routine', after, name, k, split, named', blocked,
        blocked', bound, ends⟩
      · refine .inl ⟨k, ends, r.heap.functions_skip k env deletable routine rest named bound, fun global name last => ?_⟩
        rw [skips] at last
        exact free global name last
      · exact .inr ⟨global, routine :: before, routine', after, name, k, congrArg (routine :: ·) split, named', blocked,
          blocked', r.heap.functions_skip k env deletable routine before named bound, ends⟩
    | some name =>
      obtain ⟨j, made, adds, size, kind, _⟩ := function_made routine env m r
      have larger : r.heap.objects.size < j.objects.size := by omega
      have callable : j.callable? r.heap.objects.size = some (.script routine env) := by rw [Heap.callable?, kind]; rfl
      have declares' := r.heap.adds_declares j env adds declares
      have same := r.heap.adds_same j env adds declares
      have step : declareFunctions env strict deletable (routine :: rest) m r =
          (declareFunction env strict deletable name r.heap.objects.size >>= fun _ =>
            declareFunctions env strict deletable rest) m (r.withHeap j) := by
        rw [declareFunctions, named]
        dsimp only
        rw [bind_at, made]
      by_cases blocks : env = Intrinsic.globalEnvironment ∧ r.heap.Blocks name
      · obtain ⟨rfl, blocked⟩ := blocks
        have blocked' : j.Blocks name := (r.heap.blocks_same j declares declares' name (same name)).mpr blocked
        refine .inr ⟨rfl, [], routine, rest, name, j, rfl, named, blocked, blocked', ⟨declares', adds.size,
          r.heap.adds_callable j adds, fun name routine last => ?_, fun other _ => same other⟩, ?_⟩
        · cases last
        · rw [step, bind_at, function_refused_at m (r.withHeap j) (j.global_declares declares') name strict deletable _
            blocked']
          rfl
      · obtain ⟨k, declared, binds⟩ := declare_function_at m (r.withHeap j) env declares' name strict deletable
          r.heap.objects.size fun global blocked => blocks ⟨global, by
            subst global
            exact (r.heap.blocks_same j declares declares' name (same name)).mp blocked⟩
        have all (l : Heap) (more : List Routine) (bound : k.FunctionsBound l env deletable more) :=
          r.heap.functions_cons j k l env deletable routine more name named declares adds larger callable binds bound
        have others (global : env = Intrinsic.globalEnvironment) (other : String) (distinct : other ≠ name) :
            k.Blocks other ↔ r.heap.Blocks other := by
          subst global
          exact r.heap.blocks_same k declares binds.declares other
            (r.heap.same_under_trans j k _ other (same other) (binds.others other distinct))
        rw [step, bind_at, declared]
        rcases hyp (r.withHeap k) binds.declares with ⟨l, ends, bound, free⟩ | ⟨global, before, routine', after, name', l,
          split, named', blocked, blocked', bound, ends⟩
        · refine .inl ⟨l, ends, all l rest bound, fun global other last blocked => ?_⟩
          by_cases here : other = name
          · exact blocks ⟨global, here ▸ blocked⟩
          · refine free global other (fun none' => last ?_) ((others global other here).mpr blocked)
            rw [last_named_rest other routine rest (by rw [named]; exact fun is => here (Option.some.inj is).symm), none']
        · have here : name' ≠ name := by
            -- a name that has been declared is not blocked
            rintro rfl
            obtain ⟨c, held, _⟩ := binds.here
            subst global
            exact k.holds_unblocked binds.declares name' _ c held blocked
          exact .inr ⟨global, routine :: before, routine', after, name', l, congrArg (routine :: ·) split, named',
            (others global name' here).mp blocked, blocked', all l before bound, ends⟩

/-- Variables are declared that are not bound yet. -/
theorem declare_variables_at (names : List String) (r : Realm) (declares : r.heap.Declares env) :
    ∃ k, declareVariables env strict deletable names m r = .ok () (r.withHeap k) ∧
      r.heap.VariablesBound k env deletable names := by
  induction names generalizing r with
  | nil => exact ⟨r.heap, rfl, declares, fun _ => rfl, fun name member => absurd member List.not_mem_nil,
      fun _ _ => ⟨rfl, fun _ => rfl⟩⟩
  | cons name rest hyp =>
    cases bound : r.heap.bound? env name with
    | some d =>
      obtain ⟨k, ends, after⟩ := hyp r declares
      have is : declareVariables env strict deletable (name :: rest) m r =
          declareVariables env strict deletable rest m r := by
        rw [declareVariables, heap_at, r.heap.has_bound, bound]
        rfl
      refine ⟨k, is.trans ends, after.declares, after.callable, fun other member absent => ?_, fun other either => ?_⟩
      · rcases List.mem_cons.mp member with rfl | later
        · cases bound.symm.trans absent
        · exact after.new other later absent
      · refine after.kept other (either.imp_left fun apart member => apart (List.mem_cons_of_mem _ member))
    | none =>
      obtain ⟨j, declared, binds⟩ := declare_variable_at m r env declares name strict deletable bound
      obtain ⟨k, ends, after⟩ := hyp (r.withHeap j) binds.declares
      obtain ⟨c, held, marks⟩ := binds.here
      cases marks.new bound
      have kept : j.SameUnder k env name := after.kept name (.inr fun absent => by
        cases held.bound.symm.trans absent)
      have is : declareVariables env strict deletable (name :: rest) m r =
          declareVariables env strict deletable rest m (r.withHeap j) := by
        rw [declareVariables, heap_at, r.heap.has_bound, bound]
        change (createBinding env name deletable >>= fun _ => setBinding env name .undefined strict >>= fun _ =>
          declareVariables env strict deletable rest) m r = _
        rw [bind_at] at declared ⊢
        cases made : createBinding env name deletable m r with
        | ok u s =>
          rw [made] at declared
          dsimp only at declared ⊢
          rw [bind_at, declared]
        | error e s =>
          rw [made] at declared
          cases declared
      refine ⟨k, is.trans ends, after.declares, fun id => (after.callable id).trans (binds.callable id),
        fun other member absent => ?_, fun other either => ?_⟩
      · by_cases here : other = name
        · subst here
          exact j.holds_same k env other _ _ kept held
        · have same := binds.others other here
          refine after.new other ((List.mem_cons.mp member).resolve_left here) (same.bound.trans absent)
      · have here : other ≠ name := by
          rintro rfl
          rcases either with apart | there
          · exact apart List.mem_cons_self
          · exact there bound
        have same := binds.others other here
        refine r.heap.same_under_trans j k env other same (after.kept other ?_)
        exact either.imp (fun apart member => apart (List.mem_cons_of_mem _ member)) fun there absent =>
          there (same.bound.symm.trans absent)

end

/-! What has been declared. -/

section

variable (m : Machine) (r : Realm) (env : EnvironmentId) (declares : r.heap.Declares env) (name : String) (v : Value)
  (c : Bool) (held : r.heap.Holds env name v c)
include declares held

theorem holds_read (strict : Bool) : getBinding env name strict m r = .ok v r := by
  rcases declares with ⟨rfl, scope⟩ | ⟨b, scope⟩
  · have there : r.heap.hasProperty Intrinsic.global (.ofString name) = true := by
      rw [Heap.hasProperty, Heap.property_step, held.own rfl]
      rfl
    rw [getBinding, heap_at, scope.record]
    dsimp only
    rw [there, if_pos rfl]
    refine get_value m r _ _ v true c (held.own rfl) fun _ => ?_
    rw [guardsCaller, scope.kind]
  · have bound := held.bound
    rw [r.heap.local_bound env b scope] at bound
    obtain ⟨binding, found, is⟩ := Option.map_eq_some_iff.mp bound
    injection is with value mutable
    have ready : binding.state ≠ .uninitialized := by
      intro is
      rw [is] at mutable
      cases mutable
    rw [getBinding, heap_at, r.heap.local_record env b scope]
    dsimp only
    rw [found]
    dsimp only
    rw [if_neg ready, value]
    rfl

theorem holds_deleted : ∃ k, deleteBinding env name m r = .ok c (r.withHeap k) := by
  rcases declares with ⟨rfl, scope⟩ | ⟨b, scope⟩
  · refine ⟨(r.heap.delete Intrinsic.global (.ofString name)).2, ?_⟩
    have gone : (r.heap.delete Intrinsic.global (.ofString name)).1 = c := by
      rw [Heap.delete, held.own rfl]
      cases c <;> rfl
    rw [deleteBinding, heap_at, scope.record, ← gone]
    change (if (!(r.heap.delete _ _).1 && false) = true then _ else _ : Run Bool) m _ = _
    rw [Bool.and_false, if_neg Bool.false_ne_true]
    rfl
  · have bound := held.bound
    rw [r.heap.local_bound env b scope] at bound
    obtain ⟨binding, found, is⟩ := Option.map_eq_some_iff.mp bound
    injection is with _ _ _ flag
    have may : Bindings.canDelete b name = c := by
      rw [Bindings.canDelete, Bindings.state?, found]
      exact flag
    refine ⟨r.heap.modifyBindings env fun b => b.delete name, ?_⟩
    rw [deleteBinding, heap_at, r.heap.local_record env b scope, ← may]
    rfl

end

namespace Heap

/-- Code has declared its functions and variables. Each name of a function stands for a new function object, that of the
last function with it; a variable that is new is undefined; and what had been bound otherwise has not changed. -/
structure Declared (h k : Heap) (env : EnvironmentId) (deletable : Bool) (routine : Routine) : Prop where
  functions : ∀ name f, lastNamed name routine.functions = some f → ∃ id c, h.objects.size ≤ id ∧
    k.callable? id = some (.script f env) ∧ k.Holds env name (.object id) c ∧ h.Marks env name deletable c
  fresh : ∀ name ∈ routine.header.variables, lastNamed name routine.functions = none → h.bound? env name = none →
    k.Holds env name .undefined deletable
  kept : ∀ name, lastNamed name routine.functions = none →
    name ∉ routine.header.variables ∨ h.bound? env name ≠ none → h.SameUnder k env name
  declares : k.Declares env

/-- A function is to be declared under a global name that is blocked. -/
def Obstructed (h : Heap) (env : EnvironmentId) (routine : Routine) : Prop :=
  env = Intrinsic.globalEnvironment ∧ ∃ name, lastNamed name routine.functions ≠ none ∧ h.Blocks name

theorem functions_variables (h j k : Heap) (env : EnvironmentId) (deletable : Bool) (routine : Routine)
    (first : h.FunctionsBound j env deletable routine.functions)
    (second : j.VariablesBound k env deletable routine.header.variables) : h.Declared k env deletable routine := by
  refine ⟨fun name f last => ?_, fun name member none' absent => ?_, fun name none' either => ?_, second.declares⟩
  · obtain ⟨id, c, above, _, callable, held, marks⟩ := first.last name f last
    have kept := second.kept name (.inr fun absent => by cases held.bound.symm.trans absent)
    exact ⟨id, c, above, (second.callable id).trans callable, j.holds_same k env name _ c kept held, marks⟩
  · exact second.new name member ((first.others name none').bound.trans absent)
  · have same := first.others name none'
    refine h.same_under_trans j k env name same (second.kept name (either.imp_right fun there absent => there ?_))
    exact same.bound.symm.trans absent

end Heap

-- A name stands for the last of the functions with it.
theorem last_named_append (name : String) (before after : List Routine) : lastNamed name (before ++ after) =
    (lastNamed name after).or (lastNamed name before) := by
  induction before with
  | nil => exact (Option.or_none).symm
  | cons routine rest hyp => rw [List.cons_append, lastNamed, lastNamed, hyp, Option.or_assoc]

theorem error_adds (r : Realm) (kind : ErrorKind) (message : String) : r.heap.Adds (r.withError kind message).heap := by
  exact Heap.object_adds r.heap _

section

variable (m : Machine) (r : Realm) (env : EnvironmentId) (declares : r.heap.Declares env) (routine : Routine)
  (deletable : Bool)
include declares

/-- Unless the name of a function is blocked, declaring succeeds. -/
theorem declare_succeeds (free : ¬ r.heap.Obstructed env routine) :
    ∃ k, declare routine env deletable m r = .ok () (r.withHeap k) ∧ r.heap.Declared k env deletable routine := by
  rcases declare_functions_at m env routine.header.strict deletable routine.functions r declares with
    ⟨j, ends, first, _⟩ | ⟨global, before, f, after, name, k, split, named, blocked, _⟩
  · obtain ⟨k, ends', second⟩ := declare_variables_at m env routine.header.strict deletable routine.header.variables
      (r.withHeap j) first.declares
    refine ⟨k, ?_, r.heap.functions_variables j k env deletable routine first second⟩
    rw [declare, bind_at, ends]
    exact ends'
  · refine absurd ⟨global, name, ?_, blocked⟩ free
    rw [split, last_named_append, last_named_here name f after named]
    exact Option.some_ne_none _

/-- Otherwise it fails at the first such function, and only those before it have been declared. -/
theorem declare_fails (obstructed : r.heap.Obstructed env routine) :
    ∃ before f after name k, routine.functions = before ++ f :: after ∧ f.header.name = some name ∧ k.Blocks name ∧
      r.heap.FunctionsBound k env deletable before ∧
      declare routine env deletable m r = .error (.thrown (.object k.objects.size))
        ((r.withHeap k).withError .typeError s!"Cannot redeclare function '{name}'") ∧
      ∀ other, lastNamed other before = none →
        r.heap.SameUnder ((r.withHeap k).withError .typeError s!"Cannot redeclare function '{name}'").heap env other := by
  obtain ⟨global, blocked, last, blocks⟩ := obstructed
  rcases declare_functions_at m env routine.header.strict deletable routine.functions r declares with
    ⟨_, _, _, free⟩ | ⟨_, before, f, after, name, k, split, named, _, blocks', bound, ends⟩
  · exact absurd blocks (free global blocked last)
  · refine ⟨before, f, after, name, k, split, named, blocks', bound, ?_, fun other none' => ?_⟩
    · rw [declare, bind_at, ends]
    · exact r.heap.same_under_trans k _ env other (bound.others other none')
        (k.adds_same _ env (error_adds (r.withHeap k) _ _) bound.declares other)

end

end Ecma
