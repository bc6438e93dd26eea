import Ecma.Heap.References
import Ecma.Proofs.Heap.Ordinary
import Ecma.Proofs.Reach.Execution
import Ecma.Proofs.Realm.Grounded
import Ecma.Proofs.Storage.Transparency

set_option autoImplicit false

/-!
What a host does with two realms that agree on a part, between the runs of code that it starts.
-/

namespace Ecma

open Ecma.Program Run

/-- An outcome that leads to nothing but what belongs to the part. -/
def Outcome.Near (w : Reach) : Outcome → Prop
  | .entry (.ok v) => v.Near w
  | .entry (.error f) => ∀ v, f.value? = some v → v.Near w
  | _ => True

/-- The host hands in nothing but what belongs to the part. -/
def Use.Near (w : Reach) : Use → Prop
  | .call f this args => f.Near w ∧ this.Near w ∧ Values.Near w args
  | .handler _ args => Values.Near w args
  | .display v => v.Near w
  | _ => True

/-- The same is given twice, and the realms are alike afterwards. -/
structure Twice {α : Type} (w : Reach) (gives : α → Prop) (c : Context) (waiting : List Context)
    (a b : α × Realm) : Prop where
  result : b.1 = a.1
  given : gives a.1
  realm : a.2.Alike w c waiting b.2

section

variable {w : Reach} {c : Context} {waiting : List Context}

theorem twice_map {α β : Type} (f : α → β) (gives : α → Prop) (gives' : β → Prop) (a b : α × Realm)
    (twice : Twice w gives c waiting a b) (imp : ∀ x, gives x → gives' (f x)) :
    Twice w gives' c waiting (a.map f id) (b.map f id) := by
  exact ⟨congrArg f twice.result, imp _ twice.given, twice.realm⟩

variable {host : HostFunction} (hosted : host.Oblivious)
include hosted

theorem on_blind {α : Type} (x : Run α) (gives : α → Prop)
    (blind : ∀ m, Machine.Fits w m → Oblivious w m c x gives) (r s : Realm) (alike : r.Alike w c waiting s) :
    Ends w gives c waiting (x.on host r) (x.on host s) := by
  exact blind _ (machine_fits hosted w boundless boundless) waiting r s alike

section

variable (r s : Realm) (alike : r.Alike w c waiting s)
include alike

omit hosted in
theorem alike_depth : r.depth = waiting.length ∧ s.depth = waiting.length := by
  exact ⟨congrArg List.length alike.waiting, congrArg List.length ((same_waiting r s alike.same).trans alike.waiting)⟩

-- There is nothing to leave after an entry.
omit hosted in
theorem unwind_alike (depth : Nat) (same : depth = waiting.length) : unwindTo depth r = r ∧ unwindTo depth s = s := by
  obtain ⟨first, second⟩ := alike_depth r s alike
  exact ⟨Storage.unwind_same depth r (first.trans same.symm), Storage.unwind_same depth s (second.trans same.symm)⟩

theorem display_twice (v : Value) (near : v.Near w) :
    Twice w Whatever c waiting (r.display host v) (s.display host v) := by
  obtain ⟨first, second⟩ := alike_depth r s alike
  have ends := on_blind hosted _ Whatever (fun m fits => still_blind fits (display_run_tame v near)) r s alike
  rw [Realm.display, Realm.display, first, second]
  generalize (Realm.displayRun v).on host r = result at ends ⊢
  generalize (Realm.displayRun v).on host s = result' at ends ⊢
  cases ends with
  | ok text r' s' _ after => exact ⟨rfl, trivial, after⟩
  | error e r' s' _ after =>
    obtain ⟨left, left'⟩ := unwind_alike r' s' after waiting.length rfl
    dsimp only
    rw [left, left']
    exact ⟨Heap.display_alike r'.heap s'.heap after.heap.part v near, trivial, after⟩

theorem finish_twice (x : Run Value) (blind : ∀ m, Machine.Fits w m → Oblivious w m c x (Value.Near w)) :
    Twice w (fun e => (Outcome.entry e).Near w) c waiting (Realm.finish host r.depth .resolved (x.on host r))
      (Realm.finish host s.depth .resolved (x.on host s)) := by
  obtain ⟨first, second⟩ := alike_depth r s alike
  have ends := on_blind hosted x _ blind r s alike
  rw [first, second]
  generalize x.on host r = result at ends ⊢
  generalize x.on host s = result' at ends ⊢
  cases ends with
  | ok v r' s' near after => exact ⟨rfl, near, after⟩
  | error e r' s' near after =>
    obtain ⟨left, left'⟩ := unwind_alike r' s' after waiting.length rfl
    delta Realm.finish
    dsimp only
    rw [left, left']
    cases e with
    | thrown v =>
      obtain ⟨same, _, after'⟩ := display_twice hosted r' s' after v near
      dsimp only
      rw [same]
      refine ⟨rfl, fun u is => ?_, after'⟩
      cases is
      exact near
    | stackOverflow v =>
      refine ⟨rfl, fun u is => ?_, after⟩
      cases is
      exact near
    | _ => exact ⟨rfl, nofun, after⟩

omit hosted in
theorem reset_alike : r.resetSteps.Alike w c waiting s.resetSteps := by
  refine ⟨alike.heap, ?_, alike.running, alike.waiting, alike.handlers⟩
  rw [alike.same]
  rfl

theorem call_twice (f this : Value) (args : List Value) (callee : f.Near w) (receiver : this.Near w)
    (all : Values.Near w args) : Twice w (fun e => (Outcome.entry e).Near w) c waiting
      (r.callFunction host f this args) (s.callFunction host f this args) := by
  exact finish_twice hosted _ _ (reset_alike r s alike) _ fun m fits =>
    still_blind fits (call_tame f this args callee receiver all)

theorem evaluate_twice (text filename : String) : Twice w (fun e => (Outcome.entry e).Near w) c waiting
    (r.evaluateProgram host text filename) (s.evaluateProgram host text filename) := by
  delta Realm.evaluateProgram
  rw [same_config r s alike.same]
  cases Syntax.parseProgram text filename r.config.collapse with
  | error e => exact ⟨rfl, nofun, alike⟩
  | ok parsed =>
    refine finish_twice hosted _ _ (reset_alike r s alike) _ fun m fits => fits.enter c _ ?_
    exact ⟨compile_plain parsed, w.global, w.global, w.intrinsic Intrinsic.global (by decide)⟩

theorem perform_twice (use : Use) (near : use.Near w) :
    Twice w (Outcome.Near w) c waiting (use.perform host .resolved r) (use.perform host .resolved s) := by
  cases use with
  | evaluate text filename => exact twice_map _ _ _ _ _ (evaluate_twice hosted r s alike text filename) fun _ held => held
  | call f this args =>
    exact twice_map _ _ _ _ _ (call_twice hosted r s alike f this args near.1 near.2.1 near.2.2) fun _ held => held
  | handler name args =>
    refine twice_map _ (fun e => (Outcome.entry e).Near w) _ _ _ ?_ fun _ held => held
    rw [same_handlers r s alike.same]
    cases found : r.handlers.find? name with
    | none => exact ⟨rfl, trivial, alike⟩
    | some handler =>
      have callee := Dictionary.all_find _ _ alike.handlers name handler found
      dsimp only
      rw [Heap.is_callable_alike r.heap s.heap alike.heap.part handler callee]
      split
      · exact call_twice hosted r s alike handler .undefined args callee trivial near
      · exact ⟨rfl, trivial, alike⟩
  | global name =>
    refine twice_map _ _ _ _ _ (finish_twice hosted r s alike _ fun m fits => ?_) fun _ held => held
    exact still_blind fits (get_tame _ _ (w.intrinsic Intrinsic.global (by decide)))
  | display v => exact twice_map _ _ _ _ _ (display_twice hosted r s alike v near) fun _ _ => trivial
  | register name word =>
    refine ⟨rfl, trivial, alike.heap, ?_, alike.running, alike.waiting, alike.handlers⟩
    exact congrArg (Realm.register name word) alike.same
  | unregister name =>
    have same : (s.unregister name).1 = (r.unregister name).1 := by
      rw [alike.same]
      rfl
    refine ⟨congrArg Outcome.found same, trivial, alike.heap, ?_, alike.running, alike.waiting, alike.handlers⟩
    exact congrArg (fun t => (Realm.unregister name t).2) alike.same
  | takeOutput =>
    have same : s.takeOutput.1 = r.takeOutput.1 := by
      rw [alike.same]
      rfl
    refine ⟨congrArg (fun texts : String × String => Outcome.output texts.1 texts.2) same, trivial, alike.heap, ?_,
      alike.running, alike.waiting, alike.handlers⟩
    exact congrArg (fun t => (Realm.takeOutput t).2) alike.same

theorem history_twice (uses : List Use) (near : ∀ use ∈ uses, use.Near w) :
    List.Forall₂ (Twice w (Outcome.Near w) c waiting) (history host .resolved r uses) (history host .resolved s uses) := by
  induction uses generalizing r s with
  | nil => exact .nil
  | cons use rest hyp =>
    obtain ⟨first, others⟩ := List.forall_mem_cons.mp near
    have twice := perform_twice hosted r s alike use first
    exact .cons twice (hyp _ _ twice.realm others)

end

end

end Ecma

/-!
What an object or an environment yields is among what it refers to. What cannot be reached by references, scopes and
outer environments makes no difference to whatever runs later, and stays as it is.
-/

namespace Ecma

open Ecma.Program Run

namespace Heap

/-- What can be got out of an object without running code: its prototype, what the descriptors of its properties have,
what a bound function calls and passes on, and the functions of a captured stack. -/
inductive Yields (h : Heap) (id : ObjectId) : Value → Prop
  | prototype (link : ObjectId) (is : (h.object id).prototype = some link) : Yields h id (.object link)
  | value (key : PropertyKey) (d : Descriptor) (own : h.own? id key = some d) : Yields h id d.value
  | getter (key : PropertyKey) (d : Descriptor) (f : ObjectId) (own : h.own? id key = some d) (is : d.getter = some f) :
      Yields h id (.object f)
  | setter (key : PropertyKey) (d : Descriptor) (f : ObjectId) (own : h.own? id key = some d) (is : d.setter = some f) :
      Yields h id (.object f)
  | target (target : ObjectId) (receiver : Value) (args : List Value)
      (bound : h.callable? id = some (.bound target receiver args)) : Yields h id (.object target)
  | receiver (target : ObjectId) (receiver : Value) (args : List Value)
      (bound : h.callable? id = some (.bound target receiver args)) : Yields h id receiver
  | argument (target : ObjectId) (receiver : Value) (args : List Value) (v : Value)
      (bound : h.callable? id = some (.bound target receiver args)) (member : v ∈ args) : Yields h id v
  | frame (frames : List StackFrame) (frame : StackFrame) (f : ObjectId) (error : h.kind id = .error frames)
      (member : frame ∈ frames) (is : frame.function = some f) : Yields h id (.object f)

end Heap

/-! What is stored is among the references. -/

theorem PropertyTable.find_descriptors (t : PropertyTable) (key : PropertyKey) (d : Descriptor)
    (found : t.find? key = some d) : d ∈ t.descriptors := by
  cases key with
  | index i =>
    have listed : t.elements.values = t.elements.toList.map Prod.snd := by
      have inner : t.elements.toList = (Std.DTreeMap.Internal.Impl.toListModel t.elements.inner.inner).map
          fun entry => (entry.1, entry.2) := Std.DTreeMap.Internal.Impl.Const.toList_eq_toListModel_map
      rw [inner, List.map_map]
      exact Std.DTreeMap.Internal.Impl.values_eq_map_snd
    refine List.mem_append_left _ (listed ▸ List.mem_map.mpr ⟨(i, d), ?_, rfl⟩)
    exact Std.TreeMap.mem_toList_iff_getElem?_eq_some.mpr found
  | name s =>
    refine List.mem_append_right _ ?_
    exact Dictionary.all_find (fun d => d ∈ t.names.map Prod.snd) t.names (fun _ => List.mem_map_of_mem) s d found

namespace Heap

section

variable (h : Heap) (id : ObjectId)

theorem prototype_referenced (link : ObjectId) (is : (h.object id).prototype = some link) :
    .object link ∈ h.references id := by
  refine List.mem_append_left _ (List.mem_append_left _ ?_)
  rw [is]
  exact List.mem_cons_self

theorem table_referenced (key : PropertyKey) (d : Descriptor) (found : (h.object id).properties.find? key = some d)
    (v : Value) (held : v ∈ d.references) : v ∈ h.references id := by
  refine List.mem_append_left _ (List.mem_append_right _ ?_)
  exact List.mem_flatMap.mpr ⟨d, PropertyTable.find_descriptors _ key d found, held⟩

theorem kind_referenced (v : Value) (held : v ∈ h.kindReferences (h.kind id)) : v ∈ h.references id := by
  exact List.mem_append_right _ held

theorem alias_referenced (i : Nat) (a : Alias) (mapped : (h.object id).kind.mapped.lookup i = some a) :
    h.readAlias a ∈ h.references id := by
  refine kind_referenced h id _ ?_
  rw [Heap.kind]
  cases kind : (h.object id).kind with
  | arguments entries =>
    rw [kind] at mapped
    obtain ⟨before, after, is, _⟩ := List.lookup_eq_some_iff.mp mapped
    rw [show entries = before ++ (i, a) :: after from is]
    exact List.mem_map_of_mem (f := fun entry : Nat × Alias => h.readAlias entry.2)
      (List.mem_append_right before List.mem_cons_self)
  | _ =>
    rw [kind] at mapped
    cases mapped

theorem callable_referenced (f : Callable) (code : h.callable? id = some f) (v : Value)
    (held : v ∈ callableReferences f) : v ∈ h.references id := by
  refine kind_referenced h id v ?_
  rw [Heap.callable?] at code
  cases kind : h.kind id with
  | function g =>
    rw [kind] at code
    cases code
    exact held
  | _ =>
    rw [kind] at code
    cases code

-- The object that a stored property holds; the characters of a string hold none.
theorem stored_referenced (key : PropertyKey) (d : Descriptor) (stored : (h.object id).own? key = some d)
    (o : ObjectId) (held : .object o ∈ d.references) : .object o ∈ h.references id := by
  rw [Object.own?] at stored
  split at stored
  · next s =>
    rcases Option.or_eq_some_iff.mp stored with found | ⟨_, character⟩
    · exact table_referenced h id key d found _ held
    · cases key with
      | index i =>
        obtain ⟨unit, _, rfl⟩ := Option.map_eq_some_iff.mp character
        cases List.mem_singleton.mp held
      | name name => cases character
  · exact table_referenced h id key d stored _ held

theorem own_referenced (key : PropertyKey) (d : Descriptor) (own : h.own? id key = some d) (o : ObjectId)
    (held : .object o ∈ d.references) : .object o ∈ h.references id := by
  rw [own_shown] at own
  obtain ⟨stored, found, rfl⟩ := Option.map_eq_some_iff.mp own
  have there := stored_referenced h id key stored found o
  rw [shown, aliased?] at held
  cases key with
  | name name =>
    rw [alias_name] at held
    exact there held
  | index i =>
    rw [alias_mapped] at held
    cases mapped : (h.object id).kind.mapped.lookup i with
    | none =>
      rw [mapped] at held
      exact there held
    | some a =>
      rw [mapped] at held
      cases stored with
      | accessor g s e c => exact there held
      | data v w e c => exact (List.mem_singleton.mp held : _ = h.readAlias a) ▸ alias_referenced h id i a mapped

theorem yields_referenced (o : ObjectId) (yields : h.Yields id (.object o)) : .object o ∈ h.references id := by
  generalize is : Value.object o = v at yields
  cases yields with
  | prototype link prototype => exact prototype_referenced h id link prototype
  | value key d own =>
    rw [← is]
    refine own_referenced h id key d own o ?_
    cases d with
    | data v w e c => exact List.mem_singleton.mpr is
    | accessor g s e c => cases is
  | getter key d f own getter =>
    refine own_referenced h id key d own f ?_
    cases d with
    | data v w e c => cases getter
    | accessor g s e c =>
      rw [show g = some f from getter]
      exact List.mem_cons_self
  | setter key d f own setter =>
    refine own_referenced h id key d own f ?_
    cases d with
    | data v w e c => cases setter
    | accessor g s e c =>
      rw [show s = some f from setter]
      exact List.mem_append_right _ List.mem_cons_self
  | target target receiver args bound => exact callable_referenced h id _ bound _ List.mem_cons_self
  | receiver target receiver args bound =>
    exact callable_referenced h id _ bound _ (List.mem_cons_of_mem _ List.mem_cons_self)
  | argument target receiver args v bound member =>
    exact callable_referenced h id _ bound _ (List.mem_cons_of_mem _ (List.mem_cons_of_mem _ member))
  | frame frames frame f error member function =>
    refine kind_referenced h id _ ?_
    rw [error]
    refine List.mem_filterMap.mpr ⟨frame, member, ?_⟩
    rw [function]
    rfl

end

section

variable (h : Heap) (env : EnvironmentId)

theorem entry_referenced (b : Bindings) (record : (h.environment env).record = .declarative b) (entry : String × Binding)
    (member : entry ∈ b) : entry.2.value ∈ h.environmentReferences env := by
  rw [environmentReferences, record]
  exact List.mem_map_of_mem (f := fun entry : String × Binding => entry.2.value) member

theorem record_referenced (id : ObjectId) (receiver : Bool) (record : (h.environment env).record = .object id receiver) :
    .object id ∈ h.environmentReferences env := by
  rw [environmentReferences, record]
  exact List.mem_singleton_self _

theorem found_referenced (b : Bindings) (record : (h.environment env).record = .declarative b) (name : String)
    (binding : Binding) (found : Dictionary.find? b name = some binding) :
    binding.value ∈ h.environmentReferences env := by
  exact Dictionary.all_find (fun binding : Binding => binding.value ∈ h.environmentReferences env) b
    (entry_referenced h env b record) name binding found

end

end Heap

-- A constant that has no value yet is `undefined` to code that is not strict.
theorem get_binding_referenced (m : Machine) (r s : Realm) (env : EnvironmentId) (b : Bindings)
    (record : (r.heap.environment env).record = .declarative b) (name : String) (strict : Bool) (v : Value)
    (got : getBinding env name strict m r = .ok v s) : v ∈ r.heap.environmentReferences env ∨
      v = .undefined ∧ ∃ binding, Dictionary.find? b name = some binding ∧ binding.state = .uninitialized := by
  rw [getBinding, heap_at] at got
  dsimp only at got
  rw [record] at got
  dsimp only at got
  cases found : Dictionary.find? b name with
  | none =>
    rw [found] at got
    cases got
  | some binding =>
    rw [found] at got
    dsimp only at got
    split at got
    · next blank =>
      cases strict with
      | true => cases got
      | false =>
        cases got
        exact .inr ⟨rfl, binding, rfl, blank⟩
    · cases got
      exact .inl (Heap.found_referenced r.heap env b record name binding found)

/-! What can be reached. -/

namespace Realm

mutual

/-- The objects that can be reached from those that every realm has and from its handlers, by references, by the
scopes of functions and by outer environments. -/
inductive Reaches (r : Realm) : ObjectId → Prop
  | intrinsic (id : ObjectId) (first : id ≤ 16) : Reaches r id
  | handler (name : String) (id : ObjectId) (found : (name, .object id) ∈ r.handlers) : Reaches r id
  | reference (id other : ObjectId) (near : Reaches r id) (held : .object other ∈ r.heap.references id) : Reaches r other
  | bound (env : EnvironmentId) (id : ObjectId) (near : Surrounds r env)
      (held : .object id ∈ r.heap.environmentReferences env) : Reaches r id

inductive Surrounds (r : Realm) : EnvironmentId → Prop
  | scope (id : ObjectId) (routine : Routine) (env : EnvironmentId) (near : Reaches r id)
      (code : r.heap.callable? id = some (.script routine env)) : Surrounds r env
  | outer (env link : EnvironmentId) (near : Surrounds r env) (is : (r.heap.environment env).outer = some link) :
      Surrounds r link

end

/-- Another heap, in which objects that cannot be reached are anything else. -/
structure Differs (r : Realm) (k : Heap) : Prop where
  size : k.objects.size = r.heap.objects.size
  frames : k.frames = r.heap.frames
  environments : k.environments = r.heap.environments
  same : ∀ id, r.Reaches id → k.object id = r.heap.object id

/-- What can be reached, and what will be made. -/
def reach (r : Realm) (k : Heap) : Reach where
  object id := r.Reaches id ∨ r.heap.objects.size ≤ id
  environment env := env = Intrinsic.globalEnvironment ∨ r.Surrounds env ∨ r.heap.environments.size ≤ env
  frame frame := frame = 0 ∨ r.heap.frames.size ≤ frame
  first := r.heap.object
  second := k.object
  intrinsic id first := .inl (.intrinsic id first)
  global := .inl rfl
  base := .inl rfl

end Realm

section

variable (r : Realm) (k : Heap)

theorem reached_near (v : Value) (reaches : ∀ id, v = .object id → r.Reaches id) : v.Near (r.reach k) := by
  cases v with
  | object id => exact .inl (reaches id rfl)
  | _ => trivial

theorem reached_references (id : ObjectId) (near : r.Reaches id) (v : Value) (held : v ∈ r.heap.references id) :
    v.Near (r.reach k) := by
  exact reached_near r k v fun other is => .reference id other near (is ▸ held)

theorem surrounding_references (env : EnvironmentId) (near : r.Surrounds env) (v : Value)
    (held : v ∈ r.heap.environmentReferences env) : v.Near (r.reach k) := by
  exact reached_near r k v fun other is => .bound env other near (is ▸ held)

end

/-! Realms between entries. -/

/-- Everything. -/
def Reach.whole : Reach where
  object _ := True
  environment _ := True
  frame _ := True
  first _ := {}
  second _ := {}
  intrinsic _ _ := trivial
  global := trivial
  base := trivial

theorem value_whole (v : Value) : v.Near .whole := by
  cases v <;> trivial

-- An object that has not been made.
theorem default_near (w : Reach) : (default : Object).Near w := by
  exact ⟨fun _ same => (by cases same), fun _ same => (by cases same), PropertyTable.all_of_names [] fun _ member =>
    absurd member List.not_mem_nil⟩

-- An environment that has not been made.
theorem blank_environment_near (w : Reach) : (⟨.declarative [], none⟩ : Environment).Near w := by
  refine ⟨fun _ same => (by cases same), fun b same => ?_, fun _ _ same => (by cases same)⟩
  cases same
  exact fun entry member => absurd member List.not_mem_nil

-- The environment of global code.
theorem outermost_near (w : Reach) (own : w.object Intrinsic.global) :
    (⟨.object Intrinsic.global false, none⟩ : Environment).Near w := by
  refine ⟨fun _ same => (by cases same), fun _ same => (by cases same), fun id _ same => ?_⟩
  cases same
  exact own

theorem untouched_whole (h : Heap) (config : Config) (grounded : h.Grounded) (untouched : h.Untouched) :
    Realm.Alike .whole {} [] { heap := h, config := config } { heap := h, config := config } := by
  obtain ⟨_, environments, frames⟩ := untouched
  have any (d : Descriptor) : d.All (Value.Near .whole) := fun v _ => value_whole v
  have outermost : h.environment Intrinsic.globalEnvironment = ⟨.object Intrinsic.global false, none⟩ := by
    rw [Heap.environment, environments]
    rfl
  refine ⟨⟨rfl, rfl, rfl, fun _ _ => rfl, fun _ _ => rfl, fun _ _ => rfl, fun id _ => ?_, fun env _ => ?_,
    fun _ _ _ _ v _ => value_whole v, fun id i a _ _ => ⟨Heap.content_stores h h ⟨rfl, rfl⟩ a, value_whole _⟩,
    fun _ beyond => absurd trivial beyond, fun _ beyond => absurd trivial beyond, fun _ _ => trivial, fun _ _ => trivial,
    fun _ _ => trivial, ?_, outermost⟩, rfl, ⟨0, rfl⟩, rfl, fun _ member => absurd member List.not_mem_nil⟩
  · refine ⟨fun _ _ => trivial, fun f found => ?_, ⟨fun i d _ => any d, fun entry _ => any entry.2⟩⟩
    cases f with
    | script routine scope => exact ⟨(grounded.scripts id routine scope found).1, trivial⟩
    | bound target receiver args => exact ⟨trivial, value_whole _, fun v _ => value_whole v⟩
    | _ => trivial
  · by_cases first : env = Intrinsic.globalEnvironment
    · rw [first, outermost]
      exact outermost_near _ trivial
    · have unknown : h.environments.size ≤ env := by
        rw [environments]
        exact Nat.pos_of_ne_zero first
      rw [Heap.environment, Array.getElem?_eq_none unknown]
      exact blank_environment_near _
  · rw [frames]
    rfl

theorem create_whole (config : Config) : (Realm.create config).Alike .whole {} [] (Realm.create config) := by
  have set := Setup.grounds_all config.traceLimit intrinsicHeap intrinsic_grounded (.refl _)
  have kept := Setup.preserves_all Heap.Untouched store_untouched add_untouched config.traceLimit intrinsicHeap
    intrinsic_untouched
  delta Realm.create
  exact untouched_whole _ config set.1 kept

section

variable {host : HostFunction} (hosted : host.Oblivious)
include hosted

theorem uses_whole (uses : List Use) (r : Realm) (whole : r.Alike .whole {} [] r) :
    (uses.foldl (fun r use => use.after host r) r).Alike .whole {} []
      (uses.foldl (fun r use => use.after host r) r) := by
  induction uses generalizing r with
  | nil => exact whole
  | cons use rest hyp =>
    have near : use.Near .whole := by
      cases use with
      | call f this args => exact ⟨value_whole f, value_whole this, fun v _ => value_whole v⟩
      | handler name args => exact fun v _ => value_whole v
      | display v => exact value_whole v
      | _ => trivial
    have after := (perform_twice hosted r r whole use near).realm
    rw [perform_after] at after
    exact hyp _ after

end

section

variable (r : Realm) (whole : r.Alike .whole {} [] r)
include whole

theorem reached_object (k : Heap) (id : ObjectId) (reaches : r.Reaches id) : (r.heap.object id).Near (r.reach k) := by
  refine ⟨fun link is => ?_, fun f found => ?_, ⟨fun i d found => ?_, fun entry member => ?_⟩⟩
  · exact .inl (.reference id link reaches (Heap.prototype_referenced r.heap id link is))
  · have held (v : Value) (member : v ∈ Heap.callableReferences f) : v.Near (r.reach k) :=
      reached_references r k id reaches v (Heap.callable_referenced r.heap id f found v member)
    cases f with
    | script routine scope =>
      exact ⟨((whole.heap.near id trivial).callable _ found).1, .inr (.inl (.scope id routine scope reaches found))⟩
    | bound target receiver args =>
      exact ⟨held _ List.mem_cons_self, held _ (List.mem_cons_of_mem _ List.mem_cons_self),
        fun v member => held v (List.mem_cons_of_mem _ (List.mem_cons_of_mem _ member))⟩
    | _ => trivial
  · exact fun v held => reached_references r k id reaches v (Heap.table_referenced r.heap id _ d found v held)
  · refine fun v held => reached_references r k id reaches v ?_
    refine List.mem_append_left _ (List.mem_append_right _ (List.mem_flatMap.mpr ⟨entry.2, ?_, held⟩))
    exact List.mem_append_right _ (List.mem_map_of_mem member)

theorem reached_environment (k : Heap) (env : EnvironmentId) (near : r.Surrounds env) :
    (r.heap.environment env).Near (r.reach k) := by
  refine ⟨fun link is => .inr (.inl (.outer env link near is)), fun b record entry member => ⟨?_, ?_⟩,
    fun id receiver record => ?_⟩
  · exact surrounding_references r k env near _ (Heap.entry_referenced r.heap env b record entry member)
  · exact ((whole.heap.around env trivial).bindings b record entry member).blank
  · exact .inl (.bound env id near (Heap.record_referenced r.heap env id receiver record))

theorem reach_alike (k : Heap) (differs : r.Differs k) : r.Alike (r.reach k) {} [] (r.withHeap k) := by
  have object (id : ObjectId) (inside : (r.reach k).object id) : k.object id = r.heap.object id := by
    rcases inside with reaches | new
    · exact differs.same id reaches
    · rw [Heap.object_unknown r.heap id (Nat.not_lt.mpr new), Heap.object_unknown k id]
      rw [differs.size]
      exact Nat.not_lt.mpr new
  have stores : r.heap.SameStores k := ⟨differs.frames, differs.environments⟩
  have heap : r.heap.Alike (r.reach k) k := by
    refine ⟨differs.size, by rw [differs.environments], by rw [differs.frames], object, fun env _ => ?_,
      fun frame _ => by rw [differs.frames], fun id inside => ?_, fun env inside => ?_, fun frame slots inside found => ?_,
      fun id i a inside mapped => ?_, fun id _ => rfl, fun id _ => rfl, fun id new => .inr new,
      fun env new => .inr (.inr new), fun frame new => .inr new, whole.heap.blank, whole.heap.outermost⟩
    · rw [Heap.environment, Heap.environment, differs.environments]
    · rcases inside with reaches | new
      · exact reached_object r whole k id reaches
      · rw [Heap.object_unknown r.heap id (Nat.not_lt.mpr new)]
        exact default_near _
    · rcases inside with is | near | new
      · rw [is, whole.heap.outermost]
        exact outermost_near _ (.inl (.intrinsic _ (by decide)))
      · exact reached_environment r whole k env near
      · rw [Heap.environment, Array.getElem?_eq_none new]
        exact blank_environment_near _
    · rcases inside with is | new
      · rw [is, whole.heap.blank] at found
        cases found
        exact fun v member => absurd member (Array.not_mem_empty v)
      · rw [Array.getElem?_eq_none new] at found
        cases found
    · refine ⟨Heap.content_stores r.heap k stores a, ?_⟩
      rcases inside with reaches | new
      · exact reached_references r k id reaches _ (Heap.alias_referenced r.heap id i a mapped)
      · rw [Heap.object_unknown r.heap id (Nat.not_lt.mpr new)] at mapped
        cases mapped
  refine ⟨heap, rfl, whole.running, whole.waiting, fun entry member => ?_⟩
  refine reached_near r k entry.2 fun id is => .handler entry.1 id ?_
  rw [← is]
  exact member

end

/-! What is not reached makes no difference. -/

/-- What a use gives in two realms that differ in what could not be reached from a third one. It is the same, and
nothing that could not be reached has changed. -/
structure Untold (r : Realm) (k : Heap) (a b : Outcome × Realm) : Prop where
  outcome : b.1 = a.1
  rest : b.2 = a.2.withHeap b.2.heap
  saved : ∀ id < r.heap.objects.size, ¬ r.Reaches id →
    a.2.heap.object id = r.heap.object id ∧ b.2.heap.object id = k.object id
  same : ∀ id, r.Reaches id ∨ r.heap.objects.size ≤ id → b.2.heap.object id = a.2.heap.object id

theorem twice_untold (r : Realm) (k : Heap) (a b : Outcome × Realm)
    (twice : Twice (r.reach k) (Outcome.Near (r.reach k)) {} [] a b) : Untold r k a b := by
  have beyond (id : ObjectId) (known : id < r.heap.objects.size) (hidden : ¬ r.Reaches id) : ¬ (r.reach k).object id := by
    exact fun inside => inside.elim hidden (Nat.not_le.mpr known)
  refine ⟨twice.result, twice.realm.same, fun id known hidden => ?_, fun id inside => twice.realm.heap.object id inside⟩
  exact ⟨twice.realm.heap.beyond₁ id (beyond id known hidden), twice.realm.heap.beyond₂ id (beyond id known hidden)⟩

theorem references_complete (host : HostFunction) (hosted : host.Oblivious) (config : Config) :
    (∀ (h : Heap) id o, h.Yields id (.object o) → .object o ∈ h.references id) ∧
    (∀ (h : Heap) env id receiver, (h.environment env).record = .object id receiver →
      .object id ∈ h.environmentReferences env) ∧
    (∀ (m : Machine) (r s : Realm) env b name strict v, (r.heap.environment env).record = .declarative b →
      getBinding env name strict m r = .ok v s → v ∈ r.heap.environmentReferences env ∨
        v = .undefined ∧ ∃ binding, Dictionary.find? b name = some binding ∧ binding.state = .uninitialized) ∧
    ∀ (uses : List Use) (r : Realm), r = uses.foldl (fun r use => use.after host r) (Realm.create config) →
      (∀ m s env b name strict v, (r.heap.environment env).record = .declarative b →
        getBinding env name strict m r = .ok v s → v ∈ r.heap.environmentReferences env) ∧
      ∀ (k : Heap) (later : List Use), r.Differs k → (∀ use ∈ later, use.Near (r.reach k)) →
        List.Forall₂ (Untold r k) (history host .resolved r later) (history host .resolved (r.withHeap k) later) := by
  refine ⟨Heap.yields_referenced, Heap.record_referenced,
    fun m r s env b name strict v record got => get_binding_referenced m r s env b record name strict v got,
    fun uses r is => ⟨fun m s env b name strict v record got => ?_, fun k later differs near => ?_⟩⟩
  · have whole := uses_whole hosted uses _ (create_whole config)
    rw [← is] at whole
    rcases get_binding_referenced m r s env b record name strict v got with held | ⟨rfl, binding, found, blank⟩
    · exact held
    · have all := (whole.heap.around env trivial).bindings b record
      have value : binding.value = .undefined := (Dictionary.all_find _ b all name binding found).blank blank
      exact value ▸ Heap.found_referenced r.heap env b record name binding found
  · have whole := uses_whole hosted uses _ (create_whole config)
    rw [← is] at whole
    have twice := history_twice hosted r _ (reach_alike r whole k differs) later near
    exact twice.imp fun a b => twice_untold r k a b

theorem calling_host_blind : callingHost.Oblivious := by
  intro w m c word this args fits _ receiver all
  exact still_blind fits (calling_host_tame word this args receiver all)

-- A program has left a handler, and another program follows.
theorem references_complete_handler :
    callingHost.Oblivious ∧ ∃ r, r = handlerUses.foldl (fun r use => use.after callingHost r) (Realm.create {}) ∧
      r.Differs r.heap ∧ (∀ use ∈ [Use.evaluate "this" "next"], use.Near (r.reach r.heap)) ∧
      List.Forall₂ (Untold r r.heap) (history callingHost .resolved r [.evaluate "this" "next"])
        (history callingHost .resolved (r.withHeap r.heap) [.evaluate "this" "next"]) := by
  refine ⟨calling_host_blind, _, rfl, ⟨rfl, rfl, rfl, fun _ _ => rfl⟩, fun use member => ?_, ?_⟩
  · cases List.mem_singleton.mp member
    trivial
  · obtain ⟨_, _, _, each⟩ := references_complete callingHost calling_host_blind {}
    refine (each handlerUses _ rfl).2 _ _ ⟨rfl, rfl, rfl, fun _ _ => rfl⟩ fun use member => ?_
    cases List.mem_singleton.mp member
    trivial

end Ecma
