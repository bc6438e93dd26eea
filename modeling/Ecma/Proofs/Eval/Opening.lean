import Ecma.Proofs.Eval.Declaration
import Ecma.Proofs.Operation.Arguments
import Ecma.Proofs.Program.Compilation

set_option autoImplicit false

/-!
The opening of a call: what is done before the first statement of a function runs. It always comes to its
end. Every name that the function binds then has its first value, in a slot of the frame of the call or in
the environment of the call, and no other frame or environment has changed.
-/

namespace Ecma

open Ecma.Program Run

/-- Everything that a function with an arguments object does before its first statement. -/
def opening (routine : Routine) (f : ObjectId) (scope : EnvironmentId) (this : Value) (args : List Value) :
    Run Call := do
  let header := routine.header
  let env ← if header.collapsed then pure scope else newScope scope
  let this ← receiverOf header this
  let frame ← updateHeap fun h => h.addFrame (Array.replicate header.slots .undefined)
  modifyRunning fun c =>
    { c with lexicalEnv := env, variableEnv := env, this := this, frame := frame }
  bindParams header env header.params args
  bindFunctions header env routine.functions
  let id ← newArguments header f frame env args
  bindArguments header env id
  bindVariables header env header.variables
  return ⟨header, args, id, frame, env⟩

theorem activate_is (routine : Routine) (f : ObjectId) (scope : EnvironmentId) (this : Value) (args : List Value)
    (needed : needsArguments routine = true) : activate routine f scope this args = (do
      let _ ← opening routine f scope this args
      return returned (← executeAll routine.header.strict none routine.body)) := by
  rw [activate, opening]
  cases collapsed : routine.header.collapsed <;>
    simp only [instantiate, needed, bind_assoc, pure_bind, if_true, Bool.false_eq_true, if_false]

/-- Where the code of a call finds a name of its own. -/
def ownPlace (header : Header) (env : EnvironmentId) (name : String) (strict : Bool) : Place :=
  match Header.slot? header name with
  | some index => .slot index
  | none => .reference ⟨.environment env, name, strict⟩

-- What a call has bound so far: a slot has the value of its name, and the environment the bindings of all
-- other names.
structure Filled (header : Header) (frame : FrameId) (env : EnvironmentId) (bound : String → Option Binding)
    (h : Heap) : Prop where
  slots : ∃ slots, h.frames[frame]? = some slots ∧ slots.size = header.slots ∧
    ∀ name index, Header.slot? header name = some index →
      slots[index]? = some (((bound name).map Binding.value).getD .undefined)
  scope : header.collapsed = false → ∃ all outer, h.environments[env]? = some ⟨.declarative all, outer⟩ ∧
    ∀ name, Dictionary.find? all name = if (Header.slot? header name).isSome then none else bound name

-- More names have been bound, in the frame and the environment of the call and nowhere else.
structure Fills (header : Header) (frame : FrameId) (env : EnvironmentId) (bound : String → Option Binding)
    (h k : Heap) : Prop where
  filled : Filled header frame env bound k
  frames : ∀ other, other ≠ frame → k.frames[other]? = h.frames[other]?
  environments : ∀ other, header.collapsed = true ∨ other ≠ env → k.environments[other]? = h.environments[other]?

section

variable (header : Header) (frame : FrameId) (env : EnvironmentId) (bound : String → Option Binding)

theorem filled_fills (h : Heap) (filled : Filled header frame env bound h) : Fills header frame env bound h h := by
  exact ⟨filled, fun _ _ => rfl, fun _ _ => rfl⟩

theorem fills_trans (h j k : Heap) (before : String → Option Binding) (first : Fills header frame env before h j)
    (second : Fills header frame env bound j k) : Fills header frame env bound h k := by
  exact ⟨second.filled, fun other distinct => (second.frames other distinct).trans (first.frames other distinct),
    fun other apart => (second.environments other apart).trans (first.environments other apart)⟩

theorem fills_stores (h k : Heap) (same : h.SameStores k) (filled : Filled header frame env bound h) :
    Fills header frame env bound h k := by
  obtain ⟨slots, scope⟩ := filled
  rw [← same.1] at slots
  rw [← same.2] at scope
  exact ⟨⟨slots, scope⟩, fun _ _ => by rw [same.1], fun _ _ => by rw [same.2]⟩

-- Of a name with a slot only the value counts.
theorem filled_alike (h : Heap) (other : String → Option Binding) (filled : Filled header frame env bound h)
    (slots : ∀ name, (Header.slot? header name).isSome = true →
      ((other name).map Binding.value).getD .undefined = ((bound name).map Binding.value).getD .undefined)
    (scope : ∀ name, Header.slot? header name = none → other name = bound name) :
    Filled header frame env other h := by
  refine ⟨?_, fun isOpen => ?_⟩
  · obtain ⟨values, found, size, shown⟩ := filled.slots
    refine ⟨values, found, size, fun name index slot => ?_⟩
    rw [slots name (slot ▸ rfl)]
    exact shown name index slot
  · obtain ⟨all, outer, found, held⟩ := filled.scope isOpen
    refine ⟨all, outer, found, fun name => ?_⟩
    cases slot : Header.slot? header name with
    | none => rw [scope name slot, held name, slot]
    | some index => rw [held name, slot, Option.isSome_some, if_pos rfl, if_pos rfl]

section

variable (names : List String) (placed : header.Placed names)
include placed

theorem unslotted_open (name : String) (member : name ∈ names) (slot : Header.slot? header name = none) :
    header.collapsed = false := by
  by_contra collapsed
  have some' := placed.collapsed (eq_true_of_ne_false collapsed) name member
  rw [slot] at some'
  cases some'

/-! One name. -/

section

variable (h : Heap) (filled : Filled header frame env bound h)
include filled

theorem filled_slot (name : String) (index : Nat) (b : Binding) (slot : Header.slot? header name = some index) :
    Fills header frame env (Function.update bound name (some b)) h (h.setSlot frame index b.value) := by
  refine ⟨⟨?_, fun isOpen => ?_⟩, fun other distinct => ?_, fun _ _ => rfl⟩
  · obtain ⟨slots, found, size, shown⟩ := filled.slots
    refine ⟨slots.setIfInBounds index b.value, ?_, Array.size_setIfInBounds.trans size, fun other index' slot' => ?_⟩
    · rw [Heap.setSlot]
      dsimp only
      rw [Array.getElem?_modify, if_pos rfl, found]
      rfl
    · by_cases same : other = name
      · subst same
        rw [Option.some.inj (slot'.symm.trans slot), Function.update_self,
          Array.getElem?_setIfInBounds_self_of_lt (size ▸ placed.inside other index slot)]
        rfl
      · rw [Function.update_of_ne same, Array.getElem?_setIfInBounds_ne]
        · exact shown other index' slot'
        · rintro rfl
          exact same (placed.distinct other name index slot' slot)
  · obtain ⟨all, outer, found, held⟩ := filled.scope isOpen
    refine ⟨all, outer, found, fun other => ?_⟩
    by_cases same : other = name
    · rw [held other, same, slot, Option.isSome_some, if_pos rfl, if_pos rfl]
    · rw [held other, Function.update_of_ne same]
  · rw [Heap.setSlot]
    dsimp only
    rw [Array.getElem?_modify, if_neg (Ne.symm distinct)]

omit placed in
theorem filled_binding (name : String) (f : Bindings → Bindings) (b : Binding) (concerns : Bindings.Concerns f name)
    (free : Header.slot? header name = none) (isOpen : header.collapsed = false)
    (gives : ∀ all, Dictionary.find? all name = bound name → Dictionary.find? (f all) name = some b) :
    Fills header frame env (Function.update bound name (some b)) h (h.modifyBindings env f) := by
  obtain ⟨all, outer, found, held⟩ := filled.scope isOpen
  have own : Dictionary.find? all name = bound name := by
    rw [held name, free]
    rfl
  refine ⟨⟨?_, fun _ => ⟨f all, outer, h.environment_modify_same env f all outer found, fun other => ?_⟩⟩, fun _ _ => rfl,
    fun other apart => ?_⟩
  · obtain ⟨slots, there, size, shown⟩ := filled.slots
    refine ⟨slots, there, size, fun other index slot => ?_⟩
    have apart : other ≠ name := by
      rintro rfl
      cases free.symm.trans slot
    rw [Function.update_of_ne apart]
    exact shown other index slot
  · by_cases same : other = name
    · rw [same, gives all own, Function.update_self, free]
      rfl
    · rw [concerns.others all other (Ne.symm same), held other, Function.update_of_ne same]
  · exact h.environment_modify_other env other f
      (Ne.symm (apart.resolve_left fun collapsed => Bool.false_ne_true (isOpen.symm.trans collapsed)))

omit placed in
theorem filled_record (isOpen : header.collapsed = false) : ∃ all, (h.environment env).record = .declarative all ∧
    ∀ name, Dictionary.find? all name = if (Header.slot? header name).isSome then none else bound name := by
  obtain ⟨all, outer, found, held⟩ := filled.scope isOpen
  exact ⟨all, by rw [h.environment_of env _ found], held⟩

omit placed in
theorem filled_has (name : String) (free : Header.slot? header name = none) (isOpen : header.collapsed = false) :
    h.hasBinding env name = (bound name).isSome := by
  obtain ⟨all, record, held⟩ := filled_record header frame env bound h filled isOpen
  rw [Heap.hasBinding, record]
  change (Dictionary.find? all name).isSome = _
  rw [held name, free]
  rfl

-- A place that a name has been given, and that can be written to, is there for the elements of an arguments object.
theorem filled_live (name : String) (b : Binding) (member : name ∈ names) (there : bound name = some b)
    (able : b.state.isMutable = true) : h.Live (aliasOf header frame env name) := by
  rw [aliasOf]
  cases slot : Header.slot? header name with
  | some index =>
    obtain ⟨slots, found, size, _⟩ := filled.slots
    exact ⟨slots, found, size ▸ placed.inside name index slot⟩
  | none =>
    obtain ⟨all, outer, found, held⟩ := filled.scope (unslotted_open header names placed name member slot)
    refine ⟨b, ?_, able⟩
    rw [h.binding_of env all outer name found, held name, slot, there]
    rfl

end

section

variable (m : Machine) (r : Realm) (filled : Filled header frame env bound r.heap)
include filled

/-- The code of a call finds each of its names. -/
theorem filled_read (inside : r.running.frame = frame) (name : String)
    (known : (Header.slot? header name).isSome = true ∨ name ∈ names ∧ (bound name).isSome = true)
    (ready : ∀ b, bound name = some b → b.state ≠ .uninitialized) (strict : Bool) :
    (ownPlace header env name strict).read m r = .ok (((bound name).map Binding.value).getD .undefined) r := by
  rw [ownPlace]
  cases slot : Header.slot? header name with
  | some index =>
    obtain ⟨slots, found, _, shown⟩ := filled.slots
    change EStateM.Result.ok (r.heap.slot r.running.frame index) r = _
    rw [inside, Heap.slot, found, Option.bind_some, shown name index slot, Option.getD_some]
  | none =>
    rw [slot] at known
    obtain ⟨member, known⟩ := known.resolve_left Bool.false_ne_true
    obtain ⟨b, there⟩ := Option.isSome_iff_exists.mp known
    obtain ⟨all, record, held⟩ := filled_record header frame env bound r.heap filled
      (unslotted_open header names placed name member slot)
    change getBinding env name strict m r = _
    rw [getBinding, heap_at, record]
    dsimp only
    rw [held name, slot, Option.isSome_none, if_neg Bool.false_ne_true, there]
    dsimp only
    rw [if_neg (ready b there)]
    rfl

omit placed in
theorem create_binding_at (name : String) (isOpen : header.collapsed = false) : createBinding env name false m r =
    .ok () (r.withHeap (r.heap.modifyBindings env fun b => b.createMutable name false)) := by
  obtain ⟨all, record, _⟩ := filled_record header frame env bound r.heap filled isOpen
  rw [createBinding, heap_at, record]
  rfl

omit placed in
theorem set_binding_at (name : String) (v : Value) (isOpen : header.collapsed = false) : setBinding env name v false m r =
    .ok () (r.withHeap (r.heap.modifyBindings env fun b => b.write name v)) := by
  obtain ⟨all, record, _⟩ := filled_record header frame env bound r.heap filled isOpen
  rw [setBinding, heap_at, record]
  rfl

omit placed in
-- A name that is neither in a slot nor bound yet is bound in the environment.
theorem bind_fresh_at (name : String) (v : Value) (free : Header.slot? header name = none)
    (isOpen : header.collapsed = false) (absent : bound name = none) : ∃ k,
      (createBinding env name false >>= fun _ => setBinding env name v false) m r = .ok () (r.withHeap k) ∧
        k.objects = r.heap.objects ∧
        Fills header frame env (Function.update bound name (some ⟨v, .lasting⟩)) r.heap k := by
  have created : Fills header frame env (Function.update bound name (some { state := .lasting })) r.heap
      (r.heap.modifyBindings env fun b => b.createMutable name false) := by
    refine filled_binding header frame env bound r.heap filled name _ _ (Bindings.create_mutable_concerns name false) free
      isOpen fun all own => ?_
    rw [Bindings.createMutable, Bindings.create, Dictionary.has, own, absent, Option.isSome_none,
      if_neg Bool.false_ne_true, Dictionary.find_put, if_pos rfl, if_neg Bool.false_ne_true]
  have written := filled_binding header frame env _ _ created.filled name (fun b => b.write name v) ⟨v, .lasting⟩
    (Bindings.write_concerns name v) free isOpen fun all own => by
      rw [Bindings.write, Dictionary.find_modify, if_pos rfl, own, Function.update_self]
      rfl
  rw [Function.update_idem] at written
  refine ⟨(r.heap.modifyBindings env fun b => b.createMutable name false).modifyBindings env fun b => b.write name v, ?_, rfl,
    fills_trans header frame env _ _ _ _ _ created written⟩
  rw [bind_at, create_binding_at header frame env bound m r filled name isOpen]
  exact set_binding_at header frame env _ m (r.withHeap (r.heap.modifyBindings env fun b => b.createMutable name false))
    created.filled name v isOpen

theorem bind_name_at (inside : r.running.frame = frame) (name : String) (v : Value) (member : name ∈ names)
    (lasting : ∀ b, bound name = some b → b.state = .lasting) : ∃ k,
      bindName header env name v m r = .ok () (r.withHeap k) ∧ k.objects = r.heap.objects ∧
        Fills header frame env (Function.update bound name (some ⟨v, .lasting⟩)) r.heap k := by
  rw [bindName]
  cases slot : Header.slot? header name with
  | some index =>
    refine ⟨r.heap.setSlot frame index v, ?_, rfl,
      filled_slot header frame env bound names placed r.heap filled name index ⟨v, .lasting⟩ slot⟩
    rw [← inside]
    rfl
  | none =>
    have isOpen := unslotted_open header names placed name member slot
    dsimp only
    rw [heap_at, filled_has header frame env bound r.heap filled name slot isOpen]
    cases there : bound name with
    | none => exact bind_fresh_at header frame env bound m r filled name v slot isOpen there
    | some b =>
      refine ⟨r.heap.modifyBindings env fun b => b.write name v,
        set_binding_at header frame env bound m r filled name v isOpen, rfl,
        filled_binding header frame env bound r.heap filled name _ _ (Bindings.write_concerns name v) slot isOpen
          fun all own => ?_⟩
      · rw [Bindings.write, Dictionary.find_modify, if_pos rfl, own, there, Option.map_some, lasting b there]
        rfl

end

end

end

/-! Names in turn. -/

/-- What names are bound to once each of a list has been given its value, the first one first. -/
def assigned (bound : String → Option Binding) : List (String × Value) → String → Option Binding
  | [] => bound
  | (name, v) :: rest => assigned (Function.update bound name (some ⟨v, .lasting⟩)) rest

/-- The values of parameters, one after the other. -/
def argumentsGiven : List String → List Value → List (String × Value)
  | [], _ => []
  | name :: names, args => (name, args.headD .undefined) :: argumentsGiven names args.tail

/-- The functions that are bound to names; each is made together with its prototype. -/
def functionsGiven (next : ObjectId) : List Routine → List (String × Value)
  | [] => []
  | routine :: rest =>
    match routine.header.name with
    | some name => (name, .object next) :: functionsGiven (next + 2) rest
    | none => functionsGiven (next + 2) rest

section

variable (bound : String → Option Binding)

theorem assigned_append (before after : List (String × Value)) :
    assigned bound (before ++ after) = assigned (assigned bound before) after := by
  induction before generalizing bound with
  | nil => rfl
  | cons entry rest hyp => exact hyp _

theorem assigned_absent (given : List (String × Value)) (name : String) (absent : name ∉ given.map Prod.fst) :
    assigned bound given name = bound name := by
  induction given generalizing bound with
  | nil => rfl
  | cons entry rest hyp =>
    rw [List.map_cons, List.mem_cons, not_or] at absent
    rw [assigned, hyp _ absent.2, Function.update_of_ne absent.1]

-- The last value that a name is given is the one it has.
theorem assigned_last (before after : List (String × Value)) (name : String) (v : Value)
    (last : name ∉ after.map Prod.fst) : assigned bound (before ++ (name, v) :: after) name = some ⟨v, .lasting⟩ := by
  rw [assigned_append, assigned, assigned_absent _ after name last, Function.update_self]

theorem assigned_given (given : List (String × Value)) (name : String) (member : name ∈ given.map Prod.fst) :
    ∃ v, assigned bound given name = some ⟨v, .lasting⟩ := by
  induction given generalizing bound with
  | nil => cases member
  | cons entry rest hyp =>
    by_cases later : name ∈ rest.map Prod.fst
    · exact hyp _ later
    · rcases List.mem_cons.mp member with rfl | again
      · exact ⟨entry.2, assigned_last bound [] rest entry.1 entry.2 later⟩
      · exact absurd again later

theorem assigned_lasting (given : List (String × Value)) (lasting : ∀ name b, bound name = some b → b.state = .lasting)
    (name : String) (b : Binding) (there : assigned bound given name = some b) : b.state = .lasting := by
  by_cases member : name ∈ given.map Prod.fst
  · obtain ⟨v, is⟩ := assigned_given bound given name member
    rw [Option.some.inj (there.symm.trans is)]
  · exact lasting name b ((assigned_absent bound given name member).symm.trans there)

end

theorem arguments_given_names (names : List String) (args : List Value) :
    (argumentsGiven names args).map Prod.fst = names := by
  induction names generalizing args with
  | nil => rfl
  | cons name rest hyp => rw [argumentsGiven, List.map_cons, hyp]

theorem arguments_given_split (before after : List String) (name : String) (args : List Value) :
    argumentsGiven (before ++ name :: after) args = argumentsGiven before args ++
      (name, args[before.length]?.getD .undefined) :: argumentsGiven after (args.drop (before.length + 1)) := by
  induction before generalizing args with
  | nil => cases args <;> rfl
  | cons first rest hyp =>
    rw [List.cons_append, argumentsGiven, argumentsGiven, hyp, List.cons_append]
    cases args with
    | nil => rw [List.tail_nil, List.drop_nil, List.drop_nil, List.getElem?_nil, List.getElem?_nil]
    | cons v more => rfl

theorem functions_given_names (next : ObjectId) (routines : List Routine) :
    (functionsGiven next routines).map Prod.fst = routines.filterMap fun f => f.header.name := by
  induction routines generalizing next with
  | nil => rfl
  | cons routine rest hyp =>
    rw [functionsGiven, List.filterMap_cons]
    cases routine.header.name with
    | none => exact hyp _
    | some name => exact congrArg (name :: ·) (hyp _)

theorem made_further (next count : Nat) : next + 2 * (count + 1) = next + 2 + 2 * count := by
  omega

theorem functions_given_split (next : ObjectId) (before after : List Routine) (routine : Routine) (name : String)
    (named : routine.header.name = some name) : functionsGiven next (before ++ routine :: after) =
      functionsGiven next before ++
        (name, .object (next + 2 * before.length)) :: functionsGiven (next + 2 * before.length + 2) after := by
  induction before generalizing next with
  | nil =>
    have here : functionsGiven next (routine :: after) = (name, .object next) :: functionsGiven (next + 2) after := by
      rw [functionsGiven, named]
    exact here
  | cons first rest hyp =>
    have further : next + 2 * (first :: rest).length = next + 2 + 2 * rest.length := made_further next rest.length
    rw [List.cons_append, functionsGiven, functionsGiven, hyp, further]
    cases first.header.name <;> rfl

-- The objects that making functions adds: for each a function and its prototype, in their order.
structure FunctionsMade (h k : Heap) (env : EnvironmentId) (routines : List Routine) : Prop where
  size : k.objects.size = h.objects.size + 2 * routines.length
  known : ∀ id < h.objects.size, k.object id = h.object id
  made : ∀ before routine after, routines = before ++ routine :: after →
    k.kind (h.objects.size + 2 * before.length) = .function (.script routine env)
  plain : ∀ (id : Nat) mapped, h.objects.size ≤ id → k.kind id ≠ .arguments mapped

theorem functions_made_nil (h : Heap) (env : EnvironmentId) : FunctionsMade h h env [] := by
  refine ⟨rfl, fun _ _ => rfl, fun before routine after split => ?_, fun id mapped beyond kind => ?_⟩
  · cases before <;> cases split
  · rw [Heap.kind, h.object_unknown id (Nat.not_lt_of_le beyond)] at kind
    cases kind

theorem functions_made_cons (h i j k : Heap) (env : EnvironmentId) (routine : Routine) (rest : List Routine)
    (known : ∀ id < h.objects.size, i.object id = h.object id) (size : i.objects.size = h.objects.size + 2)
    (made : i.kind h.objects.size = .function (.script routine env)) (prototype : i.kind (h.objects.size + 1) = .ordinary)
    (same : j.objects = i.objects) (others : FunctionsMade j k env rest) : FunctionsMade h k env (routine :: rest) := by
  have size' : j.objects.size = h.objects.size + 2 := by rw [same, size]
  have kept (id : Nat) (less : id < h.objects.size + 2) : k.object id = i.object id := by
    rw [others.known id (size' ▸ less), Heap.object, Heap.object, same]
  refine ⟨?_, fun id less => (kept id (by omega)).trans (known id less), fun before other after split => ?_,
    fun id mapped beyond kind => ?_⟩
  · rw [others.size, size', List.length_cons]
    omega
  · cases before with
    | nil =>
      cases split
      rw [Heap.kind, kept _ (by rw [List.length_nil]; omega)]
      exact made
    | cons first before =>
      have there := others.made before other after (List.cons.inj split).2
      rw [size'] at there
      rw [List.length_cons, made_further]
      exact there
  · by_cases later : j.objects.size ≤ id
    · exact others.plain id mapped later kind
    · rw [Heap.kind, kept id (by omega), ← Heap.kind] at kind
      rcases Nat.eq_or_lt_of_le beyond with here | further
      · rw [← here, made] at kind
        cases kind
      · rw [show id = h.objects.size + 1 by omega, prototype] at kind
        cases kind

section

variable (header : Header) (frame : FrameId) (env : EnvironmentId) (bound : String → Option Binding)
  (names : List String) (placed : header.Placed names) (m : Machine) (r : Realm)
  (filled : Filled header frame env bound r.heap) (inside : r.running.frame = frame)
  (lasting : ∀ name b, bound name = some b → b.state = .lasting)
include placed filled inside

include lasting in
theorem bind_params_at (params : List String) (args : List Value) (members : ∀ name ∈ params, name ∈ names) : ∃ k,
    bindParams header env params args m r = .ok () (r.withHeap k) ∧ k.objects = r.heap.objects ∧
      Fills header frame env (assigned bound (argumentsGiven params args)) r.heap k := by
  induction params generalizing r bound args with
  | nil => exact ⟨r.heap, rfl, rfl, filled_fills header frame env bound r.heap filled⟩
  | cons name rest hyp =>
    obtain ⟨here, later⟩ := List.forall_mem_cons.mp members
    obtain ⟨j, is, objects, fills⟩ := bind_name_at header frame env bound names placed m r filled inside name
      (args.headD .undefined) here (lasting name)
    obtain ⟨k, is', objects', fills'⟩ := hyp _ (r.withHeap j) fills.filled inside
      (fun other b => assigned_lasting bound [(name, args.headD .undefined)] lasting other b) args.tail later
    refine ⟨k, ?_, objects'.trans objects, fills_trans header frame env _ _ _ _ _ fills fills'⟩
    rw [bindParams, bind_at, is]
    exact is'

include lasting in
theorem bind_functions_at (routines : List Routine)
    (members : ∀ name ∈ routines.filterMap fun f => f.header.name, name ∈ names) : ∃ k,
      bindFunctions header env routines m r = .ok () (r.withHeap k) ∧ FunctionsMade r.heap k env routines ∧
        Fills header frame env (assigned bound (functionsGiven r.heap.objects.size routines)) r.heap k := by
  induction routines generalizing r bound with
  | nil => exact ⟨r.heap, rfl, functions_made_nil r.heap env, filled_fills header frame env bound r.heap filled⟩
  | cons routine rest hyp =>
    obtain ⟨i, made, adds, size, kind, prototype⟩ := function_made routine env m r
    have between := fills_stores header frame env bound r.heap i adds.stores filled
    rw [List.filterMap_cons] at members
    rw [bindFunctions, bind_at, made, functionsGiven, ← size]
    dsimp only
    cases named : routine.header.name with
    | none =>
      rw [named] at members
      obtain ⟨k, is, others, fills⟩ := hyp _ (r.withHeap i) between.filled inside lasting members
      exact ⟨k, is, functions_made_cons r.heap i i k env routine rest adds.object size kind prototype rfl others,
        fills_trans header frame env _ _ _ _ _ between fills⟩
    | some name =>
      rw [named] at members
      obtain ⟨here, later⟩ := List.forall_mem_cons.mp members
      obtain ⟨j, is, objects, fills⟩ := bind_name_at header frame env bound names placed m (r.withHeap i) between.filled
        inside name (.object r.heap.objects.size) here (lasting name)
      obtain ⟨k, is', others, fills'⟩ := hyp _ (r.withHeap j) fills.filled inside
        (fun other b => assigned_lasting bound [(name, .object r.heap.objects.size)] lasting other b) later
      refine ⟨k, ?_, functions_made_cons r.heap i j k env routine rest adds.object size kind prototype objects others, ?_⟩
      · dsimp only
        rw [bind_at, is]
        exact is'
      · have same : (r.withHeap j).heap.objects.size = i.objects.size := congrArg Array.size objects
        rw [same] at fills'
        exact fills_trans header frame env _ _ _ _ _ (fills_trans header frame env _ _ _ _ _ between fills) fills'

/-- The binding of the arguments object; in strict code it is constant. -/
def argumentsBinding (header : Header) (id : ObjectId) : Binding :=
  ⟨.object id, if header.strict then .constant else .lasting⟩

theorem bind_arguments_at (id : ObjectId) (member : "arguments" ∈ names) (absent : bound "arguments" = none) : ∃ k,
    bindArguments header env id m r = .ok () (r.withHeap k) ∧ k.objects = r.heap.objects ∧
      Fills header frame env (Function.update bound "arguments" (some (argumentsBinding header id))) r.heap k := by
  rw [bindArguments]
  cases slot : Header.slot? header "arguments" with
  | some index =>
    refine ⟨r.heap.setSlot frame index (.object id), ?_, rfl,
      filled_slot header frame env bound names placed r.heap filled "arguments" index (argumentsBinding header id) slot⟩
    rw [← inside]
    rfl
  | none =>
    have isOpen := unslotted_open header names placed "arguments" member slot
    obtain ⟨all, outer, found, _⟩ := filled.scope isOpen
    dsimp only
    rw [heap_at, r.heap.bindings_of env all outer found, Option.isSome_some, Bool.and_true]
    by_cases strict : header.strict = true
    · refine ⟨r.heap.modifyBindings env fun b => (b.createConstant "arguments").initializeConstant "arguments" (.object id),
        by rw [if_pos strict]; rfl, rfl, filled_binding header frame env bound r.heap filled "arguments" _
        (argumentsBinding header id) (Bindings.constant_concerns "arguments" (.object id)) slot isOpen fun all own => ?_⟩
      rw [Bindings.initializeConstant, Dictionary.find_modify, if_pos rfl, Bindings.createConstant, Bindings.create,
        Dictionary.has, own, absent, Option.isSome_none, if_neg Bool.false_ne_true, Dictionary.find_put, if_pos rfl,
        argumentsBinding, if_pos strict]
      rfl
    · rw [if_neg strict, argumentsBinding, if_neg strict]
      exact bind_name_at header frame env bound names placed m r filled inside "arguments" (.object id) member
        fun b there => by cases absent.symm.trans there

/-- What names are bound to once those of a list that had not been bound are undefined. -/
def declared (bound : String → Option Binding) (names : List String) (name : String) : Option Binding :=
  (bound name).or (if name ∈ names then some ⟨.undefined, .lasting⟩ else none)

omit inside in
theorem bind_variables_at («variables» : List String) (members : ∀ name ∈ «variables», name ∈ names) : ∃ k,
    bindVariables header env «variables» m r = .ok () (r.withHeap k) ∧ k.objects = r.heap.objects ∧
      Fills header frame env (declared bound «variables») r.heap k := by
  induction «variables» generalizing r bound with
  | nil =>
    have same : declared bound [] = bound := funext fun name => by
      rw [declared, if_neg List.not_mem_nil, Option.or_none]
    rw [same]
    exact ⟨r.heap, rfl, rfl, filled_fills header frame env bound r.heap filled⟩
  | cons name rest hyp =>
    obtain ⟨here, later⟩ := List.forall_mem_cons.mp members
    rw [bindVariables, heap_at]
    -- a name that is skipped has a slot, where it is undefined unless it is bound, or is bound
    have skip (known : (Header.slot? header name).isSome = true ∨ (bound name).isSome = true) (k : Heap)
        (fills : Fills header frame env (declared bound rest) r.heap k) :
        Fills header frame env (declared bound (name :: rest)) r.heap k := by
      have others (other : String) (distinct : other ≠ name ∨ (bound other).isSome = true) :
          declared bound (name :: rest) other = declared bound rest other := by
        rw [declared, declared]
        cases there : bound other with
        | some b => rfl
        | none =>
          rw [there] at distinct
          simp only [List.mem_cons, distinct.resolve_right Bool.false_ne_true, false_or]
      refine ⟨filled_alike header frame env _ k _ fills.filled (fun other slotted => ?_) fun other free => ?_, fills.frames,
        fills.environments⟩
      · rw [declared, declared]
        cases bound other with
        | some b => rfl
        | none => split <;> split <;> rfl
      · refine others other ?_
        by_cases same : other = name
        · subst same
          rw [free] at known
          exact .inr (known.resolve_left Bool.false_ne_true)
        · exact .inl same
    cases slot : Header.slot? header name with
    | some index =>
      obtain ⟨k, is, objects, fills⟩ := hyp bound r filled later
      exact ⟨k, is, objects, skip (slot ▸ .inl rfl) k fills⟩
    | none =>
      have isOpen := unslotted_open header names placed name here slot
      rw [filled_has header frame env bound r.heap filled name slot isOpen]
      cases there : bound name with
      | some b =>
        obtain ⟨k, is, objects, fills⟩ := hyp bound r filled later
        exact ⟨k, is, objects, skip (there ▸ .inr rfl) k fills⟩
      | none =>
        obtain ⟨j, is, objects, fills⟩ := bind_fresh_at header frame env bound m r filled name .undefined slot isOpen there
        obtain ⟨k, is', objects', fills'⟩ := hyp _ (r.withHeap j) fills.filled later
        have same : declared (Function.update bound name (some ⟨.undefined, .lasting⟩)) rest =
            declared bound (name :: rest) := funext fun other => by
          rw [declared, declared]
          by_cases same : other = name
          · rw [same, Function.update_self, there, if_pos List.mem_cons_self]
            rfl
          · simp only [Function.update_of_ne same, List.mem_cons, same, false_or]
        rw [same] at fills'
        refine ⟨k, ?_, objects'.trans objects, fills_trans header frame env _ _ _ _ _ fills fills'⟩
        change (createBinding env name false >>= fun _ => setBinding env name .undefined false >>= fun _ =>
          bindVariables header env rest) m r = _
        rw [← bind_assoc, bind_at, is]
        exact is'

end

/-! The names of a function. -/

/-- The values that the parameters and functions of a function are given, if the next object is this one. -/
def namesGiven (routine : Routine) (args : List Value) (next : ObjectId) : List (String × Value) :=
  argumentsGiven routine.header.params args ++ functionsGiven next routine.functions

/-- The code of a function may look at its arguments object. -/
def Wants (header : Header) : Prop :=
  header.usesArguments = true ∨ header.directEval = true

section

variable (routine : Routine)

theorem names_given_names (args : List Value) (next : ObjectId) :
    (namesGiven routine args next).map Prod.fst = routine.header.params ++ routine.functionNames := by
  rw [namesGiven, List.map_append, arguments_given_names, functions_given_names]
  rfl

theorem needs_arguments : needsArguments routine = true ↔
    Wants routine.header ∧ "arguments" ∉ routine.header.params ∧ "arguments" ∉ routine.functionNames := by
  have functions : (routine.functions.any fun f => f.header.name == some "arguments") = true ↔
      "arguments" ∈ routine.functionNames := by
    rw [List.any_eq_true, Routine.functionNames, List.mem_filterMap]
    exact exists_congr fun f => and_congr_right fun _ => beq_iff_eq
  rw [needsArguments, Bool.and_eq_true, Bool.and_eq_true, Bool.or_eq_true, Bool.not_eq_true', Bool.not_eq_true',
    Bool.eq_false_iff, Bool.eq_false_iff, ne_eq, ne_eq, functions, List.contains_iff_mem, and_assoc]
  rfl

-- An arguments object is made only where nothing else has its name.
theorem arguments_free (needed : needsArguments routine = true) (args : List Value) (next : ObjectId) :
    assigned (fun _ => none) (namesGiven routine args next) "arguments" = none := by
  obtain ⟨_, parameter, function⟩ := (needs_arguments routine).mp needed
  refine assigned_absent _ _ _ ?_
  rw [names_given_names, List.mem_append, not_or]
  exact ⟨parameter, function⟩

theorem names_given_at (placed : routine.header.Placed routine.names) (frame : FrameId) (env : EnvironmentId)
    (m : Machine) (s : Realm) (filled : Filled routine.header frame env (fun _ => none) s.heap)
    (inside : s.running.frame = frame) (args : List Value) : ∃ j k,
      bindParams routine.header env routine.header.params args m s = .ok () (s.withHeap j) ∧
      bindFunctions routine.header env routine.functions m (s.withHeap j) = .ok () (s.withHeap k) ∧
      FunctionsMade s.heap k env routine.functions ∧
      Fills routine.header frame env (assigned (fun _ => none) (namesGiven routine args s.heap.objects.size)) s.heap k := by
  have lasting (name : String) (b : Binding) (there : (none : Option Binding) = some b) : b.state = .lasting := by
    cases there
  obtain ⟨j, is, objects, fills⟩ := bind_params_at routine.header frame env _ routine.names placed m s filled inside lasting
    routine.header.params args fun name member => List.mem_append_left _ member
  obtain ⟨k, is', made, fills'⟩ := bind_functions_at routine.header frame env _ routine.names placed m (s.withHeap j)
    fills.filled inside (assigned_lasting _ _ lasting) routine.functions fun name member =>
      List.mem_append_right _ (.tail _ (List.mem_append_left _ member))
  have size : (s.withHeap j).heap.objects.size = s.heap.objects.size := congrArg Array.size objects
  rw [size, ← assigned_append] at fills'
  refine ⟨j, k, is, is', ⟨?_, fun id less => ?_, fun before f after split => ?_, fun id mapped beyond => ?_⟩,
    fills_trans routine.header frame env _ _ _ _ _ fills fills'⟩
  · rw [made.size, size]
  · refine (made.known id (size.symm ▸ less)).trans ?_
    rw [Heap.object, Heap.object]
    exact congrArg (fun all => (all[id]?).getD default) objects
  · rw [← size]
    exact made.made before f after split
  · exact made.plain id mapped (size.symm ▸ beyond)

end

/-! Before any name is bound. -/

-- A call has a frame of its own and, unless all its names have slots, an environment of its own.
structure Entered (header : Header) (scope : EnvironmentId) (frame : FrameId) (env : EnvironmentId) (r s : Realm) :
    Prop where
  inside : s.running.frame = frame
  fresh : frame = r.heap.frames.size
  frames : s.heap.frames = r.heap.frames.push (Array.replicate header.slots .undefined)
  shared : header.collapsed = true → env = scope ∧ s.heap.environments = r.heap.environments
  own : header.collapsed = false → env = r.heap.environments.size ∧
    s.heap.environments = r.heap.environments.push ⟨.declarative [], some scope⟩
  size : r.heap.objects.size ≤ s.heap.objects.size
  known : ∀ id < r.heap.objects.size, s.heap.object id = r.heap.object id

theorem receiver_of_at (header : Header) (this : Value) (m : Machine) (r : Realm) :
    ∃ v k, receiverOf header this m r = .ok v (r.withHeap k) ∧ r.heap.Adds k := by
  have same : r.heap.Adds r.heap := ⟨Nat.le_refl _, fun _ _ => rfl, rfl, rfl⟩
  obtain ⟨x, is, ends⟩ : ∃ x, receiverOf header this = x ∧
      ∃ v k, x m r = .ok v (r.withHeap k) ∧ r.heap.Adds k := by
    by_cases strict : header.strict = true
    · exact ⟨_, if_pos strict, this, r.heap, rfl, same⟩
    · cases this with
      | undefined => exact ⟨_, if_neg strict, .object Intrinsic.global, r.heap, rfl, same⟩
      | null => exact ⟨_, if_neg strict, .object Intrinsic.global, r.heap, rfl, same⟩
      | boolean b => exact ⟨_, if_neg strict, _, _, rfl, Heap.object_adds r.heap _⟩
      | number x => exact ⟨_, if_neg strict, _, _, rfl, Heap.object_adds r.heap _⟩
      | string s => exact ⟨_, if_neg strict, _, _, rfl, Heap.object_adds r.heap _⟩
      | object id => exact ⟨_, if_neg strict, .object id, r.heap, rfl, same⟩
  rw [is]
  exact ends

theorem entered_filled (header : Header) (names : List String) (placed : header.Placed names) (scope : EnvironmentId)
    (frame : FrameId) (env : EnvironmentId) (r s : Realm) (entered : Entered header scope frame env r s) :
    Filled header frame env (fun _ => none) s.heap := by
  refine ⟨⟨Array.replicate header.slots .undefined, ?_, Array.size_replicate, fun name index slot => ?_⟩, fun isOpen => ?_⟩
  · rw [entered.frames, entered.fresh]
    exact Array.getElem?_push_size
  · rw [Array.getElem?_replicate, if_pos (placed.inside name index slot)]
    rfl
  · refine ⟨[], some scope, ?_, fun name => ?_⟩
    · rw [(entered.own isOpen).2, (entered.own isOpen).1]
      exact Array.getElem?_push_size
    · split <;> rfl

-- A call up to the moment when its names are to be bound.
theorem entered_at {α : Type} (header : Header) (scope : EnvironmentId) (this : Value) (m : Machine) (r : Realm)
    (f : EnvironmentId → FrameId → Run α) : ∃ frame env s, Entered header scope frame env r s ∧
      ((if header.collapsed then pure scope else newScope scope : Run EnvironmentId) >>= fun env => do
          let this ← receiverOf header this
          let frame ← updateHeap fun h => h.addFrame (Array.replicate header.slots .undefined)
          modifyRunning fun c => { c with lexicalEnv := env, variableEnv := env, this := this, frame := frame }
          f env frame) m r = f env frame m s := by
  have rest (env : EnvironmentId) (k : Heap) (objects : k.objects = r.heap.objects) (frames : k.frames = r.heap.frames)
      (shared : header.collapsed = true → env = scope ∧ k.environments = r.heap.environments)
      (own : header.collapsed = false → env = r.heap.environments.size ∧
        k.environments = r.heap.environments.push ⟨.declarative [], some scope⟩) :
      ∃ frame env' s, Entered header scope frame env' r s ∧ (do
          let this ← receiverOf header this
          let frame ← updateHeap fun h => h.addFrame (Array.replicate header.slots .undefined)
          modifyRunning fun c => { c with lexicalEnv := env, variableEnv := env, this := this, frame := frame }
          f env frame) m (r.withHeap k) = f env' frame m s := by
    obtain ⟨v, l, is, adds⟩ := receiver_of_at header this m (r.withHeap k)
    refine ⟨l.frames.size, env, { r.withHeap (l.addFrame (Array.replicate header.slots .undefined)).2 with
      running := { r.running with lexicalEnv := env, variableEnv := env, this := v, frame := l.frames.size } },
      ⟨rfl, ?_, ?_, fun collapsed => ?_, fun isOpen => ?_, ?_, fun id known => ?_⟩, ?_⟩
    · rw [adds.stores.1, ← frames]
      rfl
    · change l.frames.push _ = _
      rw [adds.stores.1, ← frames]
      rfl
    · exact ⟨(shared collapsed).1, adds.stores.2.trans (shared collapsed).2⟩
    · exact ⟨(own isOpen).1, adds.stores.2.trans (own isOpen).2⟩
    · rw [← objects]
      exact adds.size
    · refine (adds.object id (objects.symm ▸ known)).trans ?_
      rw [Heap.object, Heap.object, ← objects]
      rfl
    · rw [bind_at, is]
      rfl
  cases collapsed : header.collapsed with
  | true => exact rest scope r.heap rfl rfl (fun _ => ⟨rfl, rfl⟩) fun isOpen => by cases collapsed.symm.trans isOpen
  | false =>
    exact rest r.heap.environments.size (r.heap.addEnvironment ⟨.declarative [], some scope⟩).2 rfl rfl
      (fun contra => by cases collapsed.symm.trans contra) fun _ => ⟨rfl, rfl⟩

-- The opening, from the moment the places of the names are there.
theorem opening_enters (routine : Routine) (f : ObjectId) (scope : EnvironmentId) (this : Value)
    (args : List Value) : opening routine f scope this args =
      ((if routine.header.collapsed then pure scope else newScope scope : Run EnvironmentId) >>= fun env => do
          let this ← receiverOf routine.header this
          let frame ← updateHeap fun h => h.addFrame (Array.replicate routine.header.slots .undefined)
          modifyRunning fun c => { c with lexicalEnv := env, variableEnv := env, this := this, frame := frame }
          (do bindParams routine.header env routine.header.params args
              bindFunctions routine.header env routine.functions
              let id ← newArguments routine.header f frame env args
              bindArguments routine.header env id
              bindVariables routine.header env routine.header.variables
              return ⟨routine.header, args, id, frame, env⟩)) := by
  rw [opening]
  cases collapsed : routine.header.collapsed <;> rfl

end Ecma
