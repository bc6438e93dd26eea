import Ecma.Proofs.Eval.Activation
import Ecma.Proofs.Eval.Opening

set_option autoImplicit false

/-!
The arguments objects of calls, from the first statement on. When the opening of a call is over, each element
stands for the parameter it is paired with, and whatever is done to the two sides they keep to each other.
-/

namespace Ecma

open Ecma.Program Run
open Ecma.Scope (CodeKind)
open Ecma.Syntax (Accepted Code Parsed Part parseProgram)

theorem bind_ended {α β : Type} (x : Run α) (f : α → Run β) (m : Machine) (r s : Realm) (a : α)
    (ended : x m r = .ok a s) : (x >>= f) m r = f a m s := by
  rw [bind_at, ended]

section

variable (routine : Routine) (placed : routine.header.Placed routine.names)
  (needed : needsArguments routine = true)

include placed in
theorem call_separate (args : List Value) (id : ObjectId) (frame : FrameId) (env : EnvironmentId) :
    Call.Separate ⟨routine.header, args, id, frame, env⟩ := by
  intro name other same
  change aliasOf routine.header frame env name = aliasOf routine.header frame env other at same
  rw [aliasOf, aliasOf] at same
  cases slot : Header.slot? routine.header name with
  | none =>
    cases slot' : Header.slot? routine.header other with
    | none =>
      rw [slot, slot'] at same
      exact (Alias.binding.inj same).2
    | some index =>
      rw [slot, slot'] at same
      cases same
  | some index =>
    cases slot' : Header.slot? routine.header other with
    | none =>
      rw [slot, slot'] at same
      cases same
    | some index' =>
      rw [slot, slot'] at same
      rw [← (Alias.slot.inj same).2] at slot'
      exact placed.distinct name other index slot slot'

-- The elements of a new arguments object stand for the parameters they are paired with.
theorem new_arguments_stand (header : Header) (args : List Value) (id : ObjectId) (frame : FrameId)
    (env : EnvironmentId) (h : Heap)
    (kind : h.kind id =
      .arguments (if header.strict then [] else mappedFrom header frame env 0 (header.params.take args.length)))
    (i : Nat) (a : Alias) : h.alias? id (.index i) = some a ↔
      ∃ name, Call.Pairs ⟨header, args, id, frame, env⟩ i name ∧
        a = Call.location ⟨header, args, id, frame, env⟩ name := by
  rw [Heap.alias_mapped, Heap.kind] at *
  rw [kind]
  cases strict : header.strict with
  | true =>
    constructor
    · intro found
      cases found
    · rintro ⟨name, pairs, _⟩
      exact absurd (strict.symm.trans pairs.1) Bool.noConfusion
  | false =>
    change (mappedFrom header frame env 0 (header.params.take args.length)).lookup i = some a ↔ _
    rw [mapped_from_lookup]
    constructor
    · rintro ⟨j, name, same, last, is⟩
      rw [Nat.zero_add] at same
      exact ⟨name, (Call.pairs_last _ i name).mpr ⟨strict, same ▸ last⟩, is⟩
    · rintro ⟨name, pairs, is⟩
      exact ⟨i, name, (Nat.zero_add i).symm, ((Call.pairs_last _ i name).mp pairs).2, is⟩

include placed needed in
-- The opening of a call comes to its end, with every element at its parameter.
theorem opening_at (f : ObjectId) (scope : EnvironmentId) (this : Value) (args : List Value) (m : Machine)
    (r : Realm) : ∃ id frame env s,
      opening routine f scope this args m r = .ok ⟨routine.header, args, id, frame, env⟩ s ∧
        s.running.frame = frame ∧ Call.Standing ⟨routine.header, args, id, frame, env⟩ s.heap ∧
        ∀ i name, Call.Pairs ⟨routine.header, args, id, frame, env⟩ i name →
          Call.Stands ⟨routine.header, args, id, frame, env⟩ s.heap i name := by
  rw [opening_enters]
  obtain ⟨frame, env, s, entered, is⟩ := entered_at routine.header scope this m r fun env frame => do
    bindParams routine.header env routine.header.params args
    bindFunctions routine.header env routine.functions
    let id ← newArguments routine.header f frame env args
    bindArguments routine.header env id
    bindVariables routine.header env routine.header.variables
    return (⟨routine.header, args, id, frame, env⟩ : Call)
  rw [is]
  have filled := entered_filled routine.header routine.names placed scope frame env r s entered
  obtain ⟨k₁, k₂, is₁, is₂, _, fills⟩ := names_given_at routine placed frame env m s filled entered.inside args
  -- the new object is the last of its heap
  let kind : ObjectKind := .arguments
    (if routine.header.strict then []
      else mappedFrom routine.header frame env 0 (routine.header.params.take args.length))
  let names : Dictionary Descriptor :=
    if routine.header.strict then ("length", Descriptor.hidden (.ofNat args.length)) :: poisoned ["caller", "callee"]
    else [("length", Descriptor.hidden (.ofNat args.length)), ("callee", .hidden (.object f))]
  let o : Object :=
    { kind := kind, prototype := some Intrinsic.objectPrototype, properties := .ofElements names (args.map some) }
  have is₃ : newArguments routine.header f frame env args m (s.withHeap k₂) =
      .ok k₂.objects.size (s.withHeap (k₂.addObject o).2) := rfl
  have fills := fills_stores routine.header frame env _ k₂ (k₂.addObject o).2 ⟨rfl, rfl⟩ fills.filled
  obtain ⟨k₄, is₄, objects₄, fills⟩ := bind_arguments_at routine.header frame env _ routine.names placed m
    (s.withHeap (k₂.addObject o).2) fills.filled entered.inside k₂.objects.size (List.mem_append_right _ (.head _))
    (arguments_free routine needed args _)
  obtain ⟨k₅, is₅, objects₅, fills⟩ := bind_variables_at routine.header frame env _ routine.names placed m
    (s.withHeap k₄) fills.filled routine.header.variables fun name member =>
      List.mem_append_right _ (.tail _ (List.mem_append_right _ member))
  have object : k₅.object k₂.objects.size = o := by
    rw [Heap.object, objects₅]
    change (k₄.objects[k₂.objects.size]?).getD _ = o
    rw [objects₄]
    exact Heap.object_add k₂ o k₂.objects.size |>.trans (if_pos rfl)
  have live (name : String) (member : name ∈ routine.header.params) :
      k₅.Live (aliasOf routine.header frame env name) := by
    obtain ⟨v, is⟩ := assigned_given (fun _ => none) (namesGiven routine args s.heap.objects.size) name
      (names_given_names routine args _ ▸ List.mem_append_left _ member)
    refine filled_live routine.header frame env _ routine.names placed k₅ fills.filled name ⟨v, .lasting⟩
      (List.mem_append_left _ member) ?_ rfl
    have other : name ≠ "arguments" := by
      rintro rfl
      exact ((needs_arguments routine).mp needed).2.1 member
    rw [declared, Function.update_of_ne other, is]
    rfl
  have stands := new_arguments_stand routine.header args k₂.objects.size frame env k₅ (congrArg Object.kind object)
  refine ⟨k₂.objects.size, frame, env, s.withHeap k₅, ?_, entered.inside, ⟨⟨⟨_, congrArg Object.kind object⟩, ?_, ?_⟩,
    fun i a mapped => (stands i a).mp mapped, live⟩, fun i name pairs => (stands i _).mpr ⟨name, pairs, rfl⟩⟩
  · refine (bind_ended _ _ m s _ _ is₁).trans ?_
    refine (bind_ended _ _ m (s.withHeap k₁) _ _ is₂).trans ?_
    refine (bind_ended _ _ m (s.withHeap k₂) _ _ is₃).trans ?_
    refine (bind_ended _ _ m (s.withHeap (k₂.addObject o).2) _ _ is₄).trans ?_
    exact bind_ended _ _ m (s.withHeap k₄) _ _ is₅
  · change (k₅.object k₂.objects.size).Writable
    rw [object]
    exact new_arguments_writable routine.header frame env args _ names
  · intro i a mapped
    obtain ⟨name, pairs, rfl⟩ := (stands i a).mp mapped
    exact live name (Call.pairs_parameter _ i name pairs)

end

/-- From the first statement of a call on, its arguments object and its parameters keep to each other, and
running code changes the two in a few ways only. -/
theorem arguments_aliased (kind : CodeKind) (parsed : Parsed) (accepted : Accepted kind parsed) (code : Code)
    (within : Part.Within (.code code) (.code parsed.code)) (isFunction : code.header.kind = .function)
    (text : String) (labels : List String) (routine : Routine)
    (compiled : routine = compileCode ⟨parsed.scopes, text, labels⟩ code) (needed : needsArguments routine = true)
    (f : ObjectId) (scope : EnvironmentId) (this : Value) (args : List Value) :
    (activate routine f scope this args = do
      let _ ← opening routine f scope this args
      return returned (← executeAll routine.header.strict none routine.body)) ∧
    ∀ m r, ∃ c s, opening routine f scope this args m r = .ok c s ∧ c.header = routine.header ∧ c.args = args ∧
      s.running.frame = c.frame ∧
      ∀ done h, c.History s.heap done h → c.Aliased done h ∧ ∀ m r, r.heap = h → c.Driven m r := by
  have placed : routine.header.Placed routine.names :=
    compiled ▸ compiled_placed kind parsed accepted code within isFunction text labels
  refine ⟨activate_is routine f scope this args needed, fun m r => ?_⟩
  obtain ⟨id, frame, env, s, is, inside, standing, stands⟩ := opening_at routine placed needed f scope this args m r
  refine ⟨⟨routine.header, args, id, frame, env⟩, s, is, rfl, rfl, inside, fun done h history => ⟨?_, ?_⟩⟩
  · exact Call.history_aliased _ (call_separate routine placed args id frame env) s.heap h done standing stands history
  · rintro m r rfl
    exact Call.standing_driven _ m r (Call.history_standing _ s.heap r.heap done history standing)

theorem arguments_aliased_repeated : ∃ parsed code, Accepted .global parsed ∧ Part.Within (.code code) (.code parsed.code) ∧
    code.header.params = ["a", "b", "a"] ∧
    ∀ args m r, ∃ c s, opening (compileCode ⟨parsed.scopes, "", []⟩ code) 0 0 .undefined args m r = .ok c s ∧
      c.Aliased [] s.heap := by
  let text := "function f(a, b, a) \x7b return arguments \x7d"
  have found : (parseProgram text "main.js" true).toOption.map (fun p => p.code.functions.map fun code =>
      (code.header.kind, code.header.params, needsArguments (compileCode ⟨p.scopes, "", []⟩ code))) =
        some [(.function, ["a", "b", "a"], true)] := by
    decide +kernel
  cases parses : parseProgram text "main.js" true with
  | error e =>
    rw [parses] at found
    cases found
  | ok parsed =>
    rw [parses] at found
    obtain ⟨⟨header, functions, body⟩, scopes⟩ := parsed
    obtain ⟨code, rest, same, facts, _⟩ := List.map_eq_cons_iff.mp (Option.some.inj found)
    obtain ⟨isFunction, params, needed⟩ := Prod.mk.inj facts |>.imp_right Prod.mk.inj
    have inside : Part.Within (.code code) (.code (.mk header functions body)) := by
      refine .inside _ (.code code) _ ?_ (.whole _)
      rw [Part.parts, show functions = code :: rest from same]
      exact .head _
    have accepted := Accepted.program text "main.js" true _ parses
    refine ⟨_, code, accepted, inside, params, fun args m r => ?_⟩
    obtain ⟨c, s, is, _, _, _, history⟩ := (arguments_aliased .global _ accepted code inside isFunction "" [] _ rfl needed
      0 0 .undefined args).2 m r
    exact ⟨c, s, is, (history [] s.heap (.nil _)).1⟩

end Ecma

/-!
The names of a function when its first statement runs. Declared functions come before arguments, and both
before the arguments object; of several with one name the last one counts.
-/

namespace Ecma

open Ecma.Program Run
open Ecma.Scope (CodeKind)
open Ecma.Syntax (Accepted Code Parsed Part parseProgram)

/-- The bindings of a function when its first statement runs, if the next object is this one. -/
def firstBindings (routine : Routine) (args : List Value) (next : ObjectId) : String → Option Binding :=
  let given := assigned (fun _ => none) (namesGiven routine args next)
  let object := argumentsBinding routine.header (next + 2 * routine.functions.length)
  declared (if needsArguments routine then Function.update given "arguments" (some object) else given)
    routine.header.variables

/-- What the arguments object of a call stands for. -/
def argumentsKind (header : Header) (frame : FrameId) (env : EnvironmentId) (args : List Value) : ObjectKind :=
  .arguments (if header.strict then [] else mappedFrom header frame env 0 (header.params.take args.length))

/-- A name has a binding of its own in the calls of a function. -/
def Binds (routine : Routine) (name : String) : Prop :=
  name ∈ routine.header.params ∨ name ∈ routine.functionNames ∨ name = "arguments" ∧ Wants routine.header ∨
    name ∈ routine.header.variables

/-! The first bindings. -/

section

variable (routine : Routine) (args : List Value) (next : ObjectId) (name : String)

theorem first_given (b : Binding)
    (there : assigned (fun _ => none) (namesGiven routine args next) name = some b) :
    firstBindings routine args next name = some b := by
  rw [firstBindings, declared]
  split
  · next needed =>
    have other : name ≠ "arguments" := by
      rintro rfl
      cases (arguments_free routine needed args next).symm.trans there
    rw [Function.update_of_ne other, there]
    rfl
  · rw [there]
    rfl

theorem first_function (before after : List Routine) (g : Routine) (split : routine.functions = before ++ g :: after)
    (named : g.header.name = some name) (last : name ∉ after.filterMap fun f => f.header.name) :
    firstBindings routine args next name = some ⟨.object (next + 2 * before.length), .lasting⟩ := by
  refine first_given routine args next name _ ?_
  rw [namesGiven, split, functions_given_split next before after g name named, ← List.append_assoc]
  refine assigned_last _ _ _ name _ ?_
  rw [functions_given_names]
  exact last

theorem first_parameter (before after : List String) (split : routine.header.params = before ++ name :: after)
    (last : name ∉ after) (free : name ∉ routine.functionNames) :
    firstBindings routine args next name = some ⟨args[before.length]?.getD .undefined, .lasting⟩ := by
  refine first_given routine args next name _ ?_
  rw [namesGiven, split, arguments_given_split, List.append_assoc, List.cons_append]
  refine assigned_last _ _ _ name _ ?_
  rw [List.map_append, arguments_given_names, functions_given_names, List.mem_append, not_or]
  exact ⟨last, free⟩

theorem first_arguments (needed : needsArguments routine = true) : firstBindings routine args next "arguments" =
    some (argumentsBinding routine.header (next + 2 * routine.functions.length)) := by
  rw [firstBindings, declared, if_pos needed, Function.update_self]
  rfl

theorem first_other (parameter : name ∉ routine.header.params) (function : name ∉ routine.functionNames)
    (object : ¬ (name = "arguments" ∧ Wants routine.header)) : firstBindings routine args next name =
      if name ∈ routine.header.variables then some ⟨.undefined, .lasting⟩ else none := by
  have free : assigned (fun _ => none) (namesGiven routine args next) name = none := by
    refine assigned_absent _ _ name ?_
    rw [names_given_names, List.mem_append, not_or]
    exact ⟨parameter, function⟩
  rw [firstBindings, declared]
  split
  · next needed =>
    rw [Function.update_of_ne fun is => object ⟨is, ((needs_arguments routine).mp needed).1⟩, free]
    rfl
  · rw [free]
    rfl

-- Each name is one of a function, of a parameter, of the arguments object or of nothing of these.
theorem first_cases : name ∈ routine.header.params ++ routine.functionNames ∨
    name = "arguments" ∧ needsArguments routine = true ∨ name ∉ routine.header.params ∧
      name ∉ routine.functionNames ∧ ¬ (name = "arguments" ∧ Wants routine.header) := by
  by_cases given : name ∈ routine.header.params ++ routine.functionNames
  · exact .inl given
  · rw [List.mem_append, not_or] at given
    by_cases object : name = "arguments" ∧ Wants routine.header
    · obtain ⟨rfl, wants⟩ := object
      exact .inr (.inl ⟨rfl, (needs_arguments routine).mpr ⟨wants, given⟩⟩)
    · exact .inr (.inr ⟨given.1, given.2, object⟩)

theorem first_bound : (firstBindings routine args next name).isSome = true ↔ Binds routine name := by
  rw [Binds]
  rcases first_cases routine name with given | ⟨rfl, needed⟩ | ⟨parameter, function, object⟩
  · obtain ⟨v, is⟩ := assigned_given (fun _ => none) (namesGiven routine args next) name
      ((names_given_names routine args next).symm ▸ given)
    rw [first_given routine args next name _ is]
    refine iff_of_true rfl ?_
    rcases List.mem_append.mp given with parameter | function
    · exact .inl parameter
    · exact .inr (.inl function)
  · rw [first_arguments routine args next needed]
    exact iff_of_true rfl (.inr (.inr (.inl ⟨rfl, ((needs_arguments routine).mp needed).1⟩)))
  · rw [first_other routine args next name parameter function object]
    by_cases member : name ∈ routine.header.variables
    · rw [if_pos member]
      exact iff_of_true rfl (.inr (.inr (.inr member)))
    · rw [if_neg member]
      refine iff_of_false Bool.false_ne_true ?_
      rintro (is | is | is | is)
      · exact parameter is
      · exact function is
      · exact object is
      · exact member is

theorem first_ready (b : Binding) (there : firstBindings routine args next name = some b) :
    b.state ≠ .uninitialized := by
  rcases first_cases routine name with given | ⟨rfl, needed⟩ | ⟨parameter, function, object⟩
  · obtain ⟨v, is⟩ := assigned_given (fun _ => none) (namesGiven routine args next) name
      ((names_given_names routine args next).symm ▸ given)
    rw [first_given routine args next name _ is] at there
    cases there
    intro contra
    cases contra
  · rw [first_arguments routine args next needed] at there
    cases there
    rw [argumentsBinding]
    dsimp only
    split <;> intro contra <;> cases contra
  · rw [first_other routine args next name parameter function object] at there
    split at there
    · cases there
      intro contra
      cases contra
    · cases there

end

/-! Instantiation. -/

/-- What instantiation leaves. Only the frame and the environment of the call have changed, and the function
objects and at most one arguments object have been added. -/
structure Instantiated (routine : Routine) (args : List Value) (frame : FrameId) (env : EnvironmentId) (s t : Realm) :
    Prop where
  running : t.running = s.running
  fills : Fills routine.header frame env (firstBindings routine args s.heap.objects.size) s.heap t.heap
  known : ∀ id < s.heap.objects.size, t.heap.object id = s.heap.object id
  made : ∀ before g after, routine.functions = before ++ g :: after →
    t.heap.kind (s.heap.objects.size + 2 * before.length) = .function (.script g env)
  created : ∀ (id : Nat) mapped, s.heap.objects.size ≤ id → (t.heap.kind id = .arguments mapped ↔
    needsArguments routine = true ∧ id = s.heap.objects.size + 2 * routine.functions.length ∧
      .arguments mapped = argumentsKind routine.header frame env args)

theorem instantiate_at (routine : Routine) (placed : routine.header.Placed routine.names) (f : ObjectId) (frame : FrameId)
    (env : EnvironmentId) (args : List Value) (m : Machine) (s : Realm)
    (filled : Filled routine.header frame env (fun _ => none) s.heap) (inside : s.running.frame = frame) :
    ∃ t, instantiate routine f frame env args m s = .ok () t ∧ Instantiated routine args frame env s t := by
  obtain ⟨j, k, is₁, is₂, made, fills⟩ := names_given_at routine placed frame env m s filled inside args
  have vars (name : String) (member : name ∈ routine.header.variables) : name ∈ routine.names :=
    List.mem_append_right _ (.tail _ (List.mem_append_right _ member))
  cases needed : needsArguments routine with
  | false =>
    obtain ⟨l, is₃, objects, fills'⟩ := bind_variables_at routine.header frame env _ routine.names placed m (s.withHeap k)
      fills.filled routine.header.variables vars
    have object (id : ObjectId) : l.object id = k.object id := congrArg (fun all => (all[id]?).getD default) objects
    refine ⟨s.withHeap l, ?_, rfl, ?_, fun id less => (object id).trans (made.known id less), fun before g after split => ?_,
      fun id mapped beyond => ?_⟩
    · rw [instantiate, bind_at, is₁]
      dsimp only
      rw [bind_at, is₂, needed]
      exact is₃
    · rw [firstBindings, needed, if_neg Bool.false_ne_true]
      exact fills_trans routine.header frame env _ _ _ _ _ fills fills'
    · exact (congrArg Object.kind (object _)).trans (made.made before g after split)
    · refine iff_of_false (fun kind => ?_) fun all => Bool.false_ne_true (needed.symm.trans all.1)
      exact made.plain id mapped beyond ((congrArg Object.kind (object id)).symm.trans kind)
  | true =>
    obtain ⟨o, is₃, kind⟩ : ∃ o, newArguments routine.header f frame env args m (s.withHeap k) =
        .ok k.objects.size (s.withHeap (k.addObject o).2) ∧ o.kind = argumentsKind routine.header frame env args :=
      ⟨_, rfl, rfl⟩
    have added := fills_stores routine.header frame env _ k (k.addObject o).2 ⟨rfl, rfl⟩ fills.filled
    obtain ⟨l, is₄, objects, fills'⟩ := bind_arguments_at routine.header frame env _ routine.names placed m
      (s.withHeap (k.addObject o).2) added.filled inside k.objects.size (List.mem_append_right _ (.head _))
      (arguments_free routine needed args _)
    obtain ⟨n, is₅, objects', fills''⟩ := bind_variables_at routine.header frame env _ routine.names placed m (s.withHeap l)
      fills'.filled routine.header.variables vars
    have object (id : ObjectId) : n.object id = if id = k.objects.size then o else k.object id :=
      (congrArg (fun all => (all[id]?).getD default) (objects'.trans objects)).trans (k.object_add o id)
    have less (id : Nat) (before : id < k.objects.size) : n.object id = k.object id :=
      (object id).trans (if_neg (Nat.ne_of_lt before))
    have size := made.size
    refine ⟨s.withHeap n, ?_, rfl, ?_, fun id known => (less id (by omega)).trans (made.known id known),
      fun before g after split => ?_, fun id mapped beyond => ?_⟩
    · rw [instantiate, bind_at, is₁]
      dsimp only
      rw [bind_at, is₂, needed]
      dsimp only
      rw [if_pos rfl, bind_at, is₃]
      dsimp only
      rw [bind_at, is₄]
      exact is₅
    · rw [firstBindings, needed, if_pos rfl, ← size]
      exact fills_trans routine.header frame env _ _ _ _ _ fills (fills_trans routine.header frame env _ _ _ _ _ added
        (fills_trans routine.header frame env _ _ _ _ _ fills' fills''))
    · have inner : before.length < routine.functions.length := by
        rw [split, List.length_append, List.length_cons]
        omega
      exact (congrArg Object.kind (less _ (by omega))).trans (made.made before g after split)
    · rw [← size]
      change (n.object id).kind = _ ↔ _
      rw [object id]
      split
      · next here => rw [kind]; exact ⟨fun is => ⟨needed, here, is.symm⟩, fun all => all.2.2.symm⟩
      · next other => exact iff_of_false (made.plain id mapped beyond) fun all => other all.2.1

/-- The names that a function binds have these values when its first statement runs. -/
structure Begun (routine : Routine) (args : List Value) (frame : FrameId) (env : EnvironmentId) (s t : Realm) :
    Prop where
  -- A name stands for the last function that is declared with it,
  functions : ∀ before g after name, routine.functions = before ++ g :: after → g.header.name = some name →
    (name ∉ after.filterMap fun f => f.header.name) →
      t.heap.kind (s.heap.objects.size + 2 * before.length) = .function (.script g env) ∧ ∀ m strict,
        (ownPlace routine.header env name strict).read m t = .ok (.object (s.heap.objects.size + 2 * before.length)) t
  -- or else for the argument at the last place of the parameter,
  parameters : ∀ before after name, routine.header.params = before ++ name :: after → name ∉ after →
    name ∉ routine.functionNames → ∀ m strict,
      (ownPlace routine.header env name strict).read m t = .ok (args[before.length]?.getD .undefined) t
  -- or else, if it is that of the arguments object and the code may look at it, for that object,
  arguments : "arguments" ∉ routine.header.params → "arguments" ∉ routine.functionNames → Wants routine.header →
    t.heap.kind (s.heap.objects.size + 2 * routine.functions.length) = argumentsKind routine.header frame env args ∧
      ∀ m strict, (ownPlace routine.header env "arguments" strict).read m t =
        .ok (.object (s.heap.objects.size + 2 * routine.functions.length)) t
  -- or else it is undefined.
  others : ∀ name, (Header.slot? routine.header name).isSome = true ∨ Binds routine name →
    name ∉ routine.header.params → name ∉ routine.functionNames → ¬ (name = "arguments" ∧ Wants routine.header) →
      ∀ m strict, (ownPlace routine.header env name strict).read m t = .ok .undefined t
  -- An arguments object is made if and only if the code may look at it and nothing else has its name.
  created : ∀ id : Nat, s.heap.objects.size ≤ id → ((∃ mapped, t.heap.kind id = .arguments mapped) ↔
    id = s.heap.objects.size + 2 * routine.functions.length ∧ Wants routine.header ∧
      "arguments" ∉ routine.header.params ∧ "arguments" ∉ routine.functionNames)
  -- The environment of the call has bindings of these names, but for those that have slots, and of no others.
  bindings : routine.header.collapsed = false → ∀ name, t.heap.hasBinding env name = true ↔
    Header.slot? routine.header name = none ∧ Binds routine name
  -- Nothing else is written.
  running : t.running = s.running
  frames : ∀ other, other ≠ frame → t.heap.frames[other]? = s.heap.frames[other]?
  environments : ∀ other, routine.header.collapsed = true ∨ other ≠ env →
    t.heap.environments[other]? = s.heap.environments[other]?
  objects : ∀ id < s.heap.objects.size, t.heap.object id = s.heap.object id

theorem instantiated_begun (routine : Routine) (placed : routine.header.Placed routine.names) (args : List Value)
    (frame : FrameId) (env : EnvironmentId) (s t : Realm) (inside : s.running.frame = frame)
    (done : Instantiated routine args frame env s t) : Begun routine args frame env s t := by
  have filled := done.fills.filled
  have member (name : String) (binds : Binds routine name) : name ∈ routine.names := by
    rcases binds with parameter | function | ⟨rfl, _⟩ | «variable»
    · exact List.mem_append_left _ parameter
    · exact List.mem_append_right _ (.tail _ (List.mem_append_left _ function))
    · exact List.mem_append_right _ (.head _)
    · exact List.mem_append_right _ (.tail _ (List.mem_append_right _ «variable»))
  have read (name : String) (known : (Header.slot? routine.header name).isSome = true ∨ Binds routine name) (m : Machine)
      (strict : Bool) : (ownPlace routine.header env name strict).read m t = .ok
        (((firstBindings routine args s.heap.objects.size name).map Binding.value).getD .undefined) t := by
    refine filled_read routine.header frame env _ routine.names placed m t filled
      ((congrArg Context.frame done.running).trans inside) name
      (known.imp_right fun binds => ⟨member name binds, ?_⟩) (first_ready routine args _ name) strict
    exact (first_bound routine args _ name).mpr binds
  have given (name : String) (b : Binding) (is : firstBindings routine args s.heap.objects.size name = some b)
      (m : Machine) (strict : Bool) : (ownPlace routine.header env name strict).read m t = .ok b.value t := by
    rw [read name (.inr ((first_bound routine args s.heap.objects.size name).mp (by rw [is]; rfl))) m strict, is]
    rfl
  have object (needed : needsArguments routine = true) :
      t.heap.kind (s.heap.objects.size + 2 * routine.functions.length) = argumentsKind routine.header frame env args := by
    rw [argumentsKind]
    exact (done.created _ _ (Nat.le_add_right _ _)).mpr ⟨needed, rfl, rfl⟩
  refine ⟨fun before g after name split named last => ⟨done.made before g after split,
    given name _ (first_function routine args _ name before after g split named last)⟩,
    fun before after name split last free => given name _ (first_parameter routine args _ name before after split last free),
    fun parameter function wants => ?_, fun name known parameter function other m strict => ?_, fun id beyond => ?_,
    fun isOpen name => ?_, done.running, done.fills.frames, done.fills.environments, done.known⟩
  · have needed := (needs_arguments routine).mpr ⟨wants, parameter, function⟩
    exact ⟨object needed, given "arguments" _ (first_arguments routine args _ needed)⟩
  · rw [read name known m strict, first_other routine args _ name parameter function other]
    split <;> rfl
  · rw [← needs_arguments]
    constructor
    · rintro ⟨mapped, kind⟩
      obtain ⟨needed, here, _⟩ := (done.created id mapped beyond).mp kind
      exact ⟨here, needed⟩
    · rintro ⟨rfl, needed⟩
      exact ⟨_, object needed⟩
  · obtain ⟨all, record, held⟩ := filled_record routine.header frame env _ t.heap filled isOpen
    rw [Heap.hasBinding, record, ← first_bound routine args s.heap.objects.size name]
    change (Dictionary.find? all name).isSome = true ↔ _
    rw [held name]
    cases Header.slot? routine.header name with
    | none => exact ⟨fun bound => ⟨rfl, bound⟩, fun both => both.2⟩
    | some index => exact iff_of_false Bool.false_ne_true fun both => by cases both.1

/-- A call of any function of an accepted text comes to its first statement, with each name of the function bound
to its first value in the frame or the environment of the call. -/
theorem activation_binds (kind : CodeKind) (parsed : Parsed) (accepted : Accepted kind parsed) (code : Code)
    (within : Part.Within (.code code) (.code parsed.code)) (isFunction : code.header.kind = .function)
    (text : String) (labels : List String) (routine : Routine)
    (compiled : routine = compileCode ⟨parsed.scopes, text, labels⟩ code) (f : ObjectId) (scope : EnvironmentId)
    (this : Value) (args : List Value) (m : Machine) (r : Realm) : ∃ frame env s t,
      Entered routine.header scope frame env r s ∧ instantiate routine f frame env args m s = .ok () t ∧
      activate routine f scope this args m r =
        (do return returned (← executeAll routine.header.strict none routine.body)) m t ∧
      Begun routine args frame env s t := by
  have placed : routine.header.Placed routine.names :=
    compiled ▸ compiled_placed kind parsed accepted code within isFunction text labels
  obtain ⟨frame, env, s, entered, is⟩ := entered_at routine.header scope this m r fun env frame => do
    instantiate routine f frame env args
    return returned (← executeAll routine.header.strict none routine.body)
  obtain ⟨t, ends, done⟩ := instantiate_at routine placed f frame env args m s
    (entered_filled routine.header routine.names placed scope frame env r s entered) entered.inside
  refine ⟨frame, env, s, t, entered, ends, ?_, instantiated_begun routine placed args frame env s t entered.inside done⟩
  have enters : activate routine f scope this args =
      ((if routine.header.collapsed then pure scope else newScope scope : Run EnvironmentId) >>= fun env => do
          let this ← receiverOf routine.header this
          let frame ← updateHeap fun h => h.addFrame (Array.replicate routine.header.slots .undefined)
          modifyRunning fun c => { c with lexicalEnv := env, variableEnv := env, this := this, frame := frame }
          (do instantiate routine f frame env args
              return returned (← executeAll routine.header.strict none routine.body))) := by
    rw [activate]
    cases routine.header.collapsed <;> rfl
  rw [enters, is, bind_at, ends]

theorem activation_binds_repeated : ∃ parsed code, Accepted .global parsed ∧ Part.Within (.code code) (.code parsed.code) ∧
    code.header.kind = .function ∧ ∀ (x y z : Value) (m : Machine) (r : Realm), ∃ frame env s t,
      let routine := compileCode ⟨parsed.scopes, "", []⟩ code
      routine.header.params = ["a", "b", "a"] ∧ (routine.functions.map fun f => f.header.name) = [some "b"] ∧
        Entered routine.header 0 frame env r s ∧ instantiate routine 0 frame env [x, y, z] m s = .ok () t ∧
        (ownPlace routine.header env "a" false).read m t = .ok z t ∧
        (ownPlace routine.header env "b" false).read m t = .ok (.object s.heap.objects.size) t ∧
        (ownPlace routine.header env "c" false).read m t = .ok .undefined t ∧
        (ownPlace routine.header env "arguments" false).read m t = .ok (.object (s.heap.objects.size + 2)) t := by
  let text := "function f(a, b, a) \x7b var c; function b() \x7b\x7d return arguments \x7d"
  have found : (parseProgram text "main.js" true).toOption.map (fun p => p.code.functions.map fun code =>
      let routine := compileCode ⟨p.scopes, "", []⟩ code
      code.header.kind == .function && routine.header.params == ["a", "b", "a"] &&
        (routine.functions.map fun f => f.header.name) == [some "b"] && routine.header.variables == ["c"] &&
        routine.header.usesArguments) = some [true] := by
    decide +kernel
  cases parses : parseProgram text "main.js" true with
  | error e =>
    rw [parses] at found
    cases found
  | ok parsed =>
    rw [parses] at found
    obtain ⟨⟨header, functions, body⟩, scopes⟩ := parsed
    obtain ⟨code, rest, same, facts, _⟩ := List.map_eq_cons_iff.mp (Option.some.inj found)
    simp only [Bool.and_eq_true, beq_iff_eq] at facts
    obtain ⟨⟨⟨⟨isFunction, params⟩, named⟩, vars⟩, uses⟩ := facts
    have inside : Part.Within (.code code) (.code (.mk header functions body)) := by
      refine .inside _ (.code code) _ ?_ (.whole _)
      rw [Part.parts, show functions = code :: rest from same]
      exact .head _
    have accepted := Accepted.program text "main.js" true _ parses
    refine ⟨_, code, accepted, inside, isFunction, fun x y z m r => ?_⟩
    obtain ⟨frame, env, s, t, entered, ends, _, begun⟩ := activation_binds .global _ accepted code inside isFunction "" [] _ rfl
      0 0 .undefined [x, y, z] m r
    obtain ⟨g, others, split, name, none'⟩ := List.map_eq_cons_iff.mp named
    rw [List.map_eq_nil_iff] at none'
    subst none'
    have only : (compileCode ⟨scopes, "", []⟩ code).functionNames = ["b"] := by
      rw [Routine.functionNames, split, List.filterMap_cons, name]
      rfl
    refine ⟨frame, env, s, t, params, named, entered, ends, begun.parameters ["a", "b"] [] "a" params List.not_mem_nil ?_ m false,
      (begun.functions [] g [] "b" split name List.not_mem_nil).2 m false,
      begun.others "c" (.inr (.inr (.inr (.inr ?_)))) ?_ ?_ ?_ m false, ?_⟩
    · rw [only]
      decide
    · rw [vars]
      exact .head _
    · rw [params]
      decide
    · rw [only]
      decide
    · exact fun both => absurd both.1 (by decide)
    · have object := (begun.arguments (by rw [params]; decide) (by rw [only]; decide) (.inl uses)).2 m false
      rwa [split] at object

end Ecma
