import Ecma.Proofs.Eval.Arguments
import Ecma.Proofs.Storage.Execution

set_option autoImplicit false

/-!
Binding the names of a function that is called. Every name is owed until its turn comes, and gets the
same value in both runs, in a slot of the call's frame or in its environment.
-/

namespace Ecma.Storage

open Ecma.Program Ecma.Scope Ecma.Syntax Run

/-! Names that are owed. -/

/-- The names that are still owed when some have been bound. -/
def unpaid (due : List String) : List String → List String
  | [] => due
  | name :: rest => unpaid (due.filter (· ≠ name)) rest

theorem mem_unpaid (due names : List String) (name : String) :
    name ∈ unpaid due names ↔ name ∈ due ∧ name ∉ names := by
  induction names generalizing due with
  | nil => simp only [unpaid, List.not_mem_nil, not_false_eq_true, and_true]
  | cons first rest hyp =>
    rw [unpaid, hyp, List.mem_filter, List.mem_cons]
    simp only [ne_eq, decide_not, Bool.not_eq_eq_eq_not, Bool.not_true, decide_eq_false_iff_not, not_or, and_assoc]

theorem mem_owed (e : EnvironmentId) (due : List String) (name : String) :
    (e, name) ∈ due.map (e, ·) ↔ name ∈ due := by
  constructor
  · intro member
    obtain ⟨other, there, same⟩ := List.mem_map.mp member
    rw [← (Prod.mk.inj same).2]
    exact there
  · exact fun member => List.mem_map_of_mem member

theorem unpaid_free (e : EnvironmentId) (due : List String) (name : String) (free : name ∉ due) :
    (due.filter (· ≠ name)).map (e, ·) = due.map (e, ·) := by
  rw [List.filter_eq_self.mpr]
  intro other member
  exact decide_eq_true fun same => free (same ▸ member)

theorem pays_name (e : EnvironmentId) (due : List String) (name : String) (f : Bindings → Bindings)
    (binds : name ∈ due → ∀ b, Dictionary.find? b name = none → ∃ binding, Dictionary.find? (f b) name = some binding ∧
      (binding.state = .lasting ∨ binding.state = .constant)) :
    Pays (due.map (e, ·)) ((due.filter (· ≠ name)).map (e, ·)) e name f := by
  refine ⟨fun entry member => ?_, fun entry member => ?_⟩
  · obtain ⟨other, there, rfl⟩ := List.mem_map.mp member
    obtain ⟨before, distinct⟩ := List.mem_filter.mp there
    exact ⟨List.mem_map_of_mem before, fun same => of_decide_eq_true distinct (Prod.mk.inj same).2⟩
  · obtain ⟨other, there, rfl⟩ := List.mem_map.mp member
    by_cases same : other = name
    · subst same
      exact Or.inr ⟨rfl, binds there⟩
    · exact Or.inl (List.mem_map_of_mem (List.mem_filter.mpr ⟨there, decide_eq_true same⟩))

/-! The bindings of a call. -/

/-- The state of a binding of a function: only the arguments object of strict code cannot be replaced. -/
def callState (h : Syntax.Header) (name : String) : BindingState :=
  if h.strict = true ∧ name = "arguments" then .constant else .lasting

theorem call_state_fixed (h : Syntax.Header) (name : String) :
    callState h name = .lasting ∨ callState h name = .constant := by
  rw [callState]
  split
  · exact Or.inr rfl
  · exact Or.inl rfl

/-- The names of a function whose bindings cannot be replaced. -/
def callFixed (h : Syntax.Header) : List String :=
  if h.strict then ["arguments"] else []

/-- The link of a name of a function that has a slot. -/
def callLink (h : Syntax.Header) (frame : FrameId) (e₂ : EnvironmentId) (name : String) (slot : Nat) : Link :=
  ⟨frame, slot, e₂, name, h.scope, callState h name⟩

-- A call whose names are being bound.
structure Called (W : World) (t : Scope.Tree) (h : Syntax.Header) (names : List String) (frame : FrameId)
    (o₂ e₁ e₂ : EnvironmentId) : Prop where
  entered : Entered W t h.scope names (callFixed h) o₂ e₁ e₂
  linked : ∀ name ∈ names, ∀ slot, ((t.analyze true).scope h.scope).locals.lookup name = some slot →
    callLink h frame e₂ name slot ∈ W.links
  defs : ∀ name ∈ names, name ∈ (t.scope h.scope).defs

theorem called_grown (W V : World) (below : W.Below V) (t : Scope.Tree) (h : Syntax.Header) (names : List String)
    (frame : FrameId) (o₂ e₁ e₂ : EnvironmentId) (called : Called W t h names frame o₂ e₁ e₂) :
    Called V t h names frame o₂ e₁ e₂ := by
  exact ⟨entered_grown W V below _ _ _ _ _ _ _ called.entered,
    fun name member slot found => below.links _ (called.linked name member slot found), called.defs⟩

-- A scope with a name that has no slot has an environment in both runs.
theorem unslotted_separate (t : Scope.Tree) (formed : t.WellFormed) (scope : ScopeId) (name : String)
    (member : name ∈ (t.scope scope).defs) (free : ((t.analyze true).scope scope).locals.lookup name = none) :
    ((t.analyze true).scope scope).collapsed = false := by
  cases collapsed : ((t.analyze true).scope scope).collapsed with
  | false => rfl
  | true =>
    have some := ((Tree.analyze_analysed t formed true).slotted.collapsed scope collapsed).2 name
      (by rw [analysed_defs t formed]; exact member)
    rw [free] at some
    cases some

section

variable (W : World) (live : List Link) (t : Scope.Tree) (formed : t.WellFormed) (h : Syntax.Header)
  (names : List String) (frame : FrameId) (o₂ e₁ e₂ : EnvironmentId) (called : Called W t h names frame o₂ e₁ e₂)
  (due : List String) (h₁ h₂ : Heap) (related : HeapRelated W live (due.map (e₂, ·)) h₁ h₂)
  (name : String) (member : name ∈ names)
include called related member

omit related in
theorem call_upper (info : Info) (has : W.Has e₂ info) (bound : List String) (upper : info.shape.upper = some bound) :
    name ∈ bound := by
  obtain ⟨info', has', shape, _⟩ := called.entered.has
  cases Option.some.inj (has.symm.trans has')
  rw [shape] at upper
  change (if ((t.analyze true).scope h.scope).isClosed then some (t.scope h.scope).defs else none) = some bound at upper
  split at upper
  · cases upper
    exact called.defs name member
  · cases upper

-- Whether a name of the call is still owed shows in the environment of the second run.
theorem call_known (b : Bindings) (record : (h₂.environment e₂).record = .declarative b) :
    Dictionary.has b name = true ↔ name ∉ due := by
  obtain ⟨info, has, shape, _⟩ := called.entered.has
  obtain ⟨record', environment⟩ := related.environment e₂ info has
  rw [Heap.environment_of h₂ e₂ _ environment.second] at record
  dsimp only at record
  subst record
  have describes := environment.describes
  rw [shape] at describes
  obtain ⟨b', same, _, below, absent, _⟩ := describes
  cases same
  constructor
  · intro has' owed
    rw [Dictionary.has, absent name member ((mem_owed e₂ due name).mpr owed)] at has'
    cases has'
  · intro free
    obtain ⟨binding, found, _⟩ := below name member fun owed => free ((mem_owed e₂ due name).mp owed)
    rw [Dictionary.has, found]
    rfl

variable (f : Bindings → Bindings) (v : Value) (admits : ∀ info, W.Has e₂ info → Admits info.shape name f)
  (written : ∀ b, (name ∈ due → Dictionary.find? b name = none) →
    (name ∉ due → ∃ binding, Dictionary.find? b name = some binding ∧ binding.state = callState h name) →
    Dictionary.find? (f b) name = some ⟨v, callState h name⟩)
include admits written

theorem call_slot_related (slot : Nat) (found : ((t.analyze true).scope h.scope).locals.lookup name = some slot) :
    HeapRelated W live ((due.filter (· ≠ name)).map (e₂, ·)) (h₁.setSlot frame slot v) (h₂.modifyBindings e₂ f) := by
  refine change_hidden_related W live _ _ h₁ h₂ related (callLink h frame e₂ name slot) v f
    (List.mem_append_left _ (called.linked name member slot found)) admits (fun b absent known => ?_)
    (pays_name e₂ due name f fun owed b absent => ?_)
  · exact written b (fun owed => absent ((mem_owed e₂ due name).mpr owed))
      fun free => known fun owed => free ((mem_owed e₂ due name).mp owed)
  · exact ⟨_, written b (fun _ => absent) (fun free => absurd owed free), call_state_fixed h name⟩

include formed

theorem call_environment_related (free : ((t.analyze true).scope h.scope).locals.lookup name = none) :
    HeapRelated W live ((due.filter (· ≠ name)).map (e₂, ·)) (h₁.modifyBindings e₁ f) (h₂.modifyBindings e₂ f) := by
  obtain ⟨info, has, shape, _, twin⟩ := called.entered.has
  have separate := unslotted_separate t formed h.scope name (called.defs name member) free
  refine change_shown_related W live _ _ h₁ h₂ related e₁ e₂ info name f has (twin separate) ?_ (admits info has)
    (pays_name e₂ due name f fun owed b absent => ?_)
  · rw [shape]
    exact lookup_none _ name free
  · exact ⟨_, written b (fun _ => absent) (fun free => absurd owed free), call_state_fixed h name⟩

end

/-! Binding a name. -/

theorem bind_environment (header : Program.Header) (env : EnvironmentId) (name : String) (v : Value) (m : Machine)
    (r : Realm) (b : Bindings) (outer : Option EnvironmentId)
    (found : r.heap.environments[env]? = some ⟨.declarative b, outer⟩) (free : Header.slot? header name = none) :
    bindName header env name v m r = .ok () { r with heap := r.heap.modifyBindings env (bindLasting name v) } := by
  have is : bindName header env name v m r =
      (do if !r.heap.hasBinding env name then createBinding env name false
          setBinding env name v false : Run Unit) m r := by
    rw [bindName, free]
    rfl
  have has : r.heap.hasBinding env name = Dictionary.has b name := by
    rw [Heap.hasBinding, Heap.environment_of _ env _ found]
  rw [is, has]
  cases known : Dictionary.has b name with
  | true =>
    have same : r.heap.modifyBindings env (fun b => b.createMutable name false) = r.heap := by
      refine Heap.bindings_unchanged _ env _ fun b' there => ?_
      rw [Heap.bindings?, Heap.environment_of _ env _ found] at there
      cases there
      rw [Bindings.createMutable, Bindings.create, known]
      rfl
    have twice := modify_bindings_twice r.heap env (fun b => b.createMutable name false) fun b => b.write name v
    rw [same] at twice
    refine (set_declarative env name v m r b outer found).trans ?_
    rw [twice]
    rfl
  | false => exact bind_declarative env name v m r b outer found

/-- What the binding of an arguments object does to the bindings of a call. -/
def argumentsBinding (strict : Bool) (id : ObjectId) : Bindings → Bindings :=
  if strict then fun b => Bindings.initializeConstant (Bindings.createConstant b "arguments") "arguments" (.object id)
  else bindLasting "arguments" (.object id)

/-- A heap in which a call has bound its arguments object. -/
def argumentsBound (header : Program.Header) (frame : FrameId) (env : EnvironmentId) (id : ObjectId) (h : Heap) : Heap :=
  match Header.slot? header "arguments" with
  | some slot => h.setSlot frame slot (.object id)
  | none => h.modifyBindings env (argumentsBinding header.strict id)

theorem bind_arguments_at (header : Program.Header) (frame : FrameId) (env : EnvironmentId) (id : ObjectId) (m : Machine)
    (r : Realm) (here : ∀ slot, Header.slot? header "arguments" = some slot → r.running.frame = frame)
    (found : Header.slot? header "arguments" = none → ∃ b outer, r.heap.environments[env]? = some ⟨.declarative b, outer⟩) :
    bindArguments header env id m r = .ok () { r with heap := argumentsBound header frame env id r.heap } := by
  cases slot : Header.slot? header "arguments" with
  | some index =>
    rw [bindArguments, argumentsBound, slot, ← here index slot]
    rfl
  | none =>
    obtain ⟨b, outer, found⟩ := found slot
    have is : bindArguments header env id m r =
        (if (header.strict && (r.heap.bindings? env).isSome) = true then bindConstant env "arguments" (.object id)
          else bindName header env "arguments" (.object id)) m r := by
      rw [bindArguments, slot]
      rfl
    rw [is, argumentsBound, slot, argumentsBinding]
    cases header.strict with
    | false => exact bind_environment header env "arguments" _ m r b outer found slot
    | true =>
      rw [Heap.bindings?, Heap.environment_of _ env _ found]
      rfl

/-- The object that is made for the arguments of a call. -/
def argumentsObject (header : Program.Header) (f : ObjectId) (frame : FrameId) (env : EnvironmentId) (args : List Value) :
    Object :=
  let length := ("length", Descriptor.hidden (.ofNat args.length))
  { kind := .arguments (if header.strict then [] else mappedFrom header frame env 0 (header.params.take args.length))
    prototype := some Intrinsic.objectPrototype
    properties := .ofElements
      (if header.strict then length :: poisoned ["caller", "callee"] else [length, ("callee", .hidden (.object f))])
      (args.map some) }

theorem new_arguments_at (header : Program.Header) (f : ObjectId) (frame : FrameId) (env : EnvironmentId)
    (args : List Value) (m : Machine) (r : Realm) : newArguments header f frame env args m r =
      .ok r.heap.objects.size { r with heap := (r.heap.addObject (argumentsObject header f frame env args)).2 } := by
  rfl

theorem arguments_bound_objects (header : Program.Header) (frame : FrameId) (env : EnvironmentId) (id : ObjectId)
    (h : Heap) : (argumentsBound header frame env id h).objects = h.objects := by
  rw [argumentsBound]
  split <;> rfl

-- The object may as well be made later.
theorem arguments_bound_add (header : Program.Header) (frame : FrameId) (env : EnvironmentId) (id : ObjectId) (h : Heap)
    (o : Object) : argumentsBound header frame env id (h.addObject o).2 =
      ((argumentsBound header frame env id h).addObject o).2 := by
  rw [argumentsBound, argumentsBound]
  split <;> rfl

theorem bind_variable_at (header : Program.Header) (env : EnvironmentId) (name : String) (rest : List String) (m : Machine)
    (r : Realm) (b : Bindings) (outer : Option EnvironmentId)
    (found : r.heap.environments[env]? = some ⟨.declarative b, outer⟩) (free : Header.slot? header name = none) :
    bindVariables header env (name :: rest) m r = bindVariables header env rest m
      (if Dictionary.has b name then r
        else { r with heap := r.heap.modifyBindings env (bindLasting name .undefined) }) := by
  have has : r.heap.hasBinding env name = Dictionary.has b name := by
    rw [Heap.hasBinding, Heap.environment_of _ env _ found]
  rw [bindVariables, heap_at, free, has]
  cases Dictionary.has b name with
  | true => rfl
  | false => exact bind_declarative_then env name .undefined m r b outer found _

theorem call_lasting (h : Syntax.Header) (name : String) (writable : h.strict = true → name ≠ "arguments") :
    callState h name = .lasting := by
  rw [callState, if_neg fun both => writable both.1 both.2]

theorem lasting_written (h : Syntax.Header) (name : String) (writable : h.strict = true → name ≠ "arguments") (v : Value)
    (due : List String) (b : Bindings) (absent : name ∈ due → Dictionary.find? b name = none)
    (known : name ∉ due → ∃ binding, Dictionary.find? b name = some binding ∧ binding.state = callState h name) :
    Dictionary.find? (bindLasting name v b) name = some ⟨v, callState h name⟩ := by
  rw [call_lasting h name writable] at known ⊢
  by_cases owed : name ∈ due
  · exact lasting_binds b name v (Or.inl (absent owed))
  · exact lasting_binds b name v (Or.inr (known owed))

section

variable (W : World) (live : List Link) (s : Stand) (t : Scope.Tree) (formed : t.WellFormed) (h : Syntax.Header)
  (names : List String) (frame : FrameId) (o₂ e₁ e₂ : EnvironmentId) (called : Called W t h names frame o₂ e₁ e₂)
  (here : s.context₁.frame = frame) (header₁ header₂ : Program.Header)
  (slots : ∀ name, Header.slot? header₁ name = ((t.analyze true).scope h.scope).locals.lookup name)
  (free : ∀ name, Header.slot? header₂ name = none) (due : List String)
include formed called here slots free

theorem bind_name_settles (name : String) (member : name ∈ names) (writable : h.strict = true → name ≠ "arguments")
    (v : Value) :
    Settles W live (due.map (e₂, ·)) ((due.filter (· ≠ name)).map (e₂, ·)) s s (bindName header₁ e₁ name v)
      (bindName header₂ e₂ name v) W.Unlinked := by
  intro r₁ r₂ related holds
  obtain ⟨info, b, has, shape, _, second, _, first⟩ :=
    entered_records W live _ _ _ related.heap t h.scope names _ o₂ e₁ e₂ called.entered
  have admits (info : Info) (has : W.Has e₂ info) : Admits info.shape name (bindLasting name v) :=
    lasting_admits info.shape name v (call_upper W t h names frame o₂ e₁ e₂ called name member info has)
  have written := lasting_written h name writable v due
  have in₂ (m : Machine) := bind_environment header₂ e₂ name v m r₂ b _ second (free name)
  cases found : ((t.analyze true).scope h.scope).locals.lookup name with
  | some slot =>
    have after := call_slot_related W live t h names frame o₂ e₁ e₂ called due _ _ related.heap name member _ v admits
      written slot found
    have running : r₁.running.frame = frame := by
      obtain ⟨⟨position, same, _⟩, _⟩ := holds
      rw [same]
      exact here
    have in₁ (m : Machine) :
        bindName header₁ e₁ name v m r₁ = .ok () { r₁ with heap := r₁.heap.setSlot frame slot v } := by
      rw [bindName, slots, found, ← running]
      rfl
    exact ⟨(), (), _, _, W, in₁, in₂, W.below_refl, related_with_heap W W live live _ _ r₁ r₂ _ _ related after, holds,
      rfl, rfl⟩
  | none =>
    have after := call_environment_related W live t formed h names frame o₂ e₁ e₂ called due _ _ related.heap name member
      _ v admits written found
    have separate := unslotted_separate t formed h.scope name (called.defs name member) found
    have in₁ (m : Machine) := bind_environment header₁ e₁ name v m r₁ _ _ (first separate).2 ((slots name).trans found)
    exact ⟨(), (), _, _, W, in₁, in₂, W.below_refl, related_with_heap W W live live _ _ r₁ r₂ _ _ related after, holds,
      rfl, rfl⟩

theorem bind_params_settles (params : List String) (args : List Value) (members : ∀ name ∈ params, name ∈ names)
    (writable : h.strict = true → "arguments" ∉ params) :
    Settles W live (due.map (e₂, ·)) ((unpaid due params).map (e₂, ·)) s s (bindParams header₁ e₁ params args)
      (bindParams header₂ e₂ params args) Same := by
  induction params generalizing W due args with
  | nil => exact settles_pure W live _ s Same () () rfl
  | cons name rest hyp =>
    refine settles_bind W live _ ((due.filter (· ≠ name)).map (e₂, ·)) _ s s s _ _ _ _ _ _
      (bind_name_settles W live s t formed h names frame o₂ e₁ e₂ called here header₁ header₂ slots free due name
        (members name List.mem_cons_self) (fun strict same => writable strict (same ▸ List.mem_cons_self)) _)
      fun V _ _ below _ => ?_
    exact hyp V (called_grown W V below _ _ _ _ _ _ _ called) _ args.tail
      (fun other member => members other (List.mem_cons_of_mem _ member))
      fun strict member => writable strict (List.mem_cons_of_mem _ member)

theorem bind_functions_settles (text : String) (codes : List Syntax.Code) (fitted : codesScoped t h.scope codes)
    (members : ∀ name ∈ codes.filterMap (·.header.name), name ∈ names)
    (writable : h.strict = true → "arguments" ∉ codes.filterMap (·.header.name)) :
    Settles W live (due.map (e₂, ·)) ((unpaid due (codes.filterMap (·.header.name))).map (e₂, ·)) s s
      (bindFunctions header₁ e₁ (compileCodes ⟨t.analyze true, text, []⟩ codes))
      (bindFunctions header₂ e₂ (compileCodes ⟨t.analyze false, text, []⟩ codes)) Same := by
  induction codes generalizing W due with
  | nil =>
    rw [compileCodes, compileCodes]
    exact settles_pure W live _ s Same () () rfl
  | cons code rest hyp =>
    obtain ⟨own, others⟩ := fitted
    rw [compileCodes, compileCodes]
    refine settles_bind W live _ (due.map (e₂, ·)) _ s s s _ _ _ _ _ _
      (new_function_settles W live _ s t text [] code h.scope e₁ e₂ formed own called.entered.chain)
      fun V f g below made => ?_
    obtain ⟨_, rfl⟩ := made
    have called' := called_grown W V below _ _ _ _ _ _ _ called
    have titled (c : Surroundings) : (c.header code.header).name = code.header.name := rfl
    rw [compiled_header, compiled_header, titled, titled]
    cases named : code.header.name with
    | none =>
      rw [List.filterMap_cons, named] at members writable ⊢
      exact hyp V called' due others members writable
    | some name =>
      rw [List.filterMap_cons, named] at members writable ⊢
      refine settles_bind V live _ ((due.filter (· ≠ name)).map (e₂, ·)) _ s s s _ _ _ _ _ _
        (bind_name_settles V live s t formed h names frame o₂ e₁ e₂ called' here header₁ header₂ slots free due name
          (members name List.mem_cons_self) (fun strict same => writable strict (same ▸ List.mem_cons_self)) _)
        fun U _ _ below' _ => ?_
      exact hyp U (called_grown V U below' _ _ _ _ _ _ _ called') _ others
        (fun other member => members other (List.mem_cons_of_mem _ member))
        fun strict member => writable strict (List.mem_cons_of_mem _ member)

/-! The arguments object. -/

omit here in
theorem mapped_related (sloppy : h.strict = false) (params : List String) (members : ∀ name ∈ params, name ∈ names)
    (i : Nat) : List.Forall₂ (fun a b => a.1 = b.1 ∧ AliasRelated W a.2 b.2) (mappedFrom header₁ frame e₁ i params)
      (mappedFrom header₂ frame e₂ i params) := by
  induction params generalizing i with
  | nil => exact .nil
  | cons name rest hyp =>
    have others := hyp (fun other member => members other (List.mem_cons_of_mem _ member)) (i + 1)
    have member := members name List.mem_cons_self
    have alike : AliasRelated W (aliasOf header₁ frame e₁ name) (aliasOf header₂ frame e₂ name) := by
      rw [aliasOf, aliasOf, slots, free]
      cases found : ((t.analyze true).scope h.scope).locals.lookup name with
      | some slot =>
        refine .slot (callLink h frame e₂ name slot) (called.linked name member slot found) (call_lasting h name ?_)
        rw [sloppy]
        exact fun contra => absurd contra Bool.false_ne_true
      | none =>
        obtain ⟨info, has, shape, _, twin⟩ := called.entered.has
        refine .binding e₁ e₂ name ⟨info, has, twin ?_, ?_⟩
        · exact unslotted_separate t formed h.scope name (called.defs name member) found
        · rw [shape]
          exact lookup_none _ name found
    rw [mappedFrom, mappedFrom]
    split
    · exact others
    · exact .cons ⟨rfl, alike⟩ others

omit here in
theorem arguments_kinds (strict₁ : header₁.strict = h.strict) (strict₂ : header₂.strict = h.strict) (params : List String)
    (members : ∀ name ∈ params, name ∈ names) : KindRelated W
      (.arguments (if header₁.strict then [] else mappedFrom header₁ frame e₁ 0 params))
      (.arguments (if header₂.strict then [] else mappedFrom header₂ frame e₂ 0 params)) := by
  rw [strict₁, strict₂]
  refine .arguments _ _ ?_
  cases sloppy : h.strict with
  | true => exact .nil
  | false => exact mapped_related W t formed h names frame o₂ e₁ e₂ called header₁ header₂ slots free sloppy _ members 0

section

variable (owed : "arguments" ∈ due) (member : "arguments" ∈ names)
include owed member

omit here in
theorem arguments_related (strict₁ : header₁.strict = h.strict) (strict₂ : header₂.strict = h.strict) (id : ObjectId)
    (h₁ h₂ : Heap) (related : HeapRelated W live (due.map (e₂, ·)) h₁ h₂) :
    HeapRelated W live ((due.filter (· ≠ "arguments")).map (e₂, ·)) (argumentsBound header₁ frame e₁ id h₁)
      (argumentsBound header₂ frame e₂ id h₂) := by
  have admits (info : Info) (has : W.Has e₂ info) : Admits info.shape "arguments" (argumentsBinding h.strict id) := by
    have upper := call_upper W t h names frame o₂ e₁ e₂ called "arguments" member info has
    rw [argumentsBinding]
    split
    · next strict =>
      refine constant_admits info.shape "arguments" _ upper ?_
      obtain ⟨info', has', shape, _⟩ := called.entered.has
      cases Option.some.inj (has.symm.trans has')
      rw [shape]
      change "arguments" ∈ callFixed h
      rw [callFixed, if_pos strict]
      exact List.mem_singleton_self _
    · exact lasting_admits info.shape "arguments" _ upper
  have written (b : Bindings) (absent : "arguments" ∈ due → Dictionary.find? b "arguments" = none)
      (_ : "arguments" ∉ due → ∃ binding, Dictionary.find? b "arguments" = some binding ∧
        binding.state = callState h "arguments") :
      Dictionary.find? (argumentsBinding h.strict id b) "arguments" = some ⟨.object id, callState h "arguments"⟩ := by
    rw [argumentsBinding, callState]
    cases h.strict with
    | true => exact constant_binds b "arguments" _ (absent owed)
    | false => exact lasting_binds b "arguments" _ (Or.inl (absent owed))
  rw [argumentsBound, argumentsBound, slots, free, strict₁, strict₂]
  dsimp only
  split
  · next slot found =>
    exact call_slot_related W live t h names frame o₂ e₁ e₂ called due _ _ related "arguments" member _ _ admits written
      slot found
  · next found =>
    exact call_environment_related W live t formed h names frame o₂ e₁ e₂ called due _ _ related "arguments" member _ _
      admits written found

omit here formed slots free owed member in
-- Parameters have been bound, and none of them is a constant.
theorem parameter_lasting (name : String) (param : name ∈ names) (paid : name ∉ due) (other : name ≠ "arguments")
    (h₁ h₂ : Heap) (related : HeapRelated W live (due.map (e₂, ·)) h₁ h₂) :
    ∃ binding, h₂.binding? e₂ name = some binding ∧ binding.state = .lasting := by
  obtain ⟨info, has, shape, _⟩ := called.entered.has
  obtain ⟨record, environment⟩ := related.environment e₂ info has
  have describes := environment.describes
  rw [shape] at describes
  obtain ⟨b, rfl, _, below, _, only⟩ := describes
  obtain ⟨binding, found, state⟩ := below name param fun still => paid ((mem_owed e₂ due name).mp still)
  refine ⟨binding, (Heap.binding_of h₂ e₂ b _ name environment.second).trans found, state.resolve_right fun constant => ?_⟩
  have fixed : name ∈ callFixed h := Bindings.constant_found _ b name binding only found (by rw [constant]; rfl)
  rw [callFixed] at fixed
  split at fixed
  · exact other (List.mem_singleton.mp fixed)
  · exact absurd fixed List.not_mem_nil

omit here formed slots member in
theorem arguments_tethered (sloppy : Bool) (params : List String) (members : ∀ name ∈ params, name ∈ names)
    (paid : ∀ name ∈ params, name ∉ due) (proper : "arguments" ∉ params) (h₁ h₂ k₁ k₂ : Heap) (o : Object)
    (kind : o.kind = .arguments (if sloppy then [] else mappedFrom header₂ frame e₂ 0 params))
    (objects : k₂.objects = h₂.objects) (before : HeapRelated W live (due.map (e₂, ·)) h₁ h₂)
    (after : HeapRelated W live ((due.filter (· ≠ "arguments")).map (e₂, ·)) k₁ k₂) :
    Tethered ((due.filter (· ≠ "arguments")).map (e₂, ·)) (k₂.addObject o).2 := by
  have made (i : Nat) (a : Alias) (found : o.kind.mapped.lookup i = some a) :
      ∃ name, StandsLast params i name ∧ a = .binding e₂ name := by
    rw [kind] at found
    change List.lookup i (if sloppy then [] else mappedFrom header₂ frame e₂ 0 params) = some a at found
    split at found
    · cases found
    · obtain ⟨j, name, same, last, rfl⟩ := (mapped_from_lookup header₂ frame e₂ 0 i params a).mp found
      rw [Nat.zero_add] at same
      refine ⟨name, same ▸ last, ?_⟩
      rw [aliasOf, free]
  -- An element is new or one of those before; these belong to other calls.
  have split' (id : ObjectId) (i : Nat) (a : Alias) (mapped : (k₂.addObject o).2.alias? id (.index i) = some a) :
      (id = k₂.objects.size ∧ ∃ name, StandsLast params i name ∧ a = .binding e₂ name) ∨
        k₂.alias? id (.index i) = some a ∧ ∀ name, a ≠ .binding e₂ name := by
    rw [Heap.alias_mapped, Heap.object_add] at mapped
    split at mapped
    · next new => exact Or.inl ⟨new, made i a mapped⟩
    · rw [← Heap.alias_mapped] at mapped
      refine Or.inr ⟨mapped, fun name same => ?_⟩
      have mapped' : h₂.alias? id (.index i) = some a := by
        rw [Heap.alias_mapped, Heap.object, ← objects, ← Heap.object, ← Heap.alias_mapped]
        exact mapped
      obtain ⟨e, other, _, rfl, _, _, free⟩ := before.tethered.lasting id i a mapped'
      cases same
      exact free ((mem_owed e₂ due "arguments").mpr owed)
  refine ⟨fun id i a mapped => ?_, fun id id' i i' a first second => ?_⟩
  · rcases split' id i a mapped with ⟨_, name, last, rfl⟩ | ⟨old, _⟩
    · have param := List.mem_of_getElem? last.1
      have other : name ≠ "arguments" := fun same => proper (same ▸ param)
      obtain ⟨binding, found, state⟩ := parameter_lasting W live t h names frame o₂ e₁ e₂ called _ name
        (members name param) (fun still => paid name param (List.mem_filter.mp still).1) other k₁ k₂ after
      refine ⟨e₂, name, binding, rfl, found, state, fun still => ?_⟩
      exact of_decide_eq_true (List.mem_filter.mp ((mem_owed e₂ _ "arguments").mp still)).2 rfl
    · exact after.tethered.lasting id i a old
  · rcases split' id i a first with ⟨rfl, name, last, rfl⟩ | ⟨old, apart⟩
    · rcases split' id' i' _ second with ⟨rfl, name', last', same⟩ | ⟨_, apart'⟩
      · cases same
        exact ⟨rfl, stands_last_single params i i' name last last'⟩
      · exact absurd rfl (apart' name)
    · rcases split' id' i' _ second with ⟨_, name', _, same⟩ | ⟨old', _⟩
      · exact absurd same (apart name')
      · exact after.tethered.own id id' i i' a old old'

/-- The arguments object is made and bound. Nothing else comes to stand for parameters of the call. -/
theorem arguments_settle (params : header₁.params = header₂.params) (strict₁ : header₁.strict = h.strict)
    (strict₂ : header₂.strict = h.strict) (members : ∀ name ∈ header₁.params, name ∈ names)
    (paid : ∀ name ∈ header₁.params, name ∉ due) (proper : "arguments" ∉ header₁.params) (f : ObjectId)
    (args : List Value) :
    Settles W live (due.map (e₂, ·)) ((due.filter (· ≠ "arguments")).map (e₂, ·)) s s
      (newArguments header₁ f frame e₁ args >>= fun id => bindArguments header₁ e₁ id)
      (newArguments header₂ f frame e₂ args >>= fun id => bindArguments header₂ e₂ id) W.Unlinked := by
  intro r₁ r₂ related holds
  obtain ⟨info, b, has, shape, _, second, _, first⟩ :=
    entered_records W live _ _ _ related.heap t h.scope names _ o₂ e₁ e₂ called.entered
  have running : r₁.running.frame = frame := by
    obtain ⟨⟨position, same, _⟩, _⟩ := holds
    rw [same]
    exact here
  have size : r₁.heap.objects.size = r₂.heap.objects.size := related.heap.objects
  have in₁ (m : Machine) := bind_arguments_at header₁ frame e₁ r₁.heap.objects.size m
    { r₁ with heap := (r₁.heap.addObject (argumentsObject header₁ f frame e₁ args)).2 } (fun _ _ => running) fun none' =>
      ⟨_, _, (first (unslotted_separate t formed h.scope "arguments" (called.defs "arguments" member)
        ((slots "arguments").symm.trans none'))).2⟩
  have in₂ (m : Machine) := bind_arguments_at header₂ frame e₂ r₂.heap.objects.size m
    { r₂ with heap := (r₂.heap.addObject (argumentsObject header₂ f frame e₂ args)).2 }
    (fun slot found => by cases (free "arguments").symm.trans found) fun _ => ⟨b, _, second⟩
  have after := arguments_related W live t formed h names frame o₂ e₁ e₂ called header₁ header₂ slots free due owed member
    strict₁ strict₂ r₁.heap.objects.size _ _ related.heap
  rw [← size] at in₂
  dsimp only at in₁ in₂
  rw [arguments_bound_add] at in₁ in₂
  have members' (name : String) (there : name ∈ header₁.params.take args.length) : name ∈ header₁.params :=
    List.mem_of_mem_take there
  have tethered := arguments_tethered W live t h names frame o₂ e₁ e₂ called header₂ free due owed header₂.strict _
    (fun name there => members name (members' name there)) (fun name there => paid name (members' name there))
    (fun there => proper (members' _ there)) _ _ _ _ (argumentsObject header₂ f frame e₂ args) (by rw [params]; rfl)
    (arguments_bound_objects header₂ frame e₂ _ _) related.heap after
  have alike : ObjectRelated W (argumentsObject header₁ f frame e₁ args) (argumentsObject header₂ f frame e₂ args) := by
    have kinds := arguments_kinds W t formed h names frame o₂ e₁ e₂ called header₁ header₂ slots free strict₁ strict₂ _
      fun name there => members name (members' name there)
    delta argumentsObject
    rw [← params]
    refine ⟨kinds, rfl, rfl, ?_⟩
    rw [strict₁, strict₂]
  refine ⟨(), (), _, _, W, fun m => ?_, fun m => ?_, W.below_refl, related_with_heap W W live live _ _ r₁ r₂ _ _ related
    (add_object_related W live _ _ _ after _ _ alike tethered), holds, rfl, rfl⟩
  · rw [bind_at, new_arguments_at]
    exact in₁ m
  · rw [bind_at, new_arguments_at, ← size]
    exact in₂ m

end

/-! Variables. -/

omit here in
theorem bind_variables_settle («variables» : List String) (members : ∀ name ∈ «variables», name ∈ names)
    (writable : h.strict = true → "arguments" ∉ «variables») :
    Settles W live (due.map (e₂, ·)) ((unpaid due «variables»).map (e₂, ·)) s s (bindVariables header₁ e₁ «variables»)
      (bindVariables header₂ e₂ «variables») Same := by
  induction «variables» generalizing due with
  | nil => exact settles_pure W live _ s Same () () rfl
  | cons name rest hyp =>
    have member := members name List.mem_cons_self
    have later := hyp (due.filter (· ≠ name)) (fun other member => members other (List.mem_cons_of_mem _ member))
      fun strict member => writable strict (List.mem_cons_of_mem _ member)
    intro r₁ r₂ related holds
    obtain ⟨info, b, has, shape, _, second, _, first⟩ :=
      entered_records W live _ _ _ related.heap t h.scope names _ o₂ e₁ e₂ called.entered
    have known := call_known W live t h names frame o₂ e₁ e₂ called due _ _ related.heap name member b
      (by rw [Heap.environment_of _ e₂ _ second])
    have admits (info : Info) (has : W.Has e₂ info) : Admits info.shape name (bindLasting name .undefined) :=
      lasting_admits info.shape name _ (call_upper W t h names frame o₂ e₁ e₂ called name member info has)
    have written := lasting_written h name (fun strict same => writable strict (same ▸ List.mem_cons_self)) .undefined due
    have in₂ (m : Machine) := bind_variable_at header₂ e₂ name rest m r₂ b _ second (free name)
    -- The realms after the first name.
    obtain ⟨k₁, k₂, after, stands, then₁, then₂⟩ : ∃ k₁ k₂,
        Related W live ((due.filter (· ≠ name)).map (e₂, ·)) k₁ k₂ ∧ s.Holds k₁ k₂ ∧
        (∀ m, bindVariables header₁ e₁ (name :: rest) m r₁ = bindVariables header₁ e₁ rest m k₁) ∧
        ∀ m, bindVariables header₂ e₂ (name :: rest) m r₂ = bindVariables header₂ e₂ rest m k₂ := by
      by_cases owed : name ∈ due
      · have missing : Dictionary.has b name = false := eq_false_of_ne_true fun has => known.mp has owed
        rw [missing] at in₂
        cases found : ((t.analyze true).scope h.scope).locals.lookup name with
        | some slot =>
          -- Nothing has been written to the slot, so that it has the value of a new variable.
          have value : r₁.heap.slot frame slot = .undefined := by
            refine ((related.heap.link _ (List.mem_append_left _ (called.linked name member slot found))).1).trans ?_
            change r₂.heap.readAlias (.binding e₂ name) = _
            have absent : Dictionary.find? b name = none :=
              Option.not_isSome_iff_eq_none.mp (by rw [← Dictionary.has, missing]; exact Bool.false_ne_true)
            rw [Heap.read_binding, Heap.binding_of _ e₂ b _ name second, absent]
            rfl
          have after := call_slot_related W live t h names frame o₂ e₁ e₂ called due _ _ related.heap name member _ _
            admits written slot found
          rw [← value, Heap.slot_unchanged, value] at after
          have in₁ (m : Machine) :
              bindVariables header₁ e₁ (name :: rest) m r₁ = bindVariables header₁ e₁ rest m r₁ := by
            rw [bindVariables, heap_at, slots, found]
            rfl
          exact ⟨_, _, related_with_heap W W live live _ _ r₁ r₂ _ _ related after, holds, in₁, in₂⟩
        | none =>
          have after := call_environment_related W live t formed h names frame o₂ e₁ e₂ called due _ _ related.heap
            name member _ _ admits written found
          have separate := unslotted_separate t formed h.scope name (called.defs name member) found
          have shown : Dictionary.has (Dictionary.without b info.shape.hidden) name = false := by
            rw [Dictionary.has, Dictionary.find_without, if_neg, ← Dictionary.has, missing]
            rw [shape]
            exact lookup_none _ name found
          have in₁ (m : Machine) := bind_variable_at header₁ e₁ name rest m r₁ _ _ (first separate).2
            ((slots name).trans found)
          rw [shown] at in₁
          exact ⟨_, _, related_with_heap W W live live _ _ r₁ r₂ _ _ related after, holds, in₁, in₂⟩
      · have there : Dictionary.has b name = true := known.mpr owed
        rw [there] at in₂
        refine ⟨r₁, r₂, ?_, holds, fun m => ?_, in₂⟩
        · rw [unpaid_free e₂ due name owed]
          exact related
        · cases found : ((t.analyze true).scope h.scope).locals.lookup name with
          | some slot =>
            rw [bindVariables, heap_at, slots, found]
            rfl
          | none =>
            have separate := unslotted_separate t formed h.scope name (called.defs name member) found
            have shown : Dictionary.has (Dictionary.without b info.shape.hidden) name = true := by
              rw [Dictionary.has, Dictionary.find_without, if_neg, ← Dictionary.has, there]
              rw [shape]
              exact lookup_none _ name found
            rw [bind_variable_at header₁ e₁ name rest m r₁ _ _ (first separate).2 ((slots name).trans found), shown]
            rfl
    obtain ⟨u, v, l₁, l₂, V, ended₁, ended₂, below, final⟩ := later k₁ k₂ after stands
    exact ⟨u, v, l₁, l₂, V, fun m => (then₁ m).trans (ended₁ m), fun m => (then₂ m).trans (ended₂ m), below, final⟩

end

end Ecma.Storage
