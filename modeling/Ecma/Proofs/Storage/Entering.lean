import Ecma.Eval.Machine
import Ecma.Proofs.Storage.Calling

set_option autoImplicit false

/-!
Entering code in two runs: in a context of its own, which is left again whatever the end is. A function of a
script is called or constructed with, and global and eval code declares its names in environments in which
all names mean the same.
-/

namespace Ecma.Storage

open Ecma.Program Ecma.Scope Ecma.Syntax Run

variable {α : Type}

/-! Contexts. -/

/-- Where two runs stand when they have begun new contexts at some position. -/
def Stand.entering (s : Stand) (c₁ c₂ : Context) (position : Nat) : Stand :=
  ⟨c₁, c₂, { s.context₁ with position := position } :: s.waiting₁, { s.context₂ with position := position } :: s.waiting₂⟩

theorem in_context_sim (M : Machines) (W : World) (live : List Link) (s : Stand) (c₁ c₂ : Context)
    (frames : c₁.frame? = c₂.frame?) (positions : c₁.position = c₂.position) (x₁ x₂ : Run α)
    (Q : World → α → α → Prop)
    (each : ∀ p, Simulates M W live (s.entering c₁ c₂ p) (s.entering c₁ c₂ p).Waits x₁ x₂ Q) :
    Sim M W live s (inContext c₁ x₁) (inContext c₂ x₂) Q := by
  intro r₁ r₂ related holds
  have view := realms_same_view W live [] r₁ r₂ related
  have depth := Realm.depth_same r₁ r₂ view
  have limit := Realm.depth_limit_same r₁ r₂ view
  by_cases full : r₁.config.depthLimit ≤ r₁.depth
  · have full₂ : r₂.config.depthLimit ≤ r₂.depth := by
      rwa [← depth, ← limit]
    obtain ⟨_, _, ends⟩ := new_error_sim M W live s .rangeError "Maximum call stack size exceeded" r₁ r₂ related holds
    rw [new_error_at, new_error_at] at ends
    obtain ⟨V, reaches, same⟩ := ends
    refine ⟨?_, ?_, ?_⟩
    · rw [in_context_full _ _ _ _ full, in_context_full _ _ _ _ full]
    · rw [in_context_full _ _ _ _ full₂, in_context_full _ _ _ _ full₂]
    · rw [in_context_full _ _ _ _ full, in_context_full _ _ _ _ full₂]
      exact ⟨congrArg (fun id => Interrupt.stackOverflow (.object id)) same, V, reaches⟩
  · have room := Nat.lt_of_not_le full
    have room₂ : r₂.depth < r₂.config.depthLimit := by
      rwa [← depth, ← limit]
    obtain ⟨⟨p, running₁, running₂⟩, waiting₁, waiting₂⟩ := holds
    have first (m : Machine) : inContext c₁ x₁ m r₁ = always leaveContext x₁ m (r₁.entering c₁) := by
      rw [in_context_room m r₁ c₁ x₁ room]
      rfl
    have second (m : Machine) : inContext c₂ x₂ m r₂ = always leaveContext x₂ m (r₂.entering c₂) := by
      rw [in_context_room m r₂ c₂ x₂ room₂]
      rfl
    have inside : Related W live [] (r₁.entering c₁) (r₂.entering c₂) := by
      refine { related with running := frames, waiting := ?_ }
      change (r₁.running :: r₁.waiting).map Context.frame? = (r₂.running :: r₂.waiting).map Context.frame?
      rw [List.map_cons, List.map_cons, related.running, related.waiting]
    have stands : (s.entering c₁ c₂ p).Holds (r₁.entering c₁) (r₂.entering c₂) := by
      refine ⟨⟨c₁.position, rfl, ?_⟩, ?_, ?_⟩
      · rw [positions]
        rfl
      · change r₁.running :: r₁.waiting = _
        rw [running₁, waiting₁]
        rfl
      · change r₂.running :: r₂.waiting = _
        rw [running₂, waiting₂]
        rfl
    rw [first, first, second, second]
    refine begins_always M W live [] (s.entering c₁ c₂ p) live (s.entering c₁ c₂ p).Waits s.Holds leaveContext leaveContext
      x₁ x₂ Q (fun V k₁ k₂ after waits => ?_) (each p) _ _ inside stands
    obtain ⟨waits₁, waits₂⟩ := waits
    have frames := after.waiting
    rw [waits₁, waits₂] at frames
    obtain ⟨heads, tails⟩ := List.cons.inj frames
    rw [leaveContext, leaveContext, waits₁, waits₂]
    exact ⟨{ after with running := heads, waiting := tails }, ⟨p, rfl, rfl⟩, rfl, rfl⟩

/-! Functions. -/

/-- The context in which the code of a function begins. -/
def scriptContext (routine : Routine) (f : ObjectId) : Context :=
  { function := some f, code := some routine.header, position := routine.header.span.start }

theorem script_frames (t : Scope.Tree) (text : String) (code : Syntax.Code) (f : ObjectId) :
    (scriptContext (compileCode ⟨t.analyze true, text, []⟩ code) f).frame? =
      (scriptContext (compileCode ⟨t.analyze false, text, []⟩ code) f).frame? := by
  rw [scriptContext, scriptContext, compiled_header, compiled_header]
  rfl

theorem call_script_sim (M : Machines) (fit : M.Fit) (W : World) (live : List Link) (s : Stand) (t : Scope.Tree)
    (formed : t.WellFormed) (text : String) (code : Syntax.Code) (outer : ScopeId) (fitted : code.Scoped t outer)
    (scope₁ scope₂ : EnvironmentId) (chain : Chain W t outer scope₁ scope₂) (f : ObjectId) (this : Value)
    (args : List Value) :
    Sim M W live s (callScript (compileCode ⟨t.analyze true, text, []⟩ code) f scope₁ this args)
      (callScript (compileCode ⟨t.analyze false, text, []⟩ code) f scope₂ this args) Same := by
  have frames := script_frames t text code f
  refine in_context_sim M W live s _ _ frames ?_ _ _ Same fun p => ?_
  · rw [scriptContext, scriptContext, compiled_header, compiled_header]
    rfl
  · exact activate_simulates M fit W live _ t formed text code outer fitted rfl frames f this args scope₁ scope₂ chain

theorem construct_script_sim (M : Machines) (fit : M.Fit) (W : World) (live : List Link) (s : Stand) (t : Scope.Tree)
    (formed : t.WellFormed) (text : String) (code : Syntax.Code) (outer : ScopeId) (fitted : code.Scoped t outer)
    (scope₁ scope₂ : EnvironmentId) (chain : Chain W t outer scope₁ scope₂) (f : ObjectId) (args : List Value) :
    Sim M W live s (constructScript (compileCode ⟨t.analyze true, text, []⟩ code) f scope₁ args)
      (constructScript (compileCode ⟨t.analyze false, text, []⟩ code) f scope₂ args) Same := by
  refine sim_bind_same M W live s _ _ _ _ Same (uniform_sim M W live s fit _ (get_native _ _).uniform)
    fun V prototype below => ?_
  refine sim_bind_same M V live s _ _ _ _ Same (new_object_sim M V live s _ _ _ rfl) fun U id below' => ?_
  have chain := chain_grown V U below' _ _ _ _ (chain_grown W V below _ _ _ _ chain)
  refine sim_bind_same M U live s _ _ _ _ Same
    (call_script_sim M fit U live s t formed text code outer fitted scope₁ scope₂ chain f (.object id) args)
    fun T result _ => ?_
  exact sim_pure M T live s Same _ _ rfl

/-! Global and eval code. -/

section

variable (M : Machines) (fit : M.Fit) (W : World) (live : List Link) (s : Stand) (e₁ e₂ : EnvironmentId)
  (plain : Open W e₁ e₂)
include plain

theorem open_twins (name : String) : W.Twins name e₁ e₂ ∧
    ∃ info, W.Has e₂ info ∧ info.twin = some e₁ ∧ name ∉ info.shape.hidden ∧ info.shape.upper = none := by
  cases plain with
  | outermost _ _ info found twin hidden free =>
    have shown : name ∉ info.shape.hidden := by
      rw [hidden]
      exact List.not_mem_nil
    exact ⟨⟨info, found, twin, shown⟩, info, found, twin, shown, free⟩
  | inside _ _ _ _ info found twin hidden free =>
    have shown : name ∉ info.shape.hidden := by
      rw [hidden]
      exact List.not_mem_nil
    exact ⟨⟨info, found, twin, shown⟩, info, found, twin, shown, free⟩

theorem open_global (h₁ h₂ : Heap) (related : HeapRelated W live [] h₁ h₂) :
    (e₁ == Intrinsic.globalEnvironment) = (e₂ == Intrinsic.globalEnvironment) := by
  obtain ⟨_, info, found, twin, _⟩ := open_twins W e₁ e₂ plain ""
  obtain ⟨_, top, known, twin', _⟩ := open_twins W _ _ related.globals ""
  rw [Bool.eq_iff_iff, beq_iff_eq, beq_iff_eq]
  constructor
  · intro same
    rw [same] at twin
    exact related.apart _ _ _ info top found known twin twin'
  · intro same
    rw [same] at found
    cases Option.some.inj (found.symm.trans known)
    exact Option.some.inj (twin.symm.trans twin')

include fit

theorem create_binding_sim (name : String) (deletable : Bool) :
    Sim M W live s (createBinding e₁ name deletable) (createBinding e₂ name deletable) Same := by
  obtain ⟨twins, info, found, twin, shown, free⟩ := open_twins W e₁ e₂ plain name
  refine sim_heap M W live s _ _ Same fun h₁ h₂ related => ?_
  rcases twins_bindings W live [] h₁ h₂ related name e₁ e₂ twins with
    ⟨id, receiver, first, second⟩ | ⟨b₁, b₂, first, second, _⟩
  · rw [first, second]
    exact sim_discard M W live s _ _ Same (uniform_sim M W live s fit _ (define_own_native _ _ _ _ fun _ => rfl).uniform)
  · rw [first, second]
    refine sim_modify M W live s _ _ fun h₁ h₂ related => ⟨W, W.below_refl, ?_⟩
    refine change_shown_related W live [] [] h₁ h₂ related e₁ e₂ info name _ found twin shown
      (create_admits _ name deletable fun names upper => ?_) (pays_nothing _ _ _)
    rw [free] at upper
    cases upper

omit plain in
theorem redeclare_global_sim (name : String) (deletable : Bool) :
    Sim M W live s (redeclareGlobal name deletable) (redeclareGlobal name deletable) Same := by
  refine sim_heap M W live s _ _ Same fun h₁ h₂ related => ?_
  rw [Heap.property_same h₁ h₂ (heaps_same_view W live [] h₁ h₂ related)]
  cases h₂.property? Intrinsic.global (.ofString name) with
  | none => exact sim_pure M W live s Same _ _ rfl
  | some d =>
    refine sim_ite M W live s _ _ _ _ _ Same ?_ ?_
    · exact sim_discard M W live s _ _ Same (uniform_sim M W live s fit _ (define_own_native _ _ _ _ fun _ => rfl).uniform)
    · exact sim_ite M W live s _ _ _ _ _ Same (throw_type_error_sim M W live s _ _) (sim_pure M W live s Same _ _ rfl)

theorem declare_function_sim (strict deletable : Bool) (name : String) (f : ObjectId) :
    Sim M W live s (declareFunction e₁ strict deletable name f) (declareFunction e₂ strict deletable name f) Same := by
  have writes (V : World) (below : W.Below V) :
      Sim M V live s (setBinding e₁ name (.object f) strict) (setBinding e₂ name (.object f) strict) Same :=
    set_binding_sim M V live s fit e₁ e₂ name (open_twins V e₁ e₂ (open_grown W V below _ _ plain) name).1 _ strict
  refine sim_heap M W live s _ _ Same fun h₁ h₂ related => ?_
  rw [open_global W live e₁ e₂ plain h₁ h₂ related,
    twins_have W live [] h₁ h₂ related name e₁ e₂ (open_twins W e₁ e₂ plain name).1]
  refine sim_ite M W live s _ _ _ _ _ Same ?_ (sim_ite M W live s _ _ _ _ _ Same ?_ (writes W W.below_refl))
  · exact sim_bind_same M W live s _ _ _ _ Same (create_binding_sim M fit W live s e₁ e₂ plain name deletable)
      fun V _ below => writes V below
  · exact sim_bind_same M W live s _ _ _ _ Same (redeclare_global_sim M fit W live s name deletable)
      fun V _ below => writes V below

theorem declare_functions_sim (t : Scope.Tree) (formed : t.WellFormed) (text : String) (root : ScopeId)
    (chain : Chain W t root e₁ e₂) (strict deletable : Bool) (codes : List Syntax.Code)
    (fitted : codesScoped t root codes) :
    Sim M W live s (declareFunctions e₁ strict deletable (compileCodes ⟨t.analyze true, text, []⟩ codes))
      (declareFunctions e₂ strict deletable (compileCodes ⟨t.analyze false, text, []⟩ codes)) Same := by
  induction codes generalizing W with
  | nil =>
    rw [compileCodes, compileCodes]
    exact sim_pure M W live s Same _ _ rfl
  | cons code rest hyp =>
    obtain ⟨own, others⟩ := fitted
    have titled (c : Surroundings) : (c.header code.header).name = code.header.name := rfl
    have later (V : World) (below : W.Below V) :=
      hyp V (open_grown W V below _ _ plain) (chain_grown W V below _ _ _ _ chain) others
    rw [compileCodes, compileCodes, declareFunctions, declareFunctions, compiled_header, compiled_header, titled, titled]
    cases code.header.name with
    | none => exact later W W.below_refl
    | some name =>
      refine sim_bind M W live s _ _ _ _ _ Same (settles_sim M W live s _ _ _
        (new_function_settles W live [] s t text [] code root e₁ e₂ formed own chain)) fun V f g below made => ?_
      obtain ⟨_, rfl⟩ := made
      exact sim_bind_same M V live s _ _ _ _ Same
        (declare_function_sim M fit V live s e₁ e₂ (open_grown W V below _ _ plain) strict deletable name f)
        fun U _ below' => later U (World.below_trans W V U below below')

theorem declare_variables_sim (strict deletable : Bool) (names : List String) :
    Sim M W live s (declareVariables e₁ strict deletable names) (declareVariables e₂ strict deletable names) Same := by
  induction names generalizing W with
  | nil => exact sim_pure M W live s Same _ _ rfl
  | cons name rest hyp =>
    refine sim_heap M W live s _ _ Same fun h₁ h₂ related => ?_
    rw [twins_have W live [] h₁ h₂ related name e₁ e₂ (open_twins W e₁ e₂ plain name).1]
    refine sim_ite M W live s _ _ _ _ _ Same ?_ (hyp W plain)
    refine sim_bind_same M W live s _ _ _ _ Same (create_binding_sim M fit W live s e₁ e₂ plain name deletable)
      fun V _ below => ?_
    have plain := open_grown W V below _ _ plain
    exact sim_bind_same M V live s _ _ _ _ Same
      (set_binding_sim M V live s fit e₁ e₂ name (open_twins V e₁ e₂ plain name).1 _ strict)
      fun U _ below' => hyp U (open_grown V U below' _ _ plain)

end

/-- The context in which global or eval code begins. -/
def codeContext (routine : Routine) (lexicalEnv variableEnv : EnvironmentId) (this : Value) : Context :=
  { code := some routine.header, position := routine.header.span.start, lexicalEnv := lexicalEnv
    variableEnv := variableEnv, this := this }

/-- The place of the statements of global or eval code. -/
def rootSetting (t : Scope.Tree) (code : Syntax.Code) : Setting :=
  ⟨t, code.header.scope, code.header.strict, true, ⟨code.header.kind, [], 0, 0⟩⟩

section

variable (M : Machines) (fit : M.Fit) (W : World) (live : List Link) (s : Stand) (t : Scope.Tree) (formed : t.WellFormed)
  (text : String) (code : Syntax.Code) (rooted : code.Rooted t)
  (lexical₁ lexical₂ variable₁ variable₂ : EnvironmentId) (this : Value)
  (global : code.header.kind ≠ .eval →
    (lexical₁ = Intrinsic.globalEnvironment ∧ lexical₂ = Intrinsic.globalEnvironment) ∧
      variable₁ = Intrinsic.globalEnvironment ∧ variable₂ = Intrinsic.globalEnvironment)
  (lexical : Open W lexical₁ lexical₂) («variable» : Open W variable₁ variable₂) (loose : W.Loose variable₂)
include rooted

theorem rooted_global (kind : (t.scope code.header.scope).kind = .global) : code.header.kind ≠ .eval := by
  intro contra
  rw [rooted.kind, if_pos contra] at kind
  cases kind

include formed

theorem rooted_chain (e₁ e₂ : EnvironmentId) (plain : Open W e₁ e₂)
    (global : code.header.kind ≠ .eval → e₁ = Intrinsic.globalEnvironment ∧ e₂ = Intrinsic.globalEnvironment) :
    Chain W t code.header.scope e₁ e₂ := by
  exact .root _ e₁ e₂ ((formed.root _).mpr rooted.outer) (fun kind => global (rooted_global t code rooted kind)) plain

include fit in
theorem rooted_alike : Alike M (rootSetting t code)
    (executeAll code.header.strict none (compileCode ⟨t.analyze true, text, []⟩ code).body)
    (executeAll code.header.strict none (compileCode ⟨t.analyze false, text, []⟩ code).body) := by
  have compiled (collapse : Bool) : (compileCode ⟨t.analyze collapse, text, []⟩ code).body =
      compileBody (surroundings (rootSetting t code) collapse text []) code.body := by
    obtain ⟨h, functions, body⟩ := code
    rw [compileCode]
    rfl
  rw [compiled, compiled]
  exact execute_all_alike M fit (rootSetting t code) none _ _
    (body_paired text (rootSetting t code) formed [] code.body rooted.body)

include lexical «variable» global loose

theorem standing_rooted (position : Nat) : Standing W live (rootSetting t code)
    (s.entering (codeContext (compileCode ⟨t.analyze true, text, []⟩ code) lexical₁ variable₁ this)
      (codeContext (compileCode ⟨t.analyze false, text, []⟩ code) lexical₂ variable₂ this) position) := by
  have notFunction : (t.code (t.scope code.header.scope).code).kind ≠ .function :=
    formed.root_code _ rooted.inside ((formed.root _).mpr rooted.outer)
  refine {
    formed := formed, inside := rooted.inside
    chain := rooted_chain W t formed code rooted _ _ lexical fun kind => (global kind).1
    argued := fun _ => .root _ _ rooted.outer, owned := .root _ _ rooted.outer
    slots := ⟨_, rfl, ?_⟩, frame := fun function => absurd function notFunction, this := rfl
    opened := fun _ => ⟨«variable», fun _ => loose⟩, above := fun function => absurd function notFunction }
  rw [compiled_header]
  change ((t.analyze true).code code.header.id).slots = ((t.analyze true).code (t.scope code.header.scope).code).slots
  rw [rooted.owner]

include fit

omit lexical loose in
theorem declare_sim (deletable : Bool) :
    Sim M W live s (declare (compileCode ⟨t.analyze true, text, []⟩ code) variable₁ deletable)
      (declare (compileCode ⟨t.analyze false, text, []⟩ code) variable₂ deletable) Same := by
  have chain := rooted_chain W t formed code rooted _ _ «variable» fun kind => (global kind).2
  rw [declare, declare, compiled_functions, compiled_functions, compiled_header, compiled_header]
  refine sim_bind_same M W live s _ _ _ _ Same
    (declare_functions_sim M fit W live s _ _ «variable» t formed text _ chain _ deletable _ rooted.functions)
    fun V _ below => ?_
  exact declare_variables_sim M fit V live s _ _ (open_grown W V below _ _ «variable») _ deletable _

/-- Global and eval code does the same in two runs. -/
theorem run_code_sim (deletable : Bool) :
    Sim M W live s
      (runCode (compileCode ⟨t.analyze true, text, []⟩ code) lexical₁ variable₁ this deletable)
      (runCode (compileCode ⟨t.analyze false, text, []⟩ code) lexical₂ variable₂ this deletable) Same := by
  have strict (collapse : Bool) :
      (compileCode ⟨t.analyze collapse, text, []⟩ code).header.strict = code.header.strict := by
    rw [compiled_header]
    rfl
  refine in_context_sim M W live s (codeContext _ lexical₁ variable₁ this) (codeContext _ lexical₂ variable₂ this)
    ?_ ?_ _ _ Same fun p => ?_
  · rw [codeContext, codeContext, compiled_header, compiled_header]
    rfl
  · rw [codeContext, codeContext, compiled_header, compiled_header]
    rfl
  · refine sim_waits M W live _ _ _ Same ?_
    rw [strict, strict]
    refine sim_bind_same M W live _ _ _ _ _ Same
      (declare_sim M fit W live _ t formed text code rooted lexical₁ lexical₂ _ _ global «variable» deletable)
      fun V _ below => ?_
    have stands := standing_rooted V live s t formed text code rooted lexical₁ lexical₂ variable₁ variable₂ this global
      (open_grown W V below _ _ lexical) (open_grown W V below _ _ «variable») (loose_grown W V below _ loose) p
    have alike := rooted_alike M fit t formed text code rooted
    exact sim_bind_same M V live _ _ _ _ _ Same (alike V live _ stands) fun U c _ => sim_pure M U live _ Same _ _ rfl

end

end Ecma.Storage

/-!
The machines of two runs enter code alike, however deep entries are nested.
-/

namespace Ecma

open Ecma.Program Ecma.Scope Ecma.Syntax Run

/-- A host whose functions decide what to do by what can be seen. -/
def HostFunction.Sighted (host : HostFunction) : Prop :=
  ∀ word this args, Ecma.Sighted (host word this args)

namespace Storage

/-- What can be called in two runs: the same code of a script, or the same function of another kind. -/
inductive CallableRelated (W : World) : Option Callable → Option Callable → Prop
  | script (t : Scope.Tree) (text : String) (code : Syntax.Code) (outer : ScopeId) (e₁ e₂ : EnvironmentId)
      (formed : t.WellFormed) (fitted : code.Scoped t outer) (chain : Chain W t outer e₁ e₂) :
      CallableRelated W (some (.script (compileCode ⟨t.analyze true, text, []⟩ code) e₁))
        (some (.script (compileCode ⟨t.analyze false, text, []⟩ code) e₂))
  | builtin (b : Builtin) : CallableRelated W (some (.builtin b)) (some (.builtin b))
  | host (name : String) : CallableRelated W (some (.host name)) (some (.host name))
  | bound (target : ObjectId) (receiver : Value) (args : List Value) :
      CallableRelated W (some (.bound target receiver args)) (some (.bound target receiver args))
  | nothing : CallableRelated W none none

theorem callable_related (W : World) (k₁ k₂ : ObjectKind) (related : KindRelated W k₁ k₂) :
    CallableRelated W k₁.callable? k₂.callable? := by
  cases related with
  | script t text code outer e₁ e₂ formed fitted chain => exact .script t text code outer e₁ e₂ formed fitted chain
  | arguments mapped₁ mapped₂ related => exact .nothing
  | plain _ plain =>
    cases k₁ with
    | function f =>
      cases f with
      | script routine scope => cases plain
      | builtin b => exact .builtin b
      | host name => exact .host name
      | bound target receiver args => exact .bound target receiver args
    | _ => exact .nothing

section

variable (M : Machines) (fit : M.Fit) (W : World) (live : List Link) (s : Stand)
include fit

theorem native_context_sim (f : ObjectId) (body : Run Value) (sighted : Sighted body) :
    Sim M W live s (inNativeContext f body) (inNativeContext f body) Same := by
  refine in_context_sim M W live s _ _ rfl rfl _ _ Same fun p => ?_
  exact sim_waits M W live _ _ _ Same (sighted_sim M W live _ fit body sighted)

theorem call_unbound_sim (host : HostFunction) (hosted : host.Sighted) (f : ObjectId) (this : Value)
    (args : List Value) : Sim M W live s (callUnbound host f this args) (callUnbound host f this args) Same := by
  refine sim_heap M W live s _ _ Same fun h₁ h₂ related => ?_
  have callables : CallableRelated W (h₁.callable? f) (h₂.callable? f) :=
    callable_related W _ _ (related.object f).kind
  generalize h₁.callable? f = c₁ at callables
  generalize h₂.callable? f = c₂ at callables
  cases callables with
  | script t text code outer e₁ e₂ formed fitted chain =>
    exact call_script_sim M fit W live s t formed text code outer fitted e₁ e₂ chain f this args
  | builtin b =>
    exact native_context_sim M fit W live s f _ (.uniform _ (builtin_run_native b this args fun _ => rfl).uniform)
  | host name =>
    refine simulates_look M W live s s.Holds _ _ Same fun r₁ r₂ related holds => ?_
    rw [related.hosts]
    cases r₂.hosts.find? name with
    | none => exact sim_pure M W live s Same _ _ rfl
    | some word => exact native_context_sim M fit W live s f _ (hosted word this args)
  | bound target receiver args => exact throw_type_error_sim M W live s _ _
  | nothing => exact throw_type_error_sim M W live s _ _

theorem construct_unbound_sim (f : ObjectId) (args : List Value) :
    Sim M W live s (constructUnbound f args) (constructUnbound f args) Same := by
  refine sim_heap M W live s _ _ Same fun h₁ h₂ related => ?_
  have callables : CallableRelated W (h₁.callable? f) (h₂.callable? f) :=
    callable_related W _ _ (related.object f).kind
  generalize h₁.callable? f = c₁ at callables
  generalize h₂.callable? f = c₂ at callables
  cases callables with
  | script t text code outer e₁ e₂ formed fitted chain =>
    exact construct_script_sim M fit W live s t formed text code outer fitted e₁ e₂ chain f args
  | builtin b =>
    refine sim_ite M W live s _ _ _ _ _ Same ?_ (throw_type_error_sim M W live s _ _)
    exact native_context_sim M fit W live s f _ (.uniform _ (builtin_construct_native b args fun _ => rfl).uniform)
  | host name => exact throw_type_error_sim M W live s _ _
  | bound target receiver args => exact throw_type_error_sim M W live s _ _
  | nothing => exact throw_type_error_sim M W live s _ _

theorem dispatch_sim (host : HostFunction) (hosted : host.Sighted) (i₁ i₂ : Invocation)
    (invocations : InvocationRelated W i₁ i₂) :
    Sim M W live s (dispatch host i₁) (dispatch host i₂) Same := by
  cases invocations with
  | call f this args =>
    refine sim_heap M W live s _ _ Same fun h₁ h₂ related => ?_
    rw [Heap.unbind_same h₁ h₂ (heaps_same_view W live [] h₁ h₂ related)]
    exact call_unbound_sim M fit W live s host hosted _ _ _
  | construct f args =>
    refine sim_heap M W live s _ _ Same fun h₁ h₂ related => ?_
    rw [Heap.unbind_same h₁ h₂ (heaps_same_view W live [] h₁ h₂ related)]
    exact construct_unbound_sim M fit W live s _ _
  | code t text code lexical₁ lexical₂ variable₁ variable₂ this deletable formed rooted global lexical «variable» loose =>
    exact run_code_sim M fit W live s t formed text code rooted lexical₁ lexical₂ variable₁ variable₂ this global lexical
      «variable» loose deletable

end

/-- An entry in a state that another run is in, too: the run with slots, or the one without. -/
def Asked (i : Invocation) (r : Realm) : Prop :=
  ∃ W live i' r', (Related W live [] r r' ∧ InvocationRelated W i i') ∨ Related W live [] r' r ∧ InvocationRelated W i' i

/-- Machines of all depths that enter code as those that follow resolution do, wherever they are asked to. -/
structure Follows (host : HostFunction) (rounds : Nat) (other : Nat → Machine) : Prop where
  lookup : ∀ d, (other d).lookup.Wary
  rounds : ∀ d, (other d).rounds = rounds
  constructs : ∀ d, (other d).ConstructsObjects
  bottom : ∀ i r, (other 0).enter i r = .error .exhausted r
  enters : ∀ d i r, Asked i r → (other (d + 1)).enter i r = dispatch host i (other d) r

theorem machine_lookup (host : HostFunction) (lookup : Lookup) (rounds depth : Nat) :
    (machine host lookup rounds depth).lookup = lookup := by
  cases depth <;> rfl

theorem machine_rounds (host : HostFunction) (lookup : Lookup) (rounds depth : Nat) :
    (machine host lookup rounds depth).rounds = rounds := by
  cases depth <;> rfl

theorem machine_follows (host : HostFunction) (lookup : Lookup) (wary : lookup.Wary) (rounds : Nat) :
    Follows host rounds (machine host lookup rounds) := by
  refine ⟨fun d => ?_, machine_rounds host lookup rounds, machine_constructs host lookup rounds, fun _ _ => rfl,
    fun _ _ _ _ => rfl⟩
  rw [machine_lookup]
  exact wary

/-- The machines of a depth: those that follow resolution, and others. -/
def beside (host : HostFunction) (other₁ other₂ : Nat → Machine) (rounds depth : Nat) : Machines where
  first := machine host .resolved rounds depth
  other₁ := other₁ depth
  second := machine host .resolved rounds depth
  other₂ := other₂ depth

/-- Machines that follow those that follow resolution enter code alike. -/
theorem beside_fit (host : HostFunction) (hosted : host.Sighted) (rounds : Nat) (other₁ other₂ : Nat → Machine)
    (follows₁ : Follows host rounds other₁) (follows₂ : Follows host rounds other₂) (depth : Nat) :
    (beside host other₁ other₂ rounds depth).Fit := by
  have enters (d : Nat) (enter : ∀ W live s i₁ i₂, InvocationRelated W i₁ i₂ →
      Sim (beside host other₁ other₂ rounds d) W live s (Run.enter i₁) (Run.enter i₂) Same) :
      (beside host other₁ other₂ rounds d).Fit := by
    have constructs := machine_constructs host .resolved rounds d
    have rounds' := machine_rounds host .resolved rounds d
    exact {
      first := machine_lookup _ _ _ _, second := machine_lookup _ _ _ _
      other₁ := follows₁.lookup d, other₂ := follows₂.lookup d
      rounds₁ := (follows₁.rounds d).trans rounds'.symm, rounds := rfl
      rounds₂ := (follows₂.rounds d).trans rounds'.symm
      constructs := ⟨constructs, constructs⟩, constructs' := ⟨follows₁.constructs d, follows₂.constructs d⟩
      enter := enter }
  induction depth with
  | zero =>
    refine enters 0 fun W live s i₁ i₂ _ r₁ r₂ related holds => ?_
    exact ⟨follows₁.bottom i₁ r₁, follows₂.bottom i₂ r₂, rfl, W, W.below_refl, related, holds⟩
  | succ depth fit =>
    refine enters (depth + 1) fun W live s i₁ i₂ invocations r₁ r₂ related holds => ?_
    obtain ⟨same₁, same₂, ends⟩ := dispatch_sim _ fit W live s host hosted i₁ i₂ invocations r₁ r₂ related holds
    have asked₁ : Asked i₁ r₁ := ⟨W, live, i₂, r₂, .inl ⟨related, invocations⟩⟩
    have asked₂ : Asked i₂ r₂ := ⟨W, live, i₁, r₁, .inr ⟨related, invocations⟩⟩
    exact ⟨(follows₁.enters depth i₁ r₁ asked₁).trans same₁, (follows₂.enters depth i₂ r₂ asked₂).trans same₂, ends⟩

end Storage

end Ecma
