import Ecma.Eval.Machine
import Ecma.Proofs.Builtin.Dispatch
import Ecma.Proofs.Program.Typing
import Ecma.Proofs.Run.Course
import Ecma.Proofs.Storage.Simulation
import Ecma.Proofs.Syntax.Parse

set_option autoImplicit false

/-!
The machines of two runs. A machine with lookups of its own does the same as one that follows resolution,
if it does so wherever resolution keeps its promise.
-/

namespace Ecma

open Ecma.Program Ecma.Scope Run

/-- What the resolution of a name promises where the name is looked up: a slot is one of the running code,
an environment at a fixed distance is the nearest one with the name, and a search may start where it is
said to. A global name is global or nowhere. -/
def Program.Variable.Kept (v : Variable) (r : Realm) : Prop :=
  match v.resolution with
  | .slot index => ∃ header slots, r.running.code = some header ∧
      r.heap.frames[r.running.frame]? = some slots ∧ slots.size = header.slots ∧ index < header.slots
  | .fixed links => ∃ env b, r.heap.skip? links r.running.lexicalEnv = some env ∧
      (r.heap.environment env).record = .declarative b ∧ Dictionary.has b v.name = true ∧
      r.heap.findBinding r.running.lexicalEnv v.name = some env
  | .global => (r.heap.environment Intrinsic.globalEnvironment).record = .object Intrinsic.global false ∧
      r.heap.findBinding r.running.lexicalEnv v.name =
        if r.heap.hasBinding Intrinsic.globalEnvironment v.name then some Intrinsic.globalEnvironment else none
  | .dynamic links => ∃ env, r.heap.skip? links r.running.lexicalEnv = some env ∧
      r.heap.findBinding env v.name = r.heap.findBinding r.running.lexicalEnv v.name

/-- A lookup that follows resolution where this keeps its promise. -/
def Lookup.Trusting (lookup : Lookup) : Prop :=
  ∀ v strict r, v.Kept r → lookup v strict r = Lookup.resolved v strict r

/-- A lookup that follows resolution where, beside this, elements of arguments objects stand for places of their own. -/
def Lookup.Wary (lookup : Lookup) : Prop :=
  ∀ v strict r, v.Kept r → r.heap.Tied → lookup v strict r = Lookup.resolved v strict r

theorem trusting_wary (lookup : Lookup) (trusts : lookup.Trusting) : lookup.Wary := by
  exact fun v strict r kept _ => trusts v strict r kept

/-- Runs that decide what to do by what can be seen, and that may take what is thrown. -/
inductive Sighted : {α : Type} → Run α → Prop
  | uniform {α : Type} (x : Run α) (uniform : Uniform x) : Sighted x
  | bind {α β : Type} (x : Run α) (f : α → Run β) (first : Sighted x) (second : ∀ a, Sighted (f a)) :
      Sighted (x >>= f)
  | look {α : Type} (f : Realm → Run α) (same : ∀ r s, r.SameView s → f r = f s) (each : ∀ r, Sighted (f r)) :
      Sighted (MonadState.get >>= f)
  | rescuing {α : Type} (block : Run α) (handler : Interrupt → Option (Run α)) (first : Sighted block)
      (each : ∀ e x, handler e = some x → Sighted x) : Sighted (rescuing block handler)

namespace Storage

/-- The same entry in two runs. -/
inductive InvocationRelated (W : World) : Invocation → Invocation → Prop
  | call (f : ObjectId) (this : Value) (args : List Value) :
      InvocationRelated W (.call f this args) (.call f this args)
  | construct (f : ObjectId) (args : List Value) : InvocationRelated W (.construct f args) (.construct f args)
  | code (t : Scope.Tree) (text : String) (code : Syntax.Code) (lexical₁ lexical₂ variable₁ variable₂ : EnvironmentId)
      (this : Value) (deletable : Bool) (formed : t.WellFormed) (rooted : code.Rooted t)
      (global : code.header.kind ≠ .eval →
        (lexical₁ = Intrinsic.globalEnvironment ∧ lexical₂ = Intrinsic.globalEnvironment) ∧
          variable₁ = Intrinsic.globalEnvironment ∧ variable₂ = Intrinsic.globalEnvironment)
      (lexical : Open W lexical₁ lexical₂) («variable» : Open W variable₁ variable₂) (loose : W.Loose variable₂) :
      InvocationRelated W (.code (compileCode ⟨t.analyze true, text, []⟩ code) lexical₁ variable₁ this deletable)
        (.code (compileCode ⟨t.analyze false, text, []⟩ code) lexical₂ variable₂ this deletable)

/-- Machines that find names as resolution says, up to trusting it, and enter code in the same way. -/
structure Machines.Fit (M : Machines) : Prop where
  first : M.first.lookup = Lookup.resolved
  second : M.second.lookup = Lookup.resolved
  other₁ : M.other₁.lookup.Wary
  other₂ : M.other₂.lookup.Wary
  rounds₁ : M.other₁.rounds = M.first.rounds
  rounds : M.second.rounds = M.first.rounds
  rounds₂ : M.other₂.rounds = M.second.rounds
  constructs : M.first.ConstructsObjects ∧ M.second.ConstructsObjects
  constructs' : M.other₁.ConstructsObjects ∧ M.other₂.ConstructsObjects
  enter : ∀ W live s i₁ i₂, InvocationRelated W i₁ i₂ → Sim M W live s (Run.enter i₁) (Run.enter i₂) Same

end Storage

end Ecma

/-!
Runs that decide what to do by what can be seen do the same wherever bindings live. Code given as text
is parsed alike, and runs in environments in which all names mean the same.
-/

namespace Ecma.Storage

open Ecma.Program Ecma.Scope Ecma.Syntax Run

variable {α : Type} (M : Machines) (W : World) (live : List Link) (s : Stand)

/-! Errors. -/

theorem new_object_sim (kind : ObjectKind) (prototype : Option ObjectId) (properties : PropertyTable)
    (plain : kind.isPlain = true) :
    Sim M W live s (newObject kind prototype properties) (newObject kind prototype properties) Same := by
  have settles := settles_object W live [] s kind kind prototype properties (.plain kind plain) (plain_mapped kind plain)
  exact sim_weaken M W live s s.Holds _ _ _ Same (settles_sim M W live s _ _ _ settles) fun V a b _ made => made.2

theorem new_error_sim (kind : ErrorKind) (message : String) :
    Sim M W live s (newError kind message) (newError kind message) Same := by
  refine simulates_look M W live s s.Holds _ _ _ fun r₁ r₂ related holds => ?_
  rw [Realm.capture_same r₁ r₂ (realms_same_view W live [] r₁ r₂ related)]
  exact new_object_sim M W live s _ _ _ rfl

theorem throw_error_sim (kind : ErrorKind) (message : String) (Q : World → α → α → Prop) :
    Sim M W live s (Run.throwError kind message) (Run.throwError kind message) Q := by
  exact sim_bind_same M W live s _ _ _ _ Q (new_error_sim M W live s kind message) fun V _ _ =>
    sim_throw M V live s Q _

theorem throw_type_error_sim (message : String) (Q : World → α → α → Prop) :
    Sim M W live s (throwTypeError message) (throwTypeError message) Q := by
  exact throw_error_sim M W live s .typeError message Q

/-! Code given as text. -/

theorem parsed_or_sim (text : String) (result : Except SyntaxError Parsed) :
    Sim M W live s (parsedOr text (result.map (Parsed.analyzed true)))
      (parsedOr text (result.map (Parsed.analyzed false)))
      (fun _ p q => ∃ parsed, result = .ok parsed ∧ p = parsed.analyzed true ∧ q = parsed.analyzed false) := by
  cases result with
  | error e => exact throw_error_sim M W live s _ _ _
  | ok parsed => exact sim_pure M W live s _ _ _ ⟨parsed, rfl, rfl, rfl⟩

theorem evaluation_sim (fit : M.Fit) (text : String) (strict : Bool) (c₁ c₂ : Context) (this : c₁.this = c₂.this)
    (lexical : Open W c₁.lexicalEnv c₂.lexicalEnv) («variable» : Open W c₁.variableEnv c₂.variableEnv)
    (loose : strict = false → W.Loose c₂.variableEnv) :
    Sim M W live s (runEvalCode text strict c₁) (runEvalCode text strict c₂) Same := by
  have parses (collapse : Bool) : parseEval text strict collapse =
      (built ⟨"<eval>", text⟩ .eval strict false).map (Parsed.analyzed collapse) :=
    parse_unit_is _ _ _ _ _
  refine simulates_look M W live s s.Holds _ _ _ fun r₁ r₂ related holds => ?_
  rw [related.collapse₁, related.collapse₂]
  dsimp only
  rw [parses, parses]
  refine sim_bind M W live s _ _ _ _ _ Same (parsed_or_sim M W live s text _) fun V p q below same => ?_
  obtain ⟨parsed, ended, rfl, rfl⟩ := same
  obtain ⟨formed, rooted, kind, stays⟩ := built_rooted _ _ _ _ parsed (fun contra => by cases contra) ended
  have headers (collapse : Bool) : (compile (parsed.analyzed collapse)).header.strict = parsed.code.header.strict := by
    change (compileCode _ parsed.code).header.strict = _
    rw [compiled_header]
    rfl
  have enters (U : World) (e₁ e₂ f₁ f₂ : EnvironmentId) (lexical : Open U e₁ e₂) («variable» : Open U f₁ f₂)
      (loose : U.Loose f₂) : Sim M U live s (Run.enter (.code (compile (parsed.analyzed true)) e₁ f₁ c₁.this true))
        (Run.enter (.code (compile (parsed.analyzed false)) e₂ f₂ c₂.this true)) Same := by
    rw [← this]
    exact fit.enter U live s _ _ (.code _ _ _ _ _ _ _ _ _ formed rooted (fun other => absurd kind other) lexical
      «variable» loose)
  rw [headers, headers]
  split
  · refine sim_bind M V live s _ _ _ _ _ Same (settles_sim M V live s _ _ _
      (new_scope_settles V live s _ _ (open_grown W V below _ _ lexical))) fun U e₁ e₂ _ made => ?_
    exact enters U e₁ e₂ e₁ e₂ made.1 made.1 made.2
  · next sloppy =>
    refine enters V _ _ _ _ (open_grown W V below _ _ lexical) (open_grown W V below _ _ «variable»)
      (loose_grown W V below _ (loose ?_))
    exact eq_false_of_ne_true fun outside => sloppy (stays outside)

theorem function_of_texts_sim (texts : List String) :
    Sim M W live s (newFunctionOfTexts texts) (newFunctionOfTexts texts) Same := by
  refine simulates_look M W live s s.Holds _ _ _ fun r₁ r₂ related holds => ?_
  rw [related.collapse₁, related.collapse₂]
  dsimp only
  rw [parse_function_is, parse_function_is]
  have globals := related.heap.globals
  refine sim_bind M W live s _ _ _ _ _ Same (parsed_or_sim M W live s _ _) fun V p q below same => ?_
  obtain ⟨parsed, ended, rfl, rfl⟩ := same
  obtain ⟨formed, root, kind, _, fitted⟩ := built_function_scoped _ _ parsed ended
  refine sim_weaken M V live s s.Holds _ _ _ Same (settles_sim M V live s _ _ _
    (new_function_settles V live [] s parsed.scopes _ [] parsed.code root _ _ formed fitted ?_)) fun _ a b _ made => made.2
  refine .root root _ _ (by rw [kind]; rfl) (fun _ => ⟨rfl, rfl⟩) ?_
  exact open_grown W V below _ _ globals

/-! What is uniform. -/

theorem beside_sim (f : Realm → Realm) (outward : Outward f) : Sim M W live s (modify f) (modify f) Same := by
  intro r₁ r₂ related holds
  have view := outward.same r₁ r₂ (realms_same_view W live [] r₁ r₂ related)
  refine ⟨rfl, rfl, W, ⟨W.below_refl, ?_, ?_⟩, rfl⟩
  · refine ⟨?_, ?_, ?_, view.config, view.running, view.waiting, view.steps, view.hosts, view.handlers,
      view.stdout, view.stderr⟩
    · rw [outward.heap, outward.heap]
      exact related.heap
    · exact (outward.collapse r₁).trans related.collapse₁
    · exact (outward.collapse r₂).trans related.collapse₂
  · obtain ⟨⟨p, first, second⟩, waits₁, waits₂⟩ := holds
    exact ⟨⟨p, (outward.running r₁).trans first, (outward.running r₂).trans second⟩,
      (outward.waiting r₁).trans waits₁, (outward.waiting r₂).trans waits₂⟩

-- The rest of a run may rely on what the first part gives.
theorem given_sim (x : Run α) (sim : Sim M W live s x x Same) :
    Sim M W live s x x (fun _ a b => a = b ∧ ∃ m r r', x m r = .ok a r') := by
  intro r₁ r₂ related holds
  obtain ⟨same₁, same₂, ends⟩ := sim r₁ r₂ related holds
  refine ⟨same₁, same₂, ?_⟩
  cases found₁ : x M.first r₁ with
  | ok a k₁ =>
    cases found₂ : x M.second r₂ with
    | ok b k₂ =>
      rw [found₁, found₂] at ends
      obtain ⟨V, reaches, result⟩ := ends
      exact ⟨V, reaches, result, _, _, _, found₁⟩
    | error e k₂ =>
      rw [found₁, found₂] at ends
      cases ends
  | error e₁ k₁ =>
    cases found₂ : x M.second r₂ with
    | ok b k₂ =>
      rw [found₁, found₂] at ends
      cases ends
    | error e₂ k₂ =>
      rw [found₁, found₂] at ends
      exact ends

theorem uniform_sim (fit : M.Fit) (x : Run α) (uniform : Uniform x) : Sim M W live s x x Same := by
  induction uniform generalizing W with
  | pure a => exact sim_pure M W live s Same a a rfl
  | given x f _ _ first second =>
    refine sim_bind M W live s _ _ _ _ _ Same (given_sim M W live s x (first W)) fun V a b below same => ?_
    obtain ⟨rfl, m, r, r', ended⟩ := same
    exact second m r a r' ended V
  | throwing v => exact sim_throw M W live s Same _
  | look f same _ each =>
    refine simulates_look M W live s s.Holds _ _ _ fun r₁ r₂ related holds => ?_
    rw [same r₁ r₂ (realms_same_view W live [] r₁ r₂ related)]
    exact each r₂ W
  | beside f outward => exact beside_sim M W live s f outward
  | newObject kind prototype properties bare =>
    exact new_object_sim M W live s _ _ _ (ObjectKind.bare_plain kind bare)
  | newArray items => exact new_object_sim M W live s _ _ _ rfl
  | define id key d other k oneKind _ _ otherwise after =>
    refine sim_heap M W live s _ _ Same fun h₁ h₂ related => ?_
    rw [Heap.is_array_same h₁ h₂ (heaps_same_view W live [] h₁ h₂ related)]
    split
    · exact otherwise W
    · refine sim_bind_same M W live s _ _ _ _ Same ?_ fun V accepted _ => after accepted V
      exact sim_update_agree M W live s _ _ fun h₁ h₂ related => define_agree W live h₁ h₂ related id key d
  | defineLength id d length old isValue =>
    exact sim_update_agree M W live s _ _ fun h₁ h₂ related =>
      define_length_agree W live h₁ h₂ related id d length old
  | delete id key =>
    exact sim_update_agree M W live s _ _ fun h₁ h₂ related => delete_agree W live h₁ h₂ related id key
  | preventExtensions id =>
    exact sim_modify M W live s _ _ fun h₁ h₂ related =>
      ⟨W, W.below_refl, prevent_related W live [] h₁ h₂ related id⟩
  | setTraceLimit v =>
    exact sim_modify M W live s _ _ fun h₁ h₂ related =>
      ⟨W, W.below_refl, modify_properties_related W live [] h₁ h₂ related _ _⟩
  | call f this args => exact fit.enter W live s _ _ (.call f this args)
  | construct f args => exact fit.enter W live s _ _ (.construct f args)
  | evaluation text =>
    intro r₁ r₂ related holds
    have globals := related.heap.globals
    exact evaluation_sim M W live s fit text false globalContext globalContext rfl globals globals
      (fun _ => .inl rfl) r₁ r₂ related holds
  | functionOfTexts texts => exact function_of_texts_sim M W live s texts

theorem sighted_sim (fit : M.Fit) (x : Run α) (sighted : Sighted x) : Sim M W live s x x Same := by
  induction sighted generalizing W with
  | uniform x uniform => exact uniform_sim M W live s fit x uniform
  | bind x f _ _ first second =>
    exact sim_bind_same M W live s _ _ _ _ Same (first W) fun V a _ => second a V
  | look f same _ each =>
    refine simulates_look M W live s s.Holds _ _ _ fun r₁ r₂ related holds => ?_
    rw [same r₁ r₂ (realms_same_view W live [] r₁ r₂ related)]
    exact each r₂ W
  | rescuing block handler _ _ first each =>
    intro r₁ r₂ related holds
    obtain ⟨same₁, same₂, ends⟩ := first W r₁ r₂ related holds
    rw [rescuing, rescuing, rescuing, rescuing, same₁, same₂]
    cases found₁ : block M.first r₁ with
    | ok a k₁ =>
      cases found₂ : block M.second r₂ with
      | ok b k₂ =>
        rw [found₁, found₂] at ends
        exact ⟨rfl, rfl, ends⟩
      | error e k₂ =>
        rw [found₁, found₂] at ends
        cases ends
    | error e₁ k₁ =>
      cases found₂ : block M.second r₂ with
      | ok b k₂ =>
        rw [found₁, found₂] at ends
        cases ends
      | error e₂ k₂ =>
        rw [found₁, found₂] at ends
        obtain ⟨rfl, V, below, related', holds'⟩ := ends
        dsimp only
        cases taken : handler e₁ with
        | none => exact ⟨rfl, rfl, rfl, V, below, related', holds'⟩
        | some x =>
          obtain ⟨then₁, then₂, ends'⟩ := each e₁ x taken V k₁ k₂ related' holds'
          refine ⟨then₁, then₂, ends_mono _ _ _ _ _ _ ?_ (fun _ _ _ _ _ _ => id) ends'⟩
          exact fun U l₁ l₂ reaches => ⟨World.below_trans W V U below reaches.1, reaches.2⟩

end Ecma.Storage

/-!
Where a name leads in two runs: to a slot and the binding that it stands for, to environments that belong
together, or nowhere. What resolution promises of it is kept in both.
-/

namespace Ecma.Storage

open Ecma.Program Ecma.Scope Ecma.Syntax Run

/-- Two runs stand at the same place of a text. -/
structure Standing (W : World) (live : List Link) (p : Setting) (s : Stand) : Prop where
  formed : p.tree.WellFormed
  inside : p.scope < p.tree.scopes.size
  chain : Chain W p.tree p.scope s.context₁.lexicalEnv s.context₂.lexicalEnv
  argued : p.arguments = true → Argued W p.tree p.scope s.context₂.lexicalEnv
  owned : Owned W (W.links ++ live) p.tree s.context₁.frame (p.tree.scope p.scope).code p.strict p.scope
    s.context₂.lexicalEnv
  slots : ∃ header, s.context₁.code = some header ∧
    header.slots = ((p.tree.analyze true).code (p.tree.scope p.scope).code).slots
  frame : (p.tree.code (p.tree.scope p.scope).code).kind = .function →
    W.frames[s.context₁.frame]? = some (p.tree, (p.tree.scope p.scope).code)
  this : s.context₁.this = s.context₂.this
  opened : ((p.tree.analyze true).scope p.scope).directEval = true →
    Open W s.context₁.variableEnv s.context₂.variableEnv ∧ (p.strict = false → W.Loose s.context₂.variableEnv)
  -- the catch clauses of the running call are around the place
  above : (p.tree.code (p.tree.scope p.scope).code).kind = .function →
    ∀ l ∈ live, l.frame = s.context₁.frame → l.scope ≤ p.scope

theorem standing_grown (W V : World) (below : W.Below V) (live : List Link) (p : Setting) (s : Stand)
    (standing : Standing W live p s) : Standing V live p s :=
  { standing with
    chain := chain_grown W V below _ _ _ _ standing.chain
    argued := fun bound => argued_grown W V below _ _ _ (standing.argued bound)
    owned := by
      refine owned_grown W V below _ _ _ _ _ _ _ _ (fun l member => ?_) standing.owned
      rcases List.mem_append.mp member with permanent | temporary
      · exact List.mem_append_left _ (below.links l permanent)
      · exact List.mem_append_right _ temporary
    frame := fun function => below.frames _ _ (standing.frame function)
    opened := fun direct => ⟨open_grown W V below _ _ (standing.opened direct).1, fun sloppy =>
      loose_grown W V below _ ((standing.opened direct).2 sloppy)⟩ }

/-- The places of a name or a member in two runs. A slot that can be written stands for a binding that
can. -/
inductive PlaceRelated (W : World) (live : List Link) (frame : FrameId) (strict : Bool) (writable : Prop) :
    Place → Place → Prop
  | slot (l : Link) (member : l ∈ W.links ++ live) (here : l.frame = frame)
      (lasting : writable → l.state = .lasting) :
      PlaceRelated W live frame strict writable (.slot l.slot) (.reference ⟨.environment l.env, l.name, strict⟩)
  | environment (e₁ e₂ : EnvironmentId) (name : String) (twins : W.Twins name e₁ e₂) :
      PlaceRelated W live frame strict writable (.reference ⟨.environment e₁, name, strict⟩)
        (.reference ⟨.environment e₂, name, strict⟩)
  | nowhere (name : String) :
      PlaceRelated W live frame strict writable (.reference ⟨.unresolvable, name, strict⟩)
        (.reference ⟨.unresolvable, name, strict⟩)
  | property (base : Value) (key : PropertyKey) :
      PlaceRelated W live frame strict writable (.property base key) (.property base key)
  | nothing : PlaceRelated W live frame strict writable .nothing .nothing

/-! The way to a slot. -/

section

variable (t : Scope.Tree) (formed : t.WellFormed)
include formed

theorem path_code (name : String) (s u : ScopeId) (few all : Nat)
    (path : Tree.Path (t.analyze true) name s few all u) : (t.scope u).code ≤ (t.scope s).code := by
  induction path with
  | here s => exact Nat.le_refl _
  | further s o u few all closed unbound outer rest hyp =>
    have order := Tree.outer_code t _ formed (Tree.analyze_analysed t formed true) s o outer
    rw [analysed_code t formed, analysed_code t formed] at order
    exact Nat.le_trans hyp order

-- Only functions have slots.
theorem slot_function (u : ScopeId) (name : String) (slot : Nat)
    (found : ((t.analyze true).scope u).locals.lookup name = some slot) :
    (t.code (t.scope u).code).kind = .function := by
  have analysed := Tree.analyze_analysed t formed true
  have may := (analysed.slotted.found u name slot found).2.2.1
  rw [analysed_code t formed, Scope.mayCollapse, analysed.code] at may
  simp only [Bool.and_eq_true, beq_iff_eq] at may
  exact may.1.2

theorem slot_outer (u : ScopeId) (name : String) (slot : Nat)
    (found : ((t.analyze true).scope u).locals.lookup name = some slot) : ∃ o, (t.scope u).outer = some o := by
  cases outer : (t.scope u).outer with
  | some o => exact ⟨o, rfl⟩
  | none =>
    have inside : u < t.scopes.size := by
      refine Nat.lt_of_not_le fun beyond => ?_
      rw [← (Tree.analyze_analysed t formed true).scopes] at beyond
      rw [Tree.scope_unknown _ u (Nat.not_lt.mpr beyond)] at found
      cases found
    exact absurd (slot_function t formed u name slot found) (formed.root_code u inside ((formed.root u).mpr outer))

variable (W : World) (live : List Link) (links : List Link) (h₁ h₂ : Heap)
  (related : HeapRelated W live [] h₁ h₂)
include related

-- The slots of the running code are those of all scopes of the code that are on the way.
theorem owned_path (name : String) (frame : FrameId) (code : Nat) (strict : Bool) (s u : ScopeId) (few all : Nat)
    (path : Tree.Path (t.analyze true) name s few all u) (e₂ : EnvironmentId) (here : (t.scope s).code = code)
    (there : (t.scope u).code = code) (owned : Owned W links t frame code strict s e₂) :
    ∃ f₂, h₂.skip? all e₂ = some f₂ ∧ Owned W links t frame code strict u f₂ := by
  induction path generalizing e₂ with
  | here s => exact ⟨e₂, rfl, owned⟩
  | further s o u few all closed unbound outer rest hyp =>
    have order := Tree.outer_code t _ formed (Tree.analyze_analysed t formed true) s o outer
    rw [analysed_code t formed, analysed_code t formed] at order
    have beyond := path_code t formed name o u few all rest
    rw [analysed_outer t formed] at outer
    have same : (t.scope o).code = code := by
      rw [here] at order
      rw [there] at beyond
      exact Nat.le_antisymm order beyond
    cases owned with
    | beyond _ _ other => exact absurd here other
    | root _ _ none =>
      rw [outer] at none
      cases none
    | here _ o' _ f₂ info outer' found around₂ linked rest' =>
      cases Option.some.inj (outer.symm.trans outer')
      obtain ⟨g₂, skip, owned'⟩ := hyp f₂ same there rest'
      refine ⟨g₂, ?_, owned'⟩
      rw [Heap.skip?, outer_second W live [] h₁ h₂ related e₂ info found, around₂]
      exact skip

end

/-! What a resolution promises and where it leads. -/

theorem find_here (h : Heap) (e : EnvironmentId) (name : String) (has : h.hasBinding e name = true) :
    h.findBinding e name = some e := by
  rw [Heap.find_binding_step, has]
  rfl

theorem lexical_envs (s : Stand) (r₁ r₂ : Realm) (holds : s.Holds r₁ r₂) :
    r₁.running.lexicalEnv = s.context₁.lexicalEnv ∧ r₂.running.lexicalEnv = s.context₂.lexicalEnv := by
  obtain ⟨⟨position, first, second⟩, _⟩ := holds
  rw [first, second]
  exact ⟨rfl, rfl⟩

theorem root_none (t : Scope.Tree) (formed : t.WellFormed) (u : ScopeId) (kind : (t.scope u).kind.isRoot = true) :
    (t.scope u).outer = none := by
  exact (formed.root u).mp kind

section

variable (W : World) (live : List Link) (h₁ h₂ : Heap) (related : HeapRelated W live [] h₁ h₂)
include related

-- A name that an environment has for good is found there.
theorem lower_found (e₂ : EnvironmentId) (info : Info) (name : String) (found : W.Has e₂ info)
    (lower : name ∈ info.shape.lower) :
    ∃ b, (h₂.environment e₂).record = .declarative b ∧ Dictionary.has b name = true ∧
      h₂.findBinding e₂ name = some e₂ := by
  obtain ⟨b, binding, second, there, _⟩ :=
    within_lower W live [] h₁ h₂ related e₂ info name found lower List.not_mem_nil
  have record : (h₂.environment e₂).record = .declarative b := by
    rw [Heap.environment_of h₂ e₂ _ second]
  have has : Dictionary.has b name = true := by
    rw [Dictionary.has, there]
    rfl
  refine ⟨b, record, has, find_here h₂ e₂ name ?_⟩
  rw [Heap.hasBinding, record]
  exact has

theorem twin_found (e₁ e₂ : EnvironmentId) (info : Info) (name : String) (found : W.Has e₂ info)
    (twin : info.twin = some e₁) (shown : name ∉ info.shape.hidden) (lower : name ∈ info.shape.lower) :
    ∃ b, (h₁.environment e₁).record = .declarative b ∧ Dictionary.has b name = true ∧
      h₁.findBinding e₁ name = some e₁ := by
  obtain ⟨b₂, record₂, has₂, _⟩ := lower_found W live h₁ h₂ related e₂ info name found lower
  have twins : W.Twins name e₁ e₂ := ⟨info, found, twin, shown⟩
  have same := twins_have W live [] h₁ h₂ related name e₁ e₂ twins
  rcases twins_bindings W live [] h₁ h₂ related name e₁ e₂ twins with
    ⟨id, receiver, _, second⟩ | ⟨b₁, b₂', first, second, finds⟩
  · rw [record₂] at second
    cases second
  · rw [record₂] at second
    cases second
    have has : Dictionary.has b₁ name = true := by
      rw [Dictionary.has, finds]
      exact has₂
    refine ⟨b₁, first, has, find_here h₁ e₁ name ?_⟩
    rw [Heap.hasBinding, first]
    exact has

-- Nothing is around the global environment.
theorem global_search (name : String) :
    W.Twins name Intrinsic.globalEnvironment Intrinsic.globalEnvironment ∧
      (h₁.findBinding Intrinsic.globalEnvironment name =
        if h₁.hasBinding Intrinsic.globalEnvironment name then some Intrinsic.globalEnvironment else none) ∧
      h₂.findBinding Intrinsic.globalEnvironment name =
        if h₂.hasBinding Intrinsic.globalEnvironment name then some Intrinsic.globalEnvironment else none := by
  have alone (h : Heap) : h.findBinding Intrinsic.globalEnvironment name =
      if h.hasBinding Intrinsic.globalEnvironment name then some Intrinsic.globalEnvironment else none := by
    rw [Heap.find_binding_step]
    cases outer : h.outer? Intrinsic.globalEnvironment with
    | none => rfl
    | some o => exact absurd (Heap.outer_less h _ o outer) (Nat.not_lt_zero o)
  obtain ⟨info, found, twin, shape⟩ := related.global
  refine ⟨⟨info, found, twin, ?_⟩, alone h₁, alone h₂⟩
  rw [shape]
  exact List.not_mem_nil

-- Both look names up in the global object.
theorem global_records :
    (h₁.environment Intrinsic.globalEnvironment).record = .object Intrinsic.global false ∧
      (h₂.environment Intrinsic.globalEnvironment).record = .object Intrinsic.global false := by
  obtain ⟨info, found, twin, shape⟩ := related.global
  obtain ⟨record, environment⟩ := related.environment _ info found
  have describes := environment.describes
  rw [shape] at describes
  cases describes
  exact ⟨by rw [Heap.environment_of h₁ _ _ (environment.first _ twin)]; rfl,
    by rw [Heap.environment_of h₂ _ _ environment.second]⟩

end

section

variable (W : World) (live : List Link) (p : Setting) (s : Stand) (r₁ r₂ : Realm)
  (related : Related W live [] r₁ r₂) (holds : s.Holds r₁ r₂) (standing : Standing W live p s)
include related holds standing

/-- What a name refers to in both runs. -/
def Led (W : World) (live : List Link) (p : Setting) (s : Stand) (r₁ r₂ : Realm) (v₁ v₂ : Variable)
    (writable : Prop) : Prop :=
  v₁.Kept r₁ ∧ v₂.Kept r₂ ∧
    PlaceRelated W live s.context₁.frame p.strict writable (r₁.placeOf v₁ p.strict) (r₂.placeOf v₂ p.strict)

theorem slot_led (name : String) (argued : name = "arguments" → p.arguments = true) (u : ScopeId)
    (few all index : Nat) (path : Tree.Path (p.tree.analyze true) name p.scope few all u)
    (found : ((p.tree.analyze true).scope u).locals.lookup name = some index)
    (same : (p.tree.scope u).code = (p.tree.scope p.scope).code) :
    Led W live p s r₁ r₂ ⟨name, .slot index⟩ ⟨name, .fixed all⟩ (p.strict = true → name ≠ "arguments") := by
  have formed := standing.formed
  have heap := related.heap
  obtain ⟨lexical₁, lexical₂⟩ := lexical_envs s r₁ r₂ holds
  obtain ⟨f₁, f₂, _, skip₂, chain, _, find₂, argued'⟩ := path_chain W live _ _ heap p.tree formed name p.scope u few all
    path _ _ standing.chain fun same => standing.argued (argued same)
  obtain ⟨g₂, skip, owned⟩ := owned_path p.tree formed W live _ _ _ heap name _ _ _ p.scope u few all path _ rfl same
    standing.owned
  cases Option.some.inj (skip₂.symm.trans skip)
  obtain ⟨o, outer⟩ := slot_outer p.tree formed u name index found
  have member : name ∈ (p.tree.scope u).defs := by
    rw [← analysed_defs p.tree formed]
    exact ((Tree.analyze_analysed p.tree formed true).slotted.found u name index found).1
  cases owned with
  | beyond _ _ other => exact absurd same other
  | root _ _ none =>
    rw [outer] at none
    cases none
  | here _ o' _ e info outer' has around linked rest =>
    have lower : name ∈ info.shape.lower := by
      cases chain with
      | root _ _ _ kind =>
        rw [root_none p.tree formed u kind] at outer
        cases outer
      | bare _ _ _ _ _ info' outer'' _ has' fits =>
        cases Option.some.inj (has.symm.trans has')
        exact bound_lower W p.tree u _ f₂ info name outer'' has fits member argued'
      | full _ _ _ _ _ _ info' outer'' _ has' fits =>
        cases Option.some.inj (has.symm.trans has')
        exact bound_lower W p.tree u _ f₂ info name outer'' has fits member argued'
    obtain ⟨l, among, frame, slot, env, named, state⟩ := linked name index found lower
    obtain ⟨header, code, count⟩ := standing.slots
    obtain ⟨b, record, bound, finds⟩ := lower_found W live _ _ heap f₂ info name has lower
    obtain ⟨⟨position, running₁, running₂⟩, _⟩ := holds
    have inside := ((Tree.analyze_analysed p.tree formed true).slotted.found u name index found).2.2.2
    have function := slot_function p.tree formed u name index found
    rw [analysed_code p.tree formed, same] at inside
    rw [same] at function
    obtain ⟨slots, there, size⟩ := heap.frame _ _ _ (standing.frame function)
    rw [← count] at inside size
    refine ⟨?_, ?_, ?_⟩
    · refine ⟨header, slots, ?_, ?_, size, inside⟩
      · rw [running₁]
        exact code
      · rw [running₁]
        exact there
    · refine ⟨f₂, b, ?_, record, bound, ?_⟩
      · rw [lexical₂]
        exact skip₂
      · rw [lexical₂, find₂]
        exact finds
    · have places : r₂.placeOf ⟨name, .fixed all⟩ p.strict = .reference ⟨.environment l.env, l.name, p.strict⟩ := by
        change Place.reference ⟨.environment (r₂.heap.skip all r₂.running.lexicalEnv), name, p.strict⟩ = _
        rw [lexical₂, Heap.skip_of _ _ _ _ skip₂, env, named]
      rw [places, ← slot]
      refine .slot l among frame fun writable => ?_
      rcases state with lasting | ⟨strict, arguments⟩
      · exact lasting
      · exact absurd arguments (writable strict)

theorem fixed_led (name : String) (argued : name = "arguments" → p.arguments = true) (writable : Prop) (u : ScopeId)
    (few all : Nat) (path : Tree.Path (p.tree.analyze true) name p.scope few all u)
    (free : ((p.tree.analyze true).scope u).locals.lookup name = none) (member : name ∈ (p.tree.scope u).defs)
    (kind : (p.tree.scope u).kind.isRoot = false) :
    Led W live p s r₁ r₂ ⟨name, .fixed few⟩ ⟨name, .fixed all⟩ writable := by
  have formed := standing.formed
  have heap := related.heap
  obtain ⟨lexical₁, lexical₂⟩ := lexical_envs s r₁ r₂ holds
  obtain ⟨f₁, f₂, skip₁, skip₂, chain, find₁, find₂, argued'⟩ := path_chain W live _ _ heap p.tree formed name p.scope u
    few all path _ _ standing.chain fun same => standing.argued (argued same)
  cases chain with
  | root _ _ _ root =>
    rw [root] at kind
    cases kind
  | bare _ o _ _ _ info outer collapsed =>
    have slotted := (Tree.analyze_analysed p.tree formed true).slotted
    rw [← analysed_defs p.tree formed] at member
    have some := (slotted.collapsed u collapsed).2 name member
    rw [free] at some
    cases some
  | full _ o _ _ _ _ info outer _ has fits twin =>
    have lower := bound_lower W p.tree u o f₂ info name outer has fits member argued'
    have shown : name ∉ info.shape.hidden := by
      rw [fits.hidden]
      exact lookup_none _ name free
    obtain ⟨b₂, record₂, bound₂, finds₂⟩ := lower_found W live _ _ heap f₂ info name has lower
    obtain ⟨b₁, record₁, bound₁, finds₁⟩ := twin_found W live _ _ heap f₁ f₂ info name has twin shown lower
    refine ⟨⟨f₁, b₁, ?_, record₁, bound₁, ?_⟩, ⟨f₂, b₂, ?_, record₂, bound₂, ?_⟩, ?_⟩
    · rw [lexical₁]
      exact skip₁
    · rw [lexical₁, find₁]
      exact finds₁
    · rw [lexical₂]
      exact skip₂
    · rw [lexical₂, find₂]
      exact finds₂
    · change PlaceRelated W live _ _ _
        (.reference ⟨.environment (r₁.heap.skip few r₁.running.lexicalEnv), name, p.strict⟩)
        (.reference ⟨.environment (r₂.heap.skip all r₂.running.lexicalEnv), name, p.strict⟩)
      rw [lexical₁, lexical₂, Heap.skip_of _ _ _ _ skip₁, Heap.skip_of _ _ _ _ skip₂]
      exact .environment f₁ f₂ name ⟨info, has, twin, shown⟩

theorem global_led (name : String) (argued : name = "arguments" → p.arguments = true) (writable : Prop)
    (u : ScopeId) (few all : Nat) (path : Tree.Path (p.tree.analyze true) name p.scope few all u)
    (kind : (p.tree.scope u).kind = .global) :
    Led W live p s r₁ r₂ ⟨name, .global⟩ ⟨name, .global⟩ writable := by
  have formed := standing.formed
  have heap := related.heap
  obtain ⟨lexical₁, lexical₂⟩ := lexical_envs s r₁ r₂ holds
  obtain ⟨f₁, f₂, _, _, chain, find₁, find₂, _⟩ := path_chain W live _ _ heap p.tree formed name p.scope u few all
    path _ _ standing.chain fun same => standing.argued (argued same)
  have outermost := root_none p.tree formed u (by rw [kind]; rfl)
  obtain ⟨same₁, same₂⟩ : f₁ = Intrinsic.globalEnvironment ∧ f₂ = Intrinsic.globalEnvironment := by
    cases chain with
    | root _ _ _ _ global => exact global kind
    | bare _ _ _ _ _ _ outer =>
      rw [outermost] at outer
      cases outer
    | full _ _ _ _ _ _ _ outer =>
      rw [outermost] at outer
      cases outer
  obtain ⟨twins, alone₁, alone₂⟩ := global_search W live _ _ heap name
  obtain ⟨record₁, record₂⟩ := global_records W live _ _ heap
  refine ⟨⟨record₁, ?_⟩, ⟨record₂, ?_⟩, .environment _ _ name twins⟩
  · change r₁.heap.findBinding r₁.running.lexicalEnv name = _
    rw [lexical₁, find₁, same₁]
    exact alone₁
  · change r₂.heap.findBinding r₂.running.lexicalEnv name = _
    rw [lexical₂, find₂, same₂]
    exact alone₂

theorem dynamic_led (name : String) (argued : name = "arguments" → p.arguments = true) (writable : Prop)
    (u : ScopeId) (few all : Nat) (path : Tree.Path (p.tree.analyze true) name p.scope few all u)
    (unslotted : Tree.Unslotted (p.tree.analyze true) name u) :
    Led W live p s r₁ r₂ ⟨name, .dynamic few⟩ ⟨name, .dynamic all⟩ writable := by
  have formed := standing.formed
  have heap := related.heap
  obtain ⟨lexical₁, lexical₂⟩ := lexical_envs s r₁ r₂ holds
  obtain ⟨f₁, f₂, skip₁, skip₂, chain, find₁, find₂, argued'⟩ := path_chain W live _ _ heap p.tree formed name p.scope u
    few all path _ _ standing.chain fun same => standing.argued (argued same)
  have found := chain_search W live _ _ heap p.tree formed name u f₁ f₂ chain unslotted argued'
  refine ⟨⟨f₁, ?_, ?_⟩, ⟨f₂, ?_, ?_⟩, ?_⟩
  · rw [lexical₁]
    exact skip₁
  · rw [lexical₁]
    exact find₁.symm
  · rw [lexical₂]
    exact skip₂
  · rw [lexical₂]
    exact find₂.symm
  · change PlaceRelated W live _ _ _
      (.reference (Reference.ofName r₁.heap (r₁.heap.skip few r₁.running.lexicalEnv) name p.strict))
      (.reference (Reference.ofName r₂.heap (r₂.heap.skip all r₂.running.lexicalEnv) name p.strict))
    rw [lexical₁, lexical₂, Heap.skip_of _ _ _ _ skip₁, Heap.skip_of _ _ _ _ skip₂, Reference.ofName,
      Reference.ofName]
    generalize r₁.heap.findBinding f₁ name = found₁ at found
    generalize r₂.heap.findBinding f₂ name = found₂ at found
    cases found₁ with
    | none =>
      cases found₂ with
      | none => exact .nowhere name
      | some g₂ => cases found
    | some g₁ =>
      cases found₂ with
      | none => cases found
      | some g₂ => exact .environment g₁ g₂ name found

/-- Resolution keeps its promise in both runs, and leads to places that belong together. -/
theorem name_led (name : String) (referred : name ∈ (p.tree.scope p.scope).refs)
    (argued : name = "arguments" → p.arguments = true) :
    Led W live p s r₁ r₂ ⟨name, (p.tree.analyze true).resolve p.scope name⟩
      ⟨name, (p.tree.analyze false).resolve p.scope name⟩ (p.strict = true → name ≠ "arguments") := by
  have formed := standing.formed
  have leads := Tree.reference_leads p.tree formed name p.scope standing.inside referred
  generalize (p.tree.analyze true).resolve p.scope name = first at leads
  generalize (p.tree.analyze false).resolve p.scope name = second at leads
  cases leads with
  | slot u few all index path found same =>
    rw [analysed_code p.tree formed] at same
    exact slot_led W live p s r₁ r₂ related holds standing name argued u few all index path found same
  | fixed u few all path free member kind =>
    rw [analysed_defs p.tree formed] at member
    rw [analysed_kind p.tree formed] at kind
    exact fixed_led W live p s r₁ r₂ related holds standing name argued _ u few all path free member kind
  | global u few all path kind =>
    rw [analysed_kind p.tree formed] at kind
    exact global_led W live p s r₁ r₂ related holds standing name argued _ u few all path kind
  | dynamic u few all path unslotted =>
    exact dynamic_led W live p s r₁ r₂ related holds standing name argued _ u few all path unslotted

end

end Ecma.Storage
