import Mathlib.Data.List.Forall2
import Ecma.Program.Compile
import Ecma.Proofs.Heap.Arguments
import Ecma.Proofs.Heap.Bindings
import Ecma.Proofs.Heap.View
import Ecma.Proofs.Run.Native
import Ecma.Proofs.Scope.Resolution
import Ecma.Proofs.Syntax.Scoped

set_option autoImplicit false

/-!
Two runs of the same code. In the first, bindings live in slots of frames where the scopes allow it; in
the second, every scope has an environment that holds all of its bindings. Objects and frames are made in
the same order in both, and each environment of the first run has a counterpart in the second. A world
says which environments and which bindings belong together; it only grows.
-/

namespace Ecma.Storage

open Ecma.Program Ecma.Scope

/-- A slot of the first run and the binding of the second that it stands for. -/
structure Link where
  frame : FrameId
  slot : Nat
  env : EnvironmentId
  name : String
  /-- The scope that binds the name. -/
  scope : ScopeId
  state : BindingState
deriving DecidableEq

/-- What is known for good of an environment. Hidden names have no binding in the first run; names not
in `upper` never get one, and those in `lower` never lose theirs. Only bindings of names in `fixed` may be constant. -/
inductive Shape where
  | object (id : ObjectId) (receiver : Bool)
  | bindings (hidden : List String) (upper : Option (List String)) (lower fixed : List String)

namespace Shape

def hidden : Shape → List String
  | .object _ _ => []
  | .bindings hidden _ _ _ => hidden

def upper : Shape → Option (List String)
  | .object _ _ => none
  | .bindings _ upper _ _ => upper

def lower : Shape → List String
  | .object _ _ => []
  | .bindings _ _ lower _ => lower

def fixed : Shape → List String
  | .object _ _ => []
  | .bindings _ _ _ fixed => fixed

end Shape

/-- An environment of the second run, its counterpart in the first, and what is around each. -/
structure Info where
  shape : Shape
  twin : Option EnvironmentId
  around₁ : Option EnvironmentId
  around₂ : Option EnvironmentId

structure World where
  /-- The environments of the second run, in their order. -/
  infos : List Info
  /-- For every frame the unit of code it is for, in the tree of its text. -/
  frames : List (Scope.Tree × Nat)
  /-- The slots that stand for bindings of functions. -/
  links : List Link

/-- The growth of a world. -/
structure World.Below (W V : World) : Prop where
  infos : ∀ (e : Nat) info, W.infos[e]? = some info → V.infos[e]? = some info
  frames : ∀ (f : Nat) owner, W.frames[f]? = some owner → V.frames[f]? = some owner
  links : ∀ l ∈ W.links, l ∈ V.links

theorem World.below_refl (W : World) : W.Below W := by
  exact ⟨fun _ _ => id, fun _ _ => id, fun _ => id⟩

theorem World.below_trans (W V U : World) (first : W.Below V) (second : V.Below U) : W.Below U := by
  exact ⟨fun e info found => second.infos e info (first.infos e info found),
    fun f owner found => second.frames f owner (first.frames f owner found),
    fun l member => second.links l (first.links l member)⟩

/-- An environment of the second run, seen from a world. -/
def World.Has (W : World) (e : EnvironmentId) (info : Info) : Prop :=
  W.infos[e]? = some info

/-- Environments that belong together, in which a name means the same. -/
def World.Twins (W : World) (name : String) (e₁ e₂ : EnvironmentId) : Prop :=
  ∃ info, W.Has e₂ info ∧ info.twin = some e₁ ∧ name ∉ info.shape.hidden

/-- The global environments belong together, and look names up in the global object. -/
def World.Global (W : World) : Prop :=
  ∃ info, W.Has Intrinsic.globalEnvironment info ∧ info.twin = some Intrinsic.globalEnvironment ∧
    info.shape = .object Intrinsic.global false

-- Environments that belong together all the way outward, and in which all names mean the same.
inductive Open (W : World) : EnvironmentId → EnvironmentId → Prop
  | outermost (e₁ e₂ : EnvironmentId) (info : Info) (found : W.Has e₂ info) (twin : info.twin = some e₁)
      (hidden : info.shape.hidden = []) (free : info.shape.upper = none) (none₁ : info.around₁ = none)
      (none₂ : info.around₂ = none) : Open W e₁ e₂
  | inside (e₁ e₂ f₁ f₂ : EnvironmentId) (info : Info) (found : W.Has e₂ info)
      (twin : info.twin = some e₁) (hidden : info.shape.hidden = []) (free : info.shape.upper = none)
      (around₁ : info.around₁ = some f₁) (around₂ : info.around₂ = some f₂) (rest : Open W f₁ f₂) :
      Open W e₁ e₂

/-- An environment of the second run in which code declares names: the global one, or one with bindings of its own, all
of which can be written. -/
def World.Loose (W : World) (e₂ : EnvironmentId) : Prop :=
  e₂ = Intrinsic.globalEnvironment ∨
    ∃ info hidden upper lower, W.Has e₂ info ∧ info.shape = .bindings hidden upper lower []

/-- What the analysis of a scope says of its environments. -/
structure Fits (t : Scope.Tree) (s : ScopeId) (shape : Shape) : Prop where
  object : (t.scope s).kind = .withObject ↔ ∃ id, shape = .object id true
  declarative : (t.scope s).kind ≠ .withObject → ∃ hidden upper lower fixed, shape = .bindings hidden upper lower fixed
  hidden : shape.hidden = ((t.analyze true).scope s).locals.map Prod.fst
  upper : shape.upper = if ((t.analyze true).scope s).isClosed then some (t.scope s).defs else none
  lower : ∀ name ∈ (t.scope s).defs, ((t.scope s).kind = .function ∧ name = "arguments") ∨
    name ∈ shape.lower
  arguments : (t.scope s).kind = .function → "arguments" ∈ (t.scope s).defs

-- The environments of a scope in the two runs. A scope whose bindings all live in slots has none in the
-- first run.
inductive Chain (W : World) (t : Scope.Tree) : ScopeId → EnvironmentId → EnvironmentId → Prop
  | root (s : ScopeId) (e₁ e₂ : EnvironmentId) (kind : (t.scope s).kind.isRoot = true)
      (global : (t.scope s).kind = .global → e₁ = Intrinsic.globalEnvironment ∧
        e₂ = Intrinsic.globalEnvironment)
      (rest : Open W e₁ e₂) : Chain W t s e₁ e₂
  | bare (s o : ScopeId) (e₁ e₂ f₂ : EnvironmentId) (info : Info) (outer : (t.scope s).outer = some o)
      (collapsed : ((t.analyze true).scope s).collapsed = true) (found : W.Has e₂ info)
      (fits : Fits t s info.shape) (around₂ : info.around₂ = some f₂) (rest : Chain W t o e₁ f₂) :
      Chain W t s e₁ e₂
  | full (s o : ScopeId) (e₁ e₂ f₁ f₂ : EnvironmentId) (info : Info) (outer : (t.scope s).outer = some o)
      (collapsed : ((t.analyze true).scope s).collapsed = false) (found : W.Has e₂ info)
      (fits : Fits t s info.shape) (twin : info.twin = some e₁) (around₁ : info.around₁ = some f₁)
      (around₂ : info.around₂ = some f₂) (rest : Chain W t o f₁ f₂) : Chain W t s e₁ e₂

-- The nearest function binds `arguments`.
inductive Argued (W : World) (t : Scope.Tree) : ScopeId → EnvironmentId → Prop
  | root (s : ScopeId) (e₂ : EnvironmentId) (outer : (t.scope s).outer = none) : Argued W t s e₂
  | here (s : ScopeId) (e₂ : EnvironmentId) (info : Info) (kind : (t.scope s).kind = .function)
      (found : W.Has e₂ info) (bound : "arguments" ∈ info.shape.lower) : Argued W t s e₂
  | outward (s o : ScopeId) (e₂ f₂ : EnvironmentId) (info : Info) (outer : (t.scope s).outer = some o)
      (kind : (t.scope s).kind ≠ .function) (found : W.Has e₂ info) (around₂ : info.around₂ = some f₂)
      (rest : Argued W t o f₂) : Argued W t s e₂

-- The slots of the running code, as far as names in it can mean them.
inductive Owned (W : World) (links : List Link) (t : Scope.Tree) (frame : FrameId) (code : Nat)
    (strict : Bool) : ScopeId → EnvironmentId → Prop
  | beyond (s : ScopeId) (e₂ : EnvironmentId) (other : (t.scope s).code ≠ code) :
      Owned W links t frame code strict s e₂
  | root (s : ScopeId) (e₂ : EnvironmentId) (outer : (t.scope s).outer = none) :
      Owned W links t frame code strict s e₂
  | here (s o : ScopeId) (e₂ f₂ : EnvironmentId) (info : Info) (outer : (t.scope s).outer = some o)
      (found : W.Has e₂ info) (around₂ : info.around₂ = some f₂)
      (linked : ∀ name slot, ((t.analyze true).scope s).locals.lookup name = some slot →
        name ∈ info.shape.lower → ∃ l ∈ links, l.frame = frame ∧ l.slot = slot ∧ l.env = e₂ ∧
          l.name = name ∧ (l.state = .lasting ∨ (strict = true ∧ name = "arguments")))
      (rest : Owned W links t frame code strict o f₂) : Owned W links t frame code strict s e₂

/-! Growth keeps all of this. -/

section

variable (W V : World) (below : W.Below V)
include below

theorem twins_grown (name : String) (e₁ e₂ : EnvironmentId) (twins : W.Twins name e₁ e₂) :
    V.Twins name e₁ e₂ := by
  obtain ⟨info, found, twin, shown⟩ := twins
  exact ⟨info, below.infos e₂ info found, twin, shown⟩

theorem global_grown (global : W.Global) : V.Global := by
  obtain ⟨info, found, rest⟩ := global
  exact ⟨info, below.infos _ _ found, rest⟩

theorem loose_grown (e₂ : EnvironmentId) (loose : W.Loose e₂) : V.Loose e₂ := by
  rcases loose with global | ⟨info, hidden, upper, lower, found, shape⟩
  · exact .inl global
  · exact .inr ⟨info, hidden, upper, lower, below.infos e₂ info found, shape⟩

theorem open_grown (e₁ e₂ : EnvironmentId) (plain : Open W e₁ e₂) : Open V e₁ e₂ := by
  induction plain with
  | outermost e₁ e₂ info found twin hidden free none₁ none₂ =>
    exact .outermost e₁ e₂ info (below.infos _ _ found) twin hidden free none₁ none₂
  | inside e₁ e₂ f₁ f₂ info found twin hidden free around₁ around₂ _ hyp =>
    exact .inside e₁ e₂ f₁ f₂ info (below.infos _ _ found) twin hidden free around₁ around₂ hyp

theorem chain_grown (t : Scope.Tree) (s : ScopeId) (e₁ e₂ : EnvironmentId) (chain : Chain W t s e₁ e₂) :
    Chain V t s e₁ e₂ := by
  induction chain with
  | root s e₁ e₂ kind global rest => exact .root s e₁ e₂ kind global (open_grown W V below _ _ rest)
  | bare s o e₁ e₂ f₂ info outer collapsed found fits around₂ _ hyp =>
    exact .bare s o e₁ e₂ f₂ info outer collapsed (below.infos _ _ found) fits around₂ hyp
  | full s o e₁ e₂ f₁ f₂ info outer collapsed found fits twin around₁ around₂ _ hyp =>
    exact .full s o e₁ e₂ f₁ f₂ info outer collapsed (below.infos _ _ found) fits twin around₁ around₂ hyp

theorem argued_grown (t : Scope.Tree) (s : ScopeId) (e₂ : EnvironmentId) (argued : Argued W t s e₂) :
    Argued V t s e₂ := by
  induction argued with
  | root s e₂ outer => exact .root s e₂ outer
  | here s e₂ info kind found bound => exact .here s e₂ info kind (below.infos _ _ found) bound
  | outward s o e₂ f₂ info outer kind found around₂ _ hyp =>
    exact .outward s o e₂ f₂ info outer kind (below.infos _ _ found) around₂ hyp

theorem owned_grown (links more : List Link) (t : Scope.Tree) (frame : FrameId) (code : Nat) (strict : Bool)
    (s : ScopeId) (e₂ : EnvironmentId) (kept : ∀ l ∈ links, l ∈ more)
    (owned : Owned W links t frame code strict s e₂) : Owned V more t frame code strict s e₂ := by
  induction owned with
  | beyond s e₂ other => exact .beyond s e₂ other
  | root s e₂ outer => exact .root s e₂ outer
  | here s o e₂ f₂ info outer found around₂ linked _ hyp =>
    refine .here s o e₂ f₂ info outer (below.infos _ _ found) around₂ (fun name slot there bound => ?_) hyp
    obtain ⟨l, member, rest⟩ := linked name slot there bound
    exact ⟨l, kept l member, rest⟩

end

end Ecma.Storage

/-!
When the heaps of two runs belong together in a world. The objects are the same but for what cannot be
seen of them, and every binding has the same value wherever it lives.
-/

namespace Ecma.Storage

open Ecma.Program Ecma.Scope

/-! Objects. -/

inductive AliasRelated (W : World) : Alias → Alias → Prop
  | slot (l : Link) (member : l ∈ W.links) (state : l.state = .lasting) :
      AliasRelated W (.slot l.frame l.slot) (.binding l.env l.name)
  | binding (e₁ e₂ : EnvironmentId) (name : String) (twins : W.Twins name e₁ e₂) :
      AliasRelated W (.binding e₁ name) (.binding e₂ name)

inductive KindRelated (W : World) : ObjectKind → ObjectKind → Prop
  | plain (k : ObjectKind) (plain : k.isPlain = true) : KindRelated W k k
  | script (t : Scope.Tree) (text : String) (code : Syntax.Code) (outer : ScopeId) (e₁ e₂ : EnvironmentId)
      (formed : t.WellFormed) (fitted : code.Scoped t outer) (chain : Chain W t outer e₁ e₂) :
      KindRelated W (.function (.script (compileCode ⟨t.analyze true, text, []⟩ code) e₁))
        (.function (.script (compileCode ⟨t.analyze false, text, []⟩ code) e₂))
  | arguments (mapped₁ mapped₂ : List (Nat × Alias))
      (related : List.Forall₂ (fun a b => a.1 = b.1 ∧ AliasRelated W a.2 b.2) mapped₁ mapped₂) :
      KindRelated W (.arguments mapped₁) (.arguments mapped₂)

theorem plain_mapped (k : ObjectKind) (plain : k.isPlain = true) : k.mapped = [] := by
  cases k with
  | arguments mapped => cases plain
  | _ => rfl

structure ObjectRelated (W : World) (o₁ o₂ : Object) : Prop where
  kind : KindRelated W o₁.kind o₂.kind
  prototype : o₁.prototype = o₂.prototype
  extensible : o₁.extensible = o₂.extensible
  properties : o₁.properties = o₂.properties

/-! Environments. -/

/-- The record without the bindings of some names. -/
def without (hidden : List String) : EnvironmentRecord → EnvironmentRecord
  | .declarative b => .declarative (Dictionary.without b hidden)
  | .object id receiver => .object id receiver

/-- Whether a record has the shape that is known of it. Names that are owed are still missing. -/
def Shape.Describes (shape : Shape) (owed : String → Prop) (record : EnvironmentRecord) : Prop :=
  match shape with
  | .object id receiver => record = .object id receiver
  | .bindings _ upper lower fixed => ∃ b, record = .declarative b ∧
      (∀ names, upper = some names → ∀ name, Dictionary.has b name = true → name ∈ names) ∧
      (∀ name ∈ lower, ¬ owed name → ∃ binding, Dictionary.find? b name = some binding ∧
        (binding.state = .lasting ∨ binding.state = .constant)) ∧
      (∀ name ∈ lower, owed name → Dictionary.find? b name = none) ∧
      Bindings.ConstantOnly (· ∈ fixed) b

structure EnvironmentRelated (owed : List (EnvironmentId × String)) (envs₁ envs₂ : Array Environment)
    (e₂ : EnvironmentId) (info : Info) (record : EnvironmentRecord) : Prop where
  second : envs₂[e₂]? = some ⟨record, info.around₂⟩
  first : ∀ e₁, info.twin = some e₁ → envs₁[e₁]? = some ⟨without info.shape.hidden record, info.around₁⟩
  less₁ : ∀ e₁ o, info.twin = some e₁ → info.around₁ = some o → o < e₁
  less₂ : ∀ o, info.around₂ = some o → o < e₂
  describes : info.shape.Describes (fun name => (e₂, name) ∈ owed) record

/-! Slots. -/

-- Where a link belongs, by the analysis of the scopes.
structure World.Placed (W : World) (kind : ScopeKind) (l : Link) : Prop where
  owner : ∃ t code, W.frames[l.frame]? = some (t, code) ∧ t.WellFormed ∧ (t.scope l.scope).kind = kind ∧
    (t.scope l.scope).code = code ∧ ((t.analyze true).scope l.scope).locals.lookup l.name = some l.slot
  env : ∃ info, W.Has l.env info ∧ l.name ∈ info.shape.hidden ∧ l.name ∈ info.shape.lower
  state : l.state = .lasting ∨ l.state = .constant

/-- The slot has the value of the binding, which has the state that is known of it. -/
def LinkRelated (owed : List (EnvironmentId × String)) (h₁ h₂ : Heap) (l : Link) : Prop :=
  h₁.slot l.frame l.slot = h₂.readAlias (.binding l.env l.name) ∧
    ((l.env, l.name) ∉ owed → ∃ binding, h₂.binding? l.env l.name = some binding ∧ binding.state = l.state)

/-! Parameters. -/

/-- Elements of arguments objects stand for bindings that are there for good, each for one of its own. They are
those of calls that have bound their arguments object. -/
structure Tethered (owed : List (EnvironmentId × String)) (h : Heap) : Prop where
  lasting : ∀ id i a, h.alias? id (.index i) = some a → ∃ e name binding, a = .binding e name ∧
    h.binding? e name = some binding ∧ binding.state = .lasting ∧ (e, "arguments") ∉ owed
  own : ∀ id id' i i' a, h.alias? id (.index i) = some a → h.alias? id' (.index i') = some a → id = id' ∧ i = i'

/-- The heaps of two runs. `live` are the links of the catch clauses that are running; the names in
`owed` are still to be bound. -/
structure HeapRelated (W : World) (live : List Link) (owed : List (EnvironmentId × String))
    (h₁ h₂ : Heap) : Prop where
  objects : h₁.objects.size = h₂.objects.size
  object : ∀ id, ObjectRelated W (h₁.object id) (h₂.object id)
  frames₁ : h₁.frames.size = W.frames.length
  frames₂ : h₂.frames.size = W.frames.length
  frame : ∀ (f : Nat) t code, W.frames[f]? = some (t, code) → ∃ slots, h₁.frames[f]? = some slots ∧
    slots.size = ((t.analyze true).code code).slots
  environments : h₂.environments.size = W.infos.length
  environment : ∀ e₂ info, W.Has e₂ info → ∃ record,
    EnvironmentRelated owed h₁.environments h₂.environments e₂ info record
  apart : ∀ e₁ e₂ f₂ info other, W.Has e₂ info → W.Has f₂ other → info.twin = some e₁ →
    other.twin = some e₁ → e₂ = f₂
  link : ∀ l ∈ W.links ++ live, LinkRelated owed h₁ h₂ l
  placed : ∀ l ∈ W.links, W.Placed .function l
  placed_live : ∀ l ∈ live, W.Placed .handler l
  slots : ∀ l ∈ W.links ++ live, ∀ k ∈ W.links ++ live, l.frame = k.frame → l.slot = k.slot → l = k
  names : ∀ l ∈ W.links ++ live, ∀ k ∈ W.links ++ live, l.env = k.env → l.name = k.name → l = k
  tethered : Tethered owed h₂
  globals : Open W Intrinsic.globalEnvironment Intrinsic.globalEnvironment
  global : W.Global
  home : h₂.kind Intrinsic.global = .ordinary ∧ Intrinsic.global < h₂.objects.size

-- No element comes to stand for a binding, and no binding goes.
theorem tethered_kept (owed left : List (EnvironmentId × String)) (h k : Heap) (tethered : Tethered owed h)
    (fewer : ∀ id i a, k.alias? id (.index i) = some a → h.alias? id (.index i) = some a)
    (kept : ∀ e name binding, h.binding? e name = some binding → binding.state = .lasting →
      ∃ after, k.binding? e name = some after ∧ after.state = .lasting)
    (due : ∀ e, (e, "arguments") ∈ left → (e, "arguments") ∈ owed ∨ h.environments.size ≤ e) : Tethered left k := by
  refine ⟨fun id i a mapped => ?_, fun id id' i i' a first second => ?_⟩
  · obtain ⟨e, name, binding, rfl, found, state, paid⟩ := tethered.lasting id i a (fewer id i a mapped)
    obtain ⟨after, found', state'⟩ := kept e name binding found state
    refine ⟨e, name, after, rfl, found', state', fun still => ?_⟩
    rcases due e still with before | new
    · exact paid before
    · exact absurd (Heap.binding_known h e name binding found) (Nat.not_lt.mpr new)
  · exact tethered.own id id' i i' a (fewer id i a first) (fewer id' i' a second)

/-! Growth. -/

section

variable (W V : World) (below : W.Below V)
include below

theorem alias_grown (a₁ a₂ : Alias) (related : AliasRelated W a₁ a₂) : AliasRelated V a₁ a₂ := by
  cases related with
  | slot l member state => exact .slot l (below.links l member) state
  | binding e₁ e₂ name twins => exact .binding e₁ e₂ name (twins_grown W V below _ _ _ twins)

theorem kind_grown (k₁ k₂ : ObjectKind) (related : KindRelated W k₁ k₂) : KindRelated V k₁ k₂ := by
  cases related with
  | plain _ plain => exact .plain _ plain
  | script t text code outer e₁ e₂ formed fitted chain =>
    exact .script t text code outer e₁ e₂ formed fitted (chain_grown W V below _ _ _ _ chain)
  | arguments mapped₁ mapped₂ related =>
    exact .arguments _ _ (related.imp fun a b both => ⟨both.1, alias_grown W V below _ _ both.2⟩)

theorem object_grown (o₁ o₂ : Object) (related : ObjectRelated W o₁ o₂) : ObjectRelated V o₁ o₂ := by
  exact { related with kind := kind_grown W V below _ _ related.kind }

theorem placed_grown (kind : ScopeKind) (l : Link) (placed : W.Placed kind l) : V.Placed kind l := by
  obtain ⟨t, code, frame, rest⟩ := placed.owner
  obtain ⟨info, found, hidden⟩ := placed.env
  exact ⟨⟨t, code, below.frames _ _ frame, rest⟩, ⟨info, below.infos _ _ found, hidden⟩, placed.state⟩

end

/-! Related heaps look the same. -/

theorem kind_face (W : World) (k₁ k₂ : ObjectKind) (related : KindRelated W k₁ k₂) : k₁.face = k₂.face := by
  cases related with
  | plain _ plain => rfl
  | script t text code outer e₁ e₂ formed fitted chain =>
    obtain ⟨header, functions, body⟩ := code
    rw [compileCode, compileCode]
    rfl
  | arguments mapped₁ mapped₂ related =>
    rw [ObjectKind.face, ObjectKind.face]
    congr 1
    induction related with
    | nil => rfl
    | cons both _ hyp => rw [List.map_cons, List.map_cons, hyp, both.1]

section

variable (W : World) (live : List Link) (owed : List (EnvironmentId × String)) (h₁ h₂ : Heap)
  (related : HeapRelated W live owed h₁ h₂)
include related

-- The bindings that a name has in environments that belong together.
theorem twins_bindings (name : String) (e₁ e₂ : EnvironmentId) (twins : W.Twins name e₁ e₂) :
    (∃ id receiver, (h₁.environment e₁).record = .object id receiver ∧
        (h₂.environment e₂).record = .object id receiver) ∨
      ∃ b₁ b₂, (h₁.environment e₁).record = .declarative b₁ ∧
        (h₂.environment e₂).record = .declarative b₂ ∧
        Dictionary.find? b₁ name = Dictionary.find? b₂ name := by
  obtain ⟨info, found, twin, shown⟩ := twins
  obtain ⟨record, environment⟩ := related.environment e₂ info found
  rw [Heap.environment_of h₁ e₁ _ (environment.first e₁ twin), Heap.environment_of h₂ e₂ _ environment.second]
  cases record with
  | object id receiver => exact Or.inl ⟨id, receiver, rfl, rfl⟩
  | declarative b =>
    refine Or.inr ⟨_, b, rfl, rfl, ?_⟩
    rw [Dictionary.find_without, if_neg shown]

theorem alias_read (a₁ a₂ : Alias) (alike : AliasRelated W a₁ a₂) : h₁.readAlias a₁ = h₂.readAlias a₂ := by
  cases alike with
  | slot l member state => exact (related.link l (List.mem_append_left _ member)).1
  | binding e₁ e₂ name twins =>
    rw [Heap.readAlias, Heap.readAlias, Heap.bindings?, Heap.bindings?]
    rcases twins_bindings W live owed h₁ h₂ related name e₁ e₂ twins with
      ⟨id, receiver, first, second⟩ | ⟨b₁, b₂, first, second, same⟩
    · rw [first, second]
    · rw [first, second]
      change ((Dictionary.find? b₁ name).map Binding.value).getD _ = ((Dictionary.find? b₂ name).map _).getD _
      rw [same]

omit related in
theorem mapped_lookup (mapped₁ mapped₂ : List (Nat × Alias)) (i : Nat)
    (pairs : List.Forall₂ (fun a b => a.1 = b.1 ∧ AliasRelated W a.2 b.2) mapped₁ mapped₂) :
    (mapped₁.lookup i = none ∧ mapped₂.lookup i = none) ∨
      ∃ a₁ a₂, mapped₁.lookup i = some a₁ ∧ mapped₂.lookup i = some a₂ ∧ AliasRelated W a₁ a₂ := by
  induction pairs with
  | nil => exact Or.inl ⟨rfl, rfl⟩
  | @cons a b rest₁ rest₂ both _ hyp =>
    obtain ⟨index, a₁⟩ := a
    obtain ⟨index', a₂⟩ := b
    obtain ⟨same, alike⟩ := both
    dsimp only at same alike
    subst same
    rw [List.lookup_cons, List.lookup_cons]
    cases i == index with
    | true => exact Or.inr ⟨a₁, a₂, rfl, rfl, alike⟩
    | false => exact hyp

-- The parameters that a key stands for belong together.
theorem alias_related (id : ObjectId) (key : PropertyKey) :
    (h₁.alias? id key = none ∧ h₂.alias? id key = none) ∨
      ∃ a₁ a₂, h₁.alias? id key = some a₁ ∧ h₂.alias? id key = some a₂ ∧ AliasRelated W a₁ a₂ := by
  have kinds : KindRelated W (h₁.kind id) (h₂.kind id) := (related.object id).kind
  unfold Heap.alias?
  generalize h₁.kind id = k₁ at kinds
  generalize h₂.kind id = k₂ at kinds
  cases kinds with
  | plain _ plain =>
    left
    cases k₁ with
    | arguments mapped => cases plain
    | _ => exact ⟨rfl, rfl⟩
  | script t text code outer e₁ e₂ formed fitted chain => exact Or.inl ⟨rfl, rfl⟩
  | arguments mapped₁ mapped₂ pairs =>
    cases key with
    | index i => exact mapped_lookup W mapped₁ mapped₂ i pairs
    | name s => exact Or.inl ⟨rfl, rfl⟩

theorem heaps_same_view : h₁.SameView h₂ where
  size := related.objects
  kind := fun id => kind_face W _ _ (related.object id).kind
  prototype := fun id => (related.object id).prototype
  extensible := fun id => (related.object id).extensible
  properties := fun id => (related.object id).properties
  aliased := by
    intro id key
    rw [Heap.aliased?, Heap.aliased?]
    rcases alias_related W live owed h₁ h₂ related id key with ⟨first, second⟩ | ⟨a₁, a₂, first, second, alike⟩
    · rw [first, second]
      rfl
    · rw [first, second]
      exact congrArg some (alias_read W live owed h₁ h₂ related a₁ a₂ alike)

end

end Ecma.Storage
