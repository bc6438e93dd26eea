import Ecma.Proofs.Storage.Operation
import Ecma.Scope.Resolution

set_option autoImplicit false

/-!
Searching names in related heaps. The environments of two runs differ only by scopes that have none in
the first run, and all names bound there live in slots; so a name that has no slot is found in
environments that belong together, or nowhere.
-/

namespace Ecma

open Ecma.Program Ecma.Scope

/-- The environment so many links outward, if there are so many. -/
def Heap.skip? (h : Heap) : Nat → EnvironmentId → Option EnvironmentId
  | 0, env => some env
  | links + 1, env => (h.outer? env).bind (h.skip? links)

theorem Heap.skip_of (h : Heap) (links : Nat) (e f : EnvironmentId) (found : h.skip? links e = some f) :
    h.skip links e = f := by
  induction links generalizing e with
  | zero => exact Option.some.inj found
  | succ links hyp =>
    rw [Heap.skip?] at found
    rw [Heap.skip]
    cases outer : h.outer? e with
    | none =>
      rw [outer] at found
      cases found
    | some o =>
      rw [outer] at found
      exact hyp o found

namespace Storage

section

variable (W : World) (live : List Link) (owed : List (EnvironmentId × String)) (h₁ h₂ : Heap)
  (related : HeapRelated W live owed h₁ h₂)
include related

/-! One environment. -/

theorem outer_second (e₂ : EnvironmentId) (info : Info) (found : W.Has e₂ info) :
    h₂.outer? e₂ = info.around₂ := by
  obtain ⟨record, environment⟩ := related.environment e₂ info found
  have second := environment.second
  cases around : info.around₂ with
  | none =>
    rw [around] at second
    exact Heap.outer_none h₂ e₂ record second
  | some o =>
    rw [around] at second
    exact Heap.outer_of h₂ e₂ o record second (environment.less₂ o around)

theorem outer_first (e₁ e₂ : EnvironmentId) (info : Info) (found : W.Has e₂ info)
    (twin : info.twin = some e₁) : h₁.outer? e₁ = info.around₁ := by
  obtain ⟨record, environment⟩ := related.environment e₂ info found
  have first := environment.first e₁ twin
  cases around : info.around₁ with
  | none =>
    rw [around] at first
    exact Heap.outer_none h₁ e₁ _ first
  | some o =>
    rw [around] at first
    exact Heap.outer_of h₁ e₁ o _ first (environment.less₁ e₁ o twin around)

theorem twins_have (name : String) (e₁ e₂ : EnvironmentId) (twins : W.Twins name e₁ e₂) :
    h₁.hasBinding e₁ name = h₂.hasBinding e₂ name := by
  have same := heaps_same_view W live owed h₁ h₂ related
  rw [Heap.hasBinding, Heap.hasBinding]
  rcases twins_bindings W live owed h₁ h₂ related name e₁ e₂ twins with
    ⟨id, receiver, first, second⟩ | ⟨b₁, b₂, first, second, found⟩
  · rw [first, second]
    exact Heap.has_property_same h₁ h₂ same id _
  · rw [first, second]
    change (Dictionary.find? b₁ name).isSome = (Dictionary.find? b₂ name).isSome
    rw [found]

-- A name beyond what an environment can ever bind is not there.
theorem beyond_upper (e₂ : EnvironmentId) (info : Info) (names : List String) (name : String)
    (found : W.Has e₂ info) (upper : info.shape.upper = some names) (absent : name ∉ names) :
    h₂.hasBinding e₂ name = false ∧ ∀ e₁, info.twin = some e₁ → h₁.hasBinding e₁ name = false := by
  obtain ⟨record, environment⟩ := related.environment e₂ info found
  have describes := environment.describes
  generalize shaped : info.shape = shape at describes upper
  cases shape with
  | object id receiver => cases upper
  | bindings hidden upper' lower fixed =>
    obtain ⟨b, same, above, _⟩ := describes
    subst same
    have none : Dictionary.has b name = false := by
      cases has : Dictionary.has b name with
      | false => rfl
      | true => exact absurd (above names upper name has) absent
    refine ⟨?_, fun e₁ twin => ?_⟩
    · rw [Heap.hasBinding, Heap.environment_of h₂ e₂ _ environment.second]
      exact none
    · rw [Heap.hasBinding, Heap.environment_of h₁ e₁ _ (environment.first e₁ twin)]
      change (Dictionary.find? (Dictionary.without b _) name).isSome = false
      rw [Dictionary.find_without]
      split
      · rfl
      · exact none

-- A name that an environment has for good is there.
theorem within_lower (e₂ : EnvironmentId) (info : Info) (name : String) (found : W.Has e₂ info)
    (lower : name ∈ info.shape.lower) (due : (e₂, name) ∉ owed) :
    ∃ b binding, h₂.environments[e₂]? = some ⟨.declarative b, info.around₂⟩ ∧
      Dictionary.find? b name = some binding ∧ (binding.state = .lasting ∨ binding.state = .constant) := by
  obtain ⟨record, environment⟩ := related.environment e₂ info found
  have describes := environment.describes
  generalize shaped : info.shape = shape at describes lower
  cases shape with
  | object id receiver => cases lower
  | bindings hidden upper lower' fixed =>
    obtain ⟨b, same, _, below, _⟩ := describes
    subst same
    obtain ⟨binding, there, state⟩ := below name lower due
    exact ⟨b, binding, environment.second, there, state⟩

/-! Searches. -/

/-- What two searches for a name find. -/
def Found (W : World) (name : String) : Option EnvironmentId → Option EnvironmentId → Prop
  | none, none => True
  | some e₁, some e₂ => W.Twins name e₁ e₂
  | _, _ => False

theorem twins_search (name : String) (e₁ e₂ : EnvironmentId) (info : Info) (found : W.Has e₂ info)
    (twin : info.twin = some e₁) (shown : name ∉ info.shape.hidden)
    (outward : h₂.hasBinding e₂ name = false →
      Found W name (info.around₁.bind fun o => h₁.findBinding o name)
        (info.around₂.bind fun o => h₂.findBinding o name)) :
    Found W name (h₁.findBinding e₁ name) (h₂.findBinding e₂ name) := by
  have twins : W.Twins name e₁ e₂ := ⟨info, found, twin, shown⟩
  rw [Heap.find_binding_step, Heap.find_binding_step, twins_have W live owed h₁ h₂ related name e₁ e₂ twins,
    outer_first W live owed h₁ h₂ related e₁ e₂ info found twin,
    outer_second W live owed h₁ h₂ related e₂ info found]
  cases has : h₂.hasBinding e₂ name with
  | true => exact twins
  | false => exact outward has

theorem open_search (name : String) (e₁ e₂ : EnvironmentId) (plain : Open W e₁ e₂) :
    Found W name (h₁.findBinding e₁ name) (h₂.findBinding e₂ name) := by
  induction plain with
  | outermost e₁ e₂ info found twin hidden _ none₁ none₂ =>
    refine twins_search W live owed h₁ h₂ related name e₁ e₂ info found twin ?_ fun _ => ?_
    · rw [hidden]
      exact List.not_mem_nil
    · rw [none₁, none₂]
      trivial
  | inside e₁ e₂ f₁ f₂ info found twin hidden _ around₁ around₂ _ hyp =>
    refine twins_search W live owed h₁ h₂ related name e₁ e₂ info found twin ?_ fun _ => ?_
    · rw [hidden]
      exact List.not_mem_nil
    · rw [around₁, around₂]
      exact hyp

end

end Storage

end Ecma

/-!
The way outward through the scopes of a text, and through the environments that both runs have for them.
-/

namespace Ecma.Storage

open Ecma.Program Ecma.Scope

theorem lookup_none (locals : List (String × Nat)) (name : String) (free : locals.lookup name = none) :
    name ∉ locals.map Prod.fst := by
  intro member
  obtain ⟨entry, inside, same⟩ := List.mem_map.mp member
  have distinct := List.lookup_eq_none_iff.mp free entry inside
  rw [same, bne_self_eq_false] at distinct
  cases distinct

theorem lookup_some (locals : List (String × Nat)) (name : String) (slot : Nat)
    (found : locals.lookup name = some slot) : name ∈ locals.map Prod.fst := by
  cases member : decide (name ∈ locals.map Prod.fst) with
  | true => exact of_decide_eq_true member
  | false =>
    have absent := of_decide_eq_false member
    have none : locals.lookup name = none := by
      refine List.lookup_eq_none_iff.mpr fun entry inside => ?_
      refine bne_iff_ne.mpr fun same => absent ?_
      rw [same]
      exact List.mem_map_of_mem inside
    rw [none] at found
    cases found

section

variable (t : Scope.Tree) (formed : t.WellFormed)
include formed

theorem analysed_defs (s : ScopeId) : ((t.analyze true).scope s).defs = (t.scope s).defs := by
  exact ((Tree.analyze_analysed t formed true).alike s).defs.symm

theorem analysed_outer (s : ScopeId) : ((t.analyze true).scope s).outer = (t.scope s).outer := by
  exact ((Tree.analyze_analysed t formed true).alike s).outer.symm

theorem analysed_kind (s : ScopeId) : ((t.analyze true).scope s).kind = (t.scope s).kind := by
  exact ((Tree.analyze_analysed t formed true).alike s).kind.symm

theorem analysed_code (s : ScopeId) : ((t.analyze true).scope s).code = (t.scope s).code := by
  exact ((Tree.analyze_analysed t formed true).alike s).code.symm

-- Only closed scopes have slots, and nothing else binds names in them.
theorem may_collapse_closed (s o : ScopeId) (outer : (t.scope s).outer = some o)
    (may : ((t.analyze true).scope s).mayCollapse
      ((t.analyze true).code ((t.analyze true).scope s).code) = true) :
    ((t.analyze true).scope s).isClosed = true := by
  have inner : (t.scope s).kind.isRoot = false := by
    cases root : (t.scope s).kind.isRoot with
    | false => rfl
    | true =>
      rw [(formed.root s).mp root] at outer
      cases outer
  rw [← analysed_kind t formed] at inner
  rw [Scope.mayCollapse] at may
  rw [Scope.isClosed]
  simp only [Bool.and_eq_true] at may
  obtain ⟨⟨⟨direct, _⟩, _⟩, object⟩ := may
  rw [direct, Bool.true_and]
  cases kind : ((t.analyze true).scope s).kind with
  | withObject =>
    rw [kind] at object
    cases object
  | global =>
    rw [kind] at inner
    cases inner
  | eval =>
    rw [kind] at inner
    cases inner
  | _ => rfl

theorem collapsed_closed (s o : ScopeId) (outer : (t.scope s).outer = some o)
    (collapsed : ((t.analyze true).scope s).collapsed = true) :
    ((t.analyze true).scope s).isClosed = true := by
  have slotted := (Tree.analyze_analysed t formed true).slotted
  exact may_collapse_closed t formed s o outer (slotted.collapsed s collapsed).1

-- A scope that is open to other names has an environment with all its bindings.
theorem open_scope (s o : ScopeId) (outer : (t.scope s).outer = some o)
    (opened : ((t.analyze true).scope s).isClosed = false) :
    ((t.analyze true).scope s).collapsed = false ∧ ((t.analyze true).scope s).locals = [] := by
  have slotted := (Tree.analyze_analysed t formed true).slotted
  constructor
  · cases collapsed : ((t.analyze true).scope s).collapsed with
    | false => rfl
    | true =>
      rw [collapsed_closed t formed s o outer collapsed] at opened
      cases opened
  · cases locals : ((t.analyze true).scope s).locals with
    | nil => rfl
    | cons entry rest =>
      obtain ⟨name, slot⟩ := entry
      have found : ((t.analyze true).scope s).locals.lookup name = some slot := by
        rw [locals, List.lookup_cons, beq_self_eq_true]
      rw [may_collapse_closed t formed s o outer (slotted.found s name slot found).2.2.1] at opened
      cases opened

theorem direct_eval_outward (s o : ScopeId) (outer : (t.scope s).outer = some o)
    (direct : ((t.analyze true).scope s).directEval = true) :
    ((t.analyze true).scope o).directEval = true := by
  refine ((Tree.analyze_analysed t formed true).passed s o ?_).directEval direct
  rw [analysed_outer t formed]
  exact outer

/-- Code that may be given to `eval` sees environments with all bindings. -/
theorem direct_eval_open (W : World) (s : ScopeId) (e₁ e₂ : EnvironmentId) (chain : Chain W t s e₁ e₂)
    (direct : ((t.analyze true).scope s).directEval = true) : Open W e₁ e₂ := by
  have opened (s : ScopeId) (direct : ((t.analyze true).scope s).directEval = true) :
      ((t.analyze true).scope s).isClosed = false := by
    rw [Scope.isClosed, direct]
    rfl
  induction chain with
  | root s e₁ e₂ kind global rest => exact rest
  | bare s o e₁ e₂ f₂ info outer collapsed found fits around₂ rest hyp =>
    have separate := (open_scope t formed s o outer (opened s direct)).1
    rw [collapsed] at separate
    cases separate
  | full s o e₁ e₂ f₁ f₂ info outer collapsed found fits twin around₁ around₂ rest hyp =>
    refine .inside e₁ e₂ f₁ f₂ info found twin ?_ ?_ around₁ around₂
      (hyp (direct_eval_outward t formed s o outer direct))
    · rw [fits.hidden, (open_scope t formed s o outer (opened s direct)).2]
      rfl
    · rw [fits.upper, opened s direct]
      rfl

end

section

variable (W : World) (t : Scope.Tree)

theorem argued_outward (s o : ScopeId) (e₂ f₂ : EnvironmentId) (info : Info)
    (outer : (t.scope s).outer = some o) (found : W.Has e₂ info) (fits : Fits t s info.shape)
    (around₂ : info.around₂ = some f₂) (unbound : "arguments" ∉ (t.scope s).defs)
    (argued : Argued W t s e₂) : Argued W t o f₂ := by
  cases argued with
  | root _ _ none =>
    rw [outer] at none
    cases none
  | here _ _ _ kind _ _ => exact absurd (fits.arguments kind) unbound
  | outward _ o' _ f₂' info' outer' _ found' around' rest =>
    have scopes : o = o' := Option.some.inj (outer.symm.trans outer')
    have infos : info = info' := Option.some.inj (found.symm.trans found')
    subst scopes
    subst infos
    have envs : f₂ = f₂' := Option.some.inj (around₂.symm.trans around')
    subst envs
    exact rest

-- What a scope binds, its environment has.
theorem bound_lower (s o : ScopeId) (e₂ : EnvironmentId) (info : Info) (name : String)
    (outer : (t.scope s).outer = some o) (found : W.Has e₂ info) (fits : Fits t s info.shape)
    (member : name ∈ (t.scope s).defs) (argued : name = "arguments" → Argued W t s e₂) :
    name ∈ info.shape.lower := by
  rcases fits.lower name member with ⟨kind, same⟩ | lower
  · subst same
    cases argued rfl with
    | root _ _ none =>
      rw [outer] at none
      cases none
    | here _ _ info' _ found' bound =>
      have infos : info = info' := Option.some.inj (found.symm.trans found')
      subst infos
      exact bound
    | outward _ _ _ _ _ _ other _ _ _ => exact absurd kind other
  · exact lower

end

section

variable (W : World) (live : List Link) (h₁ h₂ : Heap) (related : HeapRelated W live [] h₁ h₂)
  (t : Scope.Tree) (formed : t.WellFormed)
include related formed

omit formed in
theorem lower_bound (s o : ScopeId) (e₂ : EnvironmentId) (info : Info) (name : String)
    (outer : (t.scope s).outer = some o) (found : W.Has e₂ info) (fits : Fits t s info.shape)
    (member : name ∈ (t.scope s).defs) (argued : name = "arguments" → Argued W t s e₂) :
    h₂.hasBinding e₂ name = true := by
  have lower := bound_lower W t s o e₂ info name outer found fits member argued
  obtain ⟨b, binding, second, there, _⟩ :=
    within_lower W live [] h₁ h₂ related e₂ info name found lower List.not_mem_nil
  rw [Heap.hasBinding, Heap.environment_of h₂ e₂ _ second]
  change (Dictionary.find? b name).isSome = true
  rw [there]
  rfl

omit formed in
/-- A closed scope that does not bind a name is passed by a search for it. -/
theorem closed_passed (s : ScopeId) (e₂ : EnvironmentId) (info : Info) (name : String)
    (found : W.Has e₂ info) (fits : Fits t s info.shape)
    (closed : ((t.analyze true).scope s).isClosed = true) (unbound : name ∉ (t.scope s).defs) :
    h₂.findBinding e₂ name = info.around₂.bind (fun o => h₂.findBinding o name) ∧
      ∀ e₁, info.twin = some e₁ →
        h₁.findBinding e₁ name = info.around₁.bind fun o => h₁.findBinding o name := by
  have upper : info.shape.upper = some (t.scope s).defs := by
    rw [fits.upper, if_pos closed]
  obtain ⟨second, first⟩ := beyond_upper W live [] h₁ h₂ related e₂ info _ name found upper unbound
  refine ⟨?_, fun e₁ twin => ?_⟩
  · rw [Heap.find_binding_step, second, outer_second W live [] h₁ h₂ related e₂ info found]
    rfl
  · rw [Heap.find_binding_step, first e₁ twin, outer_first W live [] h₁ h₂ related e₁ e₂ info found twin]
    rfl

/-- A name that has no slot on the way outward is found in environments that belong together. -/
theorem chain_search (name : String) (s : ScopeId) (e₁ e₂ : EnvironmentId) (chain : Chain W t s e₁ e₂)
    (unslotted : Tree.Unslotted (t.analyze true) name s)
    (argued : name = "arguments" → Argued W t s e₂) :
    Found W name (h₁.findBinding e₁ name) (h₂.findBinding e₂ name) := by
  have further (s o : ScopeId) (outer : (t.scope s).outer = some o) (unbound : name ∉ (t.scope s).defs)
      (unslotted : Tree.Unslotted (t.analyze true) name s) : Tree.Unslotted (t.analyze true) name o := by
    cases unslotted with
    | bound _ _ member =>
      rw [analysed_defs t formed] at member
      exact absurd member unbound
    | passed _ _ rest =>
      refine rest o ?_
      rw [analysed_outer t formed]
      exact outer
  have unslotted_free (s : ScopeId) (unslotted : Tree.Unslotted (t.analyze true) name s) :
      ((t.analyze true).scope s).locals.lookup name = none := by
    cases unslotted with
    | bound _ free _ => exact free
    | passed _ free _ => exact free
  induction chain with
  | root s e₁ e₂ kind global rest => exact open_search W live [] h₁ h₂ related name e₁ e₂ rest
  | bare s o e₁ e₂ f₂ info outer collapsed found fits around₂ rest hyp =>
    have slotted := (Tree.analyze_analysed t formed true).slotted
    have unbound : name ∉ (t.scope s).defs := by
      intro member
      rw [← analysed_defs t formed] at member
      have some := (slotted.collapsed s collapsed).2 name member
      rw [unslotted_free s unslotted] at some
      cases some
    have closed := collapsed_closed t formed s o outer collapsed
    have passed := (closed_passed W live h₁ h₂ related t s e₂ info name found fits closed unbound).1
    rw [passed, around₂]
    refine hyp (further s o outer unbound unslotted) fun same => ?_
    subst same
    exact argued_outward W t s o e₂ f₂ info outer found fits around₂ unbound (argued rfl)
  | full s o e₁ e₂ f₁ f₂ info outer collapsed found fits twin around₁ around₂ rest hyp =>
    have shown : name ∉ info.shape.hidden := by
      rw [fits.hidden]
      exact lookup_none _ name (unslotted_free s unslotted)
    refine twins_search W live [] h₁ h₂ related name e₁ e₂ info found twin shown fun absent => ?_
    have unbound : name ∉ (t.scope s).defs := by
      intro member
      rw [lower_bound W live h₁ h₂ related t s o e₂ info name outer found fits member argued] at absent
      cases absent
    rw [around₁, around₂]
    refine hyp (further s o outer unbound unslotted) fun same => ?_
    subst same
    exact argued_outward W t s o e₂ f₂ info outer found fits around₂ unbound (argued rfl)

/-- Along closed scopes that do not bind a name, both runs pass as many environments as they have for
them, and nothing is found there. -/
theorem path_chain (name : String) (s u : ScopeId) (few all : Nat)
    (path : Tree.Path (t.analyze true) name s few all u) (e₁ e₂ : EnvironmentId) (chain : Chain W t s e₁ e₂)
    (argued : name = "arguments" → Argued W t s e₂) :
    ∃ f₁ f₂, h₁.skip? few e₁ = some f₁ ∧ h₂.skip? all e₂ = some f₂ ∧ Chain W t u f₁ f₂ ∧
      h₁.findBinding e₁ name = h₁.findBinding f₁ name ∧ h₂.findBinding e₂ name = h₂.findBinding f₂ name ∧
      (name = "arguments" → Argued W t u f₂) := by
  induction path generalizing e₁ e₂ with
  | here s => exact ⟨e₁, e₂, rfl, rfl, chain, rfl, rfl, argued⟩
  | further s o u few all closed unbound outer rest hyp =>
    rw [analysed_outer t formed] at outer
    rw [analysed_defs t formed] at unbound
    cases chain with
    | root _ _ _ kind _ _ =>
      rw [(formed.root s).mp kind] at outer
      cases outer
    | bare _ o' _ _ f₂ info outer' collapsed found fits around₂ rest' =>
      have scopes : o = o' := Option.some.inj (outer.symm.trans outer')
      subst scopes
      have passed := closed_passed W live h₁ h₂ related t s e₂ info name found fits closed unbound
      have further : name = "arguments" → Argued W t o f₂ := by
        intro same
        subst same
        exact argued_outward W t s o e₂ f₂ info outer found fits around₂ unbound (argued rfl)
      obtain ⟨g₁, g₂, skip₁, skip₂, chain', find₁, find₂, argued'⟩ := hyp e₁ f₂ rest' further
      refine ⟨g₁, g₂, ?_, ?_, chain', find₁, ?_, argued'⟩
      · rw [if_pos collapsed]
        exact skip₁
      · rw [Heap.skip?, outer_second W live [] h₁ h₂ related e₂ info found, around₂]
        exact skip₂
      · rw [passed.1, around₂]
        exact find₂
    | full _ o' _ _ f₁ f₂ info outer' collapsed found fits twin around₁ around₂ rest' =>
      have scopes : o = o' := Option.some.inj (outer.symm.trans outer')
      subst scopes
      have passed := closed_passed W live h₁ h₂ related t s e₂ info name found fits closed unbound
      have further : name = "arguments" → Argued W t o f₂ := by
        intro same
        subst same
        exact argued_outward W t s o e₂ f₂ info outer found fits around₂ unbound (argued rfl)
      obtain ⟨g₁, g₂, skip₁, skip₂, chain', find₁, find₂, argued'⟩ := hyp f₁ f₂ rest' further
      refine ⟨g₁, g₂, ?_, ?_, chain', ?_, ?_, argued'⟩
      · rw [collapsed, if_neg Bool.false_ne_true, Heap.skip?,
          outer_first W live [] h₁ h₂ related e₁ e₂ info found twin, around₁]
        exact skip₁
      · rw [Heap.skip?, outer_second W live [] h₁ h₂ related e₂ info found, around₂]
        exact skip₂
      · rw [passed.2 e₁ twin, around₁]
        exact find₁
      · rw [passed.1, around₂]
        exact find₂

end

end Ecma.Storage
