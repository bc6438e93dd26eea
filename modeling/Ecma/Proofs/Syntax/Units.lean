import Ecma.Proofs.Syntax.Building

set_option autoImplicit false

/-!
Building units of code. A function opens a scope and a unit of its own; when its body is built its names
are bound, and the unit around it goes on as it was.
-/

namespace Ecma.Syntax

open Ecma.Grammar Ecma.Scope Build

theorem checked_name_is (node : Node Rule) (strict : Bool) (b after : Builder) (name : String)
    (ended : checkedName node strict b = .ok name after) : decodeIdentifier node.chars = .ok name := by
  obtain ⟨other, between, first, ended⟩ := build_bind _ _ b after name ended
  have same : other = name := by
    dsimp only at ended
    split at ended
    · obtain ⟨_, _, failed, _⟩ := build_bind _ _ between after name ended
      cases failed
    · cases ended
      rfl
  rw [same] at first
  cases decoded : decodeIdentifier node.chars with
  | ok value =>
    rw [decoded] at first
    cases first
    rfl
  | error cause =>
    rw [decoded] at first
    cases first

theorem binding_name_is (node : Node Rule) (strict : Bool) (b after : Builder) (name : String)
    (ended : bindingName node strict b = .ok name after) : decodeIdentifier node.chars = .ok name := by
  obtain ⟨other, between, first, ended⟩ := build_bind _ _ b after name ended
  have same : other = name := by
    dsimp only at ended
    split at ended
    · obtain ⟨_, _, failed, _⟩ := build_bind _ _ between after name ended
      cases failed
    · cases ended
      rfl
  rw [same] at first
  exact checked_name_is node strict b between name first

theorem yields_parameters (strict : Bool) (nodes : Nodes) (names : List String)
    (free : strict = true → "arguments" ∉ names) :
    Yields (fun _ names => strict = true → "arguments" ∉ names) (parameters strict nodes names) := by
  induction nodes generalizing names with
  | nil => exact yields_pure _ _ fun _ => free
  | cons node rest hyp =>
    rw [parameters]
    intro unfinished b a after sound below ended
    obtain ⟨name, between, first, ended⟩ := build_bind _ _ b after a ended
    obtain ⟨becomes, holds⟩ := yields_binding node strict unfinished b name between sound below first
    have other : strict = true → name ≠ "arguments" := by
      have future : between.Future unfinished between.scopes true :=
        ⟨.refl _ _, fun _ => rfl, fun _ => rfl⟩
      exact holds between.scopes true future
    have next := hyp (names ++ [name]) (fun isStrict member => by
      rcases List.mem_append.mp member with known | last
      · exact free isStrict known
      · exact other isStrict (List.mem_singleton.mp last).symm)
    have further : ∀ s ∈ unfinished, s < between.scopes.scopes.size := fun s member =>
      Nat.lt_of_lt_of_le (below s member) becomes.grows.tree.scopes
    dsimp only at ended
    split at ended
    · obtain ⟨_, _, failed, _⟩ := build_bind _ _ between after a ended
      cases failed
    · obtain ⟨rest, then'⟩ := next unfinished between a after becomes.sound further ended
      refine ⟨.trans _ _ _ _ becomes rest, fun tree arguments future => ?_⟩
      exact then' tree arguments future

theorem codes_scoped (tree : Scope.Tree) (outer : ScopeId) (codes : List Code)
    (all : ∀ code ∈ codes, code.Scoped tree outer) : codesScoped tree outer codes := by
  induction codes with
  | nil => trivial
  | cons code rest hyp =>
    exact ⟨all code List.mem_cons_self, hyp fun other member => all other (List.mem_cons_of_mem code member)⟩

/-- All names that a unit binds in its scope, besides those of parameters. -/
def Unfinished.names (c : Unfinished) (declareFunctions : Bool) : List String :=
  (if c.kind == .function then ["arguments"] else []) ++
    ((if declareFunctions then c.functions.filterMap fun f => f.header.name else []) ++ c.variables)

/-- The tree when the names of a unit are bound. -/
def Unfinished.bound (c : Unfinished) (declareFunctions : Bool) (t : Scope.Tree) : Scope.Tree :=
  let t := t.addDefs c.scope (c.names declareFunctions)
  if c.usesWith then t.markWith c.id else t

/-- The header of a finished unit. -/
def Unfinished.header (c : Unfinished) (name : Option String) (params : List String) (source : Text.Source)
    (span : Span) : Header :=
  { kind := c.kind, id := c.id, name := name, params := params, strict := c.strict
    «variables» := c.variables, scope := c.scope, directEval := c.directEval
    usesArguments := c.usesArguments, usesWith := c.usesWith, source := source, span := span }

theorem finish_is (c : Unfinished) (name : Option String) (params : List String) (body : List Statement)
    (span : Span) (declareFunctions : Bool) (b : Builder) :
    finish c name params body span declareFunctions b =
      .ok (.mk (c.header name params b.source span) c.functions body)
        { b with scopes := c.bound declareFunctions b.scopes } := by
  obtain ⟨_, kind, _, _, _, _, _, _, usesWith, _, _, _⟩ := c
  rw [Unfinished.bound, Unfinished.names, Tree.add_defs_append, Tree.add_defs_append]
  cases kind <;> cases declareFunctions <;> cases usesWith <;> rfl

section

variable (c : Unfinished) (declareFunctions : Bool) (t : Scope.Tree)

theorem bound_kept : t.Kept (c.bound declareFunctions t) (· = c.scope) := by
  refine .trans _ _ _ _ (Tree.add_defs_kept t c.scope (c.names declareFunctions) _ rfl) ?_
  rw [Unfinished.bound]
  cases c.usesWith with
  | false => exact .refl _ _
  | true => exact Tree.mark_with_kept _ _ _

theorem bound_shaped (inside : c.scope < t.scopes.size) (kind : (t.scope c.scope).kind ≠ .withObject)
    (shaped : t.Shaped) : (c.bound declareFunctions t).Shaped := by
  have named := Tree.add_defs_shaped t c.scope (c.names declareFunctions) inside kind shaped
  rw [Unfinished.bound]
  cases c.usesWith with
  | false => exact named
  | true => exact Tree.mark_with_shaped _ _ named

theorem bound_size : (c.bound declareFunctions t).scopes.size = t.scopes.size := by
  have named := Tree.add_defs_size t c.scope (c.names declareFunctions)
  rw [Unfinished.bound]
  cases c.usesWith <;> exact named

theorem bound_defs (inside : c.scope < t.scopes.size) :
    ((c.bound declareFunctions t).scope c.scope).defs =
      (c.names declareFunctions).foldl addName (t.scope c.scope).defs := by
  have named := congrArg Scope.defs (Tree.add_defs_scope t c.scope (c.names declareFunctions) inside)
  rw [Unfinished.bound]
  cases c.usesWith <;> exact named

theorem bound_marked (known : c.id < t.codes.size) (uses : c.usesWith = true) :
    ((c.bound declareFunctions t).code c.id).usesWith = true := by
  rw [Unfinished.bound, uses]
  refine Tree.mark_with_same _ _ ?_
  exact Nat.lt_of_lt_of_le known (Tree.add_defs_kept t c.scope _ (fun _ => True) trivial).codes

end

/-- The state in which the body of a function is built. -/
def Builder.entered (b : Builder) (outer : ScopeId) (params : List String) (strict : Bool) : Builder :=
  let opened := (b.scopes.newCode .function).1.newScope .function (some outer) b.scopes.codes.size
  { b with
    scopes := opened.1.addDefs b.scopes.scopes.size params
    scope := b.scopes.scopes.size
    code := { id := b.scopes.codes.size, kind := .function, strict := strict, scope := b.scopes.scopes.size } }

section

variable (b : Builder) (outer : ScopeId) (params : List String) (strict : Bool)

theorem entered_kept : b.scopes.Kept (b.entered outer params strict).scopes (· = b.scopes.scopes.size) := by
  refine .trans _ _ _ _ (Tree.new_code_kept b.scopes .function _) ?_
  refine .trans _ _ _ _ (Tree.new_scope_kept _ .function outer b.scopes.codes.size _) ?_
  exact Tree.add_defs_kept _ _ params _ rfl

theorem entered_size : (b.entered outer params strict).scopes.scopes.size = b.scopes.scopes.size + 1 := by
  exact (Tree.add_defs_size _ _ _).trans (Tree.new_scope_size _ _ _ _)

theorem entered_scope (inside : outer < b.scopes.scopes.size) :
    (b.entered outer params strict).scopes.scope b.scopes.scopes.size =
      { kind := .function, outer := some outer, code := b.scopes.codes.size
        defs := params.foldl addName [] } := by
  have opened := Tree.new_scope_inside (b.scopes.newCode .function).1 .function outer b.scopes.codes.size
  have same := Tree.new_scope_same (b.scopes.newCode .function).1 .function outer b.scopes.codes.size inside
  exact (Tree.add_defs_scope _ _ params opened).trans (by rw [same])

theorem entered_sound (inside : outer < b.scopes.scopes.size) (sound : b.Sound) :
    (b.entered outer params strict).Sound := by
  have found := entered_scope b outer params strict inside
  have size := entered_size b outer params strict
  have codes : b.scopes.codes.size < (b.scopes.newCode .function).1.codes.size := by
    rw [Tree.newCode, Array.size_push]
    exact Nat.lt_succ_self _
  have shaped : (b.entered outer params strict).scopes.Shaped := by
    have opened := Tree.new_scope_shaped (b.scopes.newCode .function).1 .function outer
      b.scopes.codes.size inside codes (fun _ => sound.shaped.code_known outer inside)
      (fun other => absurd rfl other) rfl (Tree.new_code_shaped _ _ sound.shaped)
    refine Tree.add_defs_shaped _ _ params (Tree.new_scope_inside _ _ _ _) ?_ opened
    have same := Tree.new_scope_same (b.scopes.newCode .function).1 .function outer b.scopes.codes.size inside
    change ((Tree.newScope _ _ _ _).1.scope (b.scopes.newCode .function).1.scopes.size).kind ≠ _
    rw [same]
    exact ScopeKind.noConfusion
  have known : b.scopes.scopes.size < (b.entered outer params strict).scopes.scopes.size := by
    rw [size]
    exact Nat.lt_succ_self _
  refine ⟨shaped, known, known, ?_, ?_, ?_, ?_⟩
  · exact congrArg Scope.code found
  · exact congrArg Scope.code found
  · exact fun _ member => absurd member List.not_mem_nil
  · exact fun _ _ member => absurd member List.not_mem_nil

end

-- How building a function goes: its body is built in a state of its own, of which the tree remains.
theorem function_code_is (outer : ScopeId) (name : Option (Node Rule)) (params : Nodes) (span : Span)
    (nodes : Nodes) (build : Build (List Statement)) (b after : Builder) (code : Code)
    (ended : functionCode outer name params span nodes build b = .ok code after) :
    ∃ (title : Option String) (b₁ b₂ inner : Builder) (names : List String) (body : List Statement),
      (name.mapM fun node => bindingName node (b.code.strict || hasUseStrict nodes)) b = .ok title b₁ ∧
      parameters (b.code.strict || hasUseStrict nodes) params [] b₁ = .ok names b₂ ∧
      build (b₂.entered outer names (b.code.strict || hasUseStrict nodes)) = .ok body inner ∧
      code = .mk (inner.code.header title names inner.source span) inner.code.functions body ∧
      after = { inner with
        scopes := inner.code.bound true inner.scopes, code := b₂.code, scope := b₂.scope } := by
  obtain ⟨strict, b₀, zeroth, ended⟩ := build_bind _ _ b after code ended
  cases zeroth
  obtain ⟨title, b₁, first, ended⟩ := build_bind _ _ _ after code ended
  obtain ⟨names, b₂, second, ended⟩ := build_bind _ _ _ after code ended
  obtain ⟨body, inner, third, ended⟩ := build_bind build _
    (b₂.entered outer names (b.code.strict || hasUseStrict nodes)) after code ended
  have ended : finish inner.code title names body span true
      { inner with code := b₂.code, scope := b₂.scope } = .ok code after := ended
  rw [finish_is] at ended
  cases ended
  exact ⟨title, b₁, b₂, inner, names, body, first, second, third, rfl, rfl⟩

theorem title_is (name : Option (Node Rule)) (strict : Bool) (b after : Builder) (title : Option String)
    (unfinished : List ScopeId) (sound : b.Sound) (below : ∀ s ∈ unfinished, s < b.scopes.scopes.size)
    (ended : (name.mapM fun node => bindingName node strict) b = .ok title after) :
    b.Becomes after unfinished ∧ (strict = true → title ≠ some "arguments") ∧
      ∀ node, name = some node → ∃ text, title = some text ∧ decodeIdentifier node.chars = .ok text := by
  cases name with
  | none =>
    cases ended
    refine ⟨.refl b unfinished sound, ?_, ?_⟩
    · intro _ same
      cases same
    · intro node same
      cases same
  | some node =>
    obtain ⟨text, between, first, ended⟩ := build_bind (bindingName node strict) _ b after title ended
    cases ended
    obtain ⟨becomes, holds⟩ := yields_binding node strict unfinished b text after sound below first
    refine ⟨becomes, fun isStrict same => ?_, fun other same => ?_⟩
    · exact holds after.scopes true ⟨.refl _ _, fun _ => rfl, fun _ => rfl⟩ isStrict (Option.some.inj same)
    · cases same
      exact ⟨text, rfl, binding_name_is node strict b after text first⟩

-- The state after a function, seen from the one before its scope was opened.
theorem function_grows (outer : ScopeId) (params : List String) (strict : Bool) (b inner : Builder)
    (unfinished : List ScopeId) (inside : outer < b.scopes.scopes.size) (sound : b.Sound)
    (becomes : (b.entered outer params strict).Becomes inner (b.scopes.scopes.size :: unfinished)) :
    b.Becomes { inner with scopes := inner.code.bound true inner.scopes, code := b.code, scope := b.scope }
      unfinished := by
  have enters := entered_kept b outer params strict
  have found := entered_scope b outer params strict inside
  have unit : inner.code.scope = b.scopes.scopes.size := becomes.grows.unit
  have id : inner.code.id = b.scopes.codes.size := becomes.grows.id
  have size := entered_size b outer params strict
  have binds := bound_kept inner.code true inner.scopes
  rw [unit] at binds
  have kept : b.scopes.Kept (inner.code.bound true inner.scopes) fun _ => False := by
    refine .fewer _ _ (· = b.scopes.scopes.size) _ ?_ fun s known _ => Nat.ne_of_lt known
    refine .trans _ _ _ _ enters (.trans _ _ _ _ (.fewer _ _ _ _ becomes.grows.tree ?_) binds)
    exact fun _ _ _ contra => contra
  have kind : (inner.scopes.scope inner.code.scope).kind = .function := by
    rw [unit, becomes.grows.tree.kind _ (by rw [size]; exact Nat.lt_succ_self _), found]
  have shaped := bound_shaped inner.code true inner.scopes becomes.sound.unit
    (by rw [kind]; exact fun contra => nomatch contra) becomes.sound.shaped
  refine ⟨⟨shaped, Nat.lt_of_lt_of_le sound.scope kept.scopes, Nat.lt_of_lt_of_le sound.unit kept.scopes,
    (kept.code _ sound.scope).trans sound.code, (kept.code _ sound.unit).trans sound.unitCode, sound.declared,
    sound.functions⟩, ⟨kept, rfl, rfl, rfl, rfl, rfl, fun h => h, fun h => h, fun _ h => h, ?_⟩,
    fun _ _ _ _ member => Or.inl member⟩
  -- Every `with` statement inside is one of the function's own or of one inside it.
  intro s start object
  by_cases opened : s < inner.scopes.scopes.size
  · have sameKind := binds.kind s opened
    have sameCode := binds.code s opened
    dsimp only at object ⊢
    rw [sameKind] at object
    rw [sameCode]
    by_cases own : s = b.scopes.scopes.size
    · subst own
      rw [← unit, kind] at object
      cases object
    · have later : (b.entered outer params strict).scopes.scopes.size ≤ s := by
        rw [size]
        exact Nat.lt_of_le_of_ne start (Ne.symm own)
      rcases becomes.grows.withs s later object with uses | ⟨same, uses⟩
      · exact Or.inl (binds.usesWith _ uses)
      · refine Or.inl ?_
        rw [same]
        refine bound_marked inner.code true inner.scopes ?_ uses
        rw [← becomes.sound.unitCode]
        exact becomes.sound.shaped.code_known _ becomes.sound.unit
  · dsimp only at object
    rw [Tree.scope_unknown _ s (by rw [bound_size]; exact opened)] at object
    cases object

theorem function_scoped (outer : ScopeId) (params : List String) (strict : Bool) (b inner : Builder)
    (unfinished : List ScopeId) (title : Option String) (span : Span) (body : List Statement)
    (inside : outer < b.scopes.scopes.size) (below : ∀ s ∈ unfinished, s < b.scopes.scopes.size)
    (free : strict = true → "arguments" ∉ params)
    (becomes : (b.entered outer params strict).Becomes inner (b.scopes.scopes.size :: unfinished))
    (holds : ∀ tree arguments, inner.Future (b.scopes.scopes.size :: unfinished) tree arguments →
      statementsScoped ((b.entered outer params strict).setting tree arguments) body)
    (tree : Scope.Tree) (kept : (inner.code.bound true inner.scopes).Kept tree (· ∈ unfinished)) :
    Code.Scoped tree outer (.mk (inner.code.header title params inner.source span) inner.code.functions body) := by
  have found := entered_scope b outer params strict inside
  have size := entered_size b outer params strict
  have unit : inner.code.scope = b.scopes.scopes.size := becomes.grows.unit
  have id : inner.code.id = b.scopes.codes.size := becomes.grows.id
  have sameStrict : inner.code.strict = strict := becomes.grows.strict
  have kind : inner.code.kind = .function := congrArg Goals.kind becomes.grows.goals
  have binds := bound_kept inner.code true inner.scopes
  have known : inner.code.scope < (inner.code.bound true inner.scopes).scopes.size :=
    Nat.lt_of_lt_of_le becomes.sound.unit binds.scopes
  have entered : b.scopes.scopes.size < (b.entered outer params strict).scopes.scopes.size := by
    rw [size]
    exact Nat.lt_succ_self _
  have done : inner.code.scope ∉ unfinished := by
    rw [unit]
    exact fun member => Nat.lt_irrefl _ (below _ member)
  -- What the scope of the function is in the end.
  have last : (tree.scope inner.code.scope).kind = .function ∧
      (tree.scope inner.code.scope).outer = some outer ∧
      (tree.scope inner.code.scope).code = inner.code.id ∧
      (tree.scope inner.code.scope).defs =
        (inner.code.names true).foldl addName (params.foldl addName []) := by
    rw [kept.kind _ known, kept.outer _ known, kept.code _ known, kept.defs _ known done,
      bound_defs _ _ _ becomes.sound.unit, binds.kind _ becomes.sound.unit,
      binds.outer _ becomes.sound.unit, binds.code _ becomes.sound.unit, becomes.sound.unitCode, unit,
      becomes.grows.tree.kind _ entered, becomes.grows.tree.outer _ entered,
      becomes.grows.tree.defs _ entered (fun contra => contra), found]
    exact ⟨rfl, rfl, rfl, rfl⟩
  have future : inner.Future (b.scopes.scopes.size :: unfinished) tree
      ((inner.code.header title params inner.source span).bindsArguments inner.code.functions) := by
    refine ⟨.trans _ _ _ _ (.fewer _ _ _ _ binds ?_) (.fewer _ _ _ _ kept ?_), ?_, ?_⟩
    · intro s _ absent same
      rw [unit] at same
      exact absent (same ▸ List.mem_cons_self)
    · exact fun s _ absent member => absent (List.mem_cons_of_mem _ member)
    · intro uses
      rw [Header.bindsArguments, Unfinished.header]
      dsimp only
      rw [uses]
      rfl
    · intro member
      rw [Header.bindsArguments, Unfinished.header]
      dsimp only
      rw [List.contains_iff_mem.mpr member, Bool.or_true, Bool.true_or]
  have names : ∀ name, name ∈ (tree.scope inner.code.scope).defs ↔ name ∈ params ∨ name = "arguments" ∨
      (∃ f ∈ inner.code.functions, f.header.name = some name) ∨ name ∈ inner.code.variables := by
    intro name
    rw [last.2.2.2, mem_add_names, mem_add_names, Unfinished.names, kind]
    simp [List.mem_filterMap]
  refine ⟨⟨kind, Nat.lt_of_lt_of_le known kept.scopes, last.1, last.2.1, last.2.2.1, names, ?_⟩, ?_, ?_⟩
  · intro isStrict
    have outside : strict = true := sameStrict.symm.trans isStrict
    exact ⟨free outside, becomes.sound.declared isStrict, becomes.sound.functions isStrict⟩
  · refine codes_scoped _ _ _ fun f member => ?_
    rcases becomes.functions tree _ future f member with contra | placed
    · cases contra
    · change Code.Scoped tree inner.code.scope f
      rw [unit]
      exact placed
  · have built := holds tree _ future
    rw [Builder.setting] at built
    change statementsScoped ⟨tree, inner.code.scope, inner.code.strict, _, ⟨inner.code.kind, [], 0, 0⟩⟩ body
    rw [unit, sameStrict, kind]
    exact built

-- A function fits the scope that it is built in, and the unit around it goes on as before.
theorem function_code_becomes (outer : ScopeId) (name : Option (Node Rule)) (params : Nodes) (span : Span)
    (nodes : Nodes) (build : Build (List Statement)) (yields : Yields statementsScoped build)
    (unfinished : List ScopeId) (b after : Builder) (code : Code) (sound : b.Sound)
    (inside : outer < b.scopes.scopes.size) (below : ∀ s ∈ unfinished, s < b.scopes.scopes.size)
    (ended : functionCode outer name params span nodes build b = .ok code after) :
    b.Becomes after unfinished ∧
      (∀ tree arguments, after.Future unfinished tree arguments → code.Scoped tree outer) ∧
      (b.code.strict = true → code.header.name ≠ some "arguments") ∧
      ∀ node, name = some node →
        ∃ text, code.header.name = some text ∧ decodeIdentifier node.chars = .ok text := by
  obtain ⟨title, b₁, b₂, inner, names, body, first, second, third, is, then'⟩ :=
    function_code_is outer name params span nodes build b after code ended
  obtain ⟨becomes₁, otherName, decoded⟩ := title_is name _ b b₁ title unfinished sound below first
  have below₁ : ∀ s ∈ unfinished, s < b₁.scopes.scopes.size := fun s member =>
    Nat.lt_of_lt_of_le (below s member) becomes₁.grows.tree.scopes
  obtain ⟨becomes₂, otherParams⟩ := yields_parameters (b.code.strict || hasUseStrict nodes) params []
    (fun _ member => nomatch member) unfinished b₁ names b₂ becomes₁.sound below₁ second
  have below₂ : ∀ s ∈ unfinished, s < b₂.scopes.scopes.size := fun s member =>
    Nat.lt_of_lt_of_le (below₁ s member) becomes₂.grows.tree.scopes
  have inside₂ : outer < b₂.scopes.scopes.size :=
    Nat.lt_of_lt_of_le inside (Nat.le_trans becomes₁.grows.tree.scopes becomes₂.grows.tree.scopes)
  have free := otherParams b₂.scopes true ⟨.refl _ _, fun _ => rfl, fun _ => rfl⟩
  have enters := entered_sound b₂ outer names (b.code.strict || hasUseStrict nodes) inside₂ becomes₂.sound
  have belowBody : ∀ s ∈ b₂.scopes.scopes.size :: unfinished,
      s < (b₂.entered outer names (b.code.strict || hasUseStrict nodes)).scopes.scopes.size := by
    intro s member
    rw [entered_size]
    rcases List.mem_cons.mp member with same | older
    · exact same ▸ Nat.lt_succ_self _
    · exact Nat.lt_succ_of_lt (below₂ s older)
  obtain ⟨becomes₃, holds⟩ := yields _ _ body inner enters belowBody third
  have whole := function_grows outer names _ b₂ inner unfinished inside₂ becomes₂.sound becomes₃
  subst is then'
  refine ⟨.trans _ _ _ _ becomes₁ (.trans _ _ _ _ becomes₂ whole), fun tree arguments future => ?_,
    fun isStrict => otherName (by rw [isStrict]; rfl), decoded⟩
  exact function_scoped outer names _ b₂ inner unfinished title span body inside₂ below₂ free becomes₃ holds
    tree future.tree

end Ecma.Syntax
