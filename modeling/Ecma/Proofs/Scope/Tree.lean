import Ecma.Scope.Analysis

set_option autoImplicit false

/-!
Trees of scopes: what a change of one scope does to the others, and the shape that every parsed tree
has.
-/

namespace Ecma.Scope

/-! Names. -/

theorem mem_add_name (names : List String) (name other : String) :
    other ∈ addName names name ↔ other ∈ names ∨ other = name := by
  rw [addName]
  by_cases known : names.contains name = true
  · rw [if_pos known]
    rw [List.contains_iff_mem] at known
    constructor
    · exact Or.inl
    · rintro (member | rfl)
      · exact member
      · exact known
  · rw [if_neg known, List.mem_append, List.mem_singleton]

theorem mem_add_names (added names : List String) (other : String) :
    other ∈ added.foldl addName names ↔ other ∈ names ∨ other ∈ added := by
  induction added generalizing names with
  | nil => simp only [List.foldl_nil, List.not_mem_nil, or_false]
  | cons name rest hyp => rw [List.foldl_cons, hyp, mem_add_name, List.mem_cons, or_assoc]

theorem nodup_last (names : List String) (name : String) (distinct : names.Nodup) (new : name ∉ names) :
    (names ++ [name]).Nodup := by
  refine List.nodup_append.mpr ⟨distinct, List.nodup_cons.mpr ⟨List.not_mem_nil, List.nodup_nil⟩, ?_⟩
  intro other member last lastMember same
  exact new (List.mem_singleton.mp lastMember ▸ same ▸ member)

theorem add_name_nodup (names : List String) (name : String) (distinct : names.Nodup) :
    (addName names name).Nodup := by
  rw [addName]
  by_cases known : names.contains name = true
  · rw [if_pos known]
    exact distinct
  · rw [if_neg known]
    rw [List.contains_iff_mem] at known
    exact nodup_last names name distinct known

/-! One scope changes. -/

namespace Tree

theorem size_modify (t : Tree) (id : ScopeId) (f : Scope → Scope) :
    (t.modify id f).scopes.size = t.scopes.size := by
  rw [modify, Array.size_modify]

theorem scope_modify_same (t : Tree) (id : ScopeId) (f : Scope → Scope) (known : id < t.scopes.size) :
    (t.modify id f).scope id = f (t.scope id) := by
  rw [scope, modify, Array.getElem?_modify, if_pos rfl, Array.getElem?_eq_getElem known, scope,
    Array.getElem?_eq_getElem known]
  rfl

theorem scope_modify_other (t : Tree) (id other : ScopeId) (f : Scope → Scope) (distinct : id ≠ other) :
    (t.modify id f).scope other = t.scope other := by
  rw [scope, modify, Array.getElem?_modify, if_neg distinct, scope]

theorem scope_unknown (t : Tree) (id : ScopeId) (unknown : ¬ id < t.scopes.size) :
    t.scope id = default := by
  rw [scope, Array.getElem?_eq_none (Nat.le_of_not_lt unknown)]
  rfl

-- A changed scope is looked up as the change makes it; a scope that is not there does not change.
theorem scope_modify (t : Tree) (id other : ScopeId) (f : Scope → Scope) :
    (t.modify id f).scope other = t.scope other ∨
      id = other ∧ id < t.scopes.size ∧ (t.modify id f).scope other = f (t.scope other) := by
  by_cases same : id = other
  · subst same
    by_cases known : id < t.scopes.size
    · exact Or.inr ⟨rfl, known, scope_modify_same t id f known⟩
    · left
      rw [scope_unknown t id known, scope_unknown]
      rw [size_modify]
      exact known
  · exact Or.inl (scope_modify_other t id other f same)

theorem scope_modify_code (t : Tree) (id : Nat) (f : CodeScopes → CodeScopes) (other : ScopeId) :
    (t.modifyCode id f).scope other = t.scope other := by
  rfl

theorem code_modify_code (t : Tree) (id other : Nat) (f : CodeScopes → CodeScopes) :
    (t.modifyCode id f).code other = t.code other ∨
      id = other ∧ id < t.codes.size ∧ (t.modifyCode id f).code other = f (t.code other) := by
  by_cases same : id = other
  · subst same
    by_cases known : id < t.codes.size
    · refine Or.inr ⟨rfl, known, ?_⟩
      rw [code, modifyCode, Array.getElem?_modify, if_pos rfl, Array.getElem?_eq_getElem known, code,
        Array.getElem?_eq_getElem known]
      rfl
    · left
      rw [code, modifyCode, Array.getElem?_modify, if_pos rfl,
        Array.getElem?_eq_none (Nat.le_of_not_lt known), code,
        Array.getElem?_eq_none (Nat.le_of_not_lt known)]
      rfl
  · left
    rw [code, modifyCode, Array.getElem?_modify, if_neg same, code]

theorem code_modify_code_same (t : Tree) (id : Nat) (f : CodeScopes → CodeScopes)
    (known : id < t.codes.size) : (t.modifyCode id f).code id = f (t.code id) := by
  rw [code, modifyCode, Array.getElem?_modify, if_pos rfl, Array.getElem?_eq_getElem known, code,
    Array.getElem?_eq_getElem known]
  rfl

end Tree

/-! The shape of parsed trees. -/

-- What parsing fixes when it opens a scope, and the names that it binds in it.
structure Scope.Alike (a b : Scope) : Prop where
  kind : a.kind = b.kind
  outer : a.outer = b.outer
  code : a.code = b.code
  defs : a.defs = b.defs

theorem Scope.Alike.refl (a : Scope) : a.Alike a := by
  exact ⟨rfl, rfl, rfl, rfl⟩

theorem Scope.Alike.trans (a b c : Scope) (first : a.Alike b) (second : b.Alike c) : a.Alike c := by
  exact ⟨first.kind.trans second.kind, first.outer.trans second.outer, first.code.trans second.code,
    first.defs.trans second.defs⟩

/-- The kinds of scopes that nothing is around. -/
def ScopeKind.isRoot : ScopeKind → Bool
  | .global => true
  | .eval => true
  | _ => false

-- How scopes and codes lie inside each other at any moment of parsing.
structure Tree.Outlined (t : Tree) : Prop where
  outer_less : ∀ s o, (t.scope s).outer = some o → o < s
  code_known : ∀ s, s < t.scopes.size → (t.scope s).code < t.codes.size
  function_code : ∀ s o, (t.scope s).outer = some o → (t.scope s).kind = .function →
    (t.scope o).code < (t.scope s).code
  inner_code : ∀ s o, (t.scope s).outer = some o → (t.scope s).kind ≠ .function →
    (t.scope o).code = (t.scope s).code
  root : ∀ s, (t.scope s).kind.isRoot = true ↔ (t.scope s).outer = none
  root_code : ∀ s, s < t.scopes.size → (t.scope s).kind.isRoot = true →
    (t.code (t.scope s).code).kind ≠ .function
  plain : ∀ s, (t.scope s).locals = [] ∧ (t.scope s).collapsed = false
  with_defs : ∀ s, (t.scope s).kind = .withObject → (t.scope s).defs = []

/-- The scopes right inside a scope, in the order in which they were opened. -/
def Tree.insideOf (t : Tree) (o : ScopeId) : List ScopeId :=
  (List.range t.scopes.size).filter fun s => (t.scope s).outer == some o

-- The shape at any moment of parsing. Nothing has been analysed yet.
structure Tree.Shaped (t : Tree) : Prop extends t.Outlined where
  inners : ∀ o, (t.scope o).inners = t.insideOf o
  distinct : ∀ s, (t.scope s).defs.Nodup
  uncaptured : ∀ s, (t.scope s).inbound = []
  unslotted : ∀ c, (t.code c).slots = 0

structure Tree.WellFormed (t : Tree) : Prop extends t.Shaped where
  with_code : ∀ s, (t.scope s).kind = .withObject → (t.code (t.scope s).code).usesWith = true

/-! What the analysis finds. References that a scope leaves open are known to the scope around it, and what
gets a slot is known to no inner function and out of reach of code that looks for names as it runs. -/

/-! References are passed on. -/

-- The analysis of references only adds to a scope.
structure Scope.Grown (a b : Scope) : Prop where
  alike : a.Alike b
  locals : a.locals = b.locals
  collapsed : a.collapsed = b.collapsed
  directEval : a.directEval = true → b.directEval = true
  refs : ∀ name ∈ a.refs, name ∈ b.refs
  inbound : ∀ name ∈ a.inbound, name ∈ b.inbound

theorem Scope.Grown.refl (a : Scope) : a.Grown a := by
  exact ⟨.refl a, rfl, rfl, id, fun _ => id, fun _ => id⟩

theorem Scope.Grown.trans (a b c : Scope) (first : a.Grown b) (second : b.Grown c) : a.Grown c := by
  exact ⟨.trans a b c first.alike second.alike, first.locals.trans second.locals,
    first.collapsed.trans second.collapsed, second.directEval ∘ first.directEval,
    fun name => second.refs name ∘ first.refs name,
    fun name => second.inbound name ∘ first.inbound name⟩

-- A scope around another knows what the inner one leaves open.
structure Scope.Passed (inner outer : Scope) : Prop where
  directEval : inner.directEval = true → outer.directEval = true
  refs : inner.code = outer.code → ∀ name ∈ inner.refs, name ∉ inner.defs → name ∈ outer.refs
  captured : inner.code ≠ outer.code → ∀ name ∈ inner.refs, name ∉ inner.defs → name ∈ outer.inbound
  inbound : ∀ name ∈ inner.inbound, name ∉ inner.defs → name ∈ outer.inbound

theorem mem_open (names defs : List String) (name : String) (member : name ∈ names)
    (absent : name ∉ defs) : name ∈ names.filter fun n => !defs.contains n := by
  rw [List.mem_filter]
  refine ⟨member, ?_⟩
  rw [Bool.not_eq_true', Bool.eq_false_iff, ne_eq, List.contains_iff_mem]
  exact absent

theorem absorb_grown (outer inner : Scope) : outer.Grown (outer.absorb inner) := by
  refine ⟨⟨rfl, rfl, rfl, rfl⟩, rfl, rfl, ?_, ?_, ?_⟩
  · intro direct
    rw [Scope.absorb]
    dsimp only
    rw [direct, Bool.true_or]
  · intro name member
    rw [Scope.absorb]
    dsimp only
    split
    · exact (mem_add_names _ _ _).mpr (Or.inl member)
    · exact member
  · intro name member
    rw [Scope.absorb]
    dsimp only
    refine (mem_add_names _ _ _).mpr (Or.inl ?_)
    split
    · exact member
    · exact (mem_add_names _ _ _).mpr (Or.inl member)

theorem absorb_passed (outer inner : Scope) : inner.Passed (outer.absorb inner) := by
  refine ⟨?_, ?_, ?_, ?_⟩
  · intro direct
    rw [Scope.absorb]
    dsimp only
    rw [direct, Bool.or_true]
  · intro same name member absent
    have codes : (inner.code == outer.code) = true := beq_iff_eq.mpr same
    rw [Scope.absorb]
    dsimp only
    rw [if_pos codes]
    exact (mem_add_names _ _ _).mpr (Or.inr (mem_open _ _ name member absent))
  · intro different name member absent
    have codes : ¬ (inner.code == outer.code) = true := fun equal => different (beq_iff_eq.mp equal)
    rw [Scope.absorb]
    dsimp only
    rw [if_neg codes]
    refine (mem_add_names _ _ _).mpr (Or.inl ?_)
    exact (mem_add_names _ _ _).mpr (Or.inr (mem_open _ _ name member absent))
  · intro name member absent
    rw [Scope.absorb]
    dsimp only
    exact (mem_add_names _ _ _).mpr (Or.inr (mem_open _ _ name member absent))

theorem passed_grown (inner outer grown : Scope) (passed : inner.Passed outer)
    (grows : outer.Grown grown) : inner.Passed grown := by
  have code := grows.alike.code
  refine ⟨grows.directEval ∘ passed.directEval, ?_, ?_, ?_⟩
  · intro same name member absent
    exact grows.refs name (passed.refs (same.trans code.symm) name member absent)
  · intro different name member absent
    refine grows.inbound name (passed.captured ?_ name member absent)
    rw [code]
    exact different
  · intro name member absent
    exact grows.inbound name (passed.inbound name member absent)

namespace Tree

theorem pass_on_grown (t : Tree) (id other : ScopeId) : (t.scope other).Grown ((t.passOn id).scope other) := by
  rw [passOn]
  cases (t.scope id).outer with
  | none => exact .refl _
  | some outer =>
    dsimp only
    rcases scope_modify t outer other (fun o => o.absorb (t.scope id)) with same | ⟨_, _, changed⟩
    · rw [same]
      exact .refl _
    · rw [changed]
      exact absorb_grown _ _

-- From a scope on, all scopes have been passed on.
def PassedFrom (t : Tree) (start : ScopeId) : Prop :=
  ∀ s o, start ≤ s → (t.scope s).outer = some o → (t.scope s).Passed (t.scope o)

theorem pass_on_passed (t : Tree) (id : ScopeId)
    (less : ∀ s o, (t.scope s).outer = some o → o < s) (passed : t.PassedFrom (id + 1)) :
    (t.passOn id).PassedFrom id := by
  intro s o start found
  have grown := pass_on_grown t id
  rw [← (grown s).alike.outer] at found
  -- Scopes from here on are complete: only scopes around `id` still change.
  have unchanged : (t.passOn id).scope s = t.scope s := by
    rw [passOn]
    cases around : (t.scope id).outer with
    | none => rfl
    | some outer =>
      have below := less id outer around
      exact scope_modify_other t outer s _ (Nat.ne_of_lt (Nat.lt_of_lt_of_le below start))
  rw [unchanged]
  by_cases here : s = id
  · subst here
    have inside : s < t.scopes.size := by
      refine Decidable.byContradiction fun unknown => ?_
      rw [scope_unknown t s unknown] at found
      cases found
    have below := less s o found
    rw [passOn, found]
    dsimp only
    rw [scope_modify_same t o _ (Nat.lt_trans below inside)]
    exact absorb_passed _ _
  · have beyond : id + 1 ≤ s := Nat.lt_of_le_of_ne start (Ne.symm here)
    exact passed_grown _ _ _ (passed s o beyond found) (grown o)

theorem pass_all_passed (t : Tree) (less : ∀ s o, (t.scope s).outer = some o → o < s) :
    t.passAllOn.PassedFrom 0 ∧ ∀ s, (t.scope s).Grown (t.passAllOn.scope s) := by
  have fold : ∀ (count : Nat) (u : Tree), (∀ s o, (u.scope s).outer = some o → o < s) →
      u.PassedFrom count →
      ((List.range count).reverse.foldl passOn u).PassedFrom 0 ∧
        ∀ s, (u.scope s).Grown (((List.range count).reverse.foldl passOn u).scope s) := by
    intro count
    induction count with
    | zero => exact fun u _ passed => ⟨passed, fun s => .refl _⟩
    | succ count hyp =>
      intro u ordered passed
      rw [List.range_succ, List.reverse_append, List.reverse_singleton, List.singleton_append,
        List.foldl_cons]
      have grown := pass_on_grown u count
      have next := hyp (u.passOn count)
        (fun s o found => ordered s o ((grown s).alike.outer.trans found))
        (pass_on_passed u count ordered passed)
      exact ⟨next.1, fun s => .trans _ _ _ (grown s) (next.2 s)⟩
  refine fold t.scopes.size t less ?_
  intro s o start found
  rw [scope_unknown t s (Nat.not_lt.mpr start)] at found
  cases found

theorem pass_on_codes (t : Tree) (id : ScopeId) : (t.passOn id).codes = t.codes := by
  rw [passOn]
  cases (t.scope id).outer with
  | none => rfl
  | some outer => rfl

theorem pass_all_codes (t : Tree) : t.passAllOn.codes = t.codes := by
  have fold : ∀ (ids : List ScopeId) (u : Tree), (ids.foldl passOn u).codes = u.codes := by
    intro ids
    induction ids with
    | nil => exact fun u => rfl
    | cons id rest hyp => exact fun u => (hyp (u.passOn id)).trans (pass_on_codes u id)
  exact fold _ t

theorem pass_on_size (t : Tree) (id : ScopeId) : (t.passOn id).scopes.size = t.scopes.size := by
  rw [passOn]
  cases (t.scope id).outer with
  | none => rfl
  | some outer => exact size_modify t outer _

theorem pass_all_size (t : Tree) : t.passAllOn.scopes.size = t.scopes.size := by
  have fold : ∀ (ids : List ScopeId) (u : Tree),
      (ids.foldl passOn u).scopes.size = u.scopes.size := by
    intro ids
    induction ids with
    | nil => exact fun u => rfl
    | cons id rest hyp => exact fun u => (hyp (u.passOn id)).trans (pass_on_size u id)
  exact fold _ t

end Tree

end Ecma.Scope
