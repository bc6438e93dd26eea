import Ecma.Proofs.Scope.Tree

set_option autoImplicit false

/-!
How a tree of scopes grows while a text is parsed. Scopes that are open are only ever referred to from
more places, and what is opened lies inside what is there.
-/

namespace Ecma.Scope.Tree

/-- What later parsing leaves of a tree, apart from the bindings of units that are not finished. -/
structure Kept (t u : Tree) (unfinished : ScopeId → Prop) : Prop where
  scopes : t.scopes.size ≤ u.scopes.size
  codes : t.codes.size ≤ u.codes.size
  kind : ∀ s, s < t.scopes.size → (u.scope s).kind = (t.scope s).kind
  outer : ∀ s, s < t.scopes.size → (u.scope s).outer = (t.scope s).outer
  code : ∀ s, s < t.scopes.size → (u.scope s).code = (t.scope s).code
  defs : ∀ s, s < t.scopes.size → ¬ unfinished s → (u.scope s).defs = (t.scope s).defs
  refs : ∀ s, ∀ name ∈ (t.scope s).refs, name ∈ (u.scope s).refs
  directEval : ∀ s, (t.scope s).directEval = true → (u.scope s).directEval = true
  codeKind : ∀ c, c < t.codes.size → (u.code c).kind = (t.code c).kind
  usesWith : ∀ c, (t.code c).usesWith = true → (u.code c).usesWith = true

theorem Kept.refl (t : Tree) (unfinished : ScopeId → Prop) : t.Kept t unfinished := by
  exact ⟨Nat.le_refl _, Nat.le_refl _, fun _ _ => rfl, fun _ _ => rfl, fun _ _ => rfl, fun _ _ _ => rfl,
    fun _ _ => id, fun _ => id, fun _ _ => rfl, fun _ => id⟩

theorem Kept.trans (t u v : Tree) (unfinished : ScopeId → Prop) (first : t.Kept u unfinished)
    (second : u.Kept v unfinished) : t.Kept v unfinished := by
  have inside : ∀ s, s < t.scopes.size → s < u.scopes.size := fun s known =>
    Nat.lt_of_lt_of_le known first.scopes
  refine ⟨Nat.le_trans first.scopes second.scopes, Nat.le_trans first.codes second.codes, ?_, ?_, ?_, ?_,
    fun s name => second.refs s name ∘ first.refs s name, fun s => second.directEval s ∘ first.directEval s,
    ?_, fun c => second.usesWith c ∘ first.usesWith c⟩
  · exact fun s known => (second.kind s (inside s known)).trans (first.kind s known)
  · exact fun s known => (second.outer s (inside s known)).trans (first.outer s known)
  · exact fun s known => (second.code s (inside s known)).trans (first.code s known)
  · exact fun s known done => (second.defs s (inside s known) done).trans (first.defs s known done)
  · exact fun c known => (second.codeKind c (Nat.lt_of_lt_of_le known first.codes)).trans
      (first.codeKind c known)

theorem Kept.fewer (t u : Tree) (unfinished others : ScopeId → Prop) (kept : t.Kept u unfinished)
    (fewer : ∀ s, s < t.scopes.size → ¬ others s → ¬ unfinished s) : t.Kept u others := by
  exact ⟨kept.scopes, kept.codes, kept.kind, kept.outer, kept.code,
    fun s known done => kept.defs s known (fewer s known done), kept.refs, kept.directEval, kept.codeKind,
    kept.usesWith⟩

/-! A scope changes. -/

-- A change that adds to what a scope says of its names.
theorem modify_kept (t : Tree) (id : ScopeId) (f : Scope → Scope) (unfinished : ScopeId → Prop)
    (kind : ∀ s, (f s).kind = s.kind) (outer : ∀ s, (f s).outer = s.outer)
    (code : ∀ s, (f s).code = s.code) (defs : unfinished id ∨ ∀ s, (f s).defs = s.defs)
    (refs : ∀ s, ∀ name ∈ s.refs, name ∈ (f s).refs)
    (directEval : ∀ s, s.directEval = true → (f s).directEval = true) :
    t.Kept (t.modify id f) unfinished := by
  refine ⟨Nat.le_of_eq (size_modify t id f).symm, Nat.le_refl _, ?_, ?_, ?_, ?_, ?_, ?_, fun _ _ => rfl,
    fun _ uses => uses⟩
  · intro s _
    rcases scope_modify t id s f with same | ⟨_, _, changed⟩
    · rw [same]
    · rw [changed, kind]
  · intro s _
    rcases scope_modify t id s f with same | ⟨_, _, changed⟩
    · rw [same]
    · rw [changed, outer]
  · intro s _
    rcases scope_modify t id s f with same | ⟨_, _, changed⟩
    · rw [same]
    · rw [changed, code]
  · intro s _ done
    rcases scope_modify t id s f with same | ⟨here, _, changed⟩
    · rw [same]
    · rcases defs with opened | unchanged
      · exact absurd (here ▸ opened) done
      · rw [changed, unchanged]
  · intro s name member
    rcases scope_modify t id s f with same | ⟨_, _, changed⟩
    · rw [same]
      exact member
    · rw [changed]
      exact refs _ name member
  · intro s direct
    rcases scope_modify t id s f with same | ⟨_, _, changed⟩
    · rw [same]
      exact direct
    · rw [changed]
      exact directEval _ direct

theorem modify_outlined (t : Tree) (id : ScopeId) (f : Scope → Scope) (kind : ∀ s, (f s).kind = s.kind)
    (outer : ∀ s, (f s).outer = s.outer) (code : ∀ s, (f s).code = s.code)
    (plain : ∀ s, (f s).locals = s.locals ∧ (f s).collapsed = s.collapsed)
    (defs : ∀ s, s.kind = .withObject → s.defs = [] → (t.scope id).kind = .withObject → (f s).defs = [])
    (outlined : t.Outlined) : (t.modify id f).Outlined := by
  have kinds : ∀ s, ((t.modify id f).scope s).kind = (t.scope s).kind := by
    intro s
    rcases scope_modify t id s f with same | ⟨_, _, changed⟩
    · rw [same]
    · rw [changed, kind]
  have outers : ∀ s, ((t.modify id f).scope s).outer = (t.scope s).outer := by
    intro s
    rcases scope_modify t id s f with same | ⟨_, _, changed⟩
    · rw [same]
    · rw [changed, outer]
  have codes : ∀ s, ((t.modify id f).scope s).code = (t.scope s).code := by
    intro s
    rcases scope_modify t id s f with same | ⟨_, _, changed⟩
    · rw [same]
    · rw [changed, code]
  refine ⟨?_, ?_, ?_, ?_, ?_, ?_, ?_, ?_⟩
  · intro s o
    rw [outers]
    exact outlined.outer_less s o
  · intro s
    rw [codes, size_modify]
    exact outlined.code_known s
  · intro s o
    rw [outers, kinds, codes, codes]
    exact outlined.function_code s o
  · intro s o
    rw [outers, kinds, codes, codes]
    exact outlined.inner_code s o
  · intro s
    rw [kinds, outers]
    exact outlined.root s
  · intro s
    rw [kinds, codes, size_modify]
    exact outlined.root_code s
  · intro s
    rcases scope_modify t id s f with same | ⟨_, _, changed⟩
    · rw [same]
      exact outlined.plain s
    · rw [changed, (plain _).1, (plain _).2]
      exact outlined.plain s
  · intro s object
    rw [kinds] at object
    rcases scope_modify t id s f with same | ⟨here, _, changed⟩
    · rw [same]
      exact outlined.with_defs s object
    · rw [changed]
      exact defs _ object (outlined.with_defs s object) (here ▸ object)

-- Scopes that change without being put inside others hold the same scopes.
theorem modify_inside (t : Tree) (id : ScopeId) (f : Scope → Scope) (outer : ∀ s, (f s).outer = s.outer)
    (o : ScopeId) : (t.modify id f).insideOf o = t.insideOf o := by
  rw [insideOf, insideOf, size_modify]
  refine congrArg (List.filter · _) (funext fun s => ?_)
  rcases scope_modify t id s f with same | ⟨_, _, changed⟩
  · rw [same]
  · rw [changed, outer]

theorem modify_shaped (t : Tree) (id : ScopeId) (f : Scope → Scope) (kind : ∀ s, (f s).kind = s.kind)
    (outer : ∀ s, (f s).outer = s.outer) (code : ∀ s, (f s).code = s.code)
    (plain : ∀ s, (f s).locals = s.locals ∧ (f s).collapsed = s.collapsed)
    (inners : ∀ s, (f s).inners = s.inners ∧ (f s).inbound = s.inbound)
    (distinct : ∀ s, s.defs.Nodup → (f s).defs.Nodup)
    (defs : ∀ s, s.kind = .withObject → s.defs = [] → (t.scope id).kind = .withObject → (f s).defs = [])
    (shaped : t.Shaped) : (t.modify id f).Shaped := by
  refine ⟨modify_outlined t id f kind outer code plain defs shaped.toOutlined, ?_, ?_, ?_, shaped.unslotted⟩
  · intro o
    rw [modify_inside t id f outer]
    rcases scope_modify t id o f with same | ⟨_, _, changed⟩
    · rw [same]
      exact shaped.inners o
    · rw [changed, (inners _).1]
      exact shaped.inners o
  · intro s
    rcases scope_modify t id s f with same | ⟨_, _, changed⟩
    · rw [same]
      exact shaped.distinct s
    · rw [changed]
      exact distinct _ (shaped.distinct s)
  · intro s
    rcases scope_modify t id s f with same | ⟨_, _, changed⟩
    · rw [same]
      exact shaped.uncaptured s
    · rw [changed, (inners _).2]
      exact shaped.uncaptured s

theorem add_ref_kept (t : Tree) (id : ScopeId) (name : String) (unfinished : ScopeId → Prop) :
    t.Kept (t.addRef id name) unfinished := by
  refine modify_kept t id _ unfinished (fun _ => rfl) (fun _ => rfl) (fun _ => rfl) (Or.inr fun _ => rfl)
    (fun s other member => ?_) (fun _ direct => direct)
  exact (mem_add_name s.refs name other).mpr (Or.inl member)

theorem add_ref_shaped (t : Tree) (id : ScopeId) (name : String) (shaped : t.Shaped) :
    (t.addRef id name).Shaped := by
  exact modify_shaped t id _ (fun _ => rfl) (fun _ => rfl) (fun _ => rfl) (fun _ => ⟨rfl, rfl⟩)
    (fun _ => ⟨rfl, rfl⟩) (fun _ distinct => distinct) (fun _ _ none _ => none) shaped

theorem add_ref_member (t : Tree) (id : ScopeId) (name : String) (inside : id < t.scopes.size) :
    name ∈ ((t.addRef id name).scope id).refs := by
  rw [addRef, scope_modify_same t id _ inside]
  exact (mem_add_name _ name name).mpr (Or.inr rfl)

theorem mark_direct_kept (t : Tree) (id : ScopeId) (unfinished : ScopeId → Prop) :
    t.Kept (t.markDirectEval id) unfinished := by
  exact modify_kept t id _ unfinished (fun _ => rfl) (fun _ => rfl) (fun _ => rfl) (Or.inr fun _ => rfl)
    (fun _ _ member => member) (fun _ _ => rfl)

theorem mark_direct_shaped (t : Tree) (id : ScopeId) (shaped : t.Shaped) :
    (t.markDirectEval id).Shaped := by
  exact modify_shaped t id _ (fun _ => rfl) (fun _ => rfl) (fun _ => rfl) (fun _ => ⟨rfl, rfl⟩)
    (fun _ => ⟨rfl, rfl⟩) (fun _ distinct => distinct) (fun _ _ none _ => none) shaped

theorem mark_direct_same (t : Tree) (id : ScopeId) (inside : id < t.scopes.size) :
    ((t.markDirectEval id).scope id).directEval = true := by
  rw [markDirectEval, scope_modify_same t id _ inside]

theorem add_def_kept (t : Tree) (id : ScopeId) (name : String) (unfinished : ScopeId → Prop)
    (opened : unfinished id) : t.Kept (t.addDef id name) unfinished := by
  exact modify_kept t id _ unfinished (fun _ => rfl) (fun _ => rfl) (fun _ => rfl) (Or.inl opened)
    (fun _ _ member => member) (fun _ direct => direct)

theorem add_def_shaped (t : Tree) (id : ScopeId) (name : String)
    (names : (t.scope id).kind ≠ .withObject) (shaped : t.Shaped) : (t.addDef id name).Shaped := by
  exact modify_shaped t id _ (fun _ => rfl) (fun _ => rfl) (fun _ => rfl) (fun _ => ⟨rfl, rfl⟩)
    (fun _ => ⟨rfl, rfl⟩) (fun s => add_name_nodup s.defs name) (fun _ _ _ object => absurd object names) shaped

/-- Binds several names in a scope. -/
def addDefs (t : Tree) (id : ScopeId) (names : List String) : Tree :=
  names.foldl (fun t name => t.addDef id name) t

theorem add_defs_kept (t : Tree) (id : ScopeId) (names : List String) (unfinished : ScopeId → Prop)
    (opened : unfinished id) : t.Kept (t.addDefs id names) unfinished := by
  induction names generalizing t with
  | nil => exact .refl t unfinished
  | cons name rest hyp =>
    exact .trans _ _ _ _ (add_def_kept t id name unfinished opened) (hyp (t.addDef id name))

theorem add_defs_append (t : Tree) (id : ScopeId) (first second : List String) :
    t.addDefs id (first ++ second) = (t.addDefs id first).addDefs id second := by
  exact List.foldl_append

theorem add_defs_size (t : Tree) (id : ScopeId) (names : List String) :
    (t.addDefs id names).scopes.size = t.scopes.size := by
  induction names generalizing t with
  | nil => rfl
  | cons name rest hyp => exact (hyp (t.addDef id name)).trans (size_modify t id _)

theorem add_defs_scope (t : Tree) (id : ScopeId) (names : List String) (inside : id < t.scopes.size) :
    (t.addDefs id names).scope id = { t.scope id with defs := names.foldl addName (t.scope id).defs } := by
  induction names generalizing t with
  | nil => rfl
  | cons name rest hyp =>
    have known : id < (t.addDef id name).scopes.size := by
      rw [addDef, size_modify]
      exact inside
    change ((t.addDef id name).addDefs id rest).scope id = _
    rw [hyp (t.addDef id name) known, addDef, scope_modify_same t id _ inside]
    rfl

theorem add_defs_shaped (t : Tree) (id : ScopeId) (names : List String) (inside : id < t.scopes.size)
    (kind : (t.scope id).kind ≠ .withObject) (shaped : t.Shaped) : (t.addDefs id names).Shaped := by
  induction names generalizing t with
  | nil => exact shaped
  | cons name rest hyp =>
    refine hyp (t.addDef id name) ?_ ?_ (add_def_shaped t id name kind shaped)
    · rw [addDef, size_modify]
      exact inside
    · rw [addDef, scope_modify_same t id _ inside]
      exact kind

theorem mark_with_kept (t : Tree) (c : Nat) (unfinished : ScopeId → Prop) :
    t.Kept (t.markWith c) unfinished := by
  refine ⟨Nat.le_refl _, Nat.le_of_eq Array.size_modify.symm, fun _ _ => rfl, fun _ _ => rfl, fun _ _ => rfl,
    fun _ _ _ => rfl, fun _ _ => id, fun _ => id, ?_, ?_⟩
  · intro other _
    rcases code_modify_code t c other _ with same | ⟨_, _, changed⟩
    · rw [markWith, same]
    · rw [markWith, changed]
  · intro other uses
    rcases code_modify_code t c other _ with same | ⟨_, _, changed⟩
    · rw [markWith, same]
      exact uses
    · rw [markWith, changed]

theorem mark_with_same (t : Tree) (c : Nat) (known : c < t.codes.size) :
    ((t.markWith c).code c).usesWith = true := by
  rw [markWith, code_modify_code_same t c _ known]

theorem mark_with_shaped (t : Tree) (c : Nat) (shaped : t.Shaped) : (t.markWith c).Shaped := by
  refine ⟨⟨shaped.outer_less, ?_, shaped.function_code, shaped.inner_code, shaped.root, ?_, shaped.plain,
    shaped.with_defs⟩, shaped.inners, shaped.distinct, shaped.uncaptured, ?_⟩
  · intro s inside
    exact Nat.lt_of_lt_of_eq (shaped.code_known s inside) Array.size_modify.symm
  · intro s inside root
    have kept := mark_with_kept t c fun _ => False
    have kind := kept.codeKind _ (shaped.code_known s inside)
    exact fun function => shaped.root_code s inside root (kind.symm.trans function)
  · intro other
    rcases code_modify_code t c other _ with same | ⟨_, _, changed⟩
    · rw [markWith, same]
      exact shaped.unslotted other
    · rw [markWith, changed]
      exact shaped.unslotted other

/-! Something is opened. -/

theorem new_code_kept (t : Tree) (kind : CodeKind) (unfinished : ScopeId → Prop) :
    t.Kept (t.newCode kind).1 unfinished := by
  have codes : ∀ c, c < t.codes.size → ((t.newCode kind).1.code c) = t.code c := by
    intro c known
    rw [newCode, code, code, Array.getElem?_push_lt known, Array.getElem?_eq_getElem known]
  refine ⟨Nat.le_refl _, ?_, fun _ _ => rfl, fun _ _ => rfl, fun _ _ => rfl, fun _ _ _ => rfl,
    fun _ _ => id, fun _ => id, fun c known => by rw [codes c known], ?_⟩
  · rw [newCode, Array.size_push]
    exact Nat.le_succ _
  · intro c uses
    by_cases known : c < t.codes.size
    · rw [codes c known]
      exact uses
    · rw [code, Array.getElem?_eq_none (Nat.le_of_not_lt known)] at uses
      cases uses

theorem new_code_shaped (t : Tree) (kind : CodeKind) (shaped : t.Shaped) : (t.newCode kind).1.Shaped := by
  have kept := new_code_kept t kind fun _ => False
  refine ⟨⟨shaped.outer_less, ?_, shaped.function_code, shaped.inner_code, shaped.root, ?_, shaped.plain,
    shaped.with_defs⟩, shaped.inners, shaped.distinct, shaped.uncaptured, ?_⟩
  · exact fun s inside => Nat.lt_of_lt_of_le (shaped.code_known s inside) kept.codes
  · intro s inside root
    have same := kept.codeKind _ (shaped.code_known s inside)
    exact fun function => shaped.root_code s inside root (same.symm.trans function)
  · intro c
    have old := shaped.unslotted c
    rw [code] at old
    rw [newCode, code, Array.getElem?_push]
    split
    · rfl
    · exact old

/-- The tree with one more scope, which the one around it does not know of yet. -/
def push (t : Tree) (s : Scope) : Tree :=
  { t with scopes := t.scopes.push s }

theorem push_same (t : Tree) (s : Scope) : (t.push s).scope t.scopes.size = s := by
  rw [push, scope, Array.getElem?_push_size]
  rfl

theorem push_other (t : Tree) (s : Scope) (other : ScopeId) (distinct : other ≠ t.scopes.size) :
    (t.push s).scope other = t.scope other := by
  by_cases inside : other < t.scopes.size
  · rw [push, scope, Array.getElem?_push_lt inside, scope, Array.getElem?_eq_getElem inside]
  · rw [scope_unknown t other inside, scope_unknown]
    rw [push, Array.size_push]
    exact Nat.not_lt.mpr (Nat.lt_of_le_of_ne (Nat.not_lt.mp inside) (Ne.symm distinct))

theorem push_kept (t : Tree) (s : Scope) (unfinished : ScopeId → Prop) : t.Kept (t.push s) unfinished := by
  have old : ∀ other, other < t.scopes.size → (t.push s).scope other = t.scope other :=
    fun other inside => push_other t s other (Nat.ne_of_lt inside)
  have unknown : ∀ other, ¬ other < t.scopes.size → t.scope other = default := scope_unknown t
  refine ⟨?_, Nat.le_refl _, fun o inside => by rw [old o inside], fun o inside => by rw [old o inside],
    fun o inside => by rw [old o inside], fun o inside _ => by rw [old o inside], ?_, ?_, fun _ _ => rfl,
    fun _ uses => uses⟩
  · rw [push, Array.size_push]
    exact Nat.le_succ _
  · intro o name member
    by_cases inside : o < t.scopes.size
    · rw [old o inside]
      exact member
    · rw [unknown o inside] at member
      cases member
  · intro o direct
    by_cases inside : o < t.scopes.size
    · rw [old o inside]
      exact direct
    · rw [unknown o inside] at direct
      cases direct

theorem push_outlined (t : Tree) (s : Scope) (o : ScopeId) (outer : s.outer = some o)
    (inside : o < t.scopes.size) (known : s.code < t.codes.size)
    (function : s.kind = .function → (t.scope o).code < s.code)
    (inner : s.kind ≠ .function → (t.scope o).code = s.code) (root : s.kind.isRoot = false)
    (plain : s.locals = [] ∧ s.collapsed = false) (defs : s.defs = []) (outlined : t.Outlined) :
    (t.push s).Outlined := by
  have here := push_same t s
  have there := push_other t s
  have around : (t.push s).scope o = t.scope o := there o (Nat.ne_of_lt inside)
  -- What is around an older scope is older still.
  have beyond : ∀ x y, (t.scope x).outer = some y → (t.push s).scope y = t.scope y := by
    intro x y found
    have less := outlined.outer_less x y found
    refine there y (Nat.ne_of_lt ?_)
    by_cases member : x < t.scopes.size
    · exact Nat.lt_trans less member
    · rw [scope_unknown t x member] at found
      cases found
  refine ⟨?_, ?_, ?_, ?_, ?_, ?_, ?_, ?_⟩
  · intro x y
    by_cases same : x = t.scopes.size
    · subst same
      rw [here, outer]
      intro found
      cases found
      exact inside
    · rw [there x same]
      exact outlined.outer_less x y
  · intro x member
    by_cases same : x = t.scopes.size
    · subst same
      rw [here]
      exact known
    · rw [there x same]
      rw [push, Array.size_push] at member
      exact outlined.code_known x (Nat.lt_of_le_of_ne (Nat.le_of_lt_succ member) same)
  · intro x y
    by_cases same : x = t.scopes.size
    · subst same
      rw [here, outer]
      intro found
      cases found
      rw [around]
      exact function
    · rw [there x same]
      intro found
      rw [beyond x y found]
      exact outlined.function_code x y found
  · intro x y
    by_cases same : x = t.scopes.size
    · subst same
      rw [here, outer]
      intro found
      cases found
      rw [around]
      exact inner
    · rw [there x same]
      intro found
      rw [beyond x y found]
      exact outlined.inner_code x y found
  · intro x
    by_cases same : x = t.scopes.size
    · subst same
      rw [here, outer, root]
      exact iff_of_false Bool.false_ne_true (Option.some_ne_none o)
    · rw [there x same]
      exact outlined.root x
  · intro x member
    by_cases same : x = t.scopes.size
    · subst same
      rw [here, root]
      intro contra
      cases contra
    · rw [there x same]
      rw [push, Array.size_push] at member
      exact outlined.root_code x (Nat.lt_of_le_of_ne (Nat.le_of_lt_succ member) same)
  · intro x
    by_cases same : x = t.scopes.size
    · subst same
      rw [here]
      exact plain
    · rw [there x same]
      exact outlined.plain x
  · intro x
    by_cases same : x = t.scopes.size
    · subst same
      rw [here]
      exact fun _ => defs
    · rw [there x same]
      exact outlined.with_defs x

section

variable (t : Tree) (kind : ScopeKind) (o : ScopeId) (code : Nat)

theorem new_scope_kept (unfinished : ScopeId → Prop) :
    t.Kept (t.newScope kind (some o) code).1 unfinished := by
  refine .trans _ _ _ _ (push_kept t { kind := kind, outer := some o, code := code } unfinished) ?_
  exact modify_kept _ o _ unfinished (fun _ => rfl) (fun _ => rfl) (fun _ => rfl) (Or.inr fun _ => rfl)
    (fun _ _ member => member) (fun _ direct => direct)

theorem new_scope_size : (t.newScope kind (some o) code).1.scopes.size = t.scopes.size + 1 := by
  exact (size_modify _ o _).trans (Array.size_push _)

theorem new_scope_inside : t.scopes.size < (t.newScope kind (some o) code).1.scopes.size := by
  rw [new_scope_size]
  exact Nat.lt_succ_self _

theorem new_scope_same (inside : o < t.scopes.size) :
    (t.newScope kind (some o) code).1.scope t.scopes.size =
      { kind := kind, outer := some o, code := code } := by
  exact (scope_modify_other _ o _ _ (Nat.ne_of_lt inside)).trans (push_same t _)

theorem new_scope_other (other : ScopeId) (around : other ≠ o) (distinct : other ≠ t.scopes.size) :
    (t.newScope kind (some o) code).1.scope other = t.scope other := by
  exact (scope_modify_other _ o other _ (Ne.symm around)).trans (push_other t _ other distinct)

theorem new_scope_around (inside : o < t.scopes.size) :
    (t.newScope kind (some o) code).1.scope o =
      { t.scope o with inners := (t.scope o).inners ++ [t.scopes.size] } := by
  have known : o < (t.push { kind := kind, outer := some o, code := code }).scopes.size := by
    rw [push, Array.size_push]
    exact Nat.lt_succ_of_lt inside
  refine (scope_modify_same _ o _ known).trans ?_
  rw [push_other t _ o (Nat.ne_of_lt inside)]

-- A scope that is opened is the last of those inside the one around it.
theorem new_scope_inners (inside : o < t.scopes.size) (x : ScopeId) :
    (t.newScope kind (some o) code).1.insideOf x =
      t.insideOf x ++ if x = o then [t.scopes.size] else [] := by
  have outers : ∀ s, s < t.scopes.size →
      ((t.newScope kind (some o) code).1.scope s).outer = (t.scope s).outer := by
    intro s known
    by_cases around : s = o
    · rw [around, new_scope_around t kind o code inside]
    · rw [new_scope_other t kind o code s around (Nat.ne_of_lt known)]
  have old : (List.range t.scopes.size).filter
      (fun s => ((t.newScope kind (some o) code).1.scope s).outer == some x) = t.insideOf x := by
    refine List.filter_congr fun s member => ?_
    rw [outers s (List.mem_range.mp member)]
  rw [insideOf, new_scope_size, List.range_succ, List.filter_append, old, List.filter_cons,
    List.filter_nil, new_scope_same t kind o code inside]
  by_cases here : x = o
  · rw [if_pos here, here, beq_self_eq_true]
    rfl
  · have other : (some o == some x) = false := beq_false_of_ne fun same => here (Option.some.inj same).symm
    rw [if_neg here]
    dsimp only
    rw [other]
    rfl

theorem new_scope_shaped (inside : o < t.scopes.size) (known : code < t.codes.size)
    (function : kind = .function → (t.scope o).code < code)
    (inner : kind ≠ .function → (t.scope o).code = code) (root : kind.isRoot = false)
    (shaped : t.Shaped) : (t.newScope kind (some o) code).1.Shaped := by
  have pushed := push_outlined t { kind := kind, outer := some o, code := code } o rfl inside known function
    inner root ⟨rfl, rfl⟩ rfl shaped.toOutlined
  have outlined := modify_outlined _ o (fun s => { s with inners := s.inners ++ [t.scopes.size] })
    (fun _ => rfl) (fun _ => rfl) (fun _ => rfl) (fun _ => ⟨rfl, rfl⟩) (fun _ _ none _ => none) pushed
  refine ⟨outlined, fun x => ?_, fun s => ?_, fun s => ?_, shaped.unslotted⟩
  · rw [new_scope_inners t kind o code inside]
    by_cases here : x = o
    · rw [here, new_scope_around t kind o code inside, if_pos rfl, ← shaped.inners o]
    · rw [if_neg here, List.append_nil]
      by_cases new : x = t.scopes.size
      · -- Nothing is inside a scope that was not there before.
        rw [new, new_scope_same t kind o code inside, ← shaped.inners, scope_unknown t _ (Nat.lt_irrefl _)]
        rfl
      · rw [new_scope_other t kind o code x here new]
        exact shaped.inners x
  · by_cases around : s = o
    · rw [around, new_scope_around t kind o code inside]
      exact shaped.distinct o
    · by_cases new : s = t.scopes.size
      · rw [new, new_scope_same t kind o code inside]
        exact List.nodup_nil
      · rw [new_scope_other t kind o code s around new]
        exact shaped.distinct s
  · by_cases around : s = o
    · rw [around, new_scope_around t kind o code inside]
      exact shaped.uncaptured o
    · by_cases new : s = t.scopes.size
      · rw [new, new_scope_same t kind o code inside]
      · rw [new_scope_other t kind o code s around new]
        exact shaped.uncaptured s

end

end Ecma.Scope.Tree
