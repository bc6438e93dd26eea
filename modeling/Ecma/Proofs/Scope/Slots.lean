import Ecma.Proofs.Scope.Tree

set_option autoImplicit false

/-!
Which bindings get slots. Only names that no inner function refers to get one, in functions that no code
can look into by name, and no two bindings of one unit of code share a slot.
-/

namespace Ecma.Scope

theorem slots_from_found (inbound defs : List String) (start : Nat) (name : String) (slot : Nat)
    (found : (slotsFrom inbound defs start).lookup name = some slot) :
    name ∈ defs ∧ name ∉ inbound ∧ start ≤ slot ∧
      slot < start + (slotsFrom inbound defs start).length := by
  induction defs generalizing start with
  | nil => cases found
  | cons first rest hyp =>
    by_cases captured : inbound.contains first = true
    · rw [slotsFrom, if_pos captured] at found ⊢
      obtain ⟨member, free, above, below⟩ := hyp start found
      exact ⟨List.mem_cons_of_mem first member, free, above, below⟩
    · rw [slotsFrom, if_neg captured] at found ⊢
      rw [List.length_cons]
      by_cases here : name = first
      · subst here
        rw [List.lookup_cons_self, Option.some.injEq] at found
        rw [List.contains_iff_mem] at captured
        exact ⟨List.mem_cons_self, captured, by omega, by omega⟩
      · rw [List.lookup_cons, beq_false_of_ne here] at found
        obtain ⟨member, free, above, below⟩ := hyp (start + 1) found
        exact ⟨List.mem_cons_of_mem first member, free, by omega, by omega⟩

theorem slots_from_distinct (inbound defs : List String) (start : Nat) (name other : String)
    (slot : Nat) (found : (slotsFrom inbound defs start).lookup name = some slot)
    (again : (slotsFrom inbound defs start).lookup other = some slot) : name = other := by
  induction defs generalizing start with
  | nil => cases found
  | cons first rest hyp =>
    by_cases captured : inbound.contains first = true
    · rw [slotsFrom, if_pos captured] at found again
      exact hyp start found again
    · rw [slotsFrom, if_neg captured] at found again
      -- The first name has the first slot, all others have later ones.
      by_cases left : name = first
      · by_cases right : other = first
        · rw [left, right]
        · rw [left, List.lookup_cons_self, Option.some.injEq] at found
          rw [List.lookup_cons, beq_false_of_ne right] at again
          have above := (slots_from_found _ _ _ _ _ again).2.2.1
          omega
      · rw [List.lookup_cons, beq_false_of_ne left] at found
        by_cases right : other = first
        · rw [right, List.lookup_cons_self, Option.some.injEq] at again
          have above := (slots_from_found _ _ _ _ _ found).2.2.1
          omega
        · rw [List.lookup_cons, beq_false_of_ne right] at again
          exact hyp (start + 1) found again

theorem slots_from_length (inbound defs : List String) (start : Nat) :
    (slotsFrom inbound defs start).length ≤ defs.length := by
  induction defs generalizing start with
  | nil => exact Nat.le_refl _
  | cons first rest hyp =>
    rw [slotsFrom, List.length_cons]
    split
    · exact Nat.le_succ_of_le (hyp start)
    · exact Nat.succ_le_succ (hyp (start + 1))

theorem slots_from_all (inbound defs : List String) (start : Nat)
    (all : (slotsFrom inbound defs start).length = defs.length) (name : String)
    (member : name ∈ defs) : ((slotsFrom inbound defs start).lookup name).isSome = true := by
  induction defs generalizing start with
  | nil => cases member
  | cons first rest hyp =>
    have shorter := slots_from_length inbound rest
    by_cases captured : inbound.contains first = true
    · rw [slotsFrom, if_pos captured, List.length_cons] at all
      have bound := shorter start
      omega
    · rw [slotsFrom, if_neg captured] at all ⊢
      rw [List.length_cons, List.length_cons] at all
      by_cases here : name = first
      · rw [here, List.lookup_cons_self]
        rfl
      · rw [List.lookup_cons, beq_false_of_ne here]
        refine hyp (start + 1) (Nat.succ.inj all) ?_
        exact (List.mem_cons.mp member).resolve_left here

namespace Tree

-- What giving slots leaves as it was.
structure Framed (u t : Tree) : Prop where
  scopes : t.scopes.size = u.scopes.size
  codes : t.codes.size = u.codes.size
  scope : ∀ s, t.scope s =
    { u.scope s with locals := (t.scope s).locals, collapsed := (t.scope s).collapsed }
  code : ∀ c, t.code c = { u.code c with slots := (t.code c).slots }

-- What a slot, or the lack of an environment, tells of a scope.
structure Slotted (t : Tree) : Prop where
  found : ∀ s name slot, (t.scope s).locals.lookup name = some slot →
    name ∈ (t.scope s).defs ∧ name ∉ (t.scope s).inbound ∧
      (t.scope s).mayCollapse (t.code (t.scope s).code) = true ∧ slot < (t.code (t.scope s).code).slots
  distinct : ∀ s s' name other slot, (t.scope s).locals.lookup name = some slot →
    (t.scope s').locals.lookup other = some slot → (t.scope s).code = (t.scope s').code →
      s = s' ∧ name = other
  collapsed : ∀ s, (t.scope s).collapsed = true →
    (t.scope s).mayCollapse (t.code (t.scope s).code) = true ∧
      ∀ name ∈ (t.scope s).defs, ((t.scope s).locals.lookup name).isSome = true

theorem framed_refl (t : Tree) : t.Framed t := by
  exact ⟨rfl, rfl, fun _ => rfl, fun _ => rfl⟩

theorem framed_trans (t u v : Tree) (first : t.Framed u) (second : u.Framed v) : t.Framed v := by
  refine ⟨second.scopes.trans first.scopes, second.codes.trans first.codes, ?_, ?_⟩
  · intro s
    rw [second.scope s, first.scope s]
  · intro c
    rw [second.code c, first.code c]

-- The tree after the bindings of a scope that may collapse have got their slots.
def placed (t : Tree) (id : ScopeId) : Tree :=
  let s := t.scope id
  let locals := slotsFrom s.inbound s.defs (t.code s.code).slots
  let placed := t.modify id fun s =>
    { s with locals := locals, collapsed := s.defs.length == locals.length }
  placed.modifyCode s.code fun c => { c with slots := c.slots + locals.length }

theorem allocate_cases (t : Tree) (id : ScopeId) :
    t.allocate id = t ∨
      (t.scope id).mayCollapse (t.code (t.scope id).code) = true ∧ t.allocate id = t.placed id := by
  rw [allocate]
  by_cases may : (t.scope id).mayCollapse (t.code (t.scope id).code) = true
  · exact Or.inr ⟨may, if_pos may⟩
  · exact Or.inl (if_neg may)

theorem placed_framed (t : Tree) (id : ScopeId) : t.Framed (t.placed id) := by
  refine ⟨size_modify t id _, Array.size_modify, ?_, ?_⟩
  · intro s
    rcases scope_modify t id s _ with same | ⟨_, _, changed⟩
    · exact same.trans (by rw [placed, scope_modify_code, same])
    · exact changed.trans (by rw [placed, scope_modify_code, changed])
  · intro c
    rcases code_modify_code (t.modify id _) (t.scope id).code c _ with same | ⟨_, _, changed⟩
    · exact same.trans (by rw [placed, same]; rfl)
    · exact changed.trans (by rw [placed, changed]; rfl)

theorem framed_may_collapse (t u : Tree) (framed : t.Framed u) (s : ScopeId) :
    (u.scope s).mayCollapse (u.code (u.scope s).code) =
      (t.scope s).mayCollapse (t.code (t.scope s).code) := by
  rw [framed.scope s]
  dsimp only
  rw [framed.code (t.scope s).code]
  rfl

theorem placed_more (t : Tree) (id : ScopeId) (c : Nat) :
    (t.code c).slots ≤ ((t.placed id).code c).slots := by
  rw [placed]
  rcases code_modify_code (t.modify id _) (t.scope id).code c _ with same | ⟨_, _, changed⟩
  · rw [same]
    exact Nat.le_refl _
  · rw [changed]
    exact Nat.le_add_right _ _

theorem placed_slots (t : Tree) (id : ScopeId) (known : (t.scope id).code < t.codes.size) :
    ((t.placed id).code (t.scope id).code).slots = (t.code (t.scope id).code).slots +
      (slotsFrom (t.scope id).inbound (t.scope id).defs (t.code (t.scope id).code).slots).length := by
  exact congrArg CodeScopes.slots (code_modify_code_same (t.modify id _) _ _ known)

theorem placed_slotted (t : Tree) (id : ScopeId) (inside : id < t.scopes.size)
    (known : (t.scope id).code < t.codes.size)
    (may : (t.scope id).mayCollapse (t.code (t.scope id).code) = true) (slotted : t.Slotted) :
    (t.placed id).Slotted := by
  have framed := placed_framed t id
  have slots := placed_slots t id known
  have locals : ((t.placed id).scope id).locals =
      slotsFrom (t.scope id).inbound (t.scope id).defs (t.code (t.scope id).code).slots := by
    rw [placed, scope_modify_code, scope_modify_same t id _ inside]
  have collapsed : ((t.placed id).scope id).collapsed =
      ((t.scope id).defs.length == ((t.placed id).scope id).locals.length) := by
    rw [locals, placed, scope_modify_code, scope_modify_same t id _ inside]
  have alike := framed.scope id
  have code : ((t.placed id).scope id).code = (t.scope id).code := by
    rw [alike]
  have defs : ((t.placed id).scope id).defs = (t.scope id).defs := by
    rw [alike]
  have inbound : ((t.placed id).scope id).inbound = (t.scope id).inbound := by
    rw [alike]
  have there : ∀ s, id ≠ s → (t.placed id).scope s = t.scope s := by
    intro s distinct
    rw [placed, scope_modify_code, scope_modify_other t id s _ distinct]
  -- Slots that were there are below those that are new.
  have old : ∀ s name slot, id ≠ s → ((t.placed id).scope s).locals.lookup name = some slot →
      slot < (t.code ((t.placed id).scope s).code).slots := by
    intro s name slot distinct found
    rw [there s distinct] at found ⊢
    exact (slotted.found s name slot found).2.2.2
  refine ⟨?_, ?_, ?_⟩
  · intro s name slot found
    by_cases same : id = s
    · subst same
      rw [framed_may_collapse t _ framed, code, defs, inbound, slots]
      rw [locals] at found
      obtain ⟨member, free, _, below⟩ := slots_from_found _ _ _ _ _ found
      exact ⟨member, free, may, below⟩
    · have below := Nat.lt_of_lt_of_le (old s name slot same found) (placed_more t id _)
      rw [framed_may_collapse t _ framed]
      rw [there s same] at found below ⊢
      obtain ⟨member, free, may, _⟩ := slotted.found s name slot found
      exact ⟨member, free, may, below⟩
  · intro s s' name other slot found again codes
    by_cases left : id = s
    · subst left
      by_cases right : id = s'
      · subst right
        rw [locals] at found again
        exact ⟨rfl, slots_from_distinct _ _ _ _ _ _ found again⟩
      · have below := old s' other slot right again
        rw [← codes, code] at below
        rw [locals] at found
        have above := (slots_from_found _ _ _ _ _ found).2.2.1
        exact absurd below (Nat.not_lt.mpr above)
    · by_cases right : id = s'
      · subst right
        have below := old s name slot left found
        rw [codes, code] at below
        rw [locals] at again
        have above := (slots_from_found _ _ _ _ _ again).2.2.1
        exact absurd below (Nat.not_lt.mpr above)
      · rw [there s left] at found codes
        rw [there s' right] at again codes
        exact slotted.distinct s s' name other slot found again codes
  · intro s none
    rw [framed_may_collapse t _ framed]
    by_cases same : id = s
    · subst same
      rw [collapsed, locals] at none
      rw [locals, defs]
      refine ⟨may, fun name member => ?_⟩
      exact slots_from_all _ _ _ (beq_iff_eq.mp none).symm name member
    · rw [there s same] at none ⊢
      exact slotted.collapsed s none

theorem slotted_same (t u : Tree) (scopes : ∀ s, u.scope s = t.scope s) (codes : ∀ c, u.code c = t.code c)
    (slotted : t.Slotted) : u.Slotted := by
  refine ⟨?_, ?_, ?_⟩
  · intro s
    rw [scopes, codes]
    exact slotted.found s
  · intro s s'
    rw [scopes, scopes]
    exact slotted.distinct s s'
  · intro s
    rw [scopes, codes]
    exact slotted.collapsed s

theorem allocate_slotted (t : Tree) (id : ScopeId)
    (known : ∀ s, s < t.scopes.size → (t.scope s).code < t.codes.size) (slotted : t.Slotted) :
    t.Framed (t.allocate id) ∧ (t.allocate id).Slotted := by
  rcases allocate_cases t id with same | ⟨may, changed⟩
  · rw [same]
    exact ⟨framed_refl t, slotted⟩
  · rw [changed]
    refine ⟨placed_framed t id, ?_⟩
    by_cases inside : id < t.scopes.size
    · exact placed_slotted t id inside (known id inside) may slotted
    · -- A scope that is not there binds nothing.
      refine slotted_same t _ (fun s => ?_) (fun c => ?_) slotted
      · rcases scope_modify t id s _ with same | ⟨_, contra, _⟩
        · exact same
        · exact absurd contra inside
      · rcases code_modify_code (t.modify id _) (t.scope id).code c _ with same | ⟨_, _, changed⟩
        · exact same
        · rw [placed, changed, scope_unknown t id inside]
          rfl

theorem allocate_all_slotted (t : Tree) (known : ∀ s, s < t.scopes.size → (t.scope s).code < t.codes.size)
    (slotted : t.Slotted) : t.Framed t.allocateAll ∧ t.allocateAll.Slotted := by
  have fold : ∀ (ids : List ScopeId) (u : Tree), t.Framed u → u.Slotted →
      t.Framed (ids.foldl allocate u) ∧ (ids.foldl allocate u).Slotted := by
    intro ids
    induction ids with
    | nil => exact fun u framed slotted => ⟨framed, slotted⟩
    | cons id rest hyp =>
      intro u framed slotted
      have codes : ∀ s, s < u.scopes.size → (u.scope s).code < u.codes.size := by
        intro s inside
        rw [framed.scopes] at inside
        rw [framed.scope s, framed.codes]
        exact known s inside
      have next := allocate_slotted u id codes slotted
      exact hyp (u.allocate id) (framed_trans t u _ framed next.1) next.2
  exact fold _ t (framed_refl t) slotted

/-! The whole analysis. -/

theorem plain_slotted (t : Tree) (plain : ∀ s, (t.scope s).locals = [] ∧ (t.scope s).collapsed = false) :
    t.Slotted := by
  refine ⟨?_, ?_, ?_⟩
  · intro s name slot found
    rw [(plain s).1] at found
    cases found
  · intro s s' name other slot found
    rw [(plain s).1] at found
    cases found
  · intro s none
    rw [(plain s).2] at none
    cases none

-- What holds of the analysis of a tree, whether or not bindings get slots.
structure Analysed (t a : Tree) : Prop where
  alike : ∀ s, (t.scope s).Alike (a.scope s)
  refs : ∀ s, ∀ name ∈ (t.scope s).refs, name ∈ (a.scope s).refs
  directEval : ∀ s, (t.scope s).directEval = true → (a.scope s).directEval = true
  passed : ∀ s o, (a.scope s).outer = some o → (a.scope s).Passed (a.scope o)
  scopes : a.scopes.size = t.scopes.size
  codes : a.codes.size = t.codes.size
  code : ∀ c, a.code c = { t.code c with slots := (a.code c).slots }
  slotted : a.Slotted

variable (t : Tree) (formed : t.WellFormed)
include formed

theorem passed_on_plain (s : ScopeId) :
    ((t.analyze false).scope s).locals = [] ∧ ((t.analyze false).scope s).collapsed = false := by
  have grown := (pass_all_passed t formed.outer_less).2 s
  exact ⟨grown.locals.symm.trans (formed.plain s).1, grown.collapsed.symm.trans (formed.plain s).2⟩

theorem passed_codes (s : ScopeId) (inside : s < t.passAllOn.scopes.size) :
    (t.passAllOn.scope s).code < t.passAllOn.codes.size := by
  rw [pass_all_size] at inside
  rw [← ((pass_all_passed t formed.outer_less).2 s).alike.code, pass_all_codes]
  exact formed.code_known s inside

theorem analyze_framed : (t.analyze false).Framed (t.analyze true) := by
  exact (allocate_all_slotted t.passAllOn (passed_codes t formed)
    (plain_slotted _ (passed_on_plain t formed))).1

theorem passed_on_analysed : t.Analysed (t.analyze false) := by
  have passed := pass_all_passed t formed.outer_less
  refine ⟨fun s => (passed.2 s).alike, fun s => (passed.2 s).refs, fun s => (passed.2 s).directEval,
    fun s o found => passed.1 s o (Nat.zero_le s) found, pass_all_size t, ?_, fun c => ?_,
    plain_slotted _ (passed_on_plain t formed)⟩
  · exact congrArg Array.size (pass_all_codes t)
  · have same : (t.analyze false).code c = t.code c := by
      change t.passAllOn.code c = _
      rw [code, pass_all_codes, code]
    rw [same]

theorem analyze_analysed (collapse : Bool) : t.Analysed (t.analyze collapse) := by
  cases collapse with
  | false => exact passed_on_analysed t formed
  | true =>
    have before := passed_on_analysed t formed
    have framed := analyze_framed t formed
    have slotted := (allocate_all_slotted t.passAllOn (passed_codes t formed) before.slotted).2
    refine ⟨?_, ?_, ?_, ?_, framed.scopes.trans before.scopes, framed.codes.trans before.codes, ?_, slotted⟩
    · intro s
      rw [framed.scope s]
      exact ⟨(before.alike s).kind, (before.alike s).outer, (before.alike s).code, (before.alike s).defs⟩
    · intro s
      rw [framed.scope s]
      exact before.refs s
    · intro s
      rw [framed.scope s]
      exact before.directEval s
    · intro s o found
      rw [framed.scope s] at found
      have passed := before.passed s o found
      rw [framed.scope s, framed.scope o]
      exact ⟨passed.directEval, passed.refs, passed.captured, passed.inbound⟩
    · intro c
      rw [framed.code c, before.code c]

end Tree

end Ecma.Scope

/-!
Where the references of an analysed scope come from. What a scope knows of the code inside it is exactly
what was written there and is bound by no scope in between.
-/

namespace Ecma.Scope.Tree

/-- A scope is another one or lies inside it. -/
inductive Inside (t : Tree) : ScopeId → ScopeId → Prop
  | here (s : ScopeId) : Inside t s s
  | outward (d o s : ScopeId) (outer : (t.scope d).outer = some o) (rest : Inside t o s) : Inside t d s

/-- From a scope outward to another one, no scope binds the name; the last one may. -/
inductive Unbound (t : Tree) (name : String) : ScopeId → ScopeId → Prop
  | here (s : ScopeId) : Unbound t name s s
  | outward (d o s : ScopeId) (outer : (t.scope d).outer = some o) (free : name ∉ (t.scope d).defs)
      (rest : Unbound t name o s) : Unbound t name d s

/-- The name is written in the code of the scope, in it or further inside, and not bound on the way. -/
def Refers (t : Tree) (name : String) (s : ScopeId) : Prop :=
  ∃ d, (t.scope d).code = (t.scope s).code ∧ t.Unbound name d s ∧ name ∈ (t.scope d).refs

/-- The name is written in other code inside the scope and not bound on the way. -/
def Captures (t : Tree) (name : String) (s : ScopeId) : Prop :=
  ∃ d, (t.scope d).code ≠ (t.scope s).code ∧ t.Unbound name d s ∧ name ∈ (t.scope d).refs

/-- Some code in the scope or inside it calls `eval` by its name. -/
def Evaluates (t : Tree) (s : ScopeId) : Prop :=
  ∃ d, t.Inside d s ∧ (t.scope d).directEval = true

/-! Ways outward. -/

theorem inside_further (t : Tree) (d s o : ScopeId) (inside : t.Inside d s)
    (outer : (t.scope s).outer = some o) : t.Inside d o := by
  induction inside with
  | here s => exact .outward s o o outer (.here o)
  | outward d m s next rest hyp => exact .outward d m o next (hyp outer)

theorem unbound_further (t : Tree) (name : String) (d s o : ScopeId) (unbound : t.Unbound name d s)
    (outer : (t.scope s).outer = some o) (free : name ∉ (t.scope s).defs) : t.Unbound name d o := by
  induction unbound with
  | here s => exact .outward s o o outer free (.here o)
  | outward d m s next absent rest hyp => exact .outward d m o next absent (hyp outer free)

theorem unbound_inside (t : Tree) (name : String) (d s : ScopeId) (unbound : t.Unbound name d s) :
    t.Inside d s := by
  induction unbound with
  | here s => exact .here s
  | outward d m s next _ _ hyp => exact .outward d m s next hyp

theorem refers_outward (t : Tree) (name : String) (s o : ScopeId) (outer : (t.scope s).outer = some o)
    (free : name ∉ (t.scope s).defs) (refers : t.Refers name s) :
    if (t.scope s).code = (t.scope o).code then t.Refers name o else t.Captures name o := by
  obtain ⟨d, code, unbound, written⟩ := refers
  have further := unbound_further t name d s o unbound outer free
  by_cases same : (t.scope s).code = (t.scope o).code
  · rw [if_pos same]
    exact ⟨d, code.trans same, further, written⟩
  · rw [if_neg same]
    exact ⟨d, fun equal => same (code.symm.trans equal), further, written⟩

section

variable (t : Tree) (outlined : t.Outlined)
include outlined

theorem outer_code_le (d o : ScopeId) (outer : (t.scope d).outer = some o) :
    (t.scope o).code ≤ (t.scope d).code := by
  by_cases function : (t.scope d).kind = .function
  · exact Nat.le_of_lt (outlined.function_code d o outer function)
  · exact Nat.le_of_eq (outlined.inner_code d o outer function)

theorem inside_code_le (d s : ScopeId) (inside : t.Inside d s) : (t.scope s).code ≤ (t.scope d).code := by
  induction inside with
  | here s => exact Nat.le_refl _
  | outward d m s next _ hyp => exact Nat.le_trans hyp (outer_code_le t outlined d m next)

-- Other code stays other code further outward: what lies inside has the larger numbers.
theorem captures_outward (name : String) (s o : ScopeId) (outer : (t.scope s).outer = some o)
    (free : name ∉ (t.scope s).defs) (captures : t.Captures name s) : t.Captures name o := by
  obtain ⟨d, code, unbound, written⟩ := captures
  have inner := inside_code_le t outlined d s (unbound_inside t name d s unbound)
  have around := outer_code_le t outlined s o outer
  exact ⟨d, by omega, unbound_further t name d s o unbound outer free, written⟩

end

/-! Nothing else is passed on. -/

-- All that a tree says of names and of `eval` was said by another one, at that place or further inside.
structure Sourced (t u : Tree) : Prop where
  alike : ∀ s, (t.scope s).Alike (u.scope s)
  refs : ∀ s, ∀ name ∈ (u.scope s).refs, t.Refers name s
  inbound : ∀ s, ∀ name ∈ (u.scope s).inbound, t.Captures name s
  directEval : ∀ s, (u.scope s).directEval = true → t.Evaluates s

theorem open_mem (names defs : List String) (name : String)
    (member : name ∈ names.filter fun n => !defs.contains n) : name ∈ names ∧ name ∉ defs := by
  obtain ⟨known, free⟩ := List.mem_filter.mp member
  rw [Bool.not_eq_true', Bool.eq_false_iff, ne_eq, List.contains_iff_mem] at free
  exact ⟨known, free⟩

theorem absorb_refs (outer inner : Scope) (name : String) (member : name ∈ (outer.absorb inner).refs) :
    name ∈ outer.refs ∨ inner.code = outer.code ∧ name ∈ inner.refs ∧ name ∉ inner.defs := by
  rw [Scope.absorb] at member
  dsimp only at member
  split at member
  · rename_i same
    rcases (mem_add_names _ _ _).mp member with known | new
    · exact Or.inl known
    · exact Or.inr ⟨beq_iff_eq.mp same, open_mem _ _ name new⟩
  · exact Or.inl member

theorem absorb_inbound (outer inner : Scope) (name : String) (member : name ∈ (outer.absorb inner).inbound) :
    name ∈ outer.inbound ∨ (inner.code ≠ outer.code ∧ name ∈ inner.refs ∨ name ∈ inner.inbound) ∧
      name ∉ inner.defs := by
  rw [Scope.absorb] at member
  dsimp only at member
  rcases (mem_add_names _ _ _).mp member with old | passed
  · split at old
    · exact Or.inl old
    · rename_i different
      rcases (mem_add_names _ _ _).mp old with known | new
      · exact Or.inl known
      · obtain ⟨written, free⟩ := open_mem _ _ name new
        exact Or.inr ⟨Or.inl ⟨fun same => different (beq_iff_eq.mpr same), written⟩, free⟩
  · obtain ⟨captured, free⟩ := open_mem _ _ name passed
    exact Or.inr ⟨Or.inr captured, free⟩

section

variable (t : Tree) (outlined : t.Outlined)
include outlined

theorem pass_on_sourced (u : Tree) (id : ScopeId) (sourced : t.Sourced u) : t.Sourced (u.passOn id) := by
  rw [passOn]
  cases around : (u.scope id).outer with
  | none => exact sourced
  | some o =>
    have inner := sourced.alike id
    have outer : (t.scope id).outer = some o := inner.outer.trans around
    dsimp only
    refine ⟨?_, ?_, ?_, ?_⟩
    · intro s
      rcases scope_modify u o s (fun scope => scope.absorb (u.scope id)) with same | ⟨_, _, changed⟩
      · rw [same]
        exact sourced.alike s
      · rw [changed]
        exact .trans _ _ _ (sourced.alike s) (absorb_grown _ _).alike
    · intro s name member
      rcases scope_modify u o s (fun scope => scope.absorb (u.scope id)) with same | ⟨here, _, changed⟩
      · rw [same] at member
        exact sourced.refs s name member
      · subst here
        rw [changed] at member
        rcases absorb_refs _ _ name member with known | ⟨same, written, free⟩
        · exact sourced.refs o name known
        · rw [← inner.code, ← (sourced.alike o).code] at same
          rw [← inner.defs] at free
          have further := refers_outward t name id o outer free (sourced.refs id name written)
          rw [if_pos same] at further
          exact further
    · intro s name member
      rcases scope_modify u o s (fun scope => scope.absorb (u.scope id)) with same | ⟨here, _, changed⟩
      · rw [same] at member
        exact sourced.inbound s name member
      · subst here
        rw [changed] at member
        rcases absorb_inbound _ _ name member with known | ⟨⟨different, written⟩ | captured, free⟩
        · exact sourced.inbound o name known
        · rw [← inner.code, ← (sourced.alike o).code] at different
          rw [← inner.defs] at free
          have further := refers_outward t name id o outer free (sourced.refs id name written)
          rw [if_neg different] at further
          exact further
        · rw [← inner.defs] at free
          exact captures_outward t outlined name id o outer free (sourced.inbound id name captured)
    · intro s direct
      rcases scope_modify u o s (fun scope => scope.absorb (u.scope id)) with same | ⟨here, _, changed⟩
      · rw [same] at direct
        exact sourced.directEval s direct
      · subst here
        rw [changed, Scope.absorb] at direct
        rcases Bool.or_eq_true_iff.mp direct with known | passed
        · exact sourced.directEval o known
        · obtain ⟨d, inside, calls⟩ := sourced.directEval id passed
          exact ⟨d, inside_further t d id o inside outer, calls⟩

theorem pass_all_sourced (uncaptured : ∀ s, (t.scope s).inbound = []) : t.Sourced t.passAllOn := by
  have fold : ∀ (ids : List ScopeId) (u : Tree), t.Sourced u → t.Sourced (ids.foldl passOn u) := by
    intro ids
    induction ids with
    | nil => exact fun u sourced => sourced
    | cons id rest hyp => exact fun u sourced => hyp _ (pass_on_sourced t outlined u id sourced)
  refine fold _ t ⟨fun s => .refl _, fun s name member => ?_, fun s name member => ?_, fun s direct => ?_⟩
  · exact ⟨s, rfl, .here s, member⟩
  · rw [uncaptured] at member
    cases member
  · exact ⟨s, .here s, direct⟩

end

/-! All of it is passed on. -/

section

variable (t a : Tree) (outlined : t.Outlined) (analysed : t.Analysed a)
include analysed

theorem evaluates_known (d s : ScopeId) (inside : t.Inside d s) (direct : (a.scope d).directEval = true) :
    (a.scope s).directEval = true := by
  induction inside with
  | here s => exact direct
  | outward d o s outer _ hyp =>
    exact hyp ((analysed.passed d o ((analysed.alike d).outer.symm.trans outer)).directEval direct)

theorem captured_known (name : String) (d s : ScopeId) (unbound : t.Unbound name d s)
    (known : name ∈ (a.scope d).inbound) : name ∈ (a.scope s).inbound := by
  induction unbound with
  | here s => exact known
  | outward d o s outer free _ hyp =>
    have passed := analysed.passed d o ((analysed.alike d).outer.symm.trans outer)
    rw [(analysed.alike d).defs] at free
    exact hyp (passed.inbound name known free)

include outlined in
theorem referred_known (name : String) (d s : ScopeId) (unbound : t.Unbound name d s)
    (known : name ∈ (a.scope d).refs) :
    ((t.scope d).code = (t.scope s).code → name ∈ (a.scope s).refs) ∧
      ((t.scope d).code ≠ (t.scope s).code → name ∈ (a.scope s).inbound) := by
  induction unbound with
  | here s => exact ⟨fun _ => known, fun different => absurd rfl different⟩
  | outward d o s outer free rest hyp =>
    have passed := analysed.passed d o ((analysed.alike d).outer.symm.trans outer)
    have around := outer_code_le t outlined d o outer
    have beyond := inside_code_le t outlined o s (unbound_inside t name o s rest)
    rw [(analysed.alike d).defs] at free
    by_cases same : (t.scope d).code = (t.scope o).code
    · have codes : (a.scope d).code = (a.scope o).code := by
        rw [← (analysed.alike d).code, ← (analysed.alike o).code]
        exact same
      rw [same]
      exact hyp (passed.refs codes name known free)
    · have codes : (a.scope d).code ≠ (a.scope o).code := by
        rw [← (analysed.alike d).code, ← (analysed.alike o).code]
        exact same
      refine ⟨fun equal => absurd equal (by omega), fun _ => ?_⟩
      exact captured_known t a analysed name o s rest (passed.captured codes name known free)

end

/-! What the analysis finds, exactly. -/

-- What an analysed tree says of names and of `eval` is what is written in the tree.
structure Reported (t a : Tree) : Prop where
  refs : ∀ s name, name ∈ (a.scope s).refs ↔ t.Refers name s
  inbound : ∀ s name, name ∈ (a.scope s).inbound ↔ t.Captures name s
  directEval : ∀ s, (a.scope s).directEval = true ↔ t.Evaluates s

theorem passed_on_reported (t : Tree) (formed : t.WellFormed) : t.Reported (t.analyze false) := by
  have sourced := pass_all_sourced t formed.toOutlined formed.uncaptured
  have analysed := passed_on_analysed t formed
  refine ⟨fun s name => ⟨sourced.refs s name, ?_⟩, fun s name => ⟨sourced.inbound s name, ?_⟩,
    fun s => ⟨sourced.directEval s, ?_⟩⟩
  · rintro ⟨d, code, unbound, written⟩
    exact (referred_known t _ formed.toOutlined analysed name d s unbound (analysed.refs d name written)).1 code
  · rintro ⟨d, code, unbound, written⟩
    exact (referred_known t _ formed.toOutlined analysed name d s unbound (analysed.refs d name written)).2 code
  · rintro ⟨d, inside, calls⟩
    exact evaluates_known t _ analysed d s inside (analysed.directEval d calls)

theorem analyze_reported (t : Tree) (formed : t.WellFormed) (collapse : Bool) :
    t.Reported (t.analyze collapse) := by
  cases collapse with
  | false => exact passed_on_reported t formed
  | true =>
    have before := passed_on_reported t formed
    have framed := analyze_framed t formed
    refine ⟨fun s => ?_, fun s => ?_, fun s => ?_⟩
    · rw [framed.scope s]
      exact before.refs s
    · rw [framed.scope s]
      exact before.inbound s
    · rw [framed.scope s]
      exact before.directEval s

end Ecma.Scope.Tree
