import Ecma.Proofs.Scope.Slots
import Ecma.Scope.Resolution

set_option autoImplicit false

/-!
Where resolution leads. The same name is resolved in the scopes as they are with slots and as they are
without them: the way outward is the same, and a slot stands for a binding of the same unit of code.
-/

namespace Ecma.Scope

/-- The same place seen from so many environments further inside. -/
def Resolution.further (links : Nat) : Resolution → Resolution
  | .slot index => .slot index
  | .fixed skip => .fixed (skip + links)
  | .global => .global
  | .dynamic skip => .dynamic (skip + links)

theorem further_further (r : Resolution) (first second : Nat) :
    (r.further first).further second = r.further (first + second) := by
  cases r <;> simp only [Resolution.further, Nat.add_assoc]

namespace Tree

/-- The way outward through scopes that bind exactly what they list and do not bind the name, with the
number of environments passed, first where scopes can be without one and then where none is. -/
inductive Path (a : Tree) (name : String) : ScopeId → Nat → Nat → ScopeId → Prop
  | here (s : ScopeId) : Path a name s 0 0 s
  | further (s o u : ScopeId) (few all : Nat) (closed : (a.scope s).isClosed = true)
      (unbound : name ∉ (a.scope s).defs) (outer : (a.scope s).outer = some o)
      (rest : Path a name o few all u) :
      Path a name s (if (a.scope s).collapsed then few else few + 1) (all + 1) u

/-- No scope on the way outward has a slot for the name, up to the first one that binds it. -/
inductive Unslotted (a : Tree) (name : String) : ScopeId → Prop
  | bound (s : ScopeId) (free : (a.scope s).locals.lookup name = none)
      (member : name ∈ (a.scope s).defs) : Unslotted a name s
  | passed (s : ScopeId) (free : (a.scope s).locals.lookup name = none)
      (outer : ∀ o, (a.scope s).outer = some o → Unslotted a name o) : Unslotted a name s

/-- What a name that some code refers to is resolved to from a scope on, with slots and without. -/
inductive Leads (a : Tree) (name : String) (code : Nat) (s : ScopeId) : Resolution → Resolution → Prop
  | slot (u : ScopeId) (few all index : Nat) (path : Path a name s few all u)
      (found : (a.scope u).locals.lookup name = some index) (same : (a.scope u).code = code) :
      Leads a name code s (.slot index) (.fixed all)
  | fixed (u : ScopeId) (few all : Nat) (path : Path a name s few all u)
      (free : (a.scope u).locals.lookup name = none) (member : name ∈ (a.scope u).defs)
      (kind : (a.scope u).kind.isRoot = false) : Leads a name code s (.fixed few) (.fixed all)
  | global (u : ScopeId) (few all : Nat) (path : Path a name s few all u)
      (kind : (a.scope u).kind = .global) : Leads a name code s .global .global
  | dynamic (u : ScopeId) (few all : Nat) (path : Path a name s few all u)
      (unslotted : Unslotted a name u) : Leads a name code s (.dynamic few) (.dynamic all)

-- A name referred to in some code is known on the way outward, beyond that code as captured.
def Known (a : Tree) (name : String) (code : Nat) (s : ScopeId) : Prop :=
  ((a.scope s).code = code ∧ name ∈ (a.scope s).refs) ∨
    ((a.scope s).code < code ∧ name ∈ (a.scope s).inbound)

section

variable (t a : Tree) (formed : t.WellFormed) (analysed : t.Analysed a)
include formed analysed

theorem outer_code (s o : ScopeId) (outer : (a.scope s).outer = some o) :
    (a.scope o).code ≤ (a.scope s).code := by
  rw [← (analysed.alike s).outer] at outer
  rw [← (analysed.alike s).code, ← (analysed.alike o).code]
  by_cases function : (t.scope s).kind = .function
  · exact Nat.le_of_lt (formed.function_code s o outer function)
  · exact Nat.le_of_eq (formed.inner_code s o outer function)

theorem known_outward (name : String) (code : Nat) (s o : ScopeId)
    (outer : (a.scope s).outer = some o) (unbound : name ∉ (a.scope s).defs)
    (known : Known a name code s) : Known a name code o := by
  have passed := analysed.passed s o outer
  have order := outer_code t a formed analysed s o outer
  rcases known with ⟨same, member⟩ | ⟨beyond, member⟩
  · by_cases codes : (a.scope s).code = (a.scope o).code
    · exact Or.inl ⟨codes.symm.trans same, passed.refs codes name member unbound⟩
    · refine Or.inr ⟨?_, passed.captured codes name member unbound⟩
      rw [← same]
      exact Nat.lt_of_le_of_ne order (Ne.symm codes)
  · exact Or.inr ⟨Nat.lt_of_le_of_lt order beyond, passed.inbound name member unbound⟩

omit formed in
theorem slot_code (name : String) (code : Nat) (s : ScopeId) (slot : Nat)
    (found : (a.scope s).locals.lookup name = some slot) (known : Known a name code s) :
    (a.scope s).code = code := by
  rcases known with ⟨same, _⟩ | ⟨_, member⟩
  · exact same
  · exact absurd member (analysed.slotted.found s name slot found).2.1

-- Beyond a scope that is open to other names there are no slots that the name could mean.
theorem unslotted_outward (name : String) (code : Nat) (s : ScopeId) (known : Known a name code s)
    (barred : (a.scope s).code = code →
      (a.scope s).directEval = true ∨ (a.code code).usesWith = true) : Unslotted a name s := by
  have free : (a.scope s).locals.lookup name = none := by
    refine Option.eq_none_iff_forall_ne_some.mpr fun slot found => ?_
    have same := slot_code t a analysed name code s slot found known
    have may := (analysed.slotted.found s name slot found).2.2.1
    rw [same, Scope.mayCollapse] at may
    rcases barred same with direct | uses
    · rw [direct] at may
      cases may
    · rw [uses, Bool.not_true, Bool.and_false] at may
      cases may
  by_cases member : name ∈ (a.scope s).defs
  · exact .bound s free member
  · refine .passed s free fun o outer => ?_
    have less : o < s := by
      rw [← (analysed.alike s).outer] at outer
      exact formed.outer_less s o outer
    have order := outer_code t a formed analysed s o outer
    refine unslotted_outward name code o
      (known_outward t a formed analysed name code s o outer member known) fun same => ?_
    have here : (a.scope s).code = code := by
      rcases known with ⟨here, _⟩ | ⟨beyond, _⟩
      · exact here
      · exact absurd (same ▸ order) (Nat.not_le.mpr beyond)
    rcases barred here with direct | uses
    · exact Or.inl ((analysed.passed s o outer).directEval direct)
    · exact Or.inr uses
  termination_by s

theorem open_unslotted (name : String) (code : Nat) (s : ScopeId) (known : Known a name code s)
    (free : (a.scope s).locals.lookup name = none) (closed : ¬ (a.scope s).isClosed = true) :
    Unslotted a name s := by
  have alike := analysed.alike s
  by_cases direct : (a.scope s).directEval = true
  · exact unslotted_outward t a formed analysed name code s known fun _ => Or.inl direct
  by_cases object : (a.scope s).kind = .withObject
  · refine unslotted_outward t a formed analysed name code s known fun same => Or.inr ?_
    have uses := formed.with_code s (alike.kind.trans object)
    rw [← same, ← alike.code, analysed.code]
    exact uses
  · -- Nothing is around a scope of any other kind.
    have root : (t.scope s).kind.isRoot = true := by
      rw [alike.kind]
      rw [Scope.isClosed] at closed
      cases kind : (a.scope s).kind <;> rw [kind] at closed object
      case global | eval => rfl
      case withObject => exact absurd rfl object
      all_goals exact absurd (by rw [Bool.eq_false_iff.mpr direct]; rfl) closed
    refine .passed s free fun o outer => ?_
    rw [← alike.outer, (formed.root s).mp root] at outer
    cases outer

end

/-! Resolution from the inside outward. -/

theorem resolve_bound (t : Tree) (name : String) (fuel : Nat) (s : ScopeId) (sure : Bool) (skip slot : Nat)
    (found : (t.scope s).locals.lookup name = some slot) :
    t.resolveFrom name (fuel + 1) s sure skip = .slot slot := by
  rw [resolveFrom]
  dsimp only
  rw [found]

theorem resolve_step (t : Tree) (name : String) (fuel : Nat) (s : ScopeId) (sure : Bool) (skip : Nat)
    (free : (t.scope s).locals.lookup name = none) :
    t.resolveFrom name (fuel + 1) s sure skip =
      if (t.scope s).kind = .eval then .dynamic skip
      else if (t.scope s).defs.contains name then
        if !sure then .dynamic skip
        else if (t.scope s).kind = .global then .global
        else .fixed skip
      else
        match (t.scope s).outer with
        | none => .dynamic (if (sure && (t.scope s).isClosed) && !(t.scope s).collapsed then skip + 1 else skip)
        | some outer => t.resolveFrom name fuel outer (sure && (t.scope s).isClosed)
            (if (sure && (t.scope s).isClosed) && !(t.scope s).collapsed then skip + 1 else skip) := by
  simp only [resolveFrom, free] <;> rfl

theorem resolve_further (t : Tree) (name : String) (fuel : Nat) (s : ScopeId) (sure : Bool) (skip : Nat) :
    t.resolveFrom name fuel s sure skip = (t.resolveFrom name fuel s sure 0).further skip := by
  induction fuel generalizing s sure skip with
  | zero => simp only [resolveFrom, Resolution.further, Nat.zero_add]
  | succ fuel hyp =>
    cases found : (t.scope s).locals.lookup name with
    | some slot =>
      rw [resolve_bound t name fuel s sure skip slot found, resolve_bound t name fuel s sure 0 slot found]
      rfl
    | none =>
      rw [resolve_step t name fuel s sure skip found, resolve_step t name fuel s sure 0 found]
      by_cases eval : (t.scope s).kind = .eval
      · rw [if_pos eval, if_pos eval, Resolution.further, Nat.zero_add]
      rw [if_neg eval, if_neg eval]
      by_cases bound : (t.scope s).defs.contains name = true
      · rw [if_pos bound, if_pos bound]
        split
        · rw [Resolution.further, Nat.zero_add]
        · split
          · rfl
          · rw [Resolution.further, Nat.zero_add]
      rw [if_neg bound, if_neg bound]
      generalize (sure && (t.scope s).isClosed) = still
      generalize (still && !(t.scope s).collapsed) = counts
      cases (t.scope s).outer with
      | none =>
        cases counts with
        | false => simp [Resolution.further]
        | true => simp [Resolution.further, Nat.add_comm]
      | some outer =>
        dsimp only
        rw [hyp outer still (if counts = true then skip + 1 else skip),
          hyp outer still (if counts = true then 0 + 1 else 0), further_further]
        cases counts with
        | false => simp
        | true => simp [Nat.add_comm]

theorem resolve_unsure (t : Tree) (name : String) (fuel : Nat) (s : ScopeId) (unslotted : Unslotted t name s) :
    t.resolveFrom name fuel s false 0 = .dynamic 0 := by
  induction fuel generalizing s with
  | zero => rfl
  | succ fuel hyp =>
    cases unslotted with
    | bound _ free member =>
      rw [resolve_step t name fuel s false 0 free]
      have bound := List.contains_iff_mem.mpr member
      rw [if_pos bound]
      split <;> rfl
    | passed _ free outer =>
      rw [resolve_step t name fuel s false 0 free]
      cases found : (t.scope s).outer with
      | none => split <;> (try split) <;> rfl
      | some o =>
        have rest := hyp o (outer o found)
        simp only [Bool.false_and, Bool.false_eq_true, if_false]
        rw [rest]
        split <;> (try split) <;> rfl

theorem plain_unslotted (b : Tree) (plain : ∀ s, (b.scope s).locals = [] ∧ (b.scope s).collapsed = false)
    (name : String) (s : ScopeId) (less : ∀ s o, (b.scope s).outer = some o → o < s) :
    Unslotted b name s := by
  refine .passed s ?_ fun o outer => ?_
  · rw [(plain s).1, List.lookup_nil]
  · have below := less s o outer
    exact plain_unslotted b plain name o less
  termination_by s

theorem leads_further (a : Tree) (name : String) (code : Nat) (s o : ScopeId)
    (closed : (a.scope s).isClosed = true) (unbound : name ∉ (a.scope s).defs)
    (outer : (a.scope s).outer = some o) (r r' : Resolution) (leads : Leads a name code o r r') :
    Leads a name code s (r.further (if (!(a.scope s).collapsed) = true then 0 + 1 else 0)) (r'.further 1) := by
  have path : ∀ u few all, Path a name o few all u →
      Path a name s (few + if (!(a.scope s).collapsed) = true then 0 + 1 else 0) (all + 1) u := by
    intro u few all rest
    have whole := Path.further s o u few all closed unbound outer rest
    cases collapsed : (a.scope s).collapsed with
    | true =>
      rw [collapsed] at whole
      exact whole
    | false =>
      rw [collapsed] at whole
      exact whole
  cases leads with
  | slot u few all index rest found same => exact .slot u _ _ index (path u few all rest) found same
  | fixed u few all rest free member kind => exact .fixed u _ _ (path u few all rest) free member kind
  | global u few all rest kind => exact .global u _ _ (path u few all rest) kind
  | dynamic u few all rest unslotted => exact .dynamic u _ _ (path u few all rest) unslotted

section

variable (t a b : Tree) (formed : t.WellFormed) (analysed : t.Analysed a) (framed : b.Framed a)
  (plain : ∀ s, (b.scope s).locals = [] ∧ (b.scope s).collapsed = false)
include formed analysed framed plain

theorem resolve_leads (name : String) (code fuel : Nat) (s : ScopeId) (enough : s < fuel)
    (inside : s < t.scopes.size) (known : Known a name code s) :
    Leads a name code s (a.resolveFrom name fuel s true 0) (b.resolveFrom name fuel s true 0) := by
  induction fuel generalizing s with
  | zero => cases enough
  | succ fuel hyp =>
  have alike := analysed.alike s
  have same := framed.scope s
  have kinds : (b.scope s).kind = (a.scope s).kind := by
    rw [same]
  have outers : (b.scope s).outer = (a.scope s).outer := by
    rw [same]
  have binds : (b.scope s).defs = (a.scope s).defs := by
    rw [same]
  have closes : (b.scope s).isClosed = (a.scope s).isClosed := by
    rw [same]
    rfl
  have free : (b.scope s).locals.lookup name = none := by
    rw [(plain s).1, List.lookup_nil]
  have less : ∀ o, (a.scope s).outer = some o → o < s := by
    intro o outer
    rw [← alike.outer] at outer
    exact formed.outer_less s o outer
  rw [resolve_step b name fuel s true 0 free, kinds, outers, binds, closes, (plain s).2]
  cases slot : (a.scope s).locals.lookup name with
  | some index =>
    have found := analysed.slotted.found s name index slot
    have bound : (a.scope s).defs.contains name = true := List.contains_iff_mem.mpr found.1
    -- Only scopes of functions have slots.
    have function : (a.scope s).kind.isRoot = false := by
      refine Bool.eq_false_iff.mpr fun root => ?_
      have may := found.2.2.1
      rw [← alike.kind] at root
      refine formed.root_code s inside root ?_
      rw [alike.code]
      rw [Scope.mayCollapse, analysed.code] at may
      simp only [Bool.and_eq_true, beq_iff_eq] at may
      exact may.1.2
    rw [resolve_bound a name fuel s true 0 index slot, if_neg, if_pos bound, if_neg, if_neg]
    · exact .slot s 0 0 index (.here s) slot (slot_code t a analysed name code s index slot known)
    · intro global
      rw [global] at function
      cases function
    · exact Bool.false_ne_true
    · intro eval
      rw [eval] at function
      cases function
  | none =>
    rw [resolve_step a name fuel s true 0 slot]
    by_cases eval : (a.scope s).kind = .eval
    · rw [if_pos eval, if_pos eval]
      refine .dynamic s 0 0 (.here s) (.passed s slot fun o outer => ?_)
      have root : (t.scope s).kind.isRoot = true := by
        rw [alike.kind, eval]
        rfl
      rw [← alike.outer, (formed.root s).mp root] at outer
      cases outer
    rw [if_neg eval, if_neg eval]
    by_cases bound : (a.scope s).defs.contains name = true
    · have member := List.contains_iff_mem.mp bound
      rw [if_pos bound, if_pos bound, Bool.not_true, if_neg Bool.false_ne_true]
      by_cases global : (a.scope s).kind = .global
      · rw [if_pos global]
        exact .global s 0 0 (.here s) global
      · rw [if_neg global]
        refine .fixed s 0 0 (.here s) slot member ?_
        cases kind : (a.scope s).kind with
        | global => exact absurd kind global
        | eval => exact absurd kind eval
        | _ => rfl
    have unbound : name ∉ (a.scope s).defs := fun member => bound (List.contains_iff_mem.mpr member)
    rw [if_neg bound, if_neg bound, Bool.true_and]
    by_cases closed : (a.scope s).isClosed = true
    · cases outer : (a.scope s).outer with
      | none =>
        have root := (formed.root s).mpr (alike.outer.trans outer)
        rw [alike.kind] at root
        rw [Scope.isClosed] at closed
        cases kind : (a.scope s).kind <;> rw [kind] at closed root
        all_goals first | (cases root; done) | (simp at closed; done)
      | some o =>
        have below := less o outer
        have next := hyp o (Nat.lt_of_lt_of_le below (Nat.le_of_lt_succ enough))
          (Nat.lt_trans below inside) (known_outward t a formed analysed name code s o outer unbound known)
        dsimp only
        rw [closed, Bool.true_and, Bool.true_and, resolve_further a, resolve_further b]
        exact leads_further a name code s o closed unbound outer _ _ next
    · have unslotted := open_unslotted t a formed analysed name code s known slot closed
      rw [Bool.eq_false_iff.mpr closed]
      cases outer : (a.scope s).outer with
      | none => exact .dynamic s 0 0 (.here s) unslotted
      | some o =>
        dsimp only
        have beyond : Unslotted a name o := by
          cases unslotted with
          | bound _ _ member => exact absurd member unbound
          | passed _ _ rest => exact rest o outer
        have ordered : ∀ s o, (b.scope s).outer = some o → o < s := by
          intro s o outer
          refine formed.outer_less s o ((analysed.alike s).outer.trans ?_)
          rw [framed.scope s]
          exact outer
        have first := resolve_unsure a name fuel o beyond
        have second := resolve_unsure b name fuel o (plain_unslotted b plain name o ordered)
        simp only [Bool.false_and, Bool.false_eq_true, if_false, first, second]
        exact .dynamic s 0 0 (.here s) unslotted

end

theorem reference_leads (t : Tree) (formed : t.WellFormed) (name : String) (s : ScopeId)
    (inside : s < t.scopes.size) (member : name ∈ (t.scope s).refs) :
    Leads (t.analyze true) name (t.scope s).code s ((t.analyze true).resolve s name)
      ((t.analyze false).resolve s name) := by
  have analysed := analyze_analysed t formed true
  have known : Known (t.analyze true) name (t.scope s).code s :=
    Or.inl ⟨(analysed.alike s).code.symm, analysed.refs s name member⟩
  have framed := analyze_framed t formed
  rw [resolve, resolve, framed.scopes, (analyze_analysed t formed false).scopes]
  exact resolve_leads t _ _ formed analysed framed (passed_on_plain t formed) name _ _ s inside inside known

end Tree

end Ecma.Scope
