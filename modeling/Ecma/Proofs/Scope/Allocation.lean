import Ecma.Proofs.Scope.Slots
import Ecma.Proofs.Syntax.Part
import Mathlib.Data.List.Nodup

set_option autoImplicit false

/-!
Which bindings get slots, exactly. Every scope gets its turn once, after those inside it, so the slots of
a unit of code are numbered without gaps.
-/

namespace Ecma.Scope

theorem slots_from_given (inbound defs : List String) (start : Nat) (name : String) (member : name ∈ defs)
    (free : name ∉ inbound) : ((slotsFrom inbound defs start).lookup name).isSome = true := by
  induction defs generalizing start with
  | nil => cases member
  | cons first rest hyp =>
    by_cases here : name = first
    · subst here
      rw [slotsFrom, if_neg (fun captured => free (List.contains_iff_mem.mp captured)), List.lookup_cons_self]
      rfl
    · have later := (List.mem_cons.mp member).resolve_left here
      rw [slotsFrom]
      split
      · exact hyp start later
      · rw [List.lookup_cons, beq_false_of_ne here]
        exact hyp (start + 1) later

theorem slots_from_full (inbound defs : List String) (start : Nat) (free : ∀ name ∈ defs, name ∉ inbound) :
    (slotsFrom inbound defs start).length = defs.length := by
  induction defs generalizing start with
  | nil => rfl
  | cons first rest hyp =>
    have here := free first List.mem_cons_self
    rw [slotsFrom, if_neg (fun captured => here (List.contains_iff_mem.mp captured)), List.length_cons,
      hyp (start + 1) fun name member => free name (List.mem_cons_of_mem first member), List.length_cons]

-- Names that are all different leave no slot to a name that another one hides.
theorem slots_from_filled (inbound defs : List String) (start slot : Nat) (distinct : defs.Nodup)
    (above : start ≤ slot) (below : slot < start + (slotsFrom inbound defs start).length) :
    ∃ name, (slotsFrom inbound defs start).lookup name = some slot := by
  induction defs generalizing start with
  | nil => exact absurd below (Nat.not_lt.mpr above)
  | cons first rest hyp =>
    obtain ⟨new, others⟩ := List.nodup_cons.mp distinct
    rw [slotsFrom] at below ⊢
    split at below
    · rename_i captured
      rw [if_pos captured]
      exact hyp start others above below
    · rename_i free
      rw [if_neg free]
      by_cases here : slot = start
      · exact ⟨first, by rw [List.lookup_cons_self, here]⟩
      · rw [List.length_cons] at below
        obtain ⟨name, found⟩ := hyp (start + 1) others (by omega) (by omega)
        refine ⟨name, ?_⟩
        have member := (slots_from_found _ _ _ _ _ found).1
        rw [List.lookup_cons, beq_false_of_ne fun same : name = first => new (same ▸ member)]
        exact found

namespace Tree

/-! Every scope once. -/

section

variable (t : Tree) (nested : ∀ o, (t.scope o).inners = t.insideOf o)

theorem mem_inside_of (s o : ScopeId) : s ∈ t.insideOf o ↔ (t.scope s).outer = some o := by
  rw [insideOf, List.mem_filter, List.mem_range, beq_iff_eq]
  refine ⟨And.right, fun outer => ⟨Decidable.byContradiction fun unknown => ?_, outer⟩⟩
  rw [scope_unknown t s unknown] at outer
  cases outer

theorem inside_known (d s : ScopeId) (inside : t.Inside d s) (known : s < t.scopes.size) :
    d < t.scopes.size := by
  cases inside with
  | here => exact known
  | outward _ o _ outer _ =>
    rw [← mem_inside_of] at outer
    exact List.mem_range.mp (List.mem_filter.mp outer).1

theorem inside_last (d s : Nat) (inside : t.Inside d s) :
    d = s ∨ ∃ x : Nat, (t.scope x).outer = some s ∧ t.Inside d x := by
  induction inside with
  | here s => exact Or.inl rfl
  | outward d o s outer rest hyp =>
    rcases hyp with same | ⟨x, around, inside⟩
    · exact Or.inr ⟨d, same ▸ outer, .here d⟩
    · exact Or.inr ⟨x, around, .outward d o x outer inside⟩

-- There is only one way outward.
theorem inside_chain (d x y : ScopeId) (first : t.Inside d x) (second : t.Inside d y) :
    t.Inside x y ∨ t.Inside y x := by
  induction first with
  | here x => exact Or.inl second
  | outward d o x outer rest hyp =>
    cases second with
    | here => exact Or.inr (.outward _ o x outer rest)
    | outward _ o' _ outer' rest' =>
      rw [outer] at outer'
      cases outer'
      exact hyp rest'

include nested in
theorem postorder_inside (fuel r s : Nat) (member : s ∈ t.postorder fuel r) : t.Inside s r := by
  induction fuel generalizing r with
  | zero =>
    rw [postorder, List.mem_singleton] at member
    rw [member]
    exact .here r
  | succ fuel hyp =>
    rw [postorder, List.mem_append, List.mem_singleton, List.mem_flatMap] at member
    rcases member with ⟨x, inner, later⟩ | rfl
    · rw [nested, mem_inside_of] at inner
      exact inside_further t s x r (hyp x later) inner
    · exact .here s

section

variable (less : ∀ s o : Nat, (t.scope s).outer = some o → o < s)

include less in
theorem inside_not_less (d s : Nat) (inside : t.Inside d s) : s ≤ d := by
  induction inside with
  | here s => exact Nat.le_refl _
  | outward d o s outer _ hyp => exact Nat.le_trans hyp (Nat.le_of_lt (less d o outer))

include nested less in
theorem inside_postorder (fuel r s : Nat) (inside : t.Inside s r) (enough : s - r ≤ fuel) :
    s ∈ t.postorder fuel r := by
  induction fuel generalizing r with
  | zero =>
    have above := inside_not_less t less s r inside
    rw [postorder, List.mem_singleton]
    omega
  | succ fuel hyp =>
    rw [postorder, List.mem_append, List.mem_singleton, List.mem_flatMap]
    rcases inside_last t s r inside with same | ⟨x, outer, within⟩
    · exact Or.inr same
    · have around := less x r outer
      refine Or.inl ⟨x, ?_, hyp x within (by omega)⟩
      rw [nested, mem_inside_of]
      exact outer

include less in
-- Scopes side by side have nothing in common.
theorem siblings_apart (d o x y : Nat) (left : (t.scope x).outer = some o)
    (right : (t.scope y).outer = some o) (first : t.Inside d x) (second : t.Inside d y) : x = y := by
  have apart : ∀ v w : Nat, (t.scope v).outer = some o → (t.scope w).outer = some o → t.Inside v w → v = w := by
    intro v w outer around inside
    cases inside with
    | here => rfl
    | outward _ o' _ outer' rest =>
      rw [outer] at outer'
      cases outer'
      have above := inside_not_less t less o w rest
      have below := less w o around
      omega
  rcases inside_chain t d x y first second with inside | inside
  · exact apart x y left right inside
  · exact (apart y x right left inside).symm

include nested less in
theorem postorder_nodup (fuel r : Nat) : (t.postorder fuel r).Nodup := by
  induction fuel generalizing r with
  | zero => exact List.nodup_singleton r
  | succ fuel hyp =>
    have inner : ∀ x ∈ (t.scope r).inners, (t.scope x).outer = some r := by
      intro x member
      rw [nested, mem_inside_of] at member
      exact member
    have once : ((t.scope r).inners.flatMap (t.postorder fuel)).Nodup := by
      refine List.nodup_flatMap.mpr ⟨fun x _ => hyp x, ?_⟩
      refine List.Nodup.pairwise_of_forall_ne ?_ fun x left y right distinct s first second => ?_
      · rw [nested]
        exact List.Nodup.filter _ List.nodup_range
      · exact distinct (siblings_apart t less s r x y (inner x left) (inner y right)
          (postorder_inside t nested fuel x s first) (postorder_inside t nested fuel y s second))
    rw [postorder]
    refine List.nodup_append.mpr ⟨once, List.nodup_singleton r, fun s first s' last same => ?_⟩
    obtain ⟨x, member, later⟩ := List.mem_flatMap.mp first
    have above : x ≤ s := inside_not_less t less s x (postorder_inside t nested fuel x s later)
    have below := less x r (inner x member)
    rw [same, List.mem_singleton.mp last] at above
    exact absurd below (Nat.not_lt.mpr above)

/-- The scopes in the order in which they get their slots. -/
def order : List ScopeId :=
  ((List.range t.scopes.size).filter fun id => (t.scope id).outer.isNone).flatMap (t.postorder t.scopes.size)

include less in
theorem inside_root (s : Nat) (known : s < t.scopes.size) :
    ∃ r : Nat, r < t.scopes.size ∧ (t.scope r).outer = none ∧ t.Inside s r := by
  induction s using Nat.strongRecOn with
  | ind s hyp =>
    cases outer : (t.scope s).outer with
    | none => exact ⟨s, known, outer, .here s⟩
    | some o =>
      have below := less s o outer
      obtain ⟨r, inside, root, rest⟩ := hyp o below (Nat.lt_trans below known)
      exact ⟨r, inside, root, .outward s o r outer rest⟩

include nested less in
theorem mem_order (s : Nat) (known : s < t.scopes.size) : s ∈ t.order := by
  obtain ⟨r, inside, root, rest⟩ := inside_root t less s known
  refine List.mem_flatMap.mpr ⟨r, ?_, inside_postorder t nested less _ r s rest (by omega)⟩
  rw [List.mem_filter, List.mem_range, root]
  exact ⟨inside, rfl⟩

include nested less in
theorem order_nodup : t.order.Nodup := by
  have root : ∀ x y, (t.scope x).outer = none → t.Inside x y → x = y := by
    intro x y outer inside
    cases inside with
    | here => rfl
    | outward _ o _ around _ =>
      rw [outer] at around
      cases around
  refine List.nodup_flatMap.mpr ⟨fun r _ => postorder_nodup t nested less _ r, ?_⟩
  refine List.Nodup.pairwise_of_forall_ne (List.Nodup.filter _ List.nodup_range) ?_
  intro x left y right distinct s first second
  have leftRoot := Option.isNone_iff_eq_none.mp (List.mem_filter.mp left).2
  have rightRoot := Option.isNone_iff_eq_none.mp (List.mem_filter.mp right).2
  rcases inside_chain t s x y (postorder_inside t nested _ x s first) (postorder_inside t nested _ y s second)
    with inside | inside
  · exact distinct (root x y leftRoot inside)
  · exact distinct (root y x rightRoot inside).symm

end

end

/-! Slots are given. -/

-- The bindings of some scopes of a tree have got their slots, those of the others have not.
structure Allocated (t u : Tree) (done : List ScopeId) : Prop where
  framed : t.Framed u
  slotted : u.Slotted
  later : ∀ s, s ∉ done → (u.scope s).locals = [] ∧ (u.scope s).collapsed = false
  given : ∀ s ∈ done, (t.scope s).mayCollapse (t.code (t.scope s).code) = true →
    (∀ name ∈ (t.scope s).defs, name ∉ (t.scope s).inbound →
      ((u.scope s).locals.lookup name).isSome = true) ∧
    ((∀ name ∈ (t.scope s).defs, ((u.scope s).locals.lookup name).isSome = true) →
      (u.scope s).collapsed = true)
  filled : ∀ c slot, slot < (u.code c).slots →
    ∃ s name, (t.scope s).code = c ∧ (u.scope s).locals.lookup name = some slot

section

variable (t : Tree) (distinct : ∀ s, (t.scope s).defs.Nodup)
  (known : ∀ s, s < t.scopes.size → (t.scope s).code < t.codes.size)

include distinct in
theorem placed_filled (u : Tree) (done : List ScopeId) (id : ScopeId) (new : id ∉ done)
    (inside : id < u.scopes.size) (code : (u.scope id).code < u.codes.size) (allocated : Allocated t u done)
    (c slot : Nat) (below : slot < ((u.placed id).code c).slots) :
    ∃ s name, (t.scope s).code = c ∧ ((u.placed id).scope s).locals.lookup name = some slot := by
  have alike := allocated.framed.scope id
  have locals : ((u.placed id).scope id).locals =
      slotsFrom (u.scope id).inbound (u.scope id).defs (u.code (u.scope id).code).slots := by
    rw [placed, scope_modify_code, scope_modify_same u id _ inside]
  by_cases old : slot < (u.code c).slots
  · obtain ⟨s, name, same, found⟩ := allocated.filled c slot old
    refine ⟨s, name, same, ?_⟩
    by_cases here : id = s
    · rw [← here, (allocated.later id new).1] at found
      cases found
    · rw [placed, scope_modify_code, scope_modify_other u id s _ here]
      exact found
  · rcases code_modify_code (u.modify id _) (u.scope id).code c _ with same | ⟨here, _, _⟩
    · exact absurd (same ▸ below) old
    · subst here
      rw [placed_slots u id code] at below
      obtain ⟨name, found⟩ := slots_from_filled _ _ _ slot (by rw [alike]; exact distinct id)
        (Nat.not_lt.mp old) below
      refine ⟨id, name, ?_, locals ▸ found⟩
      rw [alike]

include distinct known in
theorem allocate_allocated (u : Tree) (done : List ScopeId) (id : ScopeId) (new : id ∉ done)
    (inside : id < t.scopes.size) (allocated : Allocated t u done) :
    Allocated t (u.allocate id) (done ++ [id]) := by
  have framed := allocated.framed
  have inner : id < u.scopes.size := by
    rw [framed.scopes]
    exact inside
  have codes : ∀ s, s < u.scopes.size → (u.scope s).code < u.codes.size := by
    intro s member
    rw [framed.scopes] at member
    rw [framed.scope s, framed.codes]
    exact known s member
  obtain ⟨next, slotted⟩ := allocate_slotted u id codes allocated.slotted
  have split : ∀ s, s ∈ done ++ [id] ↔ s ∈ done ∨ s = id := by
    intro s
    rw [List.mem_append, List.mem_singleton]
  have whole := framed_trans t u _ framed next
  by_cases may : (u.scope id).mayCollapse (u.code (u.scope id).code) = true
  · have is : u.allocate id = u.placed id := if_pos may
    have there : ∀ s, id ≠ s → ((u.allocate id).scope s) = u.scope s := by
      intro s distinct
      rw [is, placed, scope_modify_code, scope_modify_other u id s _ distinct]
    have here : (u.allocate id).scope id = { u.scope id with
        locals := slotsFrom (u.scope id).inbound (u.scope id).defs (u.code (u.scope id).code).slots
        collapsed := (u.scope id).defs.length ==
          (slotsFrom (u.scope id).inbound (u.scope id).defs (u.code (u.scope id).code).slots).length } := by
      rw [is, placed, scope_modify_code, scope_modify_same u id _ inner]
    have alike := framed.scope id
    have defs : (u.scope id).defs = (t.scope id).defs := by
      rw [alike]
    have inbound : (u.scope id).inbound = (t.scope id).inbound := by
      rw [alike]
    refine ⟨whole, slotted, ?_, ?_, ?_⟩
    · intro s absent
      rw [split, not_or] at absent
      rw [there s (Ne.symm absent.2)]
      exact allocated.later s absent.1
    · intro s member allowed
      by_cases same : id = s
      · subst same
        rw [here]
        dsimp only
        rw [defs, inbound]
        refine ⟨fun name bound free => slots_from_given _ _ _ name bound free, fun all => ?_⟩
        have free : ∀ name ∈ (t.scope id).defs, name ∉ (t.scope id).inbound := by
          intro name bound
          obtain ⟨slot, found⟩ := Option.isSome_iff_exists.mp (all name bound)
          exact (slots_from_found _ _ _ _ _ found).2.1
        exact beq_iff_eq.mpr (slots_from_full _ _ _ free).symm
      · rw [there s same]
        exact allocated.given s (((split s).mp member).resolve_right (Ne.symm same)) allowed
    · intro c slot below
      rw [is] at below ⊢
      exact placed_filled t distinct u done id new inner (codes id inner) allocated c slot below
  · have is : u.allocate id = u := if_neg may
    rw [is]
    refine ⟨framed, allocated.slotted, ?_, ?_, allocated.filled⟩
    · intro s absent
      rw [split, not_or] at absent
      exact allocated.later s absent.1
    · intro s member allowed
      rcases (split s).mp member with older | rfl
      · exact allocated.given s older allowed
      · rw [framed_may_collapse t u framed] at may
        exact absurd allowed may

include distinct known in
theorem allocate_all_allocated (nested : ∀ o, (t.scope o).inners = t.insideOf o)
    (less : ∀ s o, (t.scope s).outer = some o → o < s)
    (plain : ∀ s, (t.scope s).locals = [] ∧ (t.scope s).collapsed = false) (unslotted : ∀ c, (t.code c).slots = 0) :
    Allocated t t.allocateAll t.order := by
  have fold : ∀ (ids done : List ScopeId) (u : Tree), (done ++ ids).Nodup → (∀ id ∈ ids, id < t.scopes.size) →
      Allocated t u done → Allocated t (ids.foldl allocate u) (done ++ ids) := by
    intro ids
    induction ids with
    | nil =>
      intro done u _ _ allocated
      rw [List.append_nil]
      exact allocated
    | cons id rest hyp =>
      intro done u once members allocated
      have split : done ++ id :: rest = (done ++ [id]) ++ rest := by
        rw [List.append_assoc, List.singleton_append]
      have new : id ∉ done := fun older =>
        (List.nodup_append.mp once).2.2 id older id List.mem_cons_self rfl
      rw [split] at once ⊢
      refine hyp (done ++ [id]) (u.allocate id) once (fun other member =>
        members other (List.mem_cons_of_mem id member)) ?_
      exact allocate_allocated t distinct known u done id new (members id List.mem_cons_self) allocated
  have start : Allocated t t [] :=
    ⟨framed_refl t, plain_slotted t plain, fun s _ => plain s, fun s member => absurd member List.not_mem_nil,
      fun c slot below => absurd below (by rw [unslotted]; exact Nat.not_lt_zero slot)⟩
  refine fold t.order [] t (order_nodup t nested less) (fun id member => ?_) start
  obtain ⟨r, root, inner⟩ := List.mem_flatMap.mp member
  exact inside_known t id r (postorder_inside t nested _ r id inner)
    (List.mem_range.mp (List.mem_filter.mp root).1)

end

/-! The whole analysis. -/

theorem pass_on_inners (t : Tree) (id s : ScopeId) : ((t.passOn id).scope s).inners = (t.scope s).inners := by
  rw [passOn]
  cases (t.scope id).outer with
  | none => rfl
  | some outer =>
    dsimp only
    rcases scope_modify t outer s (fun o => o.absorb (t.scope id)) with same | ⟨_, _, changed⟩
    · rw [same]
    · rw [changed]
      rfl

theorem pass_all_inners (t : Tree) (s : ScopeId) : (t.passAllOn.scope s).inners = (t.scope s).inners := by
  have fold : ∀ (ids : List ScopeId) (u : Tree), ((ids.foldl passOn u).scope s).inners = (u.scope s).inners := by
    intro ids
    induction ids with
    | nil => exact fun u => rfl
    | cons id rest hyp => exact fun u => (hyp (u.passOn id)).trans (pass_on_inners u id s)
  exact fold _ t

/-- The bindings of the scope may become slots: it is no `with` scope, it belongs to the code of a function
without `with` statements, and no code in it or inside it calls `eval` by name. -/
structure Collapsible (t : Tree) (s : ScopeId) : Prop where
  scope : (t.scope s).kind ≠ .withObject
  function : (t.code (t.scope s).code).kind = .function
  withless : (t.code (t.scope s).code).usesWith = false
  evalless : ¬ t.Evaluates s

section

variable (t : Tree) (formed : t.WellFormed)
include formed

theorem passed_on_nested : (∀ o, ((t.analyze false).scope o).inners = (t.analyze false).insideOf o) ∧
    ∀ s o, ((t.analyze false).scope s).outer = some o → o < s := by
  have analysed := passed_on_analysed t formed
  have outers : ∀ s, ((t.analyze false).scope s).outer = (t.scope s).outer := fun s =>
    (analysed.alike s).outer.symm
  refine ⟨fun o => (pass_all_inners t o).trans ((formed.inners o).trans ?_), fun s o outer => ?_⟩
  · rw [insideOf, insideOf, analysed.scopes]
    exact List.filter_congr fun s _ => by rw [outers]
  · rw [outers] at outer
    exact formed.outer_less s o outer

theorem passed_on_allocated : (t.analyze false).Allocated (t.analyze true) (t.analyze false).order := by
  have analysed := passed_on_analysed t formed
  obtain ⟨nested, less⟩ := passed_on_nested t formed
  refine allocate_all_allocated _ (fun s => ?_) (passed_codes t formed) nested less
    (passed_on_plain t formed) fun c => ?_
  · rw [← (analysed.alike s).defs]
    exact formed.distinct s
  · change (t.passAllOn.code c).slots = 0
    rw [code, pass_all_codes]
    exact formed.unslotted c

theorem may_collapse_iff (s : ScopeId) :
    ((t.analyze false).scope s).mayCollapse ((t.analyze false).code ((t.analyze false).scope s).code) = true ↔
      t.Collapsible s := by
  have alike := (passed_on_analysed t formed).alike s
  have evaluates := (passed_on_reported t formed).directEval s
  have code : (t.analyze false).code ((t.analyze false).scope s).code = t.code (t.scope s).code := by
    rw [← alike.code]
    change t.passAllOn.code _ = _
    rw [Tree.code, pass_all_codes, Tree.code]
  rw [Scope.mayCollapse, code, ← alike.kind, Bool.and_eq_true, Bool.and_eq_true, Bool.and_eq_true,
    Bool.not_eq_true', Bool.not_eq_true', beq_iff_eq, bne_iff_ne, Bool.eq_false_iff, ne_eq, evaluates]
  constructor
  · intro holds
    exact ⟨holds.2, holds.1.2, holds.1.1.2, holds.1.1.1⟩
  · intro holds
    exact ⟨⟨⟨holds.evalless, holds.withless⟩, holds.function⟩, holds.scope⟩

theorem slot_iff (collapse : Bool) (s : ScopeId) (name : String) :
    (((t.analyze collapse).scope s).locals.lookup name).isSome = true ↔
      name ∈ (t.scope s).defs ∧ collapse = true ∧ t.Collapsible s ∧ ¬ t.Captures name s := by
  cases collapse with
  | false =>
    rw [(passed_on_plain t formed s).1]
    exact iff_of_false Bool.false_ne_true fun holds => Bool.false_ne_true holds.2.1
  | true =>
    have allocated := passed_on_allocated t formed
    have reported := passed_on_reported t formed
    have analysed := passed_on_analysed t formed
    have same := allocated.framed.scope s
    obtain ⟨nested, less⟩ := passed_on_nested t formed
    constructor
    · intro given
      obtain ⟨slot, found⟩ := Option.isSome_iff_exists.mp given
      obtain ⟨bound, free, may, _⟩ := allocated.slotted.found s name slot found
      rw [framed_may_collapse _ _ allocated.framed, may_collapse_iff t formed] at may
      rw [same] at bound free
      rw [(analysed.alike s).defs]
      exact ⟨bound, rfl, may, fun captures => free ((reported.inbound s name).mpr captures)⟩
    · rintro ⟨bound, _, collapsible, free⟩
      have inside : s < (t.analyze false).scopes.size := by
        rw [analysed.scopes]
        refine Decidable.byContradiction fun unknown => ?_
        rw [scope_unknown t s unknown] at bound
        cases bound
      refine (allocated.given s (mem_order _ nested less s inside)
        ((may_collapse_iff t formed s).mpr collapsible)).1 name ?_ ?_
      · rw [← (analysed.alike s).defs]
        exact bound
      · exact fun known => free ((reported.inbound s name).mp known)

theorem collapsed_iff (collapse : Bool) (s : ScopeId) (inside : s < t.scopes.size) :
    ((t.analyze collapse).scope s).collapsed = true ↔ collapse = true ∧ t.Collapsible s ∧
      ∀ name ∈ (t.scope s).defs, (((t.analyze collapse).scope s).locals.lookup name).isSome = true := by
  cases collapse with
  | false =>
    rw [(passed_on_plain t formed s).2]
    exact iff_of_false Bool.false_ne_true fun holds => Bool.false_ne_true holds.1
  | true =>
    have allocated := passed_on_allocated t formed
    have analysed := passed_on_analysed t formed
    have same := allocated.framed.scope s
    obtain ⟨nested, less⟩ := passed_on_nested t formed
    rw [(analysed.alike s).defs]
    constructor
    · intro none
      obtain ⟨may, all⟩ := allocated.slotted.collapsed s none
      rw [framed_may_collapse _ _ allocated.framed, may_collapse_iff t formed] at may
      refine ⟨rfl, may, fun name bound => all name ?_⟩
      rw [same]
      exact bound
    · rintro ⟨_, collapsible, all⟩
      refine (allocated.given s (mem_order _ nested less s ?_)
        ((may_collapse_iff t formed s).mpr collapsible)).2 all
      rw [analysed.scopes]
      exact inside

theorem slots_filled (collapse : Bool) (c slot : Nat) :
    slot < ((t.analyze collapse).code c).slots ↔
      ∃ s name, (t.scope s).code = c ∧ ((t.analyze collapse).scope s).locals.lookup name = some slot := by
  have whole := analyze_analysed t formed collapse
  constructor
  · cases collapse with
    | false =>
      intro below
      change slot < (t.passAllOn.code c).slots at below
      rw [code, pass_all_codes] at below
      exact absurd below (by rw [← code, formed.unslotted c]; exact Nat.not_lt_zero slot)
    | true =>
      intro below
      obtain ⟨s, name, same, found⟩ := (passed_on_allocated t formed).filled c slot below
      rw [← ((passed_on_analysed t formed).alike s).code] at same
      exact ⟨s, name, same, found⟩
  · rintro ⟨s, name, rfl, found⟩
    rw [(whole.alike s).code]
    exact (whole.slotted.found s name slot found).2.2.2

end

end Tree

end Ecma.Scope

/-!
The analysis of parsed texts, exactly: what every scope refers to and captures, and which of its bindings
become slots.
-/

namespace Ecma

open Scope Syntax

/-- The scopes of a text that the parser accepts, as they are drawn before they are analysed. -/
def Syntax.Drawn (tree : Scope.Tree) : Prop :=
  ∃ source kind strict wrapper code, kind ≠ .function ∧ built source kind strict wrapper = .ok ⟨code, tree⟩

theorem drawn_formed (tree : Scope.Tree) (drawn : Drawn tree) : tree.WellFormed := by
  obtain ⟨source, kind, strict, wrapper, code, root, draws⟩ := drawn
  exact (built_rooted source kind strict wrapper ⟨code, tree⟩ root draws).1

theorem analysis_exact (tree : Scope.Tree) (drawn : Drawn tree) (collapse : Bool) :
    (∀ s name, name ∈ ((tree.analyze collapse).scope s).refs ↔ tree.Refers name s) ∧
    (∀ s name, name ∈ ((tree.analyze collapse).scope s).inbound ↔ tree.Captures name s) ∧
    (∀ s, ((tree.analyze collapse).scope s).directEval = true ↔ tree.Evaluates s) ∧
    (∀ s name, (((tree.analyze collapse).scope s).locals.lookup name).isSome = true ↔
      name ∈ (tree.scope s).defs ∧ collapse = true ∧ tree.Collapsible s ∧ ¬ tree.Captures name s) ∧
    (∀ s s' name other slot, ((tree.analyze collapse).scope s).locals.lookup name = some slot →
      ((tree.analyze collapse).scope s').locals.lookup other = some slot →
      (tree.scope s).code = (tree.scope s').code → s = s' ∧ name = other) ∧
    (∀ code slot, slot < ((tree.analyze collapse).code code).slots ↔
      ∃ s name, (tree.scope s).code = code ∧
        ((tree.analyze collapse).scope s).locals.lookup name = some slot) ∧
    ∀ s, s < tree.scopes.size → (((tree.analyze collapse).scope s).collapsed = true ↔
      collapse = true ∧ tree.Collapsible s ∧ ∀ name ∈ (tree.scope s).defs,
        (((tree.analyze collapse).scope s).locals.lookup name).isSome = true) := by
  have formed := drawn_formed tree drawn
  have reported := Tree.analyze_reported tree formed collapse
  have analysed := Tree.analyze_analysed tree formed collapse
  refine ⟨reported.refs, reported.inbound, reported.directEval, Tree.slot_iff tree formed collapse, ?_,
    Tree.slots_filled tree formed collapse, Tree.collapsed_iff tree formed collapse⟩
  intro s s' name other slot found again codes
  rw [(analysed.alike s).code, (analysed.alike s').code] at codes
  exact analysed.slotted.distinct s s' name other slot found again codes

-- A parameter that an inner function returns is captured and gets no slot.
theorem analysis_exact_captured : ∃ tree : Scope.Tree, Drawn tree ∧
    "a" ∈ ((tree.analyze true).scope 1).inbound ∧ ((tree.analyze true).scope 1).locals.lookup "a" = none := by
  let tree : Scope.Tree :=
    { scopes := #[{ kind := .global, outer := none, code := 0, inners := [1], defs := ["f"] },
        { kind := .function, outer := some 0, code := 1, inners := [2], defs := ["a", "arguments"] },
        { kind := .function, outer := some 1, code := 2, defs := ["arguments"], refs := ["a"] }]
      codes := #[{ kind := .global }, { kind := .function }, { kind := .function }] }
  have draws : (built ⟨"main.js", "function f(a) \x7b return function () \x7b return a \x7d \x7d"⟩
      .global false false).toOption.map (·.scopes) = some tree := by
    decide +kernel
  have drawn : Drawn tree := by
    cases found : built ⟨"main.js", "function f(a) \x7b return function () \x7b return a \x7d \x7d"⟩
        .global false false with
    | error e =>
      rw [found] at draws
      cases draws
    | ok unit =>
      rw [found] at draws
      obtain ⟨code, scopes⟩ := unit
      have same : scopes = tree := Option.some.inj draws
      exact ⟨_, _, _, _, code, CodeKind.noConfusion, same ▸ found⟩
  obtain ⟨_, inbound, _, slot, _⟩ := analysis_exact tree drawn true
  have captures : tree.Captures "a" 1 :=
    ⟨2, by decide, .outward 2 1 1 rfl (by decide) (.here 1), by decide⟩
  refine ⟨tree, drawn, (inbound 1 "a").mpr captures, ?_⟩
  refine Option.not_isSome_iff_eq_none.mp fun given => ?_
  exact ((slot 1 "a").mp given).2.2.2 captures

end Ecma
