import Ecma.Proofs.Storage.Transparency
import Ecma.Proofs.Syntax.Part

set_option autoImplicit false

/-!
What resolution promises of a name is kept wherever a run looks the name up. The host cannot tell whether
names are found by resolution or by any other way that agrees with it where the promise is kept.
-/

namespace Ecma.Syntax

open Ecma.Scope

/-! Names in a text. -/

/-- The name that a declaration assigns to, if it does. -/
def Declarator.assigned : Declarator → List Identifier
  | .mk _ id init => if init.isSome then [id] else []

/-- The names that stand right in a part and are looked up when it runs. -/
def Part.occurrences : Part → List Identifier
  | .expression (.identifier id) => [id]
  | .statement _ _ (.«variables» _ declarators) => declarators.flatMap Declarator.assigned
  | .statement _ _ (.forLoop _ (.«variables» declarators) _ _ _) => declarators.flatMap Declarator.assigned
  | .statement _ _ (.forIn _ (.variable declarator) _ _) => [declarator.id]
  | _ => []

theorem assigned_scoped (p : Setting) (declarators : List Declarator) (fits : declaratorsScoped p declarators)
    (id : Identifier) (member : id ∈ declarators.flatMap Declarator.assigned) : id.Scoped p := by
  induction declarators with
  | nil => cases member
  | cons declarator rest hyp =>
    rw [List.flatMap_cons, List.mem_append] at member
    rcases member with here | later
    · obtain ⟨span, id', init⟩ := declarator
      cases init with
      | none => cases here
      | some e =>
        rw [List.mem_singleton.mp here]
        exact fits.1.1
    · exact hyp fits.2 later

-- A name that is looked up is one that its scope refers to.
theorem occurrence_scoped (tree : Scope.Tree) (part : Part) (fits : part.Fits tree) (id : Identifier)
    (member : id ∈ part.occurrences) : ∃ p, p.tree = tree ∧ id.Scoped p := by
  cases part with
  | expression e =>
    obtain ⟨p, same, fitted⟩ := fits
    cases e with
    | identifier id' =>
      rw [List.mem_singleton.mp member]
      exact ⟨p, same, fitted⟩
    | _ => cases member
  | statement goals own s =>
    obtain ⟨⟨p, same, _, fitted⟩, _⟩ := fits
    refine ⟨p, same, ?_⟩
    cases s with
    | «variables» span declarators => exact assigned_scoped p declarators fitted id member
    | forLoop span init test update body =>
      cases init with
      | «variables» declarators => exact assigned_scoped p declarators fitted.1 id member
      | _ => cases member
    | forIn span target object body =>
      cases target with
      | «variable» declarator =>
        obtain ⟨_, id', init⟩ := declarator
        rw [List.mem_singleton.mp member]
        exact fitted.1.1
      | expression e => cases member
    | _ => cases member
  | code unit => cases member

end Ecma.Syntax

namespace Ecma

open Ecma.Program Ecma.Scope Ecma.Syntax Run

/-! Slots. -/

/-- A slot that belongs to a scope around a name, in the same unit of code, which has room for it. -/
def Scope.Tree.OwnsSlot (t : Scope.Tree) (id : Identifier) (slot : Nat) : Prop :=
  ∃ owner few all, t.Path id.name id.scope few all owner ∧ (t.scope owner).locals.lookup id.name = some slot ∧
    (t.scope owner).code = (t.scope id.scope).code ∧ slot < (t.code (t.scope id.scope).code).slots

theorem scope_known (t : Scope.Tree) (s : ScopeId) (name : String) (member : name ∈ (t.scope s).refs) :
    s < t.scopes.size := by
  by_contra unknown
  rw [Scope.Tree.scope, Array.getElem?_eq_none (Nat.le_of_not_lt unknown)] at member
  cases member

theorem slot_owned (t : Scope.Tree) (formed : t.WellFormed) (collapse : Bool) (id : Identifier)
    (member : id.name ∈ (t.scope id.scope).refs) (slot : Nat)
    (resolved : (t.analyze collapse).resolve id.scope id.name = .slot slot) :
    (t.analyze collapse).OwnsSlot id slot := by
  have leads := Scope.Tree.reference_leads t formed id.name id.scope (scope_known t _ _ member) member
  generalize first : (t.analyze true).resolve id.scope id.name = slots at leads
  generalize second : (t.analyze false).resolve id.scope id.name = none₂ at leads
  cases collapse with
  | false =>
    -- without slots, nothing is resolved to one
    cases second.symm.trans resolved
    cases leads
  | true =>
    cases first.symm.trans resolved
    have analysed := Scope.Tree.analyze_analysed t formed true
    cases leads with
    | slot owner few all _ path found same =>
      rw [(analysed.alike id.scope).code] at same
      have room := (analysed.slotted.found owner id.name slot found).2.2.2
      rw [same] at room
      exact ⟨owner, few, all, path, found, same, room⟩

theorem occurrence_owned (kind : CodeKind) (parsed : Parsed) (accepted : Accepted kind parsed) (part : Part)
    (within : Part.Within part (.code parsed.code)) (id : Identifier) (member : id ∈ part.occurrences) (slot : Nat)
    (resolved : parsed.scopes.resolve id.scope id.name = .slot slot) : parsed.scopes.OwnsSlot id slot := by
  obtain ⟨⟨tree, fits⟩, _⟩ := accepted_fits kind parsed accepted
  obtain ⟨collapse, analysed⟩ := fits.analysed
  obtain ⟨p, rfl, fitted⟩ := occurrence_scoped tree part (within_fits tree _ _ within fits.code) id member
  rw [analysed] at resolved ⊢
  have referred := fitted.referred
  rw [← fitted.scope] at referred
  exact slot_owned p.tree fits.formed collapse id referred slot resolved

/-! Lookups. -/

open Classical in
/-- Finds names by resolution, except for one name in one state. -/
noncomputable def Lookup.except (v : Variable) (strict : Bool) (r : Realm) (answer : Except Interrupt Place) : Lookup :=
  fun v' strict' r' => if v' = v ∧ strict' = strict ∧ r' = r then answer else Lookup.resolved v' strict' r'

/-- In some state a name is looked up: it makes a difference to the host what is found there, for instance
an interrupt that nothing on the way takes. -/
def LooksUp (host : HostFunction) (config : Config) (uses : List Use) (v : Variable) (strict : Bool) (r : Realm) : Prop :=
  ∃ answer, history host (Lookup.except v strict r answer) (Realm.create config) uses ≠
    history host .resolved (Realm.create config) uses

section

variable (host : HostFunction) (hosted : host.Sighted) (config : Config) (uses : List Use)
include hosted

theorem wary_history (lookup : Lookup) (wary : lookup.Wary) :
    history host lookup (Realm.create config) uses = history host .resolved (Realm.create config) uses := by
  have both := Storage.history_matched host hosted lookup lookup wary wary uses _ _ (Storage.fresh_matched config)
  obtain ⟨depthLimit, stepsLimit, traceLimit, collapse⟩ := config
  cases collapse with
  | true => exact both.1
  | false => exact both.2.1

theorem trusting_history (lookup : Lookup) (trusts : lookup.Trusting) :
    history host lookup (Realm.create config) uses = history host .resolved (Realm.create config) uses := by
  exact wary_history host hosted config uses lookup (trusting_wary lookup trusts)

theorem looked_up_kept (v : Variable) (strict : Bool) (r : Realm) (looks : LooksUp host config uses v strict r) :
    v.Kept r := by
  obtain ⟨answer, differs⟩ := looks
  by_contra broken
  refine differs (trusting_history host hosted config uses _ fun v' strict' r' kept => ?_)
  rw [Lookup.except, if_neg]
  rintro ⟨rfl, _, rfl⟩
  exact broken kept

/-- What resolution says is true wherever a name is looked up. A slot belongs to the code around the name and
is one of the running frame; an environment at a fixed distance is the one that a search finds; and a search
that starts further outward finds what a whole search does. -/
theorem resolution_faithful :
    (∀ kind parsed, Accepted kind parsed → ∀ part, Part.Within part (.code parsed.code) → ∀ id ∈ part.occurrences,
      ∀ slot, parsed.scopes.resolve id.scope id.name = .slot slot → parsed.scopes.OwnsSlot id slot) ∧
    (∀ lookup : Lookup, lookup.Trusting →
      history host lookup (Realm.create config) uses = history host .resolved (Realm.create config) uses) ∧
    ∀ v strict r, LooksUp host config uses v strict r → v.Kept r := by
  exact ⟨occurrence_owned, trusting_history host hosted config uses, looked_up_kept host hosted config uses⟩

end

open Classical in
/-- Refuses to find a name where resolution does not keep its promise. -/
noncomputable def Lookup.guarded : Lookup := fun v strict r =>
  if v.Kept r then Lookup.resolved v strict r else .error .exhausted

theorem guarded_trusting : Lookup.guarded.Trusting := by
  exact fun v strict r kept => if_pos kept

theorem resolution_faithful_guarded :
    let uses := [Use.evaluate "function f(x) \x7b try \x7b throw x \x7d catch (e) \x7b return eval('e + x') \x7d \x7d; f(1)"
      "main.js"]
    callingHost.Sighted ∧ Lookup.guarded.Trusting ∧
      history callingHost .guarded (Realm.create {}) uses = history callingHost .resolved (Realm.create {}) uses := by
  exact ⟨calling_host_sighted, guarded_trusting,
    (resolution_faithful callingHost calling_host_sighted {} _).2.1 _ guarded_trusting⟩

/-! Global names. -/

/-- Finds names by resolution, or a global name that is there by a search from where the code runs. -/
def Lookup.Searching (lookup : Lookup) : Prop :=
  ∀ v strict r, lookup v strict r = Lookup.resolved v strict r ∨
    v.resolution = .global ∧ r.heap.hasBinding Intrinsic.globalEnvironment v.name = true ∧
      lookup v strict r = .ok (.reference (Reference.ofName r.heap r.running.lexicalEnv v.name strict))

/-- A name in the global environment, as resolution has it. -/
def Reference.ofGlobal (name : String) (strict : Bool) : Reference :=
  ⟨.environment Intrinsic.globalEnvironment, name, strict⟩

section

variable (v : Variable) (strict : Bool) (r : Realm) (global : v.resolution = .global)
include global

theorem global_place : r.placeOf v strict = .reference (.ofGlobal v.name strict) := by
  rw [Realm.placeOf, Variable.reference, global]
  rfl

variable (kept : v.Kept r)
include kept

theorem global_kept : (r.heap.environment Intrinsic.globalEnvironment).record = .object Intrinsic.global false ∧
    r.heap.findBinding r.running.lexicalEnv v.name =
      if r.heap.hasBinding Intrinsic.globalEnvironment v.name then some Intrinsic.globalEnvironment else none := by
  rw [Variable.Kept, global] at kept
  exact kept

theorem global_present (present : r.heap.hasBinding Intrinsic.globalEnvironment v.name = true) :
    Reference.ofName r.heap r.running.lexicalEnv v.name strict = .ofGlobal v.name strict := by
  rw [Reference.ofName, (global_kept v r global kept).2, present]
  rfl

theorem global_absent (absent : r.heap.hasBinding Intrinsic.globalEnvironment v.name = false) :
    Reference.ofName r.heap r.running.lexicalEnv v.name strict = ⟨.unresolvable, v.name, strict⟩ := by
  rw [Reference.ofName, (global_kept v r global kept).2, absent]
  rfl

end

theorem searching_trusting (lookup : Lookup) (searches : lookup.Searching) : lookup.Trusting := by
  intro v strict r kept
  rcases searches v strict r with same | ⟨global, present, finds⟩
  · exact same
  · rw [finds, global_present v strict r global kept present, Lookup.resolved, global_place v strict r global]

-- The global environment has no binding of the name.
section

variable (m : Machine) (r : Realm) (name : String)
  (record : (r.heap.environment Intrinsic.globalEnvironment).record = .object Intrinsic.global false)
include record

theorem write_global (x : Value) : (Reference.ofGlobal name false).write x m r =
    (⟨.unresolvable, name, false⟩ : Reference).write x m r := by
  change setBinding Intrinsic.globalEnvironment name x false m r = _
  rw [setBinding, heap_at, record]
  rfl

variable (absent : r.heap.hasBinding Intrinsic.globalEnvironment name = false)
include absent

theorem read_global (strict : Bool) : (Reference.ofGlobal name strict).read m r =
    if strict then (notDefined name : Run Value) m r else .ok .undefined r := by
  rw [Heap.hasBinding, record] at absent
  change r.heap.hasProperty Intrinsic.global (.ofString name) = false at absent
  change getBinding Intrinsic.globalEnvironment name strict m r = _
  rw [getBinding, heap_at, record]
  dsimp only
  rw [absent, if_neg Bool.false_ne_true]
  cases strict <;> rfl

theorem type_of_global : (Place.reference (.ofGlobal name false)).typeOf m r = .ok (.string "undefined") r := by
  change (((Reference.ofGlobal name false).read >>= fun v => heap >>= fun h => pure (.string (h.typeOf v))) : Run Value) m r = _
  rw [bind_at, read_global m r name record absent, if_neg Bool.false_ne_true]
  rfl

end

/-- How far a global name is the reference that a search finds. A name that is nowhere is read as undefined in
sloppy code, and `typeof` and assignments in strict code do as if it were there. -/
structure GlobalFound (v : Variable) (strict : Bool) (r : Realm) (found : Reference) : Prop where
  present : r.heap.hasBinding Intrinsic.globalEnvironment v.name = true →
    r.placeOf v strict = .reference found
  absent : r.heap.hasBinding Intrinsic.globalEnvironment v.name = false →
    r.placeOf v strict = .reference (.ofGlobal v.name strict) ∧ found = ⟨.unresolvable, v.name, strict⟩ ∧
    (strict = true → ∀ m, (Reference.ofGlobal v.name strict).read m r = found.read m r) ∧
    (strict = false → ∀ m, (Reference.ofGlobal v.name strict).read m r = .ok .undefined r ∧
      (∀ x, (Reference.ofGlobal v.name strict).write x m r = found.write x m r) ∧
      (Place.reference (.ofGlobal v.name strict)).typeOf m r = (Place.reference found).typeOf m r)

theorem global_found (v : Variable) (strict : Bool) (r : Realm) (global : v.resolution = .global) (kept : v.Kept r) :
    GlobalFound v strict r (Reference.ofName r.heap r.running.lexicalEnv v.name strict) := by
  have record := (global_kept v r global kept).1
  refine ⟨fun present => ?_, fun absent => ?_⟩
  · rw [global_present v strict r global kept present, global_place v strict r global]
  · rw [global_absent v strict r global kept absent]
    refine ⟨global_place v strict r global, rfl, fun isStrict m => ?_, fun sloppy m => ?_⟩
    · rw [read_global m r v.name record absent, isStrict]
      rfl
    · rw [sloppy, read_global m r v.name record absent]
      exact ⟨rfl, write_global m r v.name record, type_of_global m r v.name record absent⟩

/-- Wherever a global name is there, to search for it makes no difference. Where it is not, to read it in strict code
does not either, nor do assignments and `typeof` in sloppy code. -/
theorem global_names_searched (host : HostFunction) (hosted : host.Sighted) (config : Config) (uses : List Use) :
    (∀ lookup : Lookup, lookup.Searching →
      history host lookup (Realm.create config) uses = history host .resolved (Realm.create config) uses) ∧
    ∀ v strict r, v.resolution = .global → LooksUp host config uses v strict r →
      GlobalFound v strict r (Reference.ofName r.heap r.running.lexicalEnv v.name strict) := by
  refine ⟨fun lookup searches => ?_, fun v strict r global looks => ?_⟩
  · exact trusting_history host hosted config uses lookup (searching_trusting lookup searches)
  · exact global_found v strict r global (looked_up_kept host hosted config uses v strict r looks)

/-- Searches for each global name that is there. -/
def Lookup.searching : Lookup := fun v strict r =>
  if v.resolution = .global ∧ r.heap.hasBinding Intrinsic.globalEnvironment v.name = true then
    .ok (.reference (Reference.ofName r.heap r.running.lexicalEnv v.name strict))
  else Lookup.resolved v strict r

theorem searching_searches : Lookup.searching.Searching := by
  intro v strict r
  by_cases there : v.resolution = .global ∧ r.heap.hasBinding Intrinsic.globalEnvironment v.name = true
  · exact Or.inr ⟨there.1, there.2, if_pos there⟩
  · exact Or.inl (if_neg there)

theorem global_names_searched_deleted :
    let uses := [Use.evaluate "x = 1" "main.js", .evaluate "var x; typeof x; delete x; typeof x" "main.js"]
    callingHost.Sighted ∧ Lookup.searching.Searching ∧
      history callingHost .searching (Realm.create {}) uses = history callingHost .resolved (Realm.create {}) uses := by
  exact ⟨calling_host_sighted, searching_searches,
    (global_names_searched callingHost calling_host_sighted {} _).1 _ searching_searches⟩

end Ecma
