import Ecma.Eval.Activation
import Ecma.Proofs.Heap.Arguments
import Ecma.Proofs.Run.Result

set_option autoImplicit false

/-!
The arguments object of a call and the parameters of the call, under operations on both: assignments to
parameters on the one side, definitions and deletions of elements on the other.
-/

namespace Ecma

open Ecma.Program Run

/-- A call of a function of a script that has an arguments object. -/
structure Call where
  header : Header
  args : List Value
  object : ObjectId
  frame : FrameId
  env : EnvironmentId

/-- What can be done to the parameters of a call and to its arguments object. -/
inductive Deed where
  | assign (name : String) (v : Value)
  | define (key : PropertyKey) (d : Definition)
  | delete (key : PropertyKey)
  | close

/-- The name that an operation assigns to. -/
def Deed.name? : Deed → Option String
  | .assign name _ => some name
  | _ => none

/-- The key whose property an operation is about. -/
def Deed.key? : Deed → Option PropertyKey
  | .define key _ => some key
  | .delete key => some key
  | _ => none

-- What gives up the parameter that an element stands for.
def Deed.Parts (i : Nat) : Deed → Prop
  | .define key d => key = .index i ∧ d.releases = true
  | .delete key => key = .index i
  | _ => False

/-! What the elements of a new arguments object stand for. -/

-- A name stands at some place of a list and at no later one.
def StandsLast (names : List String) (i : Nat) (name : String) : Prop :=
  names[i]? = some name ∧ ∀ j, i < j → names[j]? ≠ some name

theorem stands_last_zero (first : String) (rest : List String) (name : String) :
    StandsLast (first :: rest) 0 name ↔ name = first ∧ name ∉ rest := by
  constructor
  · rintro ⟨here, later⟩
    refine ⟨(Option.some.inj here).symm, fun member => ?_⟩
    obtain ⟨j, found⟩ := List.mem_iff_getElem?.mp member
    exact later (j + 1) (Nat.succ_pos j) found
  · rintro ⟨rfl, absent⟩
    refine ⟨rfl, fun j positive found => ?_⟩
    cases j with
    | zero => exact Nat.lt_irrefl 0 positive
    | succ j => exact absent (List.mem_iff_getElem?.mpr ⟨j, found⟩)

theorem stands_last_succ (first : String) (rest : List String) (i : Nat) (name : String) :
    StandsLast (first :: rest) (i + 1) name ↔ StandsLast rest i name := by
  refine and_congr_right fun _ => ⟨fun later j less => later (j + 1) (Nat.succ_lt_succ less), fun later j less => ?_⟩
  cases j with
  | zero => exact absurd less (Nat.not_lt_zero _)
  | succ j => exact later j (Nat.lt_of_succ_lt_succ less)

theorem stands_last_single (names : List String) (i j : Nat) (name : String) (one : StandsLast names i name)
    (two : StandsLast names j name) : i = j := by
  rcases Nat.lt_trichotomy i j with before | same | after
  · exact absurd two.1 (one.2 j before)
  · exact same
  · exact absurd one.1 (two.2 i after)

-- Each name of the list is what the last element of that name stands for.
theorem mapped_from_lookup (header : Header) (frame : FrameId) (env : EnvironmentId) (start i : Nat)
    (names : List String) (a : Alias) : (mappedFrom header frame env start names).lookup i = some a ↔
      ∃ j name, i = start + j ∧ StandsLast names j name ∧ a = aliasOf header frame env name := by
  induction names generalizing start with
  | nil =>
    constructor
    · intro found
      cases found
    · rintro ⟨j, name, _, ⟨found, _⟩, _⟩
      cases found
  | cons first rest hyp =>
    -- the first name stands for itself, the others start one later
    have split' : (∃ j name, i = start + j ∧ StandsLast (first :: rest) j name ∧ a = aliasOf header frame env name) ↔
        (i = start ∧ first ∉ rest ∧ a = aliasOf header frame env first) ∨
          ∃ j name, i = start + 1 + j ∧ StandsLast rest j name ∧ a = aliasOf header frame env name := by
      constructor
      · rintro ⟨j, name, place, last, is⟩
        cases j with
        | zero =>
          obtain ⟨rfl, absent⟩ := (stands_last_zero first rest name).mp last
          exact .inl ⟨place, absent, is⟩
        | succ j =>
          exact .inr ⟨j, name, by omega, (stands_last_succ first rest j name).mp last, is⟩
      · rintro (⟨place, absent, is⟩ | ⟨j, name, place, last, is⟩)
        · exact ⟨0, first, place, (stands_last_zero first rest first).mpr ⟨rfl, absent⟩, is⟩
        · exact ⟨j + 1, name, by omega, (stands_last_succ first rest j name).mpr last, is⟩
    rw [split', ← hyp (start + 1), mappedFrom]
    by_cases again : rest.contains first = true
    · rw [if_pos again]
      refine ⟨.inr, fun either => either.resolve_left fun here => here.2.1 ?_⟩
      rwa [List.contains_iff_mem] at again
    · rw [if_neg again, List.lookup_cons]
      rw [List.contains_iff_mem] at again
      by_cases here : i = start
      · subst here
        have later : (mappedFrom header frame env (i + 1) rest).lookup i ≠ some a := fun found => by
          obtain ⟨j, _, place, _⟩ := (hyp (i + 1)).mp found
          omega
        rw [beq_self_eq_true, Option.some.injEq]
        exact ⟨fun is => .inl ⟨rfl, again, is.symm⟩, fun either => (either.resolve_right later).2.2.symm⟩
      · rw [beq_false_of_ne here]
        exact ⟨.inr, fun either => either.resolve_left fun first => here first.1⟩

namespace Call

variable (c : Call)

/-- Where a parameter lives. -/
def location (name : String) : Alias :=
  aliasOf c.header c.frame c.env name

-- The parameter at the place of an argument, if no later parameter with an argument has its name. In strict
-- code there is none.
def Pairs (i : Nat) (name : String) : Prop :=
  c.header.strict = false ∧ i < c.args.length ∧ c.header.params[i]? = some name ∧
    ∀ j, i < j → j < c.args.length → c.header.params[j]? ≠ some name

/-- What an operation does, and whether it is accepted. -/
def perform (h : Heap) : Deed → Bool × Heap
  | .assign name v => (true, h.writeAlias (c.location name) v)
  | .define key d => h.define c.object key d
  | .delete key => h.delete c.object key
  | .close => (true, h.preventExtensions c.object)

-- The object and the parameters are left as they are.
structure Beside (h k : Heap) : Prop where
  object : k.object c.object = h.object c.object
  read : ∀ name ∈ c.header.params, k.readAlias (c.location name) = h.readAlias (c.location name)
  live : ∀ name ∈ c.header.params, h.Live (c.location name) → k.Live (c.location name)

-- A sequence of operations, with those that were accepted, among other changes.
inductive History : Heap → List Deed → Heap → Prop
  | nil (h : Heap) : History h [] h
  | accepted (h l : Heap) (op : Deed) (done : List Deed) (accepts : (c.perform h op).1 = true)
      (rest : History (c.perform h op).2 done l) : History h (op :: done) l
  | rejected (h l : Heap) (op : Deed) (done : List Deed) (rejects : (c.perform h op).1 = false)
      (rest : History (c.perform h op).2 done l) : History h done l
  | beside (h k l : Heap) (done : List Deed) (beside : c.Beside h k) (rest : History k done l) :
      History h done l

-- What holds as long as the call is known.
structure Standing (h : Heap) : Prop where
  aliasing : h.Aliasing c.object
  paired : ∀ i a, h.alias? c.object (.index i) = some a → ∃ name, c.Pairs i name ∧ a = c.location name
  live : ∀ name ∈ c.header.params, h.Live (c.location name)

-- No two names live in one place.
def Separate : Prop :=
  ∀ name other, c.location name = c.location other → name = other

theorem pairs_last (i : Nat) (name : String) :
    c.Pairs i name ↔ c.header.strict = false ∧ StandsLast (c.header.params.take c.args.length) i name := by
  refine and_congr_right fun _ => ?_
  rw [StandsLast, List.getElem?_take]
  constructor
  · rintro ⟨inside, found, last⟩
    refine ⟨by rw [if_pos inside, found], fun j less => ?_⟩
    rw [List.getElem?_take]
    split
    · next within => exact last j less within
    · exact (Option.some_ne_none name).symm
  · rintro ⟨found, last⟩
    split at found
    · next inside =>
      refine ⟨inside, found, fun j less within => ?_⟩
      have later := last j less
      rwa [List.getElem?_take, if_pos within] at later
    · cases found

/-! One operation. -/

theorem pairs_single (i j : Nat) (name : String) (one : c.Pairs i name) (two : c.Pairs j name) : i = j := by
  rcases Nat.lt_trichotomy i j with before | same | after
  · exact absurd two.2.2.1 (one.2.2.2 j before two.2.1)
  · exact same
  · exact absurd one.2.2.1 (two.2.2.2 i after one.2.1)

theorem pairs_parameter (i : Nat) (name : String) (pairs : c.Pairs i name) : name ∈ c.header.params := by
  exact List.mem_of_getElem? pairs.2.2.1

section

variable (h : Heap) (standing : c.Standing h)
include standing

theorem perform_alias (op : Deed) (i : Nat) :
    (op.Parts i → (c.perform h op).1 = true → (c.perform h op).2.alias? c.object (.index i) = none) ∧
      (¬ ((c.perform h op).1 = true ∧ op.Parts i) →
        (c.perform h op).2.alias? c.object (.index i) = h.alias? c.object (.index i)) := by
  cases op with
  | assign name v =>
    refine ⟨fun parts => parts.elim, fun _ => ?_⟩
    rw [perform, Heap.alias_mapped, Heap.alias_mapped, Heap.object, Heap.object, Heap.write_alias_objects]
  | define key d =>
    have after := h.define_alias c.object standing.aliasing key d i
    refine ⟨fun parts accepted => after.trans (if_pos ⟨accepted, parts⟩), fun stays => after.trans (if_neg stays)⟩
  | delete key =>
    have after := h.delete_alias c.object standing.aliasing key i
    refine ⟨fun parts accepted => after.trans (if_pos ⟨accepted, parts⟩), fun stays => after.trans (if_neg stays)⟩
  | close =>
    refine ⟨fun parts => parts.elim, fun _ => ?_⟩
    rw [perform, Heap.alias_mapped, Heap.alias_mapped, h.close_object c.object standing.aliasing]

theorem perform_rejected (op : Deed) (rejects : (c.perform h op).1 = false) : (c.perform h op).2 = h := by
  cases op with
  | assign name v => cases rejects
  | define key d => exact h.define_rejected c.object standing.aliasing key d rejects
  | delete key => exact h.delete_rejected c.object key rejects
  | close => cases rejects

theorem perform_live (op : Deed) (a : Alias) (live : h.Live a) : (c.perform h op).2.Live a := by
  cases op with
  | assign name v => exact h.write_live _ a v live
  | define key d => exact h.define_live c.object standing.aliasing key d a live
  | delete key => exact Heap.same_live h _ a (h.delete_stores c.object key) live
  | close => exact Heap.same_live h _ a ⟨rfl, rfl⟩ live

theorem perform_aliasing (op : Deed) : (c.perform h op).2.Aliasing c.object := by
  cases op with
  | assign name v =>
    refine Heap.aliasing_same h _ c.object standing.aliasing ?_ fun a live => h.write_live _ a v live
    rw [Heap.object, perform, Heap.write_alias_objects]
    rfl
  | define key d => exact h.define_aliasing c.object standing.aliasing key d
  | delete key => exact h.delete_aliasing c.object standing.aliasing key
  | close => exact h.close_aliasing c.object standing.aliasing

theorem perform_standing (op : Deed) : c.Standing (c.perform h op).2 := by
  refine ⟨perform_aliasing c h standing op, fun i a mapped => ?_, fun name member =>
    perform_live c h standing op _ (standing.live name member)⟩
  obtain ⟨gone, stays⟩ := perform_alias c h standing op i
  by_cases parts : (c.perform h op).1 = true ∧ op.Parts i
  · rw [gone parts.2 parts.1] at mapped
    cases mapped
  · rw [stays parts] at mapped
    exact standing.paired i a mapped

theorem beside_standing (k : Heap) (beside : c.Beside h k) : c.Standing k := by
  have alias' (i : Nat) : k.alias? c.object (.index i) = h.alias? c.object (.index i) := by
    rw [Heap.alias_mapped, Heap.alias_mapped, beside.object]
  refine ⟨⟨?_, ?_, fun i a mapped => ?_⟩, fun i a mapped => ?_, fun name member =>
    beside.live name member (standing.live name member)⟩
  · rw [Heap.kind, beside.object]
    exact standing.aliasing.arguments
  · rw [beside.object]
    exact standing.aliasing.writable
  · rw [alias'] at mapped
    obtain ⟨name, pairs, rfl⟩ := standing.paired i a mapped
    have member := pairs_parameter c i name pairs
    exact beside.live name member (standing.live name member)
  · rw [alias'] at mapped
    exact standing.paired i a mapped

-- An element that stands for no parameter is what it is for the object alone, so only an operation on it
-- changes it.
theorem perform_own (op : Deed) (i : Nat) (unmapped : h.alias? c.object (.index i) = none)
    (other : op.key? ≠ some (.index i)) :
    (c.perform h op).2.alias? c.object (.index i) = none ∧
      (c.perform h op).2.own? c.object (.index i) = h.own? c.object (.index i) := by
  have still : (c.perform h op).2.alias? c.object (.index i) = none := by
    obtain ⟨gone, stays⟩ := perform_alias c h standing op i
    by_cases parts : (c.perform h op).1 = true ∧ op.Parts i
    · exact gone parts.2 parts.1
    · exact (stays parts).trans unmapped
  refine ⟨still, ?_⟩
  rw [Heap.own_unmapped _ c.object (perform_aliasing c h standing op) _ still,
    h.own_unmapped c.object standing.aliasing _ unmapped]
  cases op with
  | assign name v => rw [Heap.object, Heap.object, perform, Heap.write_alias_objects]
  | define key d =>
    exact h.define_other c.object standing.aliasing key _ d fun same => other (congrArg some same)
  | delete key =>
    exact h.delete_other c.object standing.aliasing key _ fun same => other (congrArg some same)
  | close => rw [perform, h.close_object c.object standing.aliasing]

-- A parameter changes when it is assigned to, or when an element that stands for it is defined.
theorem perform_read (separate : c.Separate) (op : Deed) (name : String) (unassigned : op.name? ≠ some name)
    (apart : ∀ key, op.key? = some key → h.alias? c.object key ≠ some (c.location name)) :
    (c.perform h op).2.readAlias (c.location name) = h.readAlias (c.location name) := by
  cases op with
  | assign other v =>
    refine h.read_write_other _ _ v fun same => unassigned ?_
    rw [Deed.name?, separate other name same]
  | define key d =>
    have after := h.define_read c.object standing.aliasing key d (c.location name)
    exact after.trans (if_neg fun all => apart key rfl all.2.1)
  | delete key => exact Heap.same_read h _ _ (h.delete_stores c.object key)
  | close => exact Heap.same_read h _ _ ⟨rfl, rfl⟩

end

/-! Sequences of operations. -/

theorem history_standing (h k : Heap) (done : List Deed) (history : c.History h done k)
    (standing : c.Standing h) : c.Standing k := by
  induction history with
  | nil h => exact standing
  | accepted h l op done accepts rest hyp => exact hyp (perform_standing c h standing op)
  | rejected h l op done rejects rest hyp => exact hyp (perform_standing c h standing op)
  | beside h k l done beside rest hyp => exact hyp (beside_standing c h standing k beside)

theorem history_append (h k l : Heap) (done more : List Deed) (first : c.History h done k)
    (second : c.History k more l) : c.History h (done ++ more) l := by
  induction first with
  | nil h => exact second
  | accepted h l op done accepts rest hyp => exact .accepted h _ op _ accepts (hyp second)
  | rejected h l op done rejects rest hyp => exact .rejected h _ op _ rejects (hyp second)
  | beside h k l done beside rest hyp => exact .beside h k _ _ beside (hyp second)

-- An element goes on standing for its parameter until an accepted operation parts them, and never does again.
theorem history_alias (h k : Heap) (done : List Deed) (history : c.History h done k) (standing : c.Standing h)
    (i : Nat) (a : Alias) :
    k.alias? c.object (.index i) = some a ↔
      h.alias? c.object (.index i) = some a ∧ ∀ op ∈ done, ¬ op.Parts i := by
  induction history with
  | nil h => exact ⟨fun mapped => ⟨mapped, fun op member => absurd member List.not_mem_nil⟩, fun both => both.1⟩
  | accepted h l op done accepts rest hyp =>
    rw [hyp (perform_standing c h standing op), List.forall_mem_cons]
    obtain ⟨gone, stays⟩ := perform_alias c h standing op i
    by_cases parts : op.Parts i
    · rw [gone parts accepts]
      exact ⟨fun both => absurd both.1.symm (Option.some_ne_none a), fun both => absurd parts both.2.1⟩
    · rw [stays fun both => parts both.2]
      exact ⟨fun both => ⟨both.1, parts, both.2⟩, fun both => ⟨both.1, both.2.2⟩⟩
  | rejected h l op done rejects rest hyp =>
    rw [hyp (perform_standing c h standing op), perform_rejected c h standing op rejects]
  | beside h k l done beside rest hyp =>
    rw [hyp (beside_standing c h standing k beside), Heap.alias_mapped, Heap.alias_mapped, beside.object]

-- Once an element stands for no parameter, only operations on the element itself change it.
theorem history_own (h k : Heap) (done : List Deed) (history : c.History h done k) (standing : c.Standing h)
    (i : Nat) (unmapped : h.alias? c.object (.index i) = none) (other : ∀ op ∈ done, op.key? ≠ some (.index i)) :
    k.own? c.object (.index i) = h.own? c.object (.index i) := by
  induction history with
  | nil h => rfl
  | accepted h l op done accepts rest hyp =>
    obtain ⟨here, later⟩ := List.forall_mem_cons.mp other
    obtain ⟨still, same⟩ := perform_own c h standing op i unmapped here
    exact (hyp (perform_standing c h standing op) still later).trans same
  | rejected h l op done rejects rest hyp =>
    have same := perform_rejected c h standing op rejects
    rw [same] at hyp
    exact hyp standing unmapped other
  | beside h k l done beside rest hyp =>
    have standing' := beside_standing c h standing k beside
    have still : k.alias? c.object (.index i) = none := by
      rw [Heap.alias_mapped, beside.object, ← Heap.alias_mapped]
      exact unmapped
    rw [hyp standing' still other, k.own_unmapped c.object standing'.aliasing _ still,
      h.own_unmapped c.object standing.aliasing _ unmapped, beside.object]

-- Once no element stands for a parameter, only assignments to the parameter change it.
theorem history_read (separate : c.Separate) (h k : Heap) (done : List Deed) (history : c.History h done k)
    (standing : c.Standing h) (name : String) (member : name ∈ c.header.params)
    (unmapped : ∀ i, h.alias? c.object (.index i) ≠ some (c.location name))
    (unassigned : ∀ op ∈ done, op.name? ≠ some name) :
    k.readAlias (c.location name) = h.readAlias (c.location name) := by
  have apart (h : Heap) (unmapped : ∀ i, h.alias? c.object (.index i) ≠ some (c.location name)) (key : PropertyKey) :
      h.alias? c.object key ≠ some (c.location name) := by
    cases key with
    | index i => exact unmapped i
    | name s =>
      rw [Heap.alias_name]
      exact (Option.some_ne_none _).symm
  induction history with
  | nil h => rfl
  | accepted h l op done accepts rest hyp =>
    obtain ⟨here, later⟩ := List.forall_mem_cons.mp unassigned
    have same := perform_read c h standing separate op name here fun key _ => apart h unmapped key
    refine (hyp (perform_standing c h standing op) (fun i mapped => ?_) later).trans same
    obtain ⟨gone, stays⟩ := perform_alias c h standing op i
    by_cases parts : (c.perform h op).1 = true ∧ op.Parts i
    · rw [gone parts.2 parts.1] at mapped
      cases mapped
    · rw [stays parts] at mapped
      exact unmapped i mapped
  | rejected h l op done rejects rest hyp =>
    have same := perform_rejected c h standing op rejects
    rw [same] at hyp
    exact hyp standing unmapped unassigned
  | beside h k l done beside rest hyp =>
    refine (hyp (beside_standing c h standing k beside) (fun i mapped => unmapped i ?_) unassigned).trans
      (beside.read name member)
    rw [Heap.alias_mapped, beside.object, ← Heap.alias_mapped] at mapped
    exact mapped

/-! Both sides together. -/

/-- The value of a parameter. -/
def value (h : Heap) (name : String) : Value :=
  h.readAlias (c.location name)

-- An element of the arguments object stands for a parameter.
def Stands (h : Heap) (i : Nat) (name : String) : Prop :=
  h.alias? c.object (.index i) = some (c.location name)

-- The arguments object and the parameters after some operations that were accepted.
structure Aliased (done : List Deed) (h : Heap) : Prop where
  -- An element stands for the parameter it is paired with until it is given up, and for nothing else.
  mapped : ∀ i a, h.alias? c.object (.index i) = some a ↔
    (∃ name, c.Pairs i name ∧ a = c.location name) ∧ ∀ op ∈ done, ¬ op.Parts i
  -- No two elements stand for one parameter.
  single : ∀ i j name, c.Stands h i name → c.Stands h j name → i = j
  -- Until then it is a value that can be written, that of the parameter.
  shown : ∀ i name, c.Stands h i name →
    (∃ e f, h.own? c.object (.index i) = some (.data (c.value h name) true e f)) ∧
    ∀ m r, r.heap = h → get c.object (.index i) m r = .ok (c.value h name) r
  -- An assignment to the parameter is seen through the element.
  assigned : ∀ name ∈ c.header.params, ∀ v, c.value (c.perform h (.assign name v)).2 name = v ∧
    ∀ i, c.Stands h i name →
      ∃ e f, (c.perform h (.assign name v)).2.own? c.object (.index i) = some (.data v true e f)
  -- A write to the element is accepted.
  writable : ∀ i name v, c.Stands h i name → (c.perform h (.define (.index i) (.ofValue v))).1 = true
  -- An accepted definition of its value is seen through the parameter; if it makes the element read-only,
  -- the element keeps the value that the parameter has.
  defined : ∀ i name d, c.Stands h i name → d.isAccessor = false →
    (c.perform h (.define (.index i) d)).1 = true →
    c.value (c.perform h (.define (.index i) d)).2 name = d.value.getD (c.value h name) ∧
    ∃ e f, (c.perform h (.define (.index i) d)).2.own? c.object (.index i) =
      some (.data (d.value.getD (c.value h name)) (d.writable.getD true) e f)
  -- An element that stands for no parameter never does again, and only operations on itself change it.
  parted : ∀ i, h.alias? c.object (.index i) = none → ∀ k later, c.History h later k →
    k.alias? c.object (.index i) = none ∧
    ((∀ op ∈ later, op.key? ≠ some (.index i)) → k.own? c.object (.index i) = h.own? c.object (.index i))
  -- A parameter that no element stands for is only changed by assignments to itself.
  free : ∀ name ∈ c.header.params, (∀ i, ¬ c.Stands h i name) → ∀ k later, c.History h later k →
    (∀ op ∈ later, op.name? ≠ some name) → c.value k name = c.value h name
  -- What an operation on one element or parameter leaves of the other parameters.
  others : ∀ op name, op.name? ≠ some name → (∀ i, op.key? = some (.index i) → ¬ c.Stands h i name) →
    c.value (c.perform h op).2 name = c.value h name
  rejected : ∀ op, (c.perform h op).1 = false → (c.perform h op).2 = h

section

variable (h : Heap) (standing : c.Standing h)
include standing

theorem standing_shown (i : Nat) (name : String) (stands : c.Stands h i name) :
    (∃ e f, h.own? c.object (.index i) = some (.data (c.value h name) true e f)) ∧
      ∀ m r, r.heap = h → get c.object (.index i) m r = .ok (c.value h name) r := by
  refine ⟨h.mapped_own c.object standing.aliasing i _ stands, fun m r same => ?_⟩
  rw [get, heap_at, same, Heap.aliased?, stands]
  rfl

theorem standing_assigned (name : String) (member : name ∈ c.header.params) (v : Value) :
    c.value (c.perform h (.assign name v)).2 name = v ∧ ∀ i, c.Stands h i name →
      ∃ e f, (c.perform h (.assign name v)).2.own? c.object (.index i) = some (.data v true e f) := by
  have reads : c.value (c.perform h (.assign name v)).2 name = v :=
    h.read_write_same _ v (standing.live name member)
  refine ⟨reads, fun i stands => ?_⟩
  have after := perform_standing c h standing (.assign name v)
  have still : c.Stands (c.perform h (.assign name v)).2 i name :=
    ((perform_alias c h standing (.assign name v) i).2 fun both => both.2).trans stands
  obtain ⟨e, f, shown⟩ := (standing_shown c _ after i name still).1
  rw [reads] at shown
  exact ⟨e, f, shown⟩

theorem standing_writable (i : Nat) (name : String) (v : Value) (stands : c.Stands h i name) :
    (c.perform h (.define (.index i) (.ofValue v))).1 = true := by
  exact h.define_accepted c.object standing.aliasing i _ stands (.ofValue v) rfl rfl (Option.some_ne_none true).symm

theorem standing_defined (i : Nat) (name : String) (d : Definition) (stands : c.Stands h i name)
    (isValue : d.isAccessor = false) (accepts : (c.perform h (.define (.index i) d)).1 = true) :
    c.value (c.perform h (.define (.index i) d)).2 name = d.value.getD (c.value h name) ∧
      ∃ e f, (c.perform h (.define (.index i) d)).2.own? c.object (.index i) =
        some (.data (d.value.getD (c.value h name)) (d.writable.getD true) e f) := by
  have reads : c.value (c.perform h (.define (.index i) d)).2 name = d.value.getD (c.value h name) :=
    (h.define_read c.object standing.aliasing (.index i) d _).trans (if_pos ⟨accepts, stands, isValue⟩)
  refine ⟨reads, ?_⟩
  have after := perform_standing c h standing (.define (.index i) d)
  obtain ⟨gone, stays⟩ := perform_alias c h standing (.define (.index i) d) i
  by_cases readOnly : d.writable = some false
  · have releases : d.releases = true := by
      rw [Definition.releases, readOnly, beq_self_eq_true, Bool.or_true]
    obtain ⟨v, e, f, stored, kept⟩ := h.define_own c.object standing.aliasing i _ stands d isValue accepts
    refine ⟨e, f, ?_⟩
    rw [Heap.own_unmapped _ c.object after.aliasing _ (gone ⟨rfl, releases⟩ accepts)]
    rw [kept readOnly] at stored
    exact stored
  · have keeps : d.releases = false := by
      rw [Definition.releases, isValue, beq_false_of_ne readOnly, Bool.or_false]
    have still : c.Stands (c.perform h (.define (.index i) d)).2 i name := by
      refine (stays fun both => ?_).trans stands
      exact Bool.false_ne_true (keeps.symm.trans both.2.2)
    have writable : d.writable.getD true = true := by
      cases said : d.writable with
      | none => rfl
      | some w =>
        cases w with
        | true => rfl
        | false => exact absurd said readOnly
    obtain ⟨e, f, shown⟩ := (standing_shown c _ after i name still).1
    rw [reads] at shown
    rw [writable]
    exact ⟨e, f, shown⟩

end

-- Whatever is done to the parameters and the arguments object of a call, they keep to each other.
theorem history_aliased (separate : c.Separate) (h k : Heap) (done : List Deed) (standing : c.Standing h)
    (paired : ∀ i name, c.Pairs i name → c.Stands h i name) (history : c.History h done k) : c.Aliased done k := by
  have after := history_standing c h k done history standing
  have paired' (i : Nat) (name : String) (stands : c.Stands k i name) : c.Pairs i name := by
    obtain ⟨other, pairs, same⟩ := after.paired i _ stands
    rw [separate name other same]
    exact pairs
  refine ⟨fun i a => ?_, fun i j name one two => pairs_single c i j name (paired' i name one) (paired' j name two),
    standing_shown c k after, standing_assigned c k after, standing_writable c k after,
    standing_defined c k after, fun i unmapped l later history' => ⟨?_, fun other => ?_⟩,
    fun name member unmapped l later history' unassigned => ?_, fun op name unassigned apart => ?_,
    perform_rejected c k after⟩
  · rw [history_alias c h k done history standing]
    refine and_congr_left fun _ => ⟨standing.paired i a, ?_⟩
    rintro ⟨name, pairs, rfl⟩
    exact paired i name pairs
  · cases mapped : l.alias? c.object (.index i) with
    | none => rfl
    | some a =>
      rw [history_alias c k l later history' after, unmapped] at mapped
      exact absurd mapped.1.symm (Option.some_ne_none a)
  · exact history_own c k l later history' after i unmapped other
  · exact history_read c separate k l later history' after name member unmapped unassigned
  · refine perform_read c k after separate op name unassigned fun key about => ?_
    cases key with
    | index i => exact apart i about
    | name s =>
      rw [Heap.alias_name]
      exact (Option.some_ne_none _).symm

end Call

end Ecma
