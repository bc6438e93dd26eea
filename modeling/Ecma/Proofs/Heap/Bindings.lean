import Ecma.Heap.Environment

set_option autoImplicit false

/-!
Bindings under a change of one of them: what happens to the others, and what remains when some names are
left out.
-/

namespace Ecma

namespace Dictionary

variable {α : Type}

theorem find_put (d : Dictionary α) (name other : String) (a : α) :
    (d.put name a).find? other = if name = other then some a else d.find? other := by
  induction d with
  | nil => rfl
  | cons entry rest hyp =>
    obtain ⟨key, b⟩ := entry
    rw [put]
    by_cases same : key = name
    · subst same
      rw [if_pos rfl, find?, find?]
      by_cases here : key = other
      · rw [if_pos here, if_pos here]
      · rw [if_neg here, if_neg here, if_neg here]
    · rw [if_neg same, find?, find?, hyp]
      by_cases here : key = other
      · rw [if_pos here, if_pos here, if_neg]
        intro named
        exact same (here.trans named.symm)
      · rw [if_neg here, if_neg here]

theorem find_modify (d : Dictionary α) (name other : String) (f : α → α) :
    (d.modify name f).find? other = if name = other then (d.find? other).map f else d.find? other := by
  induction d with
  | nil =>
    rw [modify, find?]
    split <;> rfl
  | cons entry rest hyp =>
    obtain ⟨key, b⟩ := entry
    rw [modify]
    by_cases same : key = name
    · subst same
      rw [if_pos rfl, find?, find?]
      by_cases here : key = other
      · rw [if_pos here, if_pos here, if_pos here]
        rfl
      · rw [if_neg here, if_neg here, if_neg here]
    · rw [if_neg same, find?, find?, hyp]
      by_cases here : key = other
      · rw [if_pos here, if_pos here, if_neg]
        intro named
        exact same (here.trans named.symm)
      · rw [if_neg here, if_neg here]

theorem find_erase (d : Dictionary α) (name other : String) (distinct : name ≠ other) :
    (d.erase name).find? other = d.find? other := by
  induction d with
  | nil => rfl
  | cons entry rest hyp =>
    obtain ⟨key, b⟩ := entry
    rw [erase]
    by_cases same : key = name
    · subst same
      rw [if_pos rfl, find?, if_neg distinct]
    · rw [if_neg same, find?, find?, hyp]

theorem erase_absent (d : Dictionary α) (name : String) (absent : d.find? name = none) :
    d.erase name = d := by
  induction d with
  | nil => rfl
  | cons entry rest hyp =>
    obtain ⟨key, b⟩ := entry
    rw [find?] at absent
    by_cases same : key = name
    · rw [if_pos same] at absent
      cases absent
    · rw [if_neg same] at absent
      rw [erase, if_neg same, hyp absent]

/-- The entries but those of the given names. -/
def without (d : Dictionary α) (hidden : List String) : Dictionary α :=
  d.filter fun entry => !hidden.contains entry.1

theorem without_cons (key : String) (b : α) (rest : Dictionary α) (hidden : List String) :
    without ((key, b) :: rest) hidden =
      if key ∈ hidden then without rest hidden else (key, b) :: without rest hidden := by
  rw [without, List.filter_cons]
  by_cases member : key ∈ hidden
  · rw [if_pos member, if_neg]
    · rfl
    · rw [List.contains_iff_mem.mpr member]
      exact Bool.false_ne_true
  · rw [if_neg member, if_pos]
    · rfl
    · rw [Bool.not_eq_true', Bool.eq_false_iff, ne_eq, List.contains_iff_mem]
      exact member

theorem find_without (d : Dictionary α) (hidden : List String) (name : String) :
    (d.without hidden).find? name = if name ∈ hidden then none else d.find? name := by
  induction d with
  | nil =>
    rw [find?]
    split <;> rfl
  | cons entry rest hyp =>
    obtain ⟨key, b⟩ := entry
    rw [without_cons, find?]
    by_cases member : key ∈ hidden
    · rw [if_pos member, hyp]
      by_cases here : key = name
      · rw [if_pos (here ▸ member), if_pos (here ▸ member)]
      · rw [if_neg here]
    · rw [if_neg member, find?, hyp]
      by_cases here : key = name
      · rw [if_pos here, if_neg (here ▸ member), if_pos here]
      · rw [if_neg here, if_neg here]

theorem without_nothing (d : Dictionary α) : d.without [] = d := by
  induction d with
  | nil => rfl
  | cons entry rest hyp =>
    obtain ⟨key, b⟩ := entry
    rw [without_cons, if_neg List.not_mem_nil, hyp]

end Dictionary

namespace Bindings

open Dictionary

-- A change of the binding of one name.
structure Concerns (f : Bindings → Bindings) (name : String) : Prop where
  others : ∀ (b : Bindings) other, name ≠ other → (f b).find? other = b.find? other
  shown : ∀ (b : Bindings) hidden, name ∉ hidden → (f b).without hidden = f (b.without hidden)
  unseen : ∀ (b : Bindings) hidden, name ∈ hidden → (f b).without hidden = b.without hidden

theorem concerns_comp (f g : Bindings → Bindings) (name : String) (first : Concerns f name)
    (second : Concerns g name) : Concerns (fun b => g (f b)) name := by
  refine ⟨fun b other distinct => ?_, fun b hidden shown => ?_, fun b hidden unseen => ?_⟩
  · rw [second.others _ other distinct, first.others _ other distinct]
  · rw [second.shown _ hidden shown, first.shown _ hidden shown]
  · rw [second.unseen _ hidden unseen, first.unseen _ hidden unseen]

theorem put_concerns (name : String) (binding : Binding) :
    Concerns (fun b => Dictionary.put b name binding) name := by
  refine ⟨fun b other distinct => ?_, fun b hidden shown => ?_, fun b hidden unseen => ?_⟩
  · rw [find_put, if_neg distinct]
  · induction b with
    | nil =>
      rw [put, without_cons, if_neg shown]
      rfl
    | cons entry rest hyp =>
      obtain ⟨key, b⟩ := entry
      rw [put, without_cons]
      by_cases same : key = name
      · subst same
        rw [if_pos rfl, if_neg shown, without_cons, if_neg shown, put, if_pos rfl]
      · rw [if_neg same, without_cons, hyp]
        by_cases member : key ∈ hidden
        · rw [if_pos member, if_pos member]
        · rw [if_neg member, if_neg member, put, if_neg same]
  · induction b with
    | nil =>
      rw [put, without_cons, if_pos unseen]
    | cons entry rest hyp =>
      obtain ⟨key, b⟩ := entry
      rw [put, without_cons]
      by_cases same : key = name
      · subst same
        rw [if_pos rfl, if_pos unseen, without_cons, if_pos unseen]
      · rw [if_neg same, without_cons, hyp]

theorem modify_concerns (name : String) (change : Binding → Binding) :
    Concerns (fun b => Dictionary.modify b name change) name := by
  refine ⟨fun b other distinct => ?_, fun b hidden shown => ?_, fun b hidden unseen => ?_⟩
  · rw [find_modify, if_neg distinct]
  · induction b with
    | nil => rfl
    | cons entry rest hyp =>
      obtain ⟨key, b⟩ := entry
      rw [Dictionary.modify, without_cons]
      by_cases same : key = name
      · subst same
        rw [if_pos rfl, if_neg shown, without_cons, if_neg shown, Dictionary.modify, if_pos rfl]
      · rw [if_neg same, without_cons, hyp]
        by_cases member : key ∈ hidden
        · rw [if_pos member, if_pos member]
        · rw [if_neg member, if_neg member, Dictionary.modify, if_neg same]
  · induction b with
    | nil => rfl
    | cons entry rest hyp =>
      obtain ⟨key, b⟩ := entry
      rw [Dictionary.modify, without_cons]
      by_cases same : key = name
      · subst same
        rw [if_pos rfl, if_pos unseen, without_cons, if_pos unseen]
      · rw [if_neg same, without_cons, hyp]

theorem erase_concerns (name : String) : Concerns (fun b => Dictionary.erase b name) name := by
  refine ⟨fun b other distinct => find_erase b name other distinct, fun b hidden shown => ?_,
    fun b hidden unseen => ?_⟩
  · induction b with
    | nil => rfl
    | cons entry rest hyp =>
      obtain ⟨key, b⟩ := entry
      rw [erase, without_cons]
      by_cases same : key = name
      · subst same
        rw [if_pos rfl, if_neg shown, erase, if_pos rfl]
      · rw [if_neg same, without_cons, hyp]
        by_cases member : key ∈ hidden
        · rw [if_pos member, if_pos member]
        · rw [if_neg member, if_neg member, erase, if_neg same]
  · induction b with
    | nil => rfl
    | cons entry rest hyp =>
      obtain ⟨key, b⟩ := entry
      rw [erase, without_cons]
      by_cases same : key = name
      · subst same
        rw [if_pos rfl, if_pos unseen]
      · rw [if_neg same, without_cons, hyp]

-- Whether a change takes effect may depend on the binding itself.
theorem guarded_concerns (f : Bindings → Bindings) (name : String) (guard : Option Binding → Bool)
    (concerns : Concerns f name) :
    Concerns (fun b => if guard (Dictionary.find? b name) then f b else b) name := by
  refine ⟨fun b other distinct => ?_, fun b hidden shown => ?_, fun b hidden unseen => ?_⟩
  · split
    · exact concerns.others b other distinct
    · rfl
  · rw [find_without, if_neg shown]
    split
    · exact concerns.shown b hidden shown
    · rfl
  · split
    · exact concerns.unseen b hidden unseen
    · rfl

theorem create_concerns (name : String) (state : BindingState) :
    Concerns (fun b => Bindings.create b name state) name := by
  have whole := guarded_concerns _ name (fun found => found.isNone) (put_concerns name { state := state })
  refine (funext fun b => ?_ : _ = fun b => Bindings.create b name state) ▸ whole
  rw [create, Dictionary.has]
  cases Dictionary.find? b name <;> rfl

theorem create_mutable_concerns (name : String) (deletable : Bool) :
    Concerns (fun b => Bindings.createMutable b name deletable) name := by
  exact create_concerns name _

theorem write_concerns (name : String) (v : Value) : Concerns (fun b => Bindings.write b name v) name := by
  exact modify_concerns name _

theorem constant_concerns (name : String) (v : Value) :
    Concerns (fun b => (Bindings.createConstant b name).initializeConstant name v) name := by
  exact concerns_comp _ _ name (create_concerns name _) (modify_concerns name _)

theorem delete_concerns (name : String) : Concerns (fun b => Bindings.delete b name) name := by
  have whole := guarded_concerns _ name
    (fun found => (found.map Binding.state).all (· = .deletable)) (erase_concerns name)
  refine (funext fun b => ?_ : _ = fun b => Bindings.delete b name) ▸ whole
  rw [delete, canDelete, state?]
  cases Dictionary.find? b name <;> simp

/-! Constants. -/

-- Only some names have bindings that cannot be written.
def ConstantOnly (names : String → Prop) (b : Bindings) : Prop :=
  ∀ entry ∈ b, entry.2.state.isMutable = false → names entry.1

section

variable (names : String → Prop) (b : Bindings) (only : ConstantOnly names b) (name : String)
include only

theorem put_constants (binding : Binding) (fits : binding.state.isMutable = false → names name) :
    ConstantOnly names (Dictionary.put b name binding) := by
  induction b with
  | nil => exact fun entry member => List.mem_singleton.mp member ▸ fits
  | cons entry rest hyp =>
    obtain ⟨first, others⟩ := List.forall_mem_cons.mp only
    obtain ⟨key, a⟩ := entry
    rw [put]
    split
    · next same =>
      subst same
      exact List.forall_mem_cons.mpr ⟨fits, others⟩
    · exact List.forall_mem_cons.mpr ⟨first, hyp others⟩

theorem modify_constants (f : Binding → Binding)
    (fits : ∀ binding, (f binding).state.isMutable = false → binding.state.isMutable = false ∨ names name) :
    ConstantOnly names (Dictionary.modify b name f) := by
  induction b with
  | nil => exact only
  | cons entry rest hyp =>
    obtain ⟨first, others⟩ := List.forall_mem_cons.mp only
    obtain ⟨key, a⟩ := entry
    rw [Dictionary.modify]
    split
    · next same =>
      subst same
      exact List.forall_mem_cons.mpr ⟨fun state => (fits a state).elim first id, others⟩
    · exact List.forall_mem_cons.mpr ⟨first, hyp others⟩

theorem write_constants (v : Value) : ConstantOnly names (Bindings.write b name v) := by
  refine modify_constants names b only name _ fun binding state => Or.inl ?_
  split at state <;> exact state

theorem create_constants (state : BindingState) (fits : state.isMutable = false → names name) :
    ConstantOnly names (Bindings.create b name state) := by
  rw [Bindings.create]
  split
  · exact only
  · exact put_constants names b only name _ fits

theorem create_mutable_constants (deletable : Bool) :
    ConstantOnly names (Bindings.createMutable b name deletable) := by
  refine create_constants names b only name _ fun state => ?_
  cases deletable <;> cases state

theorem constant_constants (v : Value) (fits : names name) :
    ConstantOnly names ((Bindings.createConstant b name).initializeConstant name v) := by
  refine modify_constants names _ (create_constants names b only name _ fun _ => fits) name _
    fun _ _ => Or.inr fits

theorem erase_constants : ConstantOnly names (Dictionary.erase b name) := by
  induction b with
  | nil => exact only
  | cons entry rest hyp =>
    obtain ⟨first, others⟩ := List.forall_mem_cons.mp only
    obtain ⟨key, a⟩ := entry
    rw [erase]
    split
    · exact others
    · exact List.forall_mem_cons.mpr ⟨first, hyp others⟩

theorem delete_constants : ConstantOnly names (Bindings.delete b name) := by
  rw [Bindings.delete]
  split
  · exact erase_constants names b only name
  · exact only

omit only in
theorem constant_found (binding : Binding) (only : ConstantOnly names b) (found : Dictionary.find? b name = some binding)
    (state : binding.state.isMutable = false) : names name := by
  induction b with
  | nil => cases found
  | cons entry rest hyp =>
    obtain ⟨first, others⟩ := List.forall_mem_cons.mp only
    obtain ⟨key, a⟩ := entry
    rw [find?] at found
    split at found
    · next same =>
      subst same
      cases found
      exact first state
    · exact hyp others found

end

end Bindings

end Ecma
