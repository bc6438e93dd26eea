import Ecma.Heap.Define
import Ecma.Proofs.Heap.Bindings

set_option autoImplicit false

/-!
What is found in a heap after a change of one object, frame or environment.
-/

namespace Ecma.Heap

variable (h : Heap)

/-! Objects. -/

theorem object_add (o : Object) (id : ObjectId) :
    (h.addObject o).2.object id = if id = h.objects.size then o else h.object id := by
  rw [object, object, addObject]
  dsimp only
  rw [Array.getElem?_push]
  split <;> rfl

theorem object_unknown (id : ObjectId) (unknown : ¬ id < h.objects.size) : h.object id = default := by
  rw [object, Array.getElem?_eq_none (Nat.le_of_not_lt unknown)]
  rfl

theorem object_modify (id other : ObjectId) (f : Object → Object) :
    (h.modifyObject id f).object other =
      if id = other ∧ id < h.objects.size then f (h.object other) else h.object other := by
  rw [object, object, modifyObject]
  dsimp only
  rw [Array.getElem?_modify]
  by_cases same : id = other
  · subst same
    rw [if_pos rfl]
    by_cases known : id < h.objects.size
    · rw [if_pos ⟨rfl, known⟩, Array.getElem?_eq_getElem known]
      rfl
    · rw [if_neg (fun both => known both.2), Array.getElem?_eq_none (Nat.le_of_not_lt known)]
      rfl
  · rw [if_neg same, if_neg (fun both => same both.1)]

theorem size_modify (id : ObjectId) (f : Object → Object) :
    (h.modifyObject id f).objects.size = h.objects.size := by
  exact Array.size_modify

/-! Frames. -/

theorem frames_size_set (frame : FrameId) (index : Nat) (v : Value) :
    (h.setSlot frame index v).frames.size = h.frames.size := by
  exact Array.size_modify

theorem frame_set (frame other : FrameId) (index : Nat) (v : Value) (slots : Array Value)
    (found : h.frames[other]? = some slots) : ∃ after, (h.setSlot frame index v).frames[other]? = some after ∧
      after.size = slots.size := by
  rw [setSlot]
  dsimp only
  rw [Array.getElem?_modify, found]
  by_cases same : frame = other
  · rw [if_pos same]
    exact ⟨_, rfl, Array.size_setIfInBounds⟩
  · rw [if_neg same]
    exact ⟨slots, rfl, rfl⟩

theorem slot_set_same (frame : FrameId) (index : Nat) (v : Value) (slots : Array Value)
    (found : h.frames[frame]? = some slots) (inside : index < slots.size) :
    (h.setSlot frame index v).slot frame index = v := by
  rw [slot, setSlot]
  dsimp only
  rw [Array.getElem?_modify, if_pos rfl, found]
  change ((slots.setIfInBounds index v)[index]?).getD .undefined = v
  rw [Array.getElem?_setIfInBounds_self_of_lt inside]
  rfl

theorem slot_set_other (frame other : FrameId) (index index' : Nat) (v : Value)
    (distinct : ¬ (frame = other ∧ index = index')) :
    (h.setSlot frame index v).slot other index' = h.slot other index' := by
  rw [slot, slot, setSlot]
  dsimp only
  rw [Array.getElem?_modify]
  by_cases same : frame = other
  · rw [if_pos same]
    cases h.frames[other]? with
    | none => rfl
    | some slots =>
      change ((slots.setIfInBounds index v)[index']?).getD _ = (slots[index']?).getD _
      rw [Array.getElem?_setIfInBounds_ne]
      intro here
      exact distinct ⟨same, here⟩
  · rw [if_neg same]

theorem slot_unchanged (frame : FrameId) (index : Nat) : h.setSlot frame index (h.slot frame index) = h := by
  have frames : (h.setSlot frame index (h.slot frame index)).frames = h.frames := by
    refine Array.ext_getElem? fun i => ?_
    rw [setSlot]
    dsimp only
    rw [Array.getElem?_modify]
    split
    · rename_i same
      subst same
      cases found : h.frames[frame]? with
      | none => rfl
      | some slots =>
        rw [slot, found]
        change some (slots.setIfInBounds index (slots[index]?.getD .undefined)) = some slots
        congr 1
        refine Array.ext_getElem? fun j => ?_
        by_cases here : index = j
        · subst here
          by_cases inside : index < slots.size
          · rw [Array.getElem?_setIfInBounds_self_of_lt inside, Array.getElem?_eq_getElem inside]
            rfl
          · rw [Array.setIfInBounds, dif_neg inside]
        · rw [Array.getElem?_setIfInBounds_ne here]
    · rfl
  change { h with frames := (h.setSlot frame index (h.slot frame index)).frames } = h
  rw [frames]

/-! Environments. -/

theorem environment_of (e : EnvironmentId) (env : Environment) (found : h.environments[e]? = some env) :
    h.environment e = env := by
  rw [environment, found]
  rfl

theorem environments_size_modify (e : EnvironmentId) (f : Bindings → Bindings) :
    (h.modifyBindings e f).environments.size = h.environments.size := by
  exact Array.size_modify

theorem environment_modify_same (e : EnvironmentId) (f : Bindings → Bindings) (b : Bindings)
    (outer : Option EnvironmentId) (found : h.environments[e]? = some ⟨.declarative b, outer⟩) :
    (h.modifyBindings e f).environments[e]? = some ⟨.declarative (f b), outer⟩ := by
  rw [modifyBindings]
  dsimp only
  rw [Array.getElem?_modify, if_pos rfl, found]
  rfl

theorem environment_modify_other (e other : EnvironmentId) (f : Bindings → Bindings) (distinct : e ≠ other) :
    (h.modifyBindings e f).environments[other]? = h.environments[other]? := by
  rw [modifyBindings]
  dsimp only
  rw [Array.getElem?_modify, if_neg distinct]

theorem bindings_of (e : EnvironmentId) (b : Bindings) (outer : Option EnvironmentId)
    (found : h.environments[e]? = some ⟨.declarative b, outer⟩) : h.bindings? e = some b := by
  rw [bindings?, environment_of h e _ found]

theorem record_modify (e : EnvironmentId) (f : Bindings → Bindings) (id : ObjectId) (receiver : Bool)
    (outer : Option EnvironmentId) (found : h.environments[e]? = some ⟨.object id receiver, outer⟩) :
    (h.modifyBindings e f).environments[e]? = some ⟨.object id receiver, outer⟩ := by
  rw [modifyBindings]
  dsimp only
  rw [Array.getElem?_modify, if_pos rfl, found]
  rfl

theorem bindings_modify (e other : EnvironmentId) (f : Bindings → Bindings)
    (known : e < h.environments.size) :
    (h.modifyBindings e f).bindings? other =
      if e = other then (h.bindings? other).map f else h.bindings? other := by
  rw [bindings?, bindings?, environment, environment]
  by_cases same : e = other
  · subst same
    rw [if_pos rfl, modifyBindings]
    dsimp only
    rw [Array.getElem?_modify, if_pos rfl]
    rw [Array.getElem?_eq_getElem known]
    generalize h.environments[e] = env
    obtain ⟨record, outer⟩ := env
    cases record <;> rfl
  · rw [if_neg same, environment_modify_other h e other f same]

theorem bindings_unchanged (e : EnvironmentId) (f : Bindings → Bindings)
    (same : ∀ b, h.bindings? e = some b → f b = b) : h.modifyBindings e f = h := by
  have environments : (h.modifyBindings e f).environments = h.environments := by
    refine Array.ext_getElem? fun i => ?_
    by_cases here : e = i
    · subst here
      cases found : h.environments[e]? with
      | none =>
        rw [modifyBindings]
        dsimp only
        rw [Array.getElem?_modify, if_pos rfl, found]
        rfl
      | some env =>
        obtain ⟨record, outer⟩ := env
        cases record with
        | object id receiver => exact record_modify h e f id receiver outer found
        | declarative b =>
          rw [environment_modify_same h e f b outer found, same b (bindings_of h e b outer found)]
    · exact environment_modify_other h e i f here
  change { h with environments := (h.modifyBindings e f).environments } = h
  rw [environments]

/-- The binding that a declarative environment has of a name. -/
def binding? (e : EnvironmentId) (name : String) : Option Binding :=
  (h.bindings? e).bind fun b => Dictionary.find? b name

theorem binding_of (e : EnvironmentId) (b : Bindings) (outer : Option EnvironmentId) (name : String)
    (found : h.environments[e]? = some ⟨.declarative b, outer⟩) : h.binding? e name = Dictionary.find? b name := by
  rw [binding?, bindings_of h e b outer found]
  rfl

theorem read_binding (e : EnvironmentId) (name : String) :
    h.readAlias (.binding e name) = ((h.binding? e name).map Binding.value).getD .undefined := by
  rw [readAlias, binding?]
  cases h.bindings? e <;> rfl

theorem binding_modify_same (e : EnvironmentId) (name : String) (f : Bindings → Bindings) (b : Bindings)
    (outer : Option EnvironmentId) (found : h.environments[e]? = some ⟨.declarative b, outer⟩) :
    (h.modifyBindings e f).binding? e name = Dictionary.find? (f b) name := by
  exact binding_of _ e (f b) outer name (environment_modify_same h e f b outer found)

theorem binding_modify_other (e other : EnvironmentId) (name name' : String) (f : Bindings → Bindings)
    (concerns : Bindings.Concerns f name) (known : e < h.environments.size)
    (distinct : ¬ (e = other ∧ name = name')) :
    (h.modifyBindings e f).binding? other name' = h.binding? other name' := by
  rw [binding?, binding?, bindings_modify h e other f known]
  by_cases same : e = other
  · rw [if_pos same]
    cases h.bindings? other with
    | none => rfl
    | some b => exact concerns.others b name' fun here => distinct ⟨same, here⟩
  · rw [if_neg same]

/-! Searches. -/

section

variable (next : Nat → Option Nat) (less : ∀ id link, next id = some link → link < id)
include less

-- Links lead to smaller numbers, so more steps than the number reach nothing more.
theorem follow_enough (fuel id : Nat) (enough : id ≤ fuel) : follow next fuel id = follow next id id := by
  induction id using Nat.strongRecOn generalizing fuel with
  | _ id hyp =>
    cases fuel with
    | zero =>
      rw [Nat.le_zero.mp enough]
    | succ fuel =>
      cases id with
      | zero =>
        rw [follow, follow]
        cases found : next 0 with
        | none => rfl
        | some link => exact absurd (less 0 link found) (Nat.not_lt_zero link)
      | succ id =>
        rw [follow, follow]
        cases found : next (id + 1) with
        | none => rfl
        | some link =>
          have below := less (id + 1) link found
          have near := Nat.le_of_lt_succ below
          dsimp only
          rw [hyp link below fuel (Nat.le_trans near (Nat.le_of_succ_le_succ enough)),
            hyp link below id near]

theorem follow_step (id : Nat) : follow next id id = id :: match next id with
    | some link => follow next link link
    | none => [] := by
  have more := follow_enough next less (id + 1) id (Nat.le_succ id)
  rw [← more, follow]
  cases found : next id with
  | none => rfl
  | some link =>
    dsimp only
    rw [follow_enough next less id link (Nat.le_of_lt (less id link found))]

end

theorem below_less (id link : Nat) (given : Option Nat) (found : below id given = some link) : link < id := by
  rw [below, Option.filter_eq_some_iff] at found
  exact of_decide_eq_true found.2

theorem outer_less (id link : Nat) (found : h.outer? id = some link) : link < id := by
  exact below_less id link _ found

theorem find_binding_step (e : EnvironmentId) (name : String) :
    h.findBinding e name =
      if h.hasBinding e name then some e
      else (h.outer? e).bind fun outer => h.findBinding outer name := by
  rw [findBinding, environmentChain, follow_step h.outer? (outer_less h), List.find?_cons]
  cases h.hasBinding e name with
  | true => rfl
  | false =>
    dsimp only
    cases h.outer? e <;> rfl

theorem outer_of (e outer : EnvironmentId) (record : EnvironmentRecord)
    (found : h.environments[e]? = some ⟨record, some outer⟩) (less : outer < e) :
    h.outer? e = some outer := by
  rw [outer?, environment_of h e _ found, below, Option.filter_some]
  rw [if_pos (decide_eq_true less)]

theorem outer_none (e : EnvironmentId) (record : EnvironmentRecord)
    (found : h.environments[e]? = some ⟨record, none⟩) : h.outer? e = none := by
  rw [outer?, environment_of h e _ found]
  rfl

end Ecma.Heap
