import Ecma.Eval.Place
import Ecma.Proofs.Storage.Place

set_option autoImplicit false

/-!
What is done with a place does the same in two runs, whether a binding lives in a slot or in an
environment.
-/

namespace Ecma.Storage

open Ecma.Program Ecma.Scope Ecma.Syntax Run

variable {α : Type} (M : Machines) (W : World) (live : List Link) (s : Stand)

theorem not_defined_sim (name : String) (Q : World → α → α → Prop) :
    Sim M W live s (notDefined name) (notDefined name) Q := by
  exact throw_error_sim M W live s _ _ Q

theorem sim_ite (c : Prop) [Decidable c] (x₁ x₂ y₁ y₂ : Run α) (Q : World → α → α → Prop)
    (yes : Sim M W live s x₁ x₂ Q) (no : Sim M W live s y₁ y₂ Q) :
    Sim M W live s (if c then x₁ else y₁) (if c then x₂ else y₂) Q := by
  split
  · exact yes
  · exact no

/-! Environments that belong together. -/

section

variable (fit : M.Fit) (e₁ e₂ : EnvironmentId) (name : String) (twins : W.Twins name e₁ e₂)
include twins

theorem change_twins_sim (f : Bindings → Bindings) (admits : ∀ shape, Admits shape name f) :
    Sim M W live s (modifyHeap fun h => h.modifyBindings e₁ f) (modifyHeap fun h => h.modifyBindings e₂ f) Same := by
  obtain ⟨info, found, twin, shown⟩ := twins
  refine sim_modify M W live s _ _ fun h₁ h₂ related => ⟨W, W.below_refl, ?_⟩
  refine change_shown_related W live [] [] h₁ h₂ related e₁ e₂ info name f found twin shown (admits _)
    (pays_nothing _ _ _)

include fit

theorem get_binding_sim (strict : Bool) :
    Sim M W live s (getBinding e₁ name strict) (getBinding e₂ name strict) Same := by
  refine sim_heap M W live s _ _ Same fun h₁ h₂ related => ?_
  have same := heaps_same_view W live [] h₁ h₂ related
  rcases twins_bindings W live [] h₁ h₂ related name e₁ e₂ twins with
    ⟨id, receiver, first, second⟩ | ⟨b₁, b₂, first, second, found⟩
  · rw [first, second]
    dsimp only
    rw [Heap.has_property_same h₁ h₂ same]
    refine sim_ite M W live s _ _ _ _ _ Same (uniform_sim M W live s fit _ (get_native _ _).uniform) ?_
    exact sim_ite M W live s _ _ _ _ _ Same (not_defined_sim M W live s name _) (sim_pure M W live s _ _ _ rfl)
  · rw [first, second]
    dsimp only
    rw [found]
    cases Dictionary.find? b₂ name with
    | none => exact not_defined_sim M W live s name _
    | some b =>
      dsimp only
      refine sim_ite M W live s _ _ _ _ _ Same ?_ (sim_pure M W live s _ _ _ rfl)
      cases strict with
      | false => exact sim_pure M W live s _ _ _ rfl
      | true => exact throw_error_sim M W live s _ _ _

theorem set_binding_sim (v : Value) (strict : Bool) :
    Sim M W live s (setBinding e₁ name v strict) (setBinding e₂ name v strict) Same := by
  refine sim_heap M W live s _ _ Same fun h₁ h₂ related => ?_
  rcases twins_bindings W live [] h₁ h₂ related name e₁ e₂ twins with
    ⟨id, receiver, first, second⟩ | ⟨b₁, b₂, first, second, found⟩
  · rw [first, second]
    exact uniform_sim M W live s fit _ (put_native _ _ _ _).uniform
  · have has : Dictionary.has b₁ name = Dictionary.has b₂ name := by
      rw [Dictionary.has, Dictionary.has, found]
    have writes : Bindings.canWrite b₁ name = Bindings.canWrite b₂ name := by
      rw [Bindings.canWrite, Bindings.canWrite, Bindings.state?, Bindings.state?, found]
    rw [first, second]
    dsimp only
    rw [has, writes]
    refine sim_bind_same M W live s _ _ _ _ Same (change_twins_sim M W live s e₁ e₂ name twins _ fun shape =>
      write_admits shape name v) fun V _ _ => ?_
    exact sim_ite M V live s _ _ _ _ _ Same (throw_type_error_sim M V live s _ _) (sim_pure M V live s _ _ _ rfl)

theorem delete_binding_sim : Sim M W live s (deleteBinding e₁ name) (deleteBinding e₂ name) Same := by
  refine sim_heap M W live s _ _ Same fun h₁ h₂ related => ?_
  rcases twins_bindings W live [] h₁ h₂ related name e₁ e₂ twins with
    ⟨id, receiver, first, second⟩ | ⟨b₁, b₂, first, second, found⟩
  · rw [first, second]
    exact uniform_sim M W live s fit _ (delete_own_native _ _ _).uniform
  · have deletes : Bindings.canDelete b₁ name = Bindings.canDelete b₂ name := by
      rw [Bindings.canDelete, Bindings.canDelete, Bindings.state?, Bindings.state?, found]
    rw [first, second]
    dsimp only
    rw [deletes]
    exact sim_bind_same M W live s _ _ _ _ Same (change_twins_sim M W live s e₁ e₂ name twins _ fun shape =>
      delete_admits shape name) fun V _ _ => sim_pure M V live s _ _ _ rfl

end

/-! A slot and the binding it stands for. -/

section

variable (h₁ h₂ : Heap) (related : HeapRelated W live [] h₁ h₂) (l : Link) (member : l ∈ W.links ++ live)
include related member

-- The binding of a link, with its value and its state.
theorem link_binding : ∃ b binding, (h₂.environment l.env).record = .declarative b ∧
    Dictionary.find? b l.name = some binding ∧ binding.state = l.state ∧ binding.value = h₁.slot l.frame l.slot := by
  obtain ⟨value, state⟩ := related.link l member
  obtain ⟨binding, found, same⟩ := state List.not_mem_nil
  have read := Heap.read_binding h₂ l.env l.name
  rw [found] at read
  rw [Heap.binding?, Heap.bindings?] at found
  cases record : (h₂.environment l.env).record with
  | object id receiver =>
    rw [record] at found
    cases found
  | declarative b =>
    rw [record] at found
    exact ⟨b, binding, rfl, found, same, (value.trans read).symm⟩

theorem link_fixed : l.state = .lasting ∨ l.state = .constant := by
  exact (link_placed W live [] h₁ h₂ related l member).choose_spec.state

end

section

variable (l : Link) (member : l ∈ W.links ++ live) (here : l.frame = s.context₁.frame) (strict : Bool)
include member here

theorem get_slot_sim : Sim M W live s (getSlot l.slot) (getBinding l.env l.name strict) Same := by
  intro r₁ r₂ related holds
  obtain ⟨b, binding, record, found, state, value⟩ := link_binding W live _ _ related.heap l member
  have fixed := link_fixed W live _ _ related.heap l member
  have running : r₁.running.frame = l.frame := by
    obtain ⟨⟨position, first, _⟩, _⟩ := holds
    rw [first, here]
  have first (m : Machine) : getSlot l.slot m r₁ = .ok binding.value r₁ := by
    change EStateM.Result.ok (r₁.heap.slot r₁.running.frame l.slot) r₁ = _
    rw [running, value]
  have second (m : Machine) : getBinding l.env l.name strict m r₂ = .ok binding.value r₂ := by
    rw [getBinding, heap_at, record]
    dsimp only
    rw [found]
    dsimp only
    rw [if_neg]
    · rfl
    · rw [state]
      rcases fixed with same | same
      · rw [same]
        exact fun contra => by cases contra
      · rw [same]
        exact fun contra => by cases contra
  refine ⟨(first _).trans (first _).symm, (second _).trans (second _).symm, ?_⟩
  rw [first, second]
  exact ⟨W, ⟨W.below_refl, related, holds⟩, rfl⟩

theorem set_slot_sim (v : Value) (lasting : l.state = .lasting) :
    Sim M W live s (setSlot l.slot v) (setBinding l.env l.name v strict) Same := by
  intro r₁ r₂ related holds
  obtain ⟨b, binding, record, found, state, value⟩ := link_binding W live _ _ related.heap l member
  have running : r₁.running.frame = l.frame := by
    obtain ⟨⟨position, first, _⟩, _⟩ := holds
    rw [first, here]
  have first (m : Machine) :
      setSlot l.slot v m r₁ = .ok () { r₁ with heap := r₁.heap.setSlot l.frame l.slot v } := by
    rw [← running]
    rfl
  have writes : Bindings.canWrite b l.name = true := by
    rw [Bindings.canWrite, Bindings.state?, found]
    change binding.state.isMutable = true
    rw [state, lasting]
    rfl
  have second (m : Machine) : setBinding l.env l.name v strict m r₂ =
      .ok () { r₂ with heap := r₂.heap.modifyBindings l.env fun b => b.write l.name v } := by
    rw [setBinding, heap_at, record]
    dsimp only
    rw [writes, Bool.not_true, Bool.and_false, if_neg Bool.false_ne_true]
    rfl
  refine ⟨(first _).trans (first _).symm, (second _).trans (second _).symm, ?_⟩
  rw [first, second]
  refine ⟨W, ⟨W.below_refl, related_with_heap W W live live [] [] r₁ r₂ _ _ related ?_, holds⟩, rfl⟩
  exact change_hidden_related W live [] [] _ _ related.heap l v _ member
    (fun info _ => write_admits info.shape l.name v)
    (fun b _ => written_lasting l v lasting b) (pays_nothing _ _ _)

omit here in
theorem delete_slot_sim : Sim M W live s (pure false) (deleteBinding l.env l.name) Same := by
  intro r₁ r₂ related holds
  obtain ⟨b, binding, record, found, state, value⟩ := link_binding W live _ _ related.heap l member
  have fixed := link_fixed W live _ _ related.heap l member
  have stays : Bindings.canDelete b l.name = false := by
    rw [Bindings.canDelete, Bindings.state?, found]
    change decide (binding.state = .deletable) = false
    rw [state]
    rcases fixed with same | same
    · rw [same]
      rfl
    · rw [same]
      rfl
  have same : r₂.heap.modifyBindings l.env (fun b => b.delete l.name) = r₂.heap := by
    refine Heap.bindings_unchanged _ _ _ fun b' there => ?_
    rw [Heap.bindings?, record] at there
    cases there
    rw [Bindings.delete, stays, if_neg Bool.false_ne_true]
  have second (m : Machine) : deleteBinding l.env l.name m r₂ = .ok false r₂ := by
    rw [deleteBinding, heap_at, record]
    dsimp only
    rw [stays]
    change EStateM.Result.ok false { r₂ with heap := r₂.heap.modifyBindings l.env fun b => b.delete l.name } = _
    rw [same]
  refine ⟨rfl, (second _).trans (second _).symm, ?_⟩
  rw [second]
  exact ⟨W, ⟨W.below_refl, related, holds⟩, rfl⟩

end

/-! Places. -/

section

variable (fit : M.Fit) (strict : Bool) (writable : Prop) (p₁ p₂ : Place)
  (places : PlaceRelated W live s.context₁.frame strict writable p₁ p₂)
include places

theorem place_receiver (h₁ h₂ : Heap) (related : HeapRelated W live [] h₁ h₂) : p₁.receiver h₁ = p₂.receiver h₂ := by
  cases places with
  | slot l member here lasting =>
    obtain ⟨b, binding, record, _⟩ := link_binding W live h₁ h₂ related l member
    change Value.undefined = Heap.implicitReceiver h₂ l.env
    rw [Heap.implicitReceiver, record]
  | environment e₁ e₂ name twins =>
    change Heap.implicitReceiver h₁ e₁ = Heap.implicitReceiver h₂ e₂
    rw [Heap.implicitReceiver, Heap.implicitReceiver]
    rcases twins_bindings W live [] h₁ h₂ related name e₁ e₂ twins with
      ⟨id, receiver, first, second⟩ | ⟨b₁, b₂, first, second, _⟩
    · rw [first, second]
    · rw [first, second]
  | nowhere name => rfl
  | property base key => rfl
  | nothing => rfl

include fit

theorem place_read_sim : Sim M W live s p₁.read p₂.read Same := by
  cases places with
  | slot l member here lasting => exact get_slot_sim M W live s l member here strict
  | environment e₁ e₂ name twins => exact get_binding_sim M W live s fit e₁ e₂ name twins strict
  | nowhere name => exact not_defined_sim M W live s name _
  | property base key => exact uniform_sim M W live s fit _ (get_of_native _ _).uniform
  | nothing => exact sim_pure M W live s _ _ _ rfl

theorem place_write_sim (v : Value) (may : writable) : Sim M W live s (p₁.write v strict) (p₂.write v strict) Same := by
  cases places with
  | slot l member here lasting => exact set_slot_sim M W live s l member here strict v (lasting may)
  | environment e₁ e₂ name twins => exact set_binding_sim M W live s fit e₁ e₂ name twins v strict
  | nowhere name =>
    change Sim M W live s (if strict then notDefined name else put _ _ v false)
      (if strict then notDefined name else put _ _ v false) Same
    exact sim_ite M W live s _ _ _ _ _ Same (not_defined_sim M W live s name _)
      (uniform_sim M W live s fit _ (put_native _ _ _ _).uniform)
  | property base key => exact uniform_sim M W live s fit _ (put_of_native _ _ _ _).uniform
  | nothing => exact throw_error_sim M W live s _ _ _

theorem place_delete_sim (may : ∀ r, p₁ = .reference r → strict = false) (slots : ∀ index, p₁ = .slot index → strict = false) :
    Sim M W live s (p₁.delete strict) (p₂.delete strict) Same := by
  cases places with
  | slot l member here lasting =>
    cases slots _ rfl
    exact delete_slot_sim M W live s l member
  | environment e₁ e₂ name twins =>
    cases may _ rfl
    exact delete_binding_sim M W live s fit e₁ e₂ name twins
  | nowhere name =>
    cases may _ rfl
    exact sim_pure M W live s _ _ _ rfl
  | property base key =>
    refine uniform_sim M W live s fit _ (Uniform.bind _ _ (to_object_native _).uniform fun id => ?_)
    exact (delete_own_native _ _ _).uniform
  | nothing => exact sim_pure M W live s _ _ _ rfl

theorem place_type_sim : Sim M W live s p₁.typeOf p₂.typeOf Same := by
  have named (x₁ x₂ : Run Value) (reads : Sim M W live s x₁ x₂ Same) :
      Sim M W live s (x₁ >>= fun v => heap >>= fun h => pure (Value.string (h.typeOf v)))
        (x₂ >>= fun v => heap >>= fun h => pure (Value.string (h.typeOf v))) Same := by
    refine sim_bind_same M W live s _ _ _ _ Same reads fun V v _ => ?_
    refine sim_heap M V live s _ _ Same fun h₁ h₂ related => ?_
    rw [Heap.type_of_same h₁ h₂ (heaps_same_view V live [] h₁ h₂ related)]
    exact sim_pure M V live s _ _ _ rfl
  have reads := place_read_sim M W live s fit strict writable p₁ p₂ places
  cases places with
  | nowhere name => exact sim_pure M W live s _ _ _ rfl
  | _ => exact named _ _ reads

end

/-! Names. -/

theorem place_at (v : Variable) (strict : Bool) (m : Machine) (r : Realm)
    (trusts : m.lookup v strict r = Lookup.resolved v strict r) :
    placeOf v strict m r = .ok (r.placeOf v strict) r := by
  rw [placeOf, trusts]
  rfl

theorem name_sim (fit : M.Fit) (p : Setting) (standing : Standing W live p s) (name : String)
    (referred : name ∈ (p.tree.scope p.scope).refs) (argued : name = "arguments" → p.arguments = true) :
    Sim M W live s (placeOf ⟨name, (p.tree.analyze true).resolve p.scope name⟩ p.strict)
      (placeOf ⟨name, (p.tree.analyze false).resolve p.scope name⟩ p.strict)
      (fun V => PlaceRelated V live s.context₁.frame p.strict (p.strict = true → name ≠ "arguments")) := by
  intro r₁ r₂ related holds
  obtain ⟨kept₁, kept₂, places⟩ := name_led W live p s r₁ r₂ related holds standing name referred argued
  have first (v : Variable) := place_at v p.strict M.first r₁ (by rw [fit.first])
  have second (v : Variable) := place_at v p.strict M.second r₂ (by rw [fit.second])
  obtain ⟨tied₁, tied₂⟩ := related_tied W live [] _ _ related.heap
  have other₁ := place_at _ p.strict M.other₁ r₁ (fit.other₁ _ p.strict r₁ kept₁ tied₁)
  have other₂ := place_at _ p.strict M.other₂ r₂ (fit.other₂ _ p.strict r₂ kept₂ tied₂)
  refine ⟨other₁.trans (first _).symm, other₂.trans (second _).symm, ?_⟩
  rw [first, second]
  exact ⟨W, ⟨W.below_refl, related, holds⟩, places⟩

end Ecma.Storage

/-!
Entering a scope. The second run makes an environment for it with all of its bindings, the first one only
if some of them cannot live in slots. A named function and a catch clause bind one name in theirs.
-/

namespace Ecma.Storage

open Ecma.Program Ecma.Scope Ecma.Syntax Run

/-- What is known for good of the environment of a scope that will bind some names. -/
def scopeShape (t : Scope.Tree) (scope : ScopeId) (lower fixed : List String) : Shape :=
  .bindings (((t.analyze true).scope scope).locals.map Prod.fst)
    (if ((t.analyze true).scope scope).isClosed then some (t.scope scope).defs else none) lower fixed

theorem scope_shape_fits (t : Scope.Tree) (scope : ScopeId) (lower fixed : List String)
    (kind : (t.scope scope).kind ≠ .withObject)
    (binds : ∀ name ∈ (t.scope scope).defs,
      ((t.scope scope).kind = .function ∧ name = "arguments") ∨ name ∈ lower)
    (arguments : (t.scope scope).kind = .function → "arguments" ∈ (t.scope scope).defs) :
    Fits t scope (scopeShape t scope lower fixed) := by
  refine ⟨⟨fun object => absurd object kind, fun object => ?_⟩, fun _ => ⟨_, _, _, _, rfl⟩, rfl, rfl, binds, arguments⟩
  obtain ⟨id, same⟩ := object
  cases same

/-- The environments of a scope that has just been entered. -/
structure Entered (W : World) (t : Scope.Tree) (scope : ScopeId) (lower fixed : List String) (o₂ e₁ e₂ : EnvironmentId) :
    Prop where
  chain : Chain W t scope e₁ e₂
  has : ∃ info, W.Has e₂ info ∧ info.shape = scopeShape t scope lower fixed ∧ info.around₂ = some o₂ ∧
    (((t.analyze true).scope scope).collapsed = false → info.twin = some e₁)

section

variable (W V : World) (below : W.Below V)
include below

theorem entered_grown (t : Scope.Tree) (scope : ScopeId) (lower fixed : List String) (o₂ e₁ e₂ : EnvironmentId)
    (entered : Entered W t scope lower fixed o₂ e₁ e₂) : Entered V t scope lower fixed o₂ e₁ e₂ := by
  obtain ⟨info, found, rest⟩ := entered.has
  exact ⟨chain_grown W V below _ _ _ _ entered.chain, info, below.infos _ _ found, rest⟩

end

-- What both runs have of a scope that has been entered.
theorem entered_records (W : World) (live : List Link) (owed : List (EnvironmentId × String)) (h₁ h₂ : Heap)
    (related : HeapRelated W live owed h₁ h₂) (t : Scope.Tree) (scope : ScopeId) (lower fixed : List String)
    (o₂ e₁ e₂ : EnvironmentId) (entered : Entered W t scope lower fixed o₂ e₁ e₂) :
    ∃ info b, W.Has e₂ info ∧ info.shape = scopeShape t scope lower fixed ∧ info.around₂ = some o₂ ∧
      h₂.environments[e₂]? = some ⟨.declarative b, info.around₂⟩ ∧
      (∀ name ∈ lower, (e₂, name) ∈ owed → Dictionary.find? b name = none) ∧
      (((t.analyze true).scope scope).collapsed = false → info.twin = some e₁ ∧
        h₁.environments[e₁]? = some ⟨without info.shape.hidden (.declarative b), info.around₁⟩) := by
  obtain ⟨info, has, shape, around, twin⟩ := entered.has
  obtain ⟨record, environment⟩ := related.environment e₂ info has
  have describes := environment.describes
  rw [shape] at describes
  obtain ⟨b, rfl, _, _, absent, _⟩ := describes
  exact ⟨info, b, has, shape, around, environment.second, absent, fun separate =>
    ⟨twin separate, environment.first e₁ (twin separate)⟩⟩

theorem empty_describes (t : Scope.Tree) (scope : ScopeId) (lower fixed : List String) :
    (scopeShape t scope lower fixed).Describes (fun name => name ∈ lower) (.declarative []) := by
  refine ⟨[], rfl, fun names _ name has => ?_, fun name member due => absurd member due, fun name _ _ => rfl,
    fun entry member => absurd member List.not_mem_nil⟩
  cases has

theorem empty_without (hidden : List String) : without hidden (.declarative []) = .declarative [] := by
  rfl

/-- A scope is entered right inside another one. -/
theorem scope_settles (W : World) (live : List Link) (s : Stand) (t : Scope.Tree) (scope o : ScopeId)
    (lower fixed : List String) (o₁ o₂ : EnvironmentId) (outer : (t.scope scope).outer = some o)
    (fits : Fits t scope (scopeShape t scope lower fixed)) (chain : Chain W t o o₁ o₂) :
    Settles W live [] (lower.map (W.next, ·)) s s
      (if ((t.analyze true).scope scope).collapsed then pure o₁ else newScope o₁) (newScope o₂)
      (fun V e₁ e₂ => V.links = W.links ∧ e₂ = W.next ∧ Entered V t scope lower fixed o₂ e₁ e₂) := by
  have known (h₁ h₂ : Heap) (related : HeapRelated W live [] h₁ h₂) :
      o₁ < h₁.environments.size ∧ o₂ < h₂.environments.size :=
    chain_known W live [] h₁ h₂ related t o o₁ o₂ chain
  have describes := empty_describes t scope lower fixed
  cases collapsed : ((t.analyze true).scope scope).collapsed with
  | true =>
    have settles := hidden_environment_settles W live s _ lower _ o₁ o₂ known describes
    refine settles_weaken W live [] _ s s _ _ _ _ settles fun V e₁ e₂ below made => ?_
    obtain ⟨links, rfl, next, has⟩ := made
    refine ⟨links, next, ?_, _, has, rfl, rfl, fun contra => by cases collapsed.symm.trans contra⟩
    exact .bare scope o _ _ o₂ _ outer collapsed has fits rfl (chain_grown W V below _ _ _ _ chain)
  | false =>
    have settles := both_environments_settle W live s _ lower _ o₁ o₂ known describes
    rw [empty_without] at settles
    refine settles_weaken W live [] _ s s _ _ _ _ settles fun V e₁ e₂ below made => ?_
    obtain ⟨links, next, has⟩ := made
    refine ⟨links, next, ?_, _, has, rfl, rfl, fun _ => rfl⟩
    exact .full scope o _ _ o₁ o₂ _ outer collapsed has fits rfl rfl rfl (chain_grown W V below _ _ _ _ chain)

/-! A binding that no link is about. -/

/-- A binding changes that the first run never looks at. -/
theorem change_unlinked_related (W : World) (live : List Link) (owed left : List (EnvironmentId × String))
    (h₁ h₂ : Heap) (related : HeapRelated W live owed h₁ h₂) (e₂ : EnvironmentId) (info : Info) (name : String)
    (f : Bindings → Bindings) (found : W.Has e₂ info) (hidden : name ∈ info.shape.hidden)
    (admits : Admits info.shape name f) (unlinked : ∀ l ∈ W.links ++ live, ¬ (e₂ = l.env ∧ name = l.name))
    (pays : Pays owed left e₂ name f) :
    HeapRelated W live left h₁ (h₂.modifyBindings e₂ f) := by
  have known := has_known W live owed h₁ h₂ related e₂ info found
  refine { related with
    environments := ?_, environment := ?_, link := ?_
    tethered := change_tethered W live owed left h₁ h₂ related e₂ info name f found admits pays }
  · rw [Heap.environments_size_modify]
    exact related.environments
  · intro g₂ other there
    obtain ⟨record, environment⟩ := related.environment g₂ other there
    by_cases here : e₂ = g₂
    · subst here
      cases Option.some.inj (found.symm.trans there)
      have describes := environment.describes
      cases record with
      | object id receiver =>
        generalize info.shape = shape at describes hidden
        cases shape with
        | object id' receiver' => cases hidden
        | bindings _ _ _ =>
          obtain ⟨b, contra, _⟩ := describes
          cases contra
      | declarative b =>
        refine ⟨.declarative (f b), ?_, fun g₁ twin => ?_, environment.less₁, environment.less₂, ?_⟩
        · exact Heap.environment_modify_same h₂ e₂ f b _ environment.second
        · rw [environment.first g₁ twin, without, without, admits.concerns.unseen b _ hidden]
        · exact admits_describes _ owed left e₂ name f pays b admits describes
    · refine ⟨record, ?_, environment.first, environment.less₁, environment.less₂, ?_⟩
      · rw [Heap.environment_modify_other h₂ e₂ g₂ f here]
        exact environment.second
      · exact describes_elsewhere _ owed left e₂ name f pays g₂ record here environment.describes
  · exact fun l member => link_elsewhere W live owed left h₁ h₂ related e₂ name f pays admits.concerns known l member
      (unlinked l member)

-- No link is about an environment that has just been made.
theorem next_unlinked (W : World) (live : List Link) (owed : List (EnvironmentId × String)) (h₁ h₂ : Heap)
    (related : HeapRelated W live owed h₁ h₂) (l : Link) (member : l ∈ W.links ++ live) : l.env ≠ W.next := by
  obtain ⟨kind, placed⟩ := link_placed W live owed h₁ h₂ related l member
  obtain ⟨info, found, _⟩ := placed.env
  exact Nat.ne_of_lt (List.getElem?_eq_some_iff.mp found).1

/-! A name is bound for good. -/

/-- Makes a lasting binding, unless there is one, and gives it a value. -/
def bindLasting (name : String) (v : Value) (b : Bindings) : Bindings :=
  Bindings.write (Bindings.createMutable b name false) name v

theorem modify_bindings_twice (h : Heap) (e : EnvironmentId) (f g : Bindings → Bindings) :
    (h.modifyBindings e f).modifyBindings e g = h.modifyBindings e fun b => g (f b) := by
  have environments : ((h.modifyBindings e f).modifyBindings e g).environments =
      (h.modifyBindings e fun b => g (f b)).environments := by
    refine Array.ext_getElem? fun i => ?_
    by_cases here : e = i
    · subst here
      cases found : h.environments[e]? with
      | none =>
        simp only [Heap.modifyBindings, Array.getElem?_modify, if_pos, found, Option.map_none]
      | some env =>
        obtain ⟨record, outer⟩ := env
        cases record with
        | object id receiver =>
          have first := Heap.record_modify h e f id receiver outer found
          rw [Heap.record_modify _ e g id receiver outer first, Heap.record_modify h e _ id receiver outer found]
        | declarative b =>
          have first := Heap.environment_modify_same h e f b outer found
          rw [Heap.environment_modify_same _ e g (f b) outer first, Heap.environment_modify_same h e _ b outer found]
    · rw [Heap.environment_modify_other _ e i g here, Heap.environment_modify_other _ e i f here,
        Heap.environment_modify_other _ e i _ here]
  change { h with environments := ((h.modifyBindings e f).modifyBindings e g).environments } =
    { h with environments := (h.modifyBindings e fun b => g (f b)).environments }
  rw [environments]

section

variable (e : EnvironmentId) (name : String) (v : Value) (m : Machine) (r : Realm) (b : Bindings)
  (outer : Option EnvironmentId) (found : r.heap.environments[e]? = some ⟨.declarative b, outer⟩)
include found

theorem create_declarative (deletable : Bool) : createBinding e name deletable m r =
    .ok () { r with heap := r.heap.modifyBindings e fun b => b.createMutable name deletable } := by
  rw [createBinding, heap_at, Heap.environment_of _ e _ found]
  rfl

theorem set_declarative : setBinding e name v false m r =
    .ok () { r with heap := r.heap.modifyBindings e fun b => b.write name v } := by
  rw [setBinding, heap_at, Heap.environment_of _ e _ found]
  rfl

theorem bind_declarative : (createBinding e name false >>= fun _ => setBinding e name v false) m r =
    .ok () { r with heap := r.heap.modifyBindings e (bindLasting name v) } := by
  rw [bind_at, create_declarative e name m r b outer found]
  refine (set_declarative e name v m _ _ outer (Heap.environment_modify_same _ e _ b outer found)).trans ?_
  dsimp only
  rw [modify_bindings_twice]
  rfl

theorem bind_declarative_then {α : Type} (body : Run α) :
    (createBinding e name false >>= fun _ => setBinding e name v false >>= fun _ => body) m r =
      body m { r with heap := r.heap.modifyBindings e (bindLasting name v) } := by
  rw [← bind_assoc, bind_at, bind_declarative e name v m r b outer found]

end

end Ecma.Storage
