import Ecma.Proofs.Storage.Reference

set_option autoImplicit false

/-!
Entering scopes inside a unit of code: those of named functions, of catch clauses and of `with`
statements. The running call keeps its frame.
-/

namespace Ecma.Storage

open Ecma.Program Ecma.Scope Ecma.Syntax Run

/-! Scopes of one name. -/

theorem constant_binds (b : Bindings) (name : String) (v : Value) (absent : Dictionary.find? b name = none) :
    Dictionary.find? (Bindings.initializeConstant (Bindings.createConstant b name) name v) name =
      some ⟨v, .constant⟩ := by
  have created : Dictionary.find? (Bindings.createConstant b name) name = some { state := .uninitialized } := by
    rw [Bindings.createConstant, Bindings.create, Dictionary.has, absent]
    change Dictionary.find? (Dictionary.put b name _) name = _
    rw [Dictionary.find_put, if_pos rfl]
  rw [Bindings.initializeConstant, Dictionary.find_modify, if_pos rfl, created]
  rfl

theorem constant_admits (shape : Shape) (name : String) (v : Value)
    (free : ∀ names, shape.upper = some names → name ∈ names) (fixes : name ∈ shape.fixed) :
    Admits shape name (fun b => Bindings.initializeConstant (Bindings.createConstant b name) name v) := by
  refine ⟨Bindings.constant_concerns name v, fun names found => Or.inl (free names found),
    fun b binding found state => ⟨binding, ?_, rfl⟩, fun b only => Bindings.constant_constants _ b only name v fixes⟩
  have created : Bindings.createConstant b name = b := by
    rw [Bindings.createConstant, Bindings.create, Dictionary.has, found]
    rfl
  rw [created, Bindings.initializeConstant, Dictionary.find_modify, if_pos rfl, found]
  change some (if binding.state = .uninitialized then Binding.mk v .constant else binding) = _
  rw [if_neg]
  rcases state with same | same
  · rw [same]
    exact fun contra => by cases contra
  · rw [same]
    exact fun contra => by cases contra

theorem lasting_binds (b : Bindings) (name : String) (v : Value)
    (known : Dictionary.find? b name = none ∨ ∃ binding, Dictionary.find? b name = some binding ∧
      binding.state = .lasting) :
    Dictionary.find? (bindLasting name v b) name = some ⟨v, .lasting⟩ := by
  obtain ⟨binding, found, state⟩ : ∃ binding,
      Dictionary.find? (Bindings.createMutable b name false) name = some binding ∧ binding.state = .lasting := by
    rw [Bindings.createMutable, Bindings.create, Dictionary.has]
    rcases known with absent | ⟨binding, found, state⟩
    · rw [absent]
      change ∃ binding, Dictionary.find? (Dictionary.put b name _) name = _ ∧ _
      rw [Dictionary.find_put, if_pos rfl]
      exact ⟨_, rfl, rfl⟩
    · rw [found]
      exact ⟨binding, found, state⟩
  rw [bindLasting, Bindings.write, Dictionary.find_modify, if_pos rfl, found]
  change some (if binding.state.isMutable = true then Binding.mk v binding.state else binding) = _
  rw [state]
  rfl

theorem lasting_admits (shape : Shape) (name : String) (v : Value)
    (free : ∀ names, shape.upper = some names → name ∈ names) :
    Admits shape name (bindLasting name v) := by
  exact admits_comp shape name (fun b => b.createMutable name false) (fun b => b.write name v)
    (create_admits shape name false free) (write_admits shape name v)

-- What pays the one name that is owed.
theorem pays_one (e : EnvironmentId) (name : String) (f : Bindings → Bindings)
    (binds : ∀ b, Dictionary.find? b name = none → ∃ binding, Dictionary.find? (f b) name = some binding ∧
      (binding.state = .lasting ∨ binding.state = .constant)) : Pays [(e, name)] [] e name f := by
  refine ⟨fun _ none => (by cases none), fun entry member => Or.inr ⟨List.mem_singleton.mp member, binds⟩⟩

section

variable (t : Scope.Tree) (formed : t.WellFormed) (scope : ScopeId) (name : String) (text : String)
  (labels : List String)

theorem own_name_plain (formed : t.WellFormed) :
    (⟨t.analyze false, text, labels⟩ : Surroundings).ownName scope name = ⟨name, none, false⟩ := by
  obtain ⟨locals, collapsed⟩ := Tree.passed_on_plain t formed scope
  rw [Surroundings.ownName]
  dsimp only
  rw [locals, collapsed]
  rfl

include formed

-- A scope of one name has no environment only if the name has a slot.
theorem one_name_slot (defs : (t.scope scope).defs = [name])
    (free : ((t.analyze true).scope scope).locals.lookup name = none) :
    ((t.analyze true).scope scope).collapsed = false := by
  cases collapsed : ((t.analyze true).scope scope).collapsed with
  | false => rfl
  | true =>
    have some := ((Tree.analyze_analysed t formed true).slotted.collapsed scope collapsed).2 name
      (by rw [analysed_defs t formed, defs]; exact List.mem_singleton_self name)
    rw [free] at some
    cases some

omit formed in
theorem one_name_fits (kind : (t.scope scope).kind = .handler ∨ (t.scope scope).kind = .namedFunction)
    (defs : (t.scope scope).defs = [name]) (fixed : List String) : Fits t scope (scopeShape t scope [name] fixed) := by
  have other : (t.scope scope).kind ≠ .withObject ∧ (t.scope scope).kind ≠ .function := by
    rcases kind with same | same
    · rw [same]
      exact ⟨fun contra => (by cases contra), fun contra => (by cases contra)⟩
    · rw [same]
      exact ⟨fun contra => (by cases contra), fun contra => (by cases contra)⟩
  refine scope_shape_fits t scope [name] fixed other.1 (fun member inside => Or.inr ?_) fun contra => absurd contra other.2
  rw [defs] at inside
  exact inside

omit formed in
theorem one_name_upper (defs : (t.scope scope).defs = [name]) (fixed names : List String)
    (upper : (scopeShape t scope [name] fixed).upper = some names) : name ∈ names := by
  change (if ((t.analyze true).scope scope).isClosed then some (t.scope scope).defs else none) = some names at upper
  split at upper
  · cases upper
    rw [defs]
    exact List.mem_singleton_self name
  · cases upper

end

/-! Slots of running code. -/

-- A slot belongs to one name of one scope.
theorem slot_owner (W : World) (live : List Link) (owed : List (EnvironmentId × String)) (h₁ h₂ : Heap)
    (related : HeapRelated W live owed h₁ h₂) (t : Scope.Tree) (formed : t.WellFormed) (scope : ScopeId) (name : String)
    (slot : Nat) (frame : FrameId) (found : ((t.analyze true).scope scope).locals.lookup name = some slot)
    (owner : (t.code (t.scope scope).code).kind = .function → W.frames[frame]? = some (t, (t.scope scope).code))
    (l : Link) (member : l ∈ W.links ++ live) (here : l.frame = frame) (same : l.slot = slot) :
    l.scope = scope ∧ l.name = name := by
  have slotted := (Tree.analyze_analysed t formed true).slotted
  have function := slot_function t formed scope name slot found
  obtain ⟨kind, placed⟩ := link_placed W live owed h₁ h₂ related l member
  obtain ⟨t', code, frames, _, _, codes, lookup⟩ := placed.owner
  rw [here, owner function] at frames
  cases frames
  rw [same] at lookup
  refine slotted.distinct l.scope scope l.name name slot lookup found ?_
  rw [analysed_code t formed, analysed_code t formed]
  exact codes

theorem link_kind (W : World) (live : List Link) (owed : List (EnvironmentId × String)) (h₁ h₂ : Heap)
    (related : HeapRelated W live owed h₁ h₂) (l : Link) (member : l ∈ W.links ++ live) (t : Scope.Tree) (code : Nat)
    (owner : W.frames[l.frame]? = some (t, code)) :
    (t.scope l.scope).kind = .function ∨ ((t.scope l.scope).kind = .handler ∧ l ∈ live) := by
  rcases List.mem_append.mp member with permanent | temporary
  · obtain ⟨t', code', frames, _, kind, _⟩ := (related.placed l permanent).owner
    rw [owner] at frames
    cases frames
    exact Or.inl kind
  · obtain ⟨t', code', frames, _, kind, _⟩ := (related.placed_live l temporary).owner
    rw [owner] at frames
    cases frames
    exact Or.inr ⟨kind, temporary⟩

/-! Other lexical environments. -/

variable {α β : Type}

/-- Where two runs stand once they have other lexical environments. -/
def Stand.within (s : Stand) (e₁ e₂ : EnvironmentId) : Stand :=
  { s with context₁ := { s.context₁ with lexicalEnv := e₁ }, context₂ := { s.context₂ with lexicalEnv := e₂ } }

theorem begins_in_environment (M : Machines) (W : World) (live less : List Link)
    (owed : List (EnvironmentId × String)) (s : Stand) (e₁ e₂ : EnvironmentId) (x₁ : Run α) (x₂ : Run β)
    (Q : World → α → β → Prop)
    (begins : Begins M W live owed (s.within e₁ e₂) less (s.within e₁ e₂).Holds x₁ x₂ Q) :
    Begins M W live owed s less s.Holds (inEnvironment e₁ x₁) (inEnvironment e₂ x₂) Q := by
  intro r₁ r₂ related holds
  obtain ⟨⟨position, first, second⟩, waits⟩ := holds
  have inside (env : EnvironmentId) (r : Realm) (m : Machine) {γ : Type} (x : Run γ) : inEnvironment env x m r =
      always (fun k => { k with running := { k.running with lexicalEnv := r.running.lexicalEnv } }) x m
        { r with running := { r.running with lexicalEnv := env } } := rfl
  have related' : Related W live owed { r₁ with running := { r₁.running with lexicalEnv := e₁ } }
      { r₂ with running := { r₂.running with lexicalEnv := e₂ } } :=
    { related with running := related.running }
  rw [inside, inside, inside, inside]
  refine begins_always M W live owed (s.within e₁ e₂) less (s.within e₁ e₂).Holds s.Holds _ _ x₁ x₂ Q ?_ begins _ _
    related' ⟨⟨position, ?_, ?_⟩, waits⟩
  · intro V k₁ k₂ after stands
    obtain ⟨⟨later, third, fourth⟩, waits'⟩ := stands
    refine ⟨{ after with running := after.running }, ⟨later, ?_, ?_⟩, waits'⟩
    · dsimp only
      rw [third, first]
      rfl
    · dsimp only
      rw [fourth, second]
      rfl
  · dsimp only
    rw [first]
    rfl
  · dsimp only
    rw [second]
    rfl

section

variable (W : World) (live more : List Link) (p : Setting) (s : Stand) (standing : Standing W live p s)
  (kind : ScopeKind) (inner : kind ≠ .function) (scope : ScopeId) (opened : Syntax.Opened p kind scope)
include standing inner opened

theorem inside_code : (p.tree.scope scope).code = (p.tree.scope p.scope).code := by
  exact (standing.formed.inner_code scope p.scope opened.outer fun same => inner (opened.kind.symm.trans same)).symm

/-- Standing in a scope that has just been entered. -/
theorem standing_inside (e₁ e₂ : EnvironmentId) (info : Info) (chain : Chain W p.tree scope e₁ e₂)
    (found : W.Has e₂ info) (around : info.around₂ = some s.context₂.lexicalEnv)
    (kept : ∀ l ∈ live, l ∈ more) (fresh : ∀ l ∈ more, l ∈ live ∨ l.scope = scope)
    (linked : ∀ name slot, ((p.tree.analyze true).scope scope).locals.lookup name = some slot →
      name ∈ info.shape.lower → ∃ l ∈ W.links ++ more, l.frame = s.context₁.frame ∧ l.slot = slot ∧ l.env = e₂ ∧
        l.name = name ∧ l.state = .lasting) :
    Standing W more (p.inside scope) (s.within e₁ e₂) := by
  have code := inside_code W live p s standing kind inner scope opened
  have less := standing.formed.outer_less scope p.scope opened.outer
  refine {
    formed := standing.formed, inside := opened.inside, chain := chain
    argued := fun bound => ?_, owned := ?_, slots := ?_, frame := ?_, this := standing.this
    opened := fun direct => ?_, above := ?_ }
  · exact .outward scope p.scope e₂ s.context₂.lexicalEnv info opened.outer
      (fun same => inner (opened.kind.symm.trans same)) found around (standing.argued bound)
  · change Owned W (W.links ++ more) p.tree s.context₁.frame (p.tree.scope scope).code p.strict scope e₂
    rw [code]
    refine .here scope p.scope e₂ s.context₂.lexicalEnv info opened.outer found around (fun name slot there bound => ?_) ?_
    · obtain ⟨l, member, frame, index, env, named, state⟩ := linked name slot there bound
      exact ⟨l, member, frame, index, env, named, Or.inl state⟩
    · refine owned_grown W W W.below_refl _ _ p.tree _ _ _ _ _ (fun l member => ?_) standing.owned
      rcases List.mem_append.mp member with permanent | temporary
      · exact List.mem_append_left _ permanent
      · exact List.mem_append_right _ (kept l temporary)
  · change ∃ header, s.context₁.code = some header ∧
      header.slots = ((p.tree.analyze true).code (p.tree.scope scope).code).slots
    rw [code]
    exact standing.slots
  · change (p.tree.code (p.tree.scope scope).code).kind = .function →
      W.frames[s.context₁.frame]? = some (p.tree, (p.tree.scope scope).code)
    rw [code]
    exact standing.frame
  · exact standing.opened (direct_eval_outward p.tree standing.formed scope p.scope opened.outer direct)
  · change (p.tree.code (p.tree.scope scope).code).kind = .function →
      ∀ l ∈ more, l.frame = s.context₁.frame → l.scope ≤ scope
    rw [code]
    intro function l member frame
    rcases fresh l member with old | here
    · exact Nat.le_of_lt (Nat.lt_of_le_of_lt (standing.above function l old frame) less)
    · exact Nat.le_of_eq here

end

-- No name of the code around has the slot of a name that a scope inside binds.
theorem slot_free (W : World) (live : List Link) (owed : List (EnvironmentId × String)) (h₁ h₂ : Heap)
    (related : HeapRelated W live owed h₁ h₂) (p : Setting) (s : Stand) (standing : Standing W live p s)
    (kind : ScopeKind) (inner : kind ≠ .function) (scope : ScopeId) (opened : Syntax.Opened p kind scope) (name : String)
    (slot : Nat) (found : ((p.tree.analyze true).scope scope).locals.lookup name = some slot) :
    W.frames[s.context₁.frame]? = some (p.tree, (p.tree.scope scope).code) ∧
      ∀ l ∈ W.links ++ live, l.frame = s.context₁.frame → l.slot ≠ slot := by
  have code := inside_code W live p s standing kind inner scope opened
  have function := slot_function p.tree standing.formed scope name slot found
  have owner : W.frames[s.context₁.frame]? = some (p.tree, (p.tree.scope scope).code) := by
    rw [code] at function ⊢
    exact standing.frame function
  refine ⟨owner, fun l member frame same => ?_⟩
  have scopes := (slot_owner W live owed h₁ h₂ related p.tree standing.formed scope name slot _ found (fun _ => owner) l
    member frame same).1
  rcases link_kind W live owed h₁ h₂ related l member p.tree _ (frame ▸ owner) with other | ⟨_, temporary⟩
  · rw [scopes] at other
    exact inner (opened.kind.symm.trans other)
  · have around := standing.above (code ▸ function) l temporary frame
    rw [scopes] at around
    exact absurd (standing.formed.outer_less scope p.scope opened.outer) (Nat.not_lt.mpr around)

/-- A slot of the running call changes in the first run. -/
theorem settles_slot (W : World) (live : List Link) (owed left : List (EnvironmentId × String)) (s : Stand)
    (index : Nat) (v : Value) (f : Heap → Heap)
    (each : ∀ h₁ h₂, HeapRelated W live owed h₁ h₂ →
      HeapRelated W live left (h₁.setSlot s.context₁.frame index v) (f h₂)) :
    Settles W live owed left s s (setSlot index v) (modifyHeap f) W.Unlinked := by
  intro r₁ r₂ related holds
  have frame : r₁.running.frame = s.context₁.frame := by
    obtain ⟨⟨position, first, _⟩, _⟩ := holds
    rw [first]
  refine ⟨(), (), { r₁ with heap := r₁.heap.setSlot s.context₁.frame index v }, { r₂ with heap := f r₂.heap }, W,
    fun _ => ?_, fun _ => rfl, W.below_refl,
    related_with_heap W W live live owed left r₁ r₂ _ _ related (each _ _ related.heap), holds, rfl, rfl⟩
  rw [← frame]
  rfl

/-! Named functions. -/

theorem named_in_slot (routine : Routine) (name : String) (slot : Nat) (collapsed : Bool) :
    newNamedFunction routine (some ⟨name, some slot, collapsed⟩) =
      running >>= fun c => (if collapsed then pure c.lexicalEnv else newScope c.lexicalEnv) >>= fun env =>
        newFunction routine env >>= fun f => setSlot slot (.object f) >>= fun _ => pure (.object f) := by
  cases collapsed <;> rfl

theorem named_in_environment (routine : Routine) (name : String) (collapsed : Bool) :
    newNamedFunction routine (some ⟨name, none, collapsed⟩) =
      running >>= fun c => (if collapsed then pure c.lexicalEnv else newScope c.lexicalEnv) >>= fun env =>
        newFunction routine env >>= fun f => bindConstant env name (.object f) >>= fun _ => pure (.object f) := by
  cases collapsed <;> rfl

section

variable (W : World) (live : List Link) (p : Setting) (s : Stand) (standing : Standing W live p s) (scope : ScopeId)
  (name : String) (opened : Syntax.Opened p .namedFunction scope) (defs : (p.tree.scope scope).defs = [name])
include standing opened defs

-- The slot of a named function's name stands for a binding that only the function itself could read.
theorem name_slot_settles (e₁ e₂ o₂ : EnvironmentId) (v : Value) (slot : Nat)
    (found : ((p.tree.analyze true).scope scope).locals.lookup name = some slot)
    (entered : Entered W p.tree scope [name] [name] o₂ e₁ e₂) (unlinked : ∀ l ∈ W.links ++ live, l.env ≠ e₂) :
    Settles W live [(e₂, name)] [] s s (setSlot slot v) (bindConstant e₂ name v) W.Unlinked := by
  refine settles_slot W live _ [] s slot v _ fun h₁ h₂ related => ?_
  have free := (slot_free W live _ h₁ h₂ related p s standing .namedFunction (fun contra => by cases contra) scope opened
    name slot found).2
  obtain ⟨info, has, shape, _⟩ := entered.has
  have related' := set_free_related W live _ h₁ h₂ related s.context₁.frame slot v free
  refine change_unlinked_related W live _ [] _ h₂ related' e₂ info name _ has ?_ ?_
    (fun l member same => unlinked l member same.1.symm) (pays_one e₂ name _ fun b absent => ?_)
  · rw [shape]
    exact lookup_some _ name slot found
  · rw [shape]
    exact constant_admits _ name v (one_name_upper p.tree scope name defs _) (List.mem_singleton_self name)
  · exact ⟨_, constant_binds b name v absent, Or.inr rfl⟩

omit opened in
theorem name_binding_settles (e₁ e₂ o₂ : EnvironmentId) (v : Value)
    (free : ((p.tree.analyze true).scope scope).locals.lookup name = none)
    (entered : Entered W p.tree scope [name] [name] o₂ e₁ e₂) :
    Settles W live [(e₂, name)] [] s s (bindConstant e₁ name v) (bindConstant e₂ name v) W.Unlinked := by
  obtain ⟨info, has, shape, _, twin⟩ := entered.has
  have separate := one_name_slot p.tree standing.formed scope name defs free
  refine settles_modify W live _ [] s _ _ fun h₁ h₂ related => ?_
  refine change_shown_related W live _ [] h₁ h₂ related e₁ e₂ info name _ has (twin separate) ?_ ?_
    (pays_one e₂ name _ fun b absent => ?_)
  · rw [shape]
    exact lookup_none _ name free
  · rw [shape]
    exact constant_admits _ name v (one_name_upper p.tree scope name defs _) (List.mem_singleton_self name)
  · exact ⟨_, constant_binds b name v absent, Or.inr rfl⟩

end

/-- A named function is made in both runs. -/
theorem named_function_sim (M : Machines) (W : World) (live : List Link) (p : Setting) (s : Stand)
    (standing : Standing W live p s) (scope : ScopeId) (name : String) (opened : Syntax.Opened p .namedFunction scope)
    (defs : (p.tree.scope scope).defs = [name]) (text : String) (code : Syntax.Code) (fitted : code.Scoped p.tree scope) :
    Sim M W live s
      (newNamedFunction (compileCode ⟨p.tree.analyze true, text, []⟩ code)
        (some ⟨name, ((p.tree.analyze true).scope scope).locals.lookup name,
          ((p.tree.analyze true).scope scope).collapsed⟩))
      (newNamedFunction (compileCode ⟨p.tree.analyze false, text, []⟩ code) (some ⟨name, none, false⟩)) Same := by
  refine settles_sim M W live s _ _ Same fun r₁ r₂ related holds => ?_
  have unlinked := next_unlinked W live [] _ _ related.heap
  have fits := one_name_fits p.tree scope name (Or.inr opened.kind) defs [name]
  have entering (o₁ o₂ : EnvironmentId) (chain : Chain W p.tree p.scope o₁ o₂) :=
    scope_settles W live s p.tree scope p.scope [name] _ o₁ o₂ opened.outer fits chain
  have making (V : World) (e₁ e₂ o₂ : EnvironmentId) (entered : Entered V p.tree scope [name] [name] o₂ e₁ e₂) :=
    new_function_settles V live [(e₂, name)] s p.tree text [] code scope e₁ e₂ standing.formed fitted entered.chain
  -- The environments, the function, and then the name, wherever it lives.
  have whole (x₁ : EnvironmentId → ObjectId → Run Unit)
      (binds : ∀ V e₁ e₂ o₂ f, W.Below V → V.links = W.links → e₂ = W.next →
        Entered V p.tree scope [name] [name] o₂ e₁ e₂ →
        Settles V live [(e₂, name)] [] s s (x₁ e₁ f) (bindConstant e₂ name (.object f)) V.Unlinked) :
      Settles W live [] [] s s
        (running >>= fun c => (if ((p.tree.analyze true).scope scope).collapsed then pure c.lexicalEnv
            else newScope c.lexicalEnv) >>= fun env =>
          newFunction (compileCode ⟨p.tree.analyze true, text, []⟩ code) env >>= fun f => x₁ env f >>= fun _ =>
            pure (Value.object f))
        (newNamedFunction (compileCode ⟨p.tree.analyze false, text, []⟩ code) (some ⟨name, none, false⟩)) Same := by
    rw [named_in_environment]
    refine settles_running W live [] [] s s _ _ _ fun position => ?_
    refine settles_bind W live [] [(W.next, name)] [] s s s _ _ _ _ _ _ (entering _ _ standing.chain)
      fun V e₁ e₂ below made => ?_
    obtain ⟨links, rfl, entered⟩ := made
    refine settles_bind V live _ [(W.next, name)] [] s s s _ _ _ _ _ _ (making V _ _ _ entered) fun U f g below' made' => ?_
    obtain ⟨links', rfl⟩ := made'
    refine settles_bind U live _ [] [] s s s _ _ _ _ _ _
      (binds U e₁ _ _ f (World.below_trans W V U below below') (links'.trans links) rfl
        (entered_grown V U below' _ _ _ _ _ _ _ entered)) fun T _ _ _ _ => ?_
    exact settles_pure T live [] s Same _ _ rfl
  cases found : ((p.tree.analyze true).scope scope).locals.lookup name with
  | none =>
    rw [named_in_environment]
    refine whole (fun env f => bindConstant env name (.object f)) (fun V e₁ e₂ o₂ f below _ _ entered => ?_)
      r₁ r₂ related holds
    exact name_binding_settles V live p s (standing_grown W V below live p s standing) scope name defs e₁ e₂ o₂ _ found
      entered
  | some slot =>
    rw [named_in_slot]
    refine whole (fun _ f => setSlot slot (.object f)) (fun V e₁ e₂ o₂ f below links next entered => ?_)
      r₁ r₂ related holds
    refine name_slot_settles V live p s (standing_grown W V below live p s standing) scope name opened defs e₁ e₂ o₂ _
      slot found entered ?_
    rw [links, next]
    exact unlinked

/-! Catch clauses. -/

theorem handler_in_slot (name : String) (slot : Nat) (collapsed : Bool) (thrown : Value) (body : Run α) :
    runHandler ⟨name, some slot, collapsed⟩ thrown body =
      running >>= fun c => (if collapsed then pure c.lexicalEnv else newScope c.lexicalEnv) >>= fun env =>
        inEnvironment env (setSlot slot thrown >>= fun _ => body) := by
  cases collapsed <;> rfl

theorem handler_in_environment (name : String) (collapsed : Bool) (thrown : Value) (body : Run α) :
    runHandler ⟨name, none, collapsed⟩ thrown body =
      running >>= fun c => (if collapsed then pure c.lexicalEnv else newScope c.lexicalEnv) >>= fun env =>
        inEnvironment env (createBinding env name false >>= fun _ => setBinding env name thrown false >>= fun _ =>
          body) := by
  cases collapsed <;> rfl

section

variable (M : Machines) (W : World) (live : List Link) (p : Setting) (s : Stand) (standing : Standing W live p s)
  (scope : ScopeId) (name : String) (opened : Syntax.Opened p .handler scope) (defs : (p.tree.scope scope).defs = [name])
  (e₁ e₂ : EnvironmentId) (entered : Entered W p.tree scope [name] [] s.context₂.lexicalEnv e₁ e₂)
  (unlinked : ∀ l ∈ W.links ++ live, l.env ≠ e₂) (v : Value) (body₁ body₂ : Run α) (Q : World → α → α → Prop)
include standing opened defs entered

include unlinked in
/-- What was thrown goes to a slot, which stands for the binding until the clause ends. -/
theorem handler_slot_begins (slot : Nat)
    (found : ((p.tree.analyze true).scope scope).locals.lookup name = some slot)
    (runs : ∀ more, Standing W more (p.inside scope) (s.within e₁ e₂) →
      Sim M W more (s.within e₁ e₂) body₁ body₂ Q) :
    Begins M W live [(e₂, name)] (s.within e₁ e₂) live (s.within e₁ e₂).Holds (setSlot slot v >>= fun _ => body₁)
      (createBinding e₂ name false >>= fun _ => setBinding e₂ name v false >>= fun _ => body₂) Q := by
  intro r₁ r₂ related holds
  have formed := standing.formed
  obtain ⟨info, b, has, shape, around, second, absent, _⟩ :=
    entered_records W live _ _ _ related.heap p.tree scope [name] _ _ e₁ e₂ entered
  obtain ⟨owner, free⟩ := slot_free W live _ _ _ related.heap p s standing .handler (fun contra => by cases contra) scope
    opened name slot found
  have here : r₁.running.frame = s.context₁.frame := by
    obtain ⟨⟨position, first, _⟩, _⟩ := holds
    rw [first]
    rfl
  have due := absent name (List.mem_singleton_self name) (List.mem_singleton_self _)
  have hidden : name ∈ info.shape.hidden := by
    rw [shape]
    exact lookup_some _ name slot found
  have lower : name ∈ info.shape.lower := by
    rw [shape]
    exact List.mem_singleton_self name
  -- The two runs bind the name, and then it has the same value in both.
  have first (m : Machine) : (setSlot slot v >>= fun _ => body₁) m r₁ =
      body₁ m { r₁ with heap := r₁.heap.setSlot s.context₁.frame slot v } := by
    rw [← here]
    rfl
  have binds (m : Machine) : (createBinding e₂ name false >>= fun _ => setBinding e₂ name v false >>= fun _ => body₂) m r₂ =
      body₂ m { r₂ with heap := r₂.heap.modifyBindings e₂ (bindLasting name v) } := by
    exact bind_declarative_then e₂ name v m r₂ b _ second body₂
  have apart := set_free_related W live _ _ _ related.heap s.context₁.frame slot v free
  have bound := change_unlinked_related W live _ [] _ _ apart e₂ info name (bindLasting name v) has hidden
    (lasting_admits info.shape name v (by rw [shape]; exact one_name_upper p.tree scope name defs _))
    (fun l member same => unlinked l member same.1.symm)
    (pays_one e₂ name _ fun c none => ⟨_, lasting_binds c name v (Or.inl none), Or.inl rfl⟩)
  obtain ⟨slots, there, size⟩ := related.heap.frame _ _ _ owner
  have inside : slot < slots.size := by
    rw [size, ← analysed_code p.tree formed]
    exact ((Tree.analyze_analysed p.tree formed true).slotted.found scope name slot found).2.2.2
  have binding := (Heap.binding_modify_same r₂.heap e₂ name (bindLasting name v) b _ second).trans
    (lasting_binds b name v (Or.inl due))
  have linked : HeapRelated W (⟨s.context₁.frame, slot, e₂, name, scope, .lasting⟩ :: live) []
      (r₁.heap.setSlot s.context₁.frame slot v) (r₂.heap.modifyBindings e₂ (bindLasting name v)) := by
    refine add_live_related W live [] _ _ bound _ ⟨?_, fun _ => ⟨_, binding, rfl⟩⟩ ?_ ?_ ?_
    · rw [Heap.read_binding, binding]
      exact Heap.slot_set_same r₁.heap s.context₁.frame slot v slots there inside
    · exact ⟨⟨p.tree, _, owner, formed, opened.kind, rfl, found⟩, ⟨info, has, hidden, lower⟩, Or.inl rfl⟩
    · exact fun l member frame same => free l member frame.symm same.symm
    · exact fun l member same => unlinked l member same.symm
  have stands : Standing W (⟨s.context₁.frame, slot, e₂, name, scope, .lasting⟩ :: live) (p.inside scope)
      (s.within e₁ e₂) := by
    refine standing_inside W live _ p s standing .handler (fun contra => by cases contra) scope opened e₁ e₂ info
      entered.chain has around (fun l member => List.mem_cons_of_mem _ member) (fun l member => ?_)
      fun other index lookup bound' => ?_
    · rcases List.mem_cons.mp member with rfl | old
      · exact Or.inr rfl
      · exact Or.inl old
    · rw [shape] at bound'
      cases List.mem_singleton.mp bound'
      cases Option.some.inj (found.symm.trans lookup)
      exact ⟨_, List.mem_append_right _ List.mem_cons_self, rfl, rfl, rfl, rfl, rfl⟩
  rw [first, first, binds, binds]
  exact simulates_begins M W _ _ live _ body₁ body₂ Q (fun l member => List.mem_cons_of_mem _ member) (runs _ stands) _ _
    (related_with_heap W W live _ _ [] r₁ r₂ _ _ related linked) holds

theorem handler_binding_begins (free : ((p.tree.analyze true).scope scope).locals.lookup name = none)
    (runs : ∀ more, Standing W more (p.inside scope) (s.within e₁ e₂) →
      Sim M W more (s.within e₁ e₂) body₁ body₂ Q) :
    Begins M W live [(e₂, name)] (s.within e₁ e₂) live (s.within e₁ e₂).Holds
      (createBinding e₁ name false >>= fun _ => setBinding e₁ name v false >>= fun _ => body₁)
      (createBinding e₂ name false >>= fun _ => setBinding e₂ name v false >>= fun _ => body₂) Q := by
  intro r₁ r₂ related holds
  have separate := one_name_slot p.tree standing.formed scope name defs free
  obtain ⟨info, b, has, shape, around, second, absent, separated⟩ :=
    entered_records W live _ _ _ related.heap p.tree scope [name] _ _ e₁ e₂ entered
  obtain ⟨twin, first⟩ := separated separate
  have bound := change_shown_related W live _ [] _ _ related.heap e₁ e₂ info name (bindLasting name v) has twin
    (by rw [shape]; exact lookup_none _ name free)
    (lasting_admits info.shape name v (by rw [shape]; exact one_name_upper p.tree scope name defs _))
    (pays_one e₂ name _ fun c none => ⟨_, lasting_binds c name v (Or.inl none), Or.inl rfl⟩)
  have stands : Standing W live (p.inside scope) (s.within e₁ e₂) := by
    refine standing_inside W live live p s standing .handler (fun contra => by cases contra) scope opened e₁ e₂ info
      entered.chain has around (fun l member => member) (fun l member => Or.inl member) fun other index lookup bound' => ?_
    rw [shape] at bound'
    cases List.mem_singleton.mp bound'
    rw [free] at lookup
    cases lookup
  have binds₁ (m : Machine) := bind_declarative_then e₁ name v m r₁ _ _ first body₁
  have binds₂ (m : Machine) := bind_declarative_then e₂ name v m r₂ _ _ second body₂
  rw [binds₁, binds₁, binds₂, binds₂]
  exact simulates_begins M W live _ live _ body₁ body₂ Q (fun l member => member) (runs live stands) _ _
    (related_with_heap W W live _ _ [] r₁ r₂ _ _ related bound) holds

end

/-- A catch clause runs in both runs. -/
theorem handler_sim (M : Machines) (W : World) (live : List Link) (p : Setting) (s : Stand)
    (standing : Standing W live p s) (scope : ScopeId) (name : String) (opened : Syntax.Opened p .handler scope)
    (defs : (p.tree.scope scope).defs = [name]) (thrown : Value) (body₁ body₂ : Run α) (Q : World → α → α → Prop)
    (runs : ∀ V more s', W.Below V → Standing V more (p.inside scope) s' → Sim M V more s' body₁ body₂ Q) :
    Sim M W live s
      (runHandler ⟨name, ((p.tree.analyze true).scope scope).locals.lookup name,
        ((p.tree.analyze true).scope scope).collapsed⟩ thrown body₁)
      (runHandler ⟨name, none, false⟩ thrown body₂) Q := by
  intro r₁ r₂ related holds
  have unlinked := next_unlinked W live [] _ _ related.heap
  have fits := one_name_fits p.tree scope name (Or.inl opened.kind) defs []
  have entering (o₁ o₂ : EnvironmentId) (chain : Chain W p.tree p.scope o₁ o₂) :=
    scope_settles W live s p.tree scope p.scope [name] _ o₁ o₂ opened.outer fits chain
  rw [handler_in_environment]
  cases found : ((p.tree.analyze true).scope scope).locals.lookup name with
  | none =>
    rw [handler_in_environment]
    refine simulates_running M W live s s.Holds _ _ Q (fun position => ?_) r₁ r₂ related holds
    refine begins_simulates M W live s s.Holds _ _ Q (begins_settles M W live [] [(W.next, name)] s s live s.Holds _ _ _ _
      _ Q (entering _ _ standing.chain) fun V e₁ e₂ below made => ?_)
    obtain ⟨_, rfl, entered⟩ := made
    exact begins_in_environment M V live live _ s e₁ _ _ _ Q (handler_binding_begins M V live p s
      (standing_grown W V below live p s standing) scope name opened defs e₁ _ entered thrown body₁ body₂ Q found
      fun more stands => runs V more _ below stands)
  | some slot =>
    rw [handler_in_slot]
    refine simulates_running M W live s s.Holds _ _ Q (fun position => ?_) r₁ r₂ related holds
    refine begins_simulates M W live s s.Holds _ _ Q (begins_settles M W live [] [(W.next, name)] s s live s.Holds _ _ _ _
      _ Q (entering _ _ standing.chain) fun V e₁ e₂ below made => ?_)
    obtain ⟨links, rfl, entered⟩ := made
    rw [← links] at unlinked
    exact begins_in_environment M V live live _ s e₁ _ _ _ Q (handler_slot_begins M V live p s
      (standing_grown W V below live p s standing) scope name opened defs e₁ _ entered unlinked thrown body₁ body₂ Q slot
      found fun more stands => runs V more _ below stands)

/-! Statements with an object. -/

theorem object_fits (p : Setting) (formed : p.tree.WellFormed) (scope : ScopeId) (opened : Syntax.Opened p .withObject scope)
    (id : ObjectId) : ((p.tree.analyze true).scope scope).collapsed = false ∧
      ((p.tree.analyze true).scope scope).locals = [] ∧ Fits p.tree scope (.object id true) := by
  have isOpen : ((p.tree.analyze true).scope scope).isClosed = false := by
    rw [Scope.isClosed, analysed_kind p.tree formed, opened.kind]
    exact Bool.and_false _
  obtain ⟨separate, none⟩ := open_scope p.tree formed scope p.scope opened.outer isOpen
  refine ⟨separate, none, ⟨fun _ => ⟨id, rfl⟩, fun _ => opened.kind⟩, fun other => absurd opened.kind other, ?_, ?_,
    fun name member => ?_, fun function => ?_⟩
  · rw [none]
    rfl
  · rw [isOpen]
    rfl
  · rw [formed.with_defs scope opened.kind] at member
    cases member
  · cases opened.kind.symm.trans function

theorem with_sim (M : Machines) (W : World) (live : List Link) (p : Setting) (s : Stand)
    (standing : Standing W live p s) (scope : ScopeId) (opened : Syntax.Opened p .withObject scope) (id : ObjectId)
    (body₁ body₂ : Run α) (Q : World → α → α → Prop)
    (runs : ∀ V s', W.Below V → Standing V live (p.inside scope) s' → Sim M V live s' body₁ body₂ Q) :
    Sim M W live s
      (running >>= fun c => newEnvironment (.object id true) (some c.lexicalEnv) >>= fun env => inEnvironment env body₁)
      (running >>= fun c => newEnvironment (.object id true) (some c.lexicalEnv) >>= fun env => inEnvironment env body₂)
      Q := by
  obtain ⟨separate, none, fits⟩ := object_fits p standing.formed scope opened id
  refine simulates_running M W live s s.Holds _ _ Q fun position => ?_
  have known (h₁ h₂ : Heap) (related : HeapRelated W live [] h₁ h₂) :=
    chain_known W live [] h₁ h₂ related p.tree p.scope _ _ standing.chain
  refine begins_simulates M W live s s.Holds _ _ Q (begins_settles M W live [] [] s s live s.Holds _ _ _ _
    _ Q (both_environments_settle W live s (.object id true) [] (.object id true) _ _ known rfl) fun V e₁ e₂ below made => ?_)
  obtain ⟨_, _, has⟩ := made
  have grown := standing_grown W V below live p s standing
  have chain : Chain V p.tree scope e₁ e₂ :=
    .full scope p.scope e₁ e₂ _ _ _ opened.outer separate has fits rfl rfl rfl grown.chain
  have stands : Standing V live (p.inside scope) (s.within e₁ e₂) := by
    refine standing_inside V live live p s grown .withObject (fun contra => by cases contra) scope opened e₁ e₂ _ chain has
      rfl (fun l member => member) (fun l member => Or.inl member) fun other index lookup _ => ?_
    rw [none] at lookup
    cases lookup
  exact begins_in_environment M V live live [] s e₁ e₂ _ _ Q
    (simulates_begins M V live _ live _ body₁ body₂ Q (fun l member => member) (runs V _ below stands))

end Ecma.Storage
