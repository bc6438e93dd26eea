import Ecma.Proofs.Storage.Binding

set_option autoImplicit false

/-!
Calling a function of a script in two runs. The call gets a frame in both, and in the first run the slots
of the frame stand for bindings that the second run will have made once all names are bound.
-/

namespace Ecma.Storage

open Ecma.Program Ecma.Scope Ecma.Syntax Run

/-! The names of a call. -/

/-- Whether a call of the function makes an arguments object. -/
def argumentsNeeded (code : Syntax.Code) : Bool :=
  (code.header.usesArguments || code.header.directEval) && !code.header.params.contains "arguments" &&
    !code.functions.any fun f => f.header.name == some "arguments"

/-- The names that a call of the function binds. -/
def boundNames (code : Syntax.Code) : List String :=
  code.header.params ++ (code.functions.filterMap (·.header.name) ++
    ((if argumentsNeeded code then ["arguments"] else []) ++ code.header.variables))

theorem compiled_any (c : Surroundings) (codes : List Syntax.Code) (name : String) :
    ((compileCodes c codes).any fun f => f.header.name == some name) = codes.any fun f => f.header.name == some name := by
  induction codes with
  | nil =>
    rw [compileCodes]
    rfl
  | cons code rest hyp =>
    rw [compileCodes, List.any_cons, List.any_cons, hyp, compiled_header]
    rfl

theorem needs_compiled (c : Surroundings) (code : Syntax.Code) :
    needsArguments (compileCode c code) = argumentsNeeded code := by
  rw [needsArguments, compiled_header, compiled_functions, compiled_any]
  rfl

theorem mem_bound_names (code : Syntax.Code) (name : String) : name ∈ boundNames code ↔
    name ∈ code.header.params ∨ name ∈ code.functions.filterMap (·.header.name) ∨
      (argumentsNeeded code = true ∧ name = "arguments") ∨ name ∈ code.header.variables := by
  rw [boundNames, List.mem_append, List.mem_append, List.mem_append]
  cases argumentsNeeded code <;> simp

theorem any_named (codes : List Syntax.Code) (name : String) :
    (codes.any fun f => f.header.name == some name) = true ↔ name ∈ codes.filterMap (·.header.name) := by
  simp only [List.any_eq_true, beq_iff_eq, List.mem_filterMap]

-- A call only makes an arguments object if nothing else takes its name.
theorem arguments_needed (code : Syntax.Code) (needed : argumentsNeeded code = true) :
    "arguments" ∉ code.header.params ∧ "arguments" ∉ code.functions.filterMap (·.header.name) := by
  rw [argumentsNeeded, Bool.and_eq_true, Bool.and_eq_true, Bool.not_eq_true', Bool.not_eq_true'] at needed
  refine ⟨fun member => ?_, fun member => ?_⟩
  · rw [List.contains_iff_mem.mpr member] at needed
    cases needed.1.2
  · rw [(any_named code.functions "arguments").mpr member] at needed
    cases needed.2

section

variable (t : Scope.Tree) (outer : ScopeId) (code : Syntax.Code) (fitted : code.Scoped t outer)
include fitted

theorem scoped_header : code.header.Scoped t outer code.functions := by
  obtain ⟨h, functions, body⟩ := code
  exact fitted.1

theorem bound_names_defined (name : String) (member : name ∈ boundNames code) :
    name ∈ (t.scope code.header.scope).defs := by
  rw [(scoped_header t outer code fitted).defs]
  rcases (mem_bound_names code name).mp member with param | function | ⟨_, rfl⟩ | «variable»
  · exact Or.inl param
  · refine Or.inr (Or.inr (Or.inl ?_))
    obtain ⟨f, there, named⟩ := List.mem_filterMap.mp function
    exact ⟨f, there, named⟩
  · exact Or.inr (Or.inl rfl)
  · exact Or.inr (Or.inr (Or.inr «variable»))

theorem defined_bound (name : String) (member : name ∈ (t.scope code.header.scope).defs) :
    ((t.scope code.header.scope).kind = .function ∧ name = "arguments") ∨ name ∈ boundNames code := by
  have header := scoped_header t outer code fitted
  rw [mem_bound_names]
  rcases (header.defs name).mp member with param | rfl | ⟨f, there, named⟩ | «variable»
  · exact Or.inr (Or.inl param)
  · exact Or.inl ⟨header.kind, rfl⟩
  · exact Or.inr (Or.inr (Or.inl (List.mem_filterMap.mpr ⟨f, there, named⟩)))
  · exact Or.inr (Or.inr (Or.inr (Or.inr «variable»)))

omit fitted in
-- Code that looks at `arguments` binds it.
theorem arguments_bound (binds : code.header.bindsArguments code.functions = true) : "arguments" ∈ boundNames code := by
  rw [mem_bound_names, ← any_named]
  rw [Header.bindsArguments] at binds
  rw [argumentsNeeded]
  by_cases param : "arguments" ∈ code.header.params
  · exact Or.inl param
  · by_cases function : (code.functions.any fun f => f.header.name == some "arguments") = true
    · exact Or.inr (Or.inl function)
    · have absent : code.header.params.contains "arguments" = false := by
        rw [Bool.eq_false_iff, ne_eq, List.contains_iff_mem]
        exact param
      rw [absent, eq_false_of_ne_true function] at binds ⊢
      simp only [Bool.or_false, Bool.or_eq_true, List.contains_iff_mem] at binds
      rcases binds with uses | «variable»
      · refine Or.inr (Or.inr (Or.inl ⟨?_, rfl⟩))
        rw [uses]
        rfl
      · exact Or.inr (Or.inr (Or.inr «variable»))

theorem call_fits : Fits t code.header.scope (scopeShape t code.header.scope (boundNames code) (callFixed code.header)) := by
  have header := scoped_header t outer code fitted
  refine scope_shape_fits t _ _ _ (fun object => ?_) (defined_bound t outer code fitted) fun _ => ?_
  · rw [header.kind] at object
    cases object
  · exact (header.defs "arguments").mpr (Or.inr (Or.inl rfl))

end

/-! The frame of a call. -/

/-- The links of the names that have slots. -/
def callLinks (t : Scope.Tree) (h : Syntax.Header) (names : List String) (frame : FrameId) (e₂ : EnvironmentId) :
    List Link :=
  names.filterMap fun name => (((t.analyze true).scope h.scope).locals.lookup name).map (callLink h frame e₂ name)

theorem mem_call_links (t : Scope.Tree) (h : Syntax.Header) (names : List String) (frame : FrameId)
    (e₂ : EnvironmentId) (l : Link) : l ∈ callLinks t h names frame e₂ ↔ ∃ name ∈ names, ∃ slot,
      ((t.analyze true).scope h.scope).locals.lookup name = some slot ∧ callLink h frame e₂ name slot = l := by
  simp only [callLinks, List.mem_filterMap, Option.map_eq_some_iff]

-- A frame that has been used by a link was there before.
theorem link_frame_known (W : World) (kind : ScopeKind) (l : Link) (placed : W.Placed kind l) :
    l.frame < W.frames.length := by
  obtain ⟨t, code, found, _⟩ := placed.owner
  exact (List.getElem?_eq_some_iff.mp found).1

section

variable (W : World) (live : List Link) (owed : List (EnvironmentId × String)) (h₁ h₂ : Heap)
  (related : HeapRelated W live owed h₁ h₂)
include related

theorem links_before (l : Link) (member : l ∈ W.links ++ live) : l.frame < W.frames.length := by
  obtain ⟨kind, placed⟩ := link_placed W live owed h₁ h₂ related l member
  exact link_frame_known W kind l placed

variable (t : Scope.Tree) (formed : t.WellFormed) (h : Syntax.Header) (kind : (t.scope h.scope).kind = .function)
  (code : (t.scope h.scope).code = h.id) (names : List String) (e₂ : EnvironmentId) (info : Info)
  (has : W.Has e₂ info) (shape : info.shape = scopeShape t h.scope names (callFixed h))
  (due : ∀ name ∈ names, (e₂, name) ∈ owed) (unlinked : ∀ l ∈ W.links ++ live, l.env ≠ e₂)
include formed kind code has shape due unlinked

theorem call_frame_related (slots₂ : Array Value) :
    HeapRelated ((W.addFrame t h.id).addLinks (callLinks t h names W.frames.length e₂)) live owed
      (h₁.addFrame (Array.replicate ((t.analyze true).code h.id).slots .undefined)).2 (h₂.addFrame slots₂).2 := by
  have slotted := (Tree.analyze_analysed t formed true).slotted
  have count := related.frames₁
  have known := links_before W live owed h₁ h₂ related
  refine add_links_related _ live owed _ _ (add_frame_related W live owed h₁ h₂ related t h.id slots₂) _
    (fun l member => ?_) (fun l member => ?_) (fun l member k there frame slot => ?_)
    fun l member k there env name => ?_
  · obtain ⟨name, bound, slot, found, rfl⟩ := (mem_call_links t h names _ e₂ l).mp member
    refine ⟨?_, fun free => absurd (due name bound) free⟩
    -- Nothing has been written to the slot, and the name has no binding yet.
    have absent : h₂.binding? e₂ name = none := by
      obtain ⟨record, environment⟩ := related.environment e₂ info has
      have describes := environment.describes
      rw [shape] at describes
      obtain ⟨b, rfl, _, _, absent, _⟩ := describes
      rw [Heap.binding_of h₂ e₂ b _ name environment.second]
      exact absent name bound (due name bound)
    have second : (h₂.addFrame slots₂).2.readAlias (.binding e₂ name) = .undefined := by
      change h₂.readAlias (.binding e₂ name) = .undefined
      rw [Heap.read_binding, absent]
      rfl
    refine Eq.trans ?_ second.symm
    change ((h₁.frames.push _)[W.frames.length]?.bind fun slots => slots[slot]?).getD Value.undefined = .undefined
    rw [← count, Array.getElem?_push, if_pos rfl, Option.bind_some, Array.getElem?_replicate]
    split <;> rfl
  · obtain ⟨name, bound, slot, found, rfl⟩ := (mem_call_links t h names _ e₂ l).mp member
    refine ⟨⟨t, h.id, ?_, formed, kind, code, found⟩, ⟨info, has, ?_, ?_⟩, call_state_fixed h name⟩
    · change (W.frames ++ [(t, h.id)])[W.frames.length]? = some (t, h.id)
      exact List.getElem?_concat_length
    · rw [shape]
      exact lookup_some _ name slot found
    · rw [shape]
      exact bound
  · obtain ⟨name, bound, index, found, rfl⟩ := (mem_call_links t h names _ e₂ l).mp member
    rcases List.mem_append.mp there with new | old
    · obtain ⟨other, bound', index', found', rfl⟩ := (mem_call_links t h names _ e₂ k).mp new
      cases (show index = index' from slot)
      rw [(slotted.distinct _ _ name other index found found' rfl).2]
    · exact absurd frame.symm (Nat.ne_of_lt (known k old))
  · obtain ⟨first, bound, index, found, rfl⟩ := (mem_call_links t h names _ e₂ l).mp member
    rcases List.mem_append.mp there with new | old
    · obtain ⟨other, bound', index', found', rfl⟩ := (mem_call_links t h names _ e₂ k).mp new
      cases (show first = other from name)
      cases Option.some.inj (found.symm.trans found')
      rfl
    · exact absurd env.symm (unlinked k old)

end

/-- A call gets its frame; in the first run the slots stand for the bindings that are owed. -/
theorem call_frame_settles (W : World) (live : List Link) (owed : List (EnvironmentId × String)) (s : Stand)
    (t : Scope.Tree) (formed : t.WellFormed) (h : Syntax.Header) (kind : (t.scope h.scope).kind = .function)
    (code : (t.scope h.scope).code = h.id) (names : List String) (e₂ : EnvironmentId) (info : Info)
    (has : W.Has e₂ info) (shape : info.shape = scopeShape t h.scope names (callFixed h))
    (due : ∀ name ∈ names, (e₂, name) ∈ owed) (unlinked : ∀ l ∈ W.links ++ live, l.env ≠ e₂) (slots₁ slots₂ : Nat)
    (size : slots₁ = ((t.analyze true).code h.id).slots) :
    Settles W live owed owed s s (updateHeap fun k => k.addFrame (Array.replicate slots₁ .undefined))
      (updateHeap fun k => k.addFrame (Array.replicate slots₂ .undefined))
      (fun V a b => a = b ∧ V.frames[a]? = some (t, h.id) ∧ (∀ l ∈ live, l.frame ≠ a) ∧
        ∀ name ∈ names, ∀ slot, ((t.analyze true).scope h.scope).locals.lookup name = some slot →
          callLink h a e₂ name slot ∈ V.links) := by
  refine settles_update W live owed owed s _ _ _ fun h₁ h₂ related => ?_
  have count : h₁.frames.size = W.frames.length := related.frames₁
  refine ⟨(W.addFrame t h.id).addLinks (callLinks t h names W.frames.length e₂),
    World.below_trans W _ _ (W.add_frame_below t h.id) (World.add_links_below _ _), ?_, ?_, ?_, ?_, ?_⟩
  · rw [size]
    exact call_frame_related W live owed h₁ h₂ related t formed h kind code names e₂ info has shape due unlinked _
  · exact count.trans related.frames₂.symm
  · change (W.frames ++ [(t, h.id)])[h₁.frames.size]? = some (t, h.id)
    rw [count]
    exact List.getElem?_concat_length
  · intro l member same
    refine absurd (same.trans count) (Nat.ne_of_lt ?_)
    exact links_before W live owed h₁ h₂ related l (List.mem_append_right _ member)
  · intro name bound slot found
    refine List.mem_append_right _ ((mem_call_links t h names _ e₂ _).mpr ⟨name, bound, slot, found, ?_⟩)
    change callLink h W.frames.length e₂ name slot = callLink h h₁.frames.size e₂ name slot
    rw [count]

/-! The receiver and the context of a call. -/

theorem receiver_settles (W : World) (live : List Link) (owed : List (EnvironmentId × String)) (s : Stand)
    (header₁ header₂ : Program.Header) (strict : header₁.strict = header₂.strict) (this : Value) :
    Settles W live owed owed s s (receiverOf header₁ this) (receiverOf header₂ this) W.Unlinked := by
  have wraps (kind : ObjectKind) (prototype : Option ObjectId) (properties : PropertyTable) (plain : kind.isPlain = true) :
      Settles W live owed owed s s
        (newObject kind prototype properties >>= fun id => pure (Value.object id))
        (newObject kind prototype properties >>= fun id => pure (Value.object id)) W.Unlinked := by
    refine settles_bind W live owed owed owed s s s _ _ _ _ W.Unlinked _
      (settles_object W live owed s _ _ _ _ (.plain _ plain) (plain_mapped kind plain)) fun V a b _ made => ?_
    obtain ⟨same, rfl⟩ := made
    exact settles_pure V live owed s _ _ _ ⟨same, rfl⟩
  have same (v : Value) : Settles W live owed owed s s (pure v) (pure v) W.Unlinked :=
    settles_pure W live owed s _ v v ⟨rfl, rfl⟩
  delta receiverOf
  rw [strict]
  cases header₂.strict with
  | true => exact same this
  | false =>
    cases this with
    | undefined => exact same _
    | null => exact same _
    | object id => exact same (.object id)
    | boolean b => exact wraps (.boolean b) _ _ rfl
    | number x => exact wraps (.number x) _ _ rfl
    | string text => exact wraps (.string text) _ _ rfl

/-- The running contexts change, whatever their position. -/
theorem modify_running_settles (W : World) (live : List Link) (owed : List (EnvironmentId × String)) (s : Stand)
    (c₁ c₂ : Context) (f₁ f₂ : Context → Context)
    (first : ∀ p, f₁ { s.context₁ with position := p } = { c₁ with position := p })
    (second : ∀ p, f₂ { s.context₂ with position := p } = { c₂ with position := p })
    (frames : c₁.frame? = c₂.frame?) :
    Settles W live owed owed s { s with context₁ := c₁, context₂ := c₂ } (modifyRunning f₁) (modifyRunning f₂)
      W.Unlinked := by
  intro r₁ r₂ related holds
  obtain ⟨⟨p, at₁, at₂⟩, waits⟩ := holds
  have running₁ : f₁ r₁.running = { c₁ with position := p } := by rw [at₁, first]
  have running₂ : f₂ r₂.running = { c₂ with position := p } := by rw [at₂, second]
  refine ⟨(), (), { r₁ with running := f₁ r₁.running }, { r₂ with running := f₂ r₂.running }, W, fun _ => rfl,
    fun _ => rfl, W.below_refl, { related with running := ?_ }, ⟨⟨p, running₁, running₂⟩, waits⟩, rfl, rfl⟩
  dsimp only
  rw [running₁, running₂]
  exact frame_at c₁ c₂ p frames

/-! Binding all names of a call. -/

section

variable (W : World) (live : List Link) (s : Stand) (t : Scope.Tree) (formed : t.WellFormed) (text : String)
  (code : Syntax.Code) (outer : ScopeId) (fitted : code.Scoped t outer) (frame : FrameId) (o₂ e₁ e₂ : EnvironmentId)
  (called : Called W t code.header (boundNames code) frame o₂ e₁ e₂) (here : s.context₁.frame = frame)
include formed fitted called here

theorem instantiate_settles (f : ObjectId) (args : List Value) :
    Settles W live ((boundNames code).map (e₂, ·)) [] s s
      (instantiate (compileCode ⟨t.analyze true, text, []⟩ code) f frame e₁ args)
      (instantiate (compileCode ⟨t.analyze false, text, []⟩ code) f frame e₂ args) Same := by
  have header := scoped_header t outer code fitted
  have bare := (Tree.passed_on_plain t formed code.header.scope).1
  have functions : codesScoped t code.header.scope code.functions := by
    obtain ⟨h, functions, body⟩ := code
    exact fitted.2.1
  have slots (name : String) : Header.slot? (compileCode ⟨t.analyze true, text, []⟩ code).header name =
      ((t.analyze true).scope code.header.scope).locals.lookup name := by
    rw [compiled_header]
    rfl
  have free (name : String) : Header.slot? (compileCode ⟨t.analyze false, text, []⟩ code).header name = none := by
    rw [compiled_header, Header.slot?, Surroundings.header, bare]
    rfl
  have all (name : String) := mem_bound_names code name
  have unnamed (strict : code.header.strict = true) : "arguments" ∉ code.functions.filterMap (·.header.name) := by
    intro member
    obtain ⟨g, there, named⟩ := List.mem_filterMap.mp member
    exact (header.strict strict).2.2 g there named
  rw [instantiate, instantiate, needs_compiled, needs_compiled, compiled_functions, compiled_functions]
  generalize header₁ : (compileCode ⟨t.analyze true, text, []⟩ code).header = k₁ at slots
  generalize header₂ : (compileCode ⟨t.analyze false, text, []⟩ code).header = k₂ at free
  rw [compiled_header] at header₁ header₂
  have params₁ : k₁.params = code.header.params := by rw [← header₁]; rfl
  have params₂ : k₂.params = code.header.params := by rw [← header₂]; rfl
  have strict₁ : k₁.strict = code.header.strict := by rw [← header₁]; rfl
  have strict₂ : k₂.strict = code.header.strict := by rw [← header₂]; rfl
  have variables₁ : k₁.variables = code.header.variables := by rw [← header₁]; rfl
  have variables₂ : k₂.variables = code.header.variables := by rw [← header₂]; rfl
  dsimp only
  rw [params₁, params₂, variables₁, variables₂]
  refine settles_bind W live _ ((unpaid (boundNames code) code.header.params).map (e₂, ·)) _ s s s _ _ _ _ _ _
    (bind_params_settles W live s t formed code.header _ frame o₂ e₁ e₂ called here k₁ k₂ slots free _ _ args
      (fun name member => (all name).mpr (Or.inl member)) fun strict => (header.strict strict).1) fun V _ _ below _ => ?_
  have called := called_grown W V below _ _ _ _ _ _ _ called
  refine settles_bind V live _
    ((unpaid (unpaid (boundNames code) code.header.params) (code.functions.filterMap (·.header.name))).map (e₂, ·)) _
    s s s _ _ _ _ _ _
    (bind_functions_settles V live s t formed code.header _ frame o₂ e₁ e₂ called here k₁ k₂ slots free _ text
      code.functions functions (fun name member => (all name).mpr (Or.inr (Or.inl member))) unnamed)
    fun U _ _ below' _ => ?_
  have called := called_grown V U below' _ _ _ _ _ _ _ called
  -- What is still owed now is the arguments object and the variables.
  have due (name : String) : name ∈ unpaid (unpaid (boundNames code) code.header.params)
      (code.functions.filterMap (·.header.name)) ↔ (name ∈ boundNames code ∧ name ∉ code.header.params) ∧
        name ∉ code.functions.filterMap (·.header.name) := by
    rw [mem_unpaid, mem_unpaid]
  generalize unpaid (unpaid (boundNames code) code.header.params) (code.functions.filterMap (·.header.name)) = rest
    at due
  have final (T : World) (called : Called T t code.header (boundNames code) frame o₂ e₁ e₂) (left : List String)
      (only : ∀ name ∈ left, name ∈ code.header.variables) :
      Settles T live (left.map (e₂, ·)) [] s s (bindVariables k₁ e₁ code.header.variables)
        (bindVariables k₂ e₂ code.header.variables) Same := by
    have settles := bind_variables_settle T live s t formed code.header _ frame o₂ e₁ e₂ called k₁ k₂ slots free left
      code.header.variables (fun name member => (all name).mpr (Or.inr (Or.inr (Or.inr member))))
      fun strict => (header.strict strict).2.1
    have paid : unpaid left code.header.variables = [] := by
      refine List.eq_nil_iff_forall_not_mem.mpr fun name member => ?_
      obtain ⟨owed, unbound⟩ := (mem_unpaid left code.header.variables name).mp member
      exact unbound (only name owed)
    rw [paid] at settles
    exact settles
  cases needed : argumentsNeeded code with
  | false =>
    rw [if_neg Bool.false_ne_true, if_neg Bool.false_ne_true]
    refine final U called rest fun name member => ?_
    obtain ⟨⟨bound, param⟩, function⟩ := (due name).mp member
    rcases (all name).mp bound with contra | contra | ⟨contra, _⟩ | «variable»
    · exact absurd contra param
    · exact absurd contra function
    · rw [needed] at contra
      cases contra
    · exact «variable»
  | true =>
    rw [if_pos rfl, if_pos rfl]
    have bound : "arguments" ∈ boundNames code := (all "arguments").mpr (Or.inr (Or.inr (Or.inl ⟨needed, rfl⟩)))
    obtain ⟨proper, unnamed⟩ := arguments_needed code needed
    rw [← bind_assoc, ← bind_assoc]
    refine settles_bind U live _ ((rest.filter (· ≠ "arguments")).map (e₂, ·)) _ s s s _ _ _ _ _ _
      (arguments_settle U live s t formed code.header _ frame o₂ e₁ e₂ called here k₁ k₂ slots free rest
        ((due "arguments").mpr ⟨⟨bound, proper⟩, unnamed⟩) bound (params₁.trans params₂.symm) strict₁ strict₂
        (fun name member => (all name).mpr (Or.inl (params₁ ▸ member)))
        (fun name member still => ((due name).mp still).1.2 (params₁ ▸ member)) (params₁.symm ▸ proper) f args)
      fun T _ _ below'' _ => ?_
    refine final T (called_grown U T below'' _ _ _ _ _ _ _ called) _ fun name member => ?_
    obtain ⟨owed, distinct⟩ := List.mem_filter.mp member
    obtain ⟨⟨bound', param⟩, function⟩ := (due name).mp owed
    rcases (all name).mp bound' with contra | contra | ⟨_, same⟩ | «variable»
    · exact absurd contra param
    · exact absurd contra function
    · exact absurd same (of_decide_eq_true distinct)
    · exact «variable»

end

/-! Running the code of a function. -/

section

variable (W : World) (live : List Link) (s : Stand) (t : Scope.Tree) (formed : t.WellFormed) (text : String)
  (code : Syntax.Code) (outer : ScopeId) (fitted : code.Scoped t outer)

/-- The place of the statements of a function. -/
def bodySetting (t : Scope.Tree) (code : Syntax.Code) : Setting :=
  ⟨t, code.header.scope, code.header.strict, code.header.bindsArguments code.functions, ⟨code.header.kind, [], 0, 0⟩⟩

/-- Where two runs stand in a call whose names have been bound. -/
def Stand.called (s : Stand) (e₁ e₂ : EnvironmentId) (this : Value) (frame : FrameId) : Stand :=
  { s with
    context₁ := { s.context₁ with lexicalEnv := e₁, variableEnv := e₁, this := this, frame := frame }
    context₂ := { s.context₂ with lexicalEnv := e₂, variableEnv := e₂, this := this, frame := frame } }

include formed fitted

theorem standing_called (frame : FrameId) (o₂ e₁ e₂ : EnvironmentId) (this : Value)
    (called : Called W t code.header (boundNames code) frame o₂ e₁ e₂)
    (header : s.context₁.code = some (compileCode ⟨t.analyze true, text, []⟩ code).header)
    (owner : W.frames[frame]? = some (t, code.header.id)) (apart : ∀ l ∈ live, l.frame ≠ frame) :
    Standing W live (bodySetting t code) (s.called e₁ e₂ this frame) := by
  have header' := scoped_header t outer code fitted
  have inside := header'.code
  obtain ⟨info, has, shape, around, _⟩ := called.entered.has
  have lower : info.shape.lower = boundNames code := by
    rw [shape]
    rfl
  refine {
    formed := formed, inside := header'.inside, chain := called.entered.chain
    argued := fun binds => .here _ e₂ info header'.kind has ?_
    owned := ?_, slots := ⟨_, header, ?_⟩, frame := fun _ => ?_, this := rfl
    opened := fun direct => ⟨direct_eval_open t formed W _ e₁ e₂ called.entered.chain direct, fun sloppy => .inr ?_⟩
    above := fun _ l member same => absurd same (apart l member) }
  · rw [lower]
    exact arguments_bound code binds
  · refine .here _ outer e₂ o₂ info header'.outer has around (fun name slot found bound => ?_) (.beyond outer o₂ ?_)
    · rw [lower] at bound
      refine ⟨_, List.mem_append_left _ (called.linked name bound slot found), rfl, rfl, rfl, rfl, ?_⟩
      by_cases constant : code.header.strict = true ∧ name = "arguments"
      · exact Or.inr constant
      · exact Or.inl (by rw [callLink, callState, if_neg constant])
    · exact Nat.ne_of_lt (formed.function_code _ outer header'.outer header'.kind)
  · rw [compiled_header]
    change ((t.analyze true).code code.header.id).slots = ((t.analyze true).code (t.scope code.header.scope).code).slots
    rw [inside]
  · change W.frames[frame]? = some (t, (t.scope code.header.scope).code)
    rw [inside]
    exact owner
  · change code.header.strict = false at sloppy
    rw [scopeShape, callFixed, sloppy, if_neg Bool.false_ne_true] at shape
    exact ⟨info, _, _, _, has, shape⟩

theorem body_alike (M : Machines) (fit : M.Fit) : Alike M (bodySetting t code)
    (executeAll code.header.strict none (compileCode ⟨t.analyze true, text, []⟩ code).body)
    (executeAll code.header.strict none (compileCode ⟨t.analyze false, text, []⟩ code).body) := by
  have body : statementsScoped (bodySetting t code) code.body := by
    obtain ⟨h, functions, body⟩ := code
    exact fitted.2.2
  have compiled (collapse : Bool) : (compileCode ⟨t.analyze collapse, text, []⟩ code).body =
      compileBody (surroundings (bodySetting t code) collapse text []) code.body := by
    obtain ⟨h, functions, body⟩ := code
    rw [compileCode]
    rfl
  rw [compiled, compiled]
  exact execute_all_alike M fit (bodySetting t code) none _ _ (body_paired text (bodySetting t code) formed [] code.body body)

end

/-- Calls a function in an environment that has just been made. -/
def activateIn (routine : Routine) (f : ObjectId) (env : EnvironmentId) (this : Value) (args : List Value) : Run Value :=
  receiverOf routine.header this >>= fun this =>
    updateHeap (fun h => h.addFrame (Array.replicate routine.header.slots .undefined)) >>= fun frame =>
      modifyRunning (fun c => { c with lexicalEnv := env, variableEnv := env, this := this, frame := frame }) >>= fun _ =>
        instantiate routine f frame env args >>= fun _ =>
          executeAll routine.header.strict none routine.body >>= fun c => pure (returned c)

theorem activate_is (routine : Routine) (f : ObjectId) (scope : EnvironmentId) (this : Value) (args : List Value) :
    activate routine f scope this args = (if routine.header.collapsed then pure scope else newScope scope) >>= fun env =>
      activateIn routine f env this args := by
  delta activate
  dsimp only
  cases routine.header.collapsed <;> rfl

section

variable (M : Machines) (fit : M.Fit) (W : World) (live : List Link) (s : Stand) (t : Scope.Tree) (formed : t.WellFormed)
  (text : String) (code : Syntax.Code) (outer : ScopeId) (fitted : code.Scoped t outer)
  (header : s.context₁.code = some (compileCode ⟨t.analyze true, text, []⟩ code).header)
  (frames : s.context₁.frame? = s.context₂.frame?) (f : ObjectId) (this : Value) (args : List Value)
include fit formed fitted header frames

theorem activate_in_begins (o₂ e₁ e₂ : EnvironmentId)
    (entered : Entered W t code.header.scope (boundNames code) (callFixed code.header) o₂ e₁ e₂)
    (unlinked : ∀ l ∈ W.links ++ live, l.env ≠ e₂) :
    Begins M W live ((boundNames code).map (e₂, ·)) s live s.Waits
      (activateIn (compileCode ⟨t.analyze true, text, []⟩ code) f e₁ this args)
      (activateIn (compileCode ⟨t.analyze false, text, []⟩ code) f e₂ this args) Same := by
  have scope := scoped_header t outer code fitted
  have alike := body_alike t formed text code outer fitted M fit
  have strict (collapse : Bool) :
      (compileCode ⟨t.analyze collapse, text, []⟩ code).header.strict = code.header.strict := by
    rw [compiled_header]
    rfl
  have slots : (compileCode ⟨t.analyze true, text, []⟩ code).header.slots = ((t.analyze true).code code.header.id).slots := by
    rw [compiled_header]
    rfl
  rw [activateIn, activateIn, strict, strict]
  refine begins_settles M W live _ _ s s live s.Waits _ _ _ _ _ Same
    (receiver_settles W live _ s _ _ ((strict true).trans (strict false).symm) this) fun V this' that below made => ?_
  obtain ⟨links, rfl⟩ := made
  have entered := entered_grown W V below _ _ _ _ _ _ _ entered
  rw [← links] at unlinked
  obtain ⟨info, has, shape, _⟩ := entered.has
  refine begins_settles M V live _ _ s s live s.Waits _ _ _ _ _ Same
    (call_frame_settles V live _ s t formed code.header scope.kind scope.code (boundNames code) e₂ info has shape
      (fun name bound => List.mem_map_of_mem bound) unlinked _ _ slots) fun U frame _ below' made => ?_
  obtain ⟨rfl, owner, apart, linked⟩ := made
  have called : Called U t code.header (boundNames code) frame o₂ e₁ e₂ :=
    ⟨entered_grown V U below' _ _ _ _ _ _ _ entered, linked, bound_names_defined t outer code fitted⟩
  refine begins_settles M U live _ _ s (s.called e₁ e₂ this' frame) live s.Waits _ _ _ _ _ Same
    (modify_running_settles U live _ s _ _ _ _ (fun p => rfl) (fun p => rfl) frames) fun T _ _ below₂ _ => ?_
  have called := called_grown U T below₂ _ _ _ _ _ _ _ called
  refine begins_settles M T live _ [] (s.called e₁ e₂ this' frame) (s.called e₁ e₂ this' frame) live s.Waits _ _ _ _ _ Same
    (instantiate_settles T live _ t formed text code outer fitted frame o₂ e₁ e₂ called rfl f args)
    fun R _ _ below₃ _ => ?_
  have stands := standing_called R live s t formed text code outer fitted frame o₂ e₁ e₂ this'
    (called_grown T R below₃ _ _ _ _ _ _ _ called) header (below₃.frames _ _ (below₂.frames _ _ owner)) apart
  refine sim_waits M R live (s.called e₁ e₂ this' frame) _ _ Same ?_
  exact sim_bind_same M R live _ _ _ _ _ Same (alike R live _ stands) fun Q c _ => sim_pure M Q live _ Same _ _ rfl

theorem activate_simulates (scope₁ scope₂ : EnvironmentId) (chain : Chain W t outer scope₁ scope₂) :
    Simulates M W live s s.Waits (activate (compileCode ⟨t.analyze true, text, []⟩ code) f scope₁ this args)
      (activate (compileCode ⟨t.analyze false, text, []⟩ code) f scope₂ this args) Same := by
  intro r₁ r₂ related holds
  have unlinked := next_unlinked W live [] _ _ related.heap
  have bare : (compileCode ⟨t.analyze false, text, []⟩ code).header.collapsed = false := by
    rw [compiled_header]
    exact (Tree.passed_on_plain t formed code.header.scope).2
  have collapsed : (compileCode ⟨t.analyze true, text, []⟩ code).header.collapsed =
      ((t.analyze true).scope code.header.scope).collapsed := by
    rw [compiled_header]
    rfl
  have settles := scope_settles W live s t code.header.scope outer (boundNames code) _ scope₁ scope₂
    (scoped_header t outer code fitted).outer (call_fits t outer code fitted) chain
  rw [activate_is, activate_is, collapsed, bare]
  refine begins_settles M W live [] _ s s live s.Waits _ _ _ _ _ Same settles (fun V e₁ e₂ below made => ?_) r₁ r₂ related
    holds
  obtain ⟨links, rfl, entered⟩ := made
  rw [← links] at unlinked
  exact activate_in_begins M fit V live s t formed text code outer fitted header frames f this args scope₂ e₁ _ entered
    unlinked

end

end Ecma.Storage
