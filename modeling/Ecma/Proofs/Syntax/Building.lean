import Ecma.Proofs.Scope.Growth
import Ecma.Proofs.Syntax.Scoped
import Ecma.Syntax.Build

set_option autoImplicit false

/-!
Building syntax trees. What is built is judged by the tree of scopes that the whole text ends with, so
that nothing has to be shown again when the tree grows.
-/

namespace Ecma.Syntax

open Ecma.Grammar Ecma.Scope Build

structure Builder.Sound (b : Builder) : Prop where
  shaped : b.scopes.Shaped
  scope : b.scope < b.scopes.scopes.size
  unit : b.code.scope < b.scopes.scopes.size
  code : (b.scopes.scope b.scope).code = b.code.id
  unitCode : (b.scopes.scope b.code.scope).code = b.code.id
  declared : b.code.strict = true → "arguments" ∉ b.code.variables
  functions : b.code.strict = true → ∀ f ∈ b.code.functions, f.header.name ≠ some "arguments"

-- A `with` statement is known to its code at the latest when the code is finished.
def Builder.marked (b : Builder) (s : ScopeId) : Prop :=
  (b.scopes.scope s).kind = .withObject →
    (b.scopes.code (b.scopes.scope s).code).usesWith = true ∨
      (b.scopes.scope s).code = b.code.id ∧ b.code.usesWith = true

/-- What the jumps of a unit can go to at the place. -/
def Unfinished.goals (c : Unfinished) : Goals :=
  ⟨c.kind, c.labels, c.loops, c.breakables⟩

/-- The unit at another place. -/
def Unfinished.at (c : Unfinished) (g : Goals) : Unfinished :=
  { c with labels := g.labels, loops := g.loops, breakables := g.breakables }

-- What building a part of a unit changes.
structure Builder.Grows (b after : Builder) : Prop where
  tree : b.scopes.Kept after.scopes fun _ => False
  scope : after.scope = b.scope
  id : after.code.id = b.code.id
  goals : after.code.goals = b.code.goals
  strict : after.code.strict = b.code.strict
  unit : after.code.scope = b.code.scope
  usesWith : b.code.usesWith = true → after.code.usesWith = true
  usesArguments : b.code.usesArguments = true → after.code.usesArguments = true
  declared : ∀ name ∈ b.code.variables, name ∈ after.code.variables
  withs : ∀ s, b.scopes.scopes.size ≤ s → after.marked s

theorem Builder.Grows.refl (b : Builder) : b.Grows b := by
  refine ⟨.refl _ _, rfl, rfl, rfl, rfl, rfl, fun h => h, fun h => h, fun _ h => h, fun s start object => ?_⟩
  rw [Tree.scope_unknown _ _ (Nat.not_lt.mpr start)] at object
  cases object

theorem Builder.Grows.trans (a b c : Builder) (first : a.Grows b) (second : b.Grows c) : a.Grows c := by
  refine ⟨.trans _ _ _ _ first.tree second.tree, second.scope.trans first.scope, second.id.trans first.id,
    second.goals.trans first.goals, second.strict.trans first.strict, second.unit.trans first.unit,
    second.usesWith ∘ first.usesWith, second.usesArguments ∘ first.usesArguments,
    fun name => second.declared name ∘ first.declared name, fun s start => ?_⟩
  by_cases inside : s < b.scopes.scopes.size
  · intro object
    rw [second.tree.kind s inside] at object
    rw [second.tree.code s inside]
    rcases first.withs s start object with uses | ⟨own, uses⟩
    · exact Or.inl (second.tree.usesWith _ uses)
    · exact Or.inr ⟨own.trans second.id.symm, second.usesWith uses⟩
  · exact second.withs s (Nat.not_lt.mp inside)

-- The tree of the whole text, as seen before the text is at its end; the units in the list are not
-- finished yet.
structure Builder.Future (b : Builder) (unfinished : List ScopeId) (tree : Scope.Tree) (arguments : Bool) :
    Prop where
  tree : b.scopes.Kept tree (· ∈ unfinished)
  usesArguments : b.code.usesArguments = true → arguments = true
  declared : "arguments" ∈ b.code.variables → arguments = true

theorem Builder.Future.before (b after : Builder) (unfinished : List ScopeId) (tree : Scope.Tree)
    (arguments : Bool) (grows : b.Grows after) (future : after.Future unfinished tree arguments) :
    b.Future unfinished tree arguments := by
  refine ⟨.trans _ _ _ _ (.fewer _ _ _ _ grows.tree ?_) future.tree, ?_, ?_⟩
  · exact fun _ _ _ contra => contra
  · exact future.usesArguments ∘ grows.usesArguments
  · exact future.declared ∘ grows.declared "arguments"

/-- The setting of what is built next, in the tree that the text ends with. -/
def Builder.setting (b : Builder) (tree : Scope.Tree) (arguments : Bool) : Setting :=
  ⟨tree, b.scope, b.code.strict, arguments, b.code.goals⟩

theorem setting_same (b after : Builder) (tree : Scope.Tree) (arguments : Bool) (grows : b.Grows after) :
    after.setting tree arguments = b.setting tree arguments := by
  rw [Builder.setting, Builder.setting, grows.scope, grows.strict, grows.goals]

structure Builder.Becomes (b after : Builder) (unfinished : List ScopeId) : Prop where
  sound : after.Sound
  grows : b.Grows after
  functions : ∀ tree arguments, after.Future unfinished tree arguments →
    ∀ f ∈ after.code.functions, f ∈ b.code.functions ∨ f.Scoped tree b.code.scope

theorem Builder.Becomes.refl (b : Builder) (unfinished : List ScopeId) (sound : b.Sound) :
    b.Becomes b unfinished := by
  exact ⟨sound, .refl b, fun _ _ _ _ member => Or.inl member⟩

theorem Builder.Becomes.trans (a b c : Builder) (unfinished : List ScopeId)
    (first : a.Becomes b unfinished) (second : b.Becomes c unfinished) : a.Becomes c unfinished := by
  refine ⟨second.sound, .trans a b c first.grows second.grows, fun tree arguments future f member => ?_⟩
  rcases second.functions tree arguments future f member with known | placed
  · exact first.functions tree arguments (.before b c _ _ _ second.grows future) f known
  · rw [first.grows.unit] at placed
    exact Or.inr placed

-- Whatever is built fits the tree that the text ends with.
def Yields {α : Type} (fits : Setting → α → Prop) (build : Build α) : Prop :=
  ∀ (unfinished : List ScopeId) (b : Builder) (a : α) (after : Builder), b.Sound →
    (∀ s ∈ unfinished, s < b.scopes.scopes.size) → build b = .ok a after →
      b.Becomes after unfinished ∧
        ∀ tree arguments, after.Future unfinished tree arguments → fits (b.setting tree arguments) a

section

variable {α β : Type}

theorem build_bind (x : Build α) (f : α → Build β) (b after : Builder) (c : β)
    (ended : (x >>= f) b = .ok c after) :
    ∃ a between, x b = .ok a between ∧ f a between = .ok c after := by
  change EStateM.bind x f b = _ at ended
  rw [EStateM.bind] at ended
  cases first : x b with
  | ok a between =>
    rw [first] at ended
    exact ⟨a, between, rfl, ended⟩
  | error e between =>
    rw [first] at ended
    cases ended

theorem yields_pure (fits : Setting → α → Prop) (a : α) (holds : ∀ p, fits p a) :
    Yields fits (pure a) := by
  intro unfinished b c after sound _ ended
  cases ended
  exact ⟨.refl b unfinished sound, fun _ _ _ => holds _⟩

-- What comes later may rest on what has been built before.
theorem yields_bind (first : Setting → α → Prop) (fits : Setting → β → Prop) (x : Build α) (f : α → Build β)
    (before : Yields first x) (next : ∀ a, Yields (fun p c => first p a → fits p c) (f a)) :
    Yields fits (x >>= f) := by
  intro unfinished b c after sound below ended
  obtain ⟨a, between, one, two⟩ := build_bind x f b after c ended
  obtain ⟨becomes, holds⟩ := before unfinished b a between sound below one
  have further : ∀ s ∈ unfinished, s < between.scopes.scopes.size := fun s member =>
    Nat.lt_of_lt_of_le (below s member) becomes.grows.tree.scopes
  obtain ⟨rest, then'⟩ := next a unfinished between c after becomes.sound further two
  refine ⟨.trans b between after unfinished becomes rest, fun tree arguments future => ?_⟩
  have held := holds tree arguments (.before _ _ _ _ _ rest.grows future)
  rw [← setting_same b between tree arguments becomes.grows] at held ⊢
  exact then' tree arguments future held

theorem yields_weaker (strong fits : Setting → α → Prop) (x : Build α) (yields : Yields strong x)
    (weaker : ∀ p a, strong p a → fits p a) : Yields fits x := by
  intro unfinished b a after sound below ended
  obtain ⟨becomes, holds⟩ := yields unfinished b a after sound below ended
  exact ⟨becomes, fun tree arguments future => weaker _ a (holds tree arguments future)⟩

theorem yields_throw (fits : Setting → α → Prop) (e : SyntaxError) : Yields fits (throw e : Build α) := by
  intro unfinished b a after _ _ ended
  cases ended

theorem yields_fail (fits : Setting → α → Prop) (cause : EarlyError) (node : Node Rule) :
    Yields fits (fail cause node : Build α) := by
  exact yields_throw fits _

-- Nothing follows a syntax error.
theorem yields_fail_then (fits : Setting → β → Prop) (cause : EarlyError) (offset : Nat) (f : α → Build β) :
    Yields fits (failAt cause offset >>= f) := by
  intro unfinished b a after _ _ ended
  obtain ⟨c, between, one, _⟩ := build_bind _ f b after a ended
  cases one

theorem yields_lift (fits : Setting → α → Prop) (node : Node Rule) (result : Except EarlyError α)
    (holds : ∀ p a, fits p a) : Yields fits (liftAt node result) := by
  cases result with
  | ok a => exact yields_pure fits a fun p => holds p a
  | error cause => exact yields_fail fits cause node

-- Looking at the state changes nothing.
theorem yields_get (fits : Setting → α → Prop) (f : Builder → Build α)
    (next : ∀ b, Yields fits (f b)) : Yields fits (get >>= f) := by
  intro unfinished b a after sound below ended
  exact next b unfinished b a after sound below ended

-- What is looked at is where the place is.
theorem yields_goals (fits : Setting → α → Prop) (f : Builder → Build α)
    (next : ∀ b, Yields (fun p a => p.goals = b.code.goals → fits p a) (f b)) : Yields fits (get >>= f) := by
  intro unfinished b a after sound below ended
  obtain ⟨becomes, holds⟩ := next b unfinished b a after sound below ended
  exact ⟨becomes, fun tree arguments future => holds tree arguments future rfl⟩

theorem yields_strict : Yields (fun p strict => strict = p.strict) Build.strict := by
  intro unfinished b a after sound _ ended
  cases ended
  exact ⟨.refl b unfinished sound, fun _ _ _ => rfl⟩

end

/-! Changes of the state. -/

theorem becomes_scopes (b : Builder) (t : Scope.Tree) (unfinished : List ScopeId) (sound : b.Sound)
    (kept : b.scopes.Kept t fun _ => False) (shaped : t.Shaped)
    (withs : ∀ s, b.scopes.scopes.size ≤ s → { b with scopes := t }.marked s) :
    b.Becomes { b with scopes := t } unfinished := by
  refine ⟨⟨shaped, ?_, ?_, ?_, ?_, sound.declared, sound.functions⟩, ⟨kept, rfl, rfl, rfl, rfl, rfl, fun h => h,
    fun h => h, fun _ h => h, withs⟩, fun _ _ _ _ member => Or.inl member⟩
  · exact Nat.lt_of_lt_of_le sound.scope kept.scopes
  · exact Nat.lt_of_lt_of_le sound.unit kept.scopes
  · exact (kept.code _ sound.scope).trans sound.code
  · exact (kept.code _ sound.unit).trans sound.unitCode

-- No scope is opened, so none has to be marked.
theorem becomes_same_scopes (b : Builder) (t : Scope.Tree) (unfinished : List ScopeId) (sound : b.Sound)
    (kept : b.scopes.Kept t fun _ => False) (shaped : t.Shaped)
    (size : t.scopes.size = b.scopes.scopes.size) : b.Becomes { b with scopes := t } unfinished := by
  refine becomes_scopes b t unfinished sound kept shaped fun s start object => ?_
  rw [← size] at start
  rw [Tree.scope_unknown _ _ (Nat.not_lt.mpr start)] at object
  cases object

theorem becomes_code (b : Builder) (c : Unfinished) (unfinished : List ScopeId) (sound : b.Sound)
    (id : c.id = b.code.id) (goals : c.goals = b.code.goals) (strict : c.strict = b.code.strict)
    (unit : c.scope = b.code.scope) (usesWith : b.code.usesWith = true → c.usesWith = true)
    (usesArguments : b.code.usesArguments = true → c.usesArguments = true)
    (declared : ∀ name ∈ b.code.variables, name ∈ c.variables)
    (free : c.strict = true → "arguments" ∉ c.variables)
    (names : c.strict = true → ∀ f ∈ c.functions, f.header.name ≠ some "arguments")
    (functions : ∀ tree arguments, { b with code := c }.Future unfinished tree arguments →
      ∀ f ∈ c.functions, f ∈ b.code.functions ∨ f.Scoped tree b.code.scope) :
    b.Becomes { b with code := c } unfinished := by
  refine ⟨⟨sound.shaped, sound.scope, ?_, ?_, ?_, free, names⟩,
    ⟨.refl _ _, rfl, id, goals, strict, unit, usesWith, usesArguments, declared, fun s start object => ?_⟩, functions⟩
  · rw [unit]
    exact sound.unit
  · exact sound.code.trans id.symm
  · rw [unit, id]
    exact sound.unitCode
  · rw [Tree.scope_unknown _ _ (Nat.not_lt.mpr start)] at object
    cases object

-- The note of a call of `eval` is of no account here.
theorem yields_note_eval : Yields (fun _ _ => True) (modifyCode fun c => { c with directEval := true }) := by
  intro unfinished b a after sound _ ended
  cases ended
  exact ⟨becomes_code b _ unfinished sound rfl rfl rfl rfl (fun uses => uses) (fun uses => uses)
    (fun _ member => member) sound.declared sound.functions fun _ _ _ _ member => Or.inl member, fun _ _ _ => trivial⟩

/-! Names. -/

theorem yields_add_ref (name : String) (scope : ScopeId) (build : Build Unit)
    (is : ∀ b : Builder, build b = .ok () { b with scopes := b.scopes.addRef scope name }) :
    Yields (fun p _ => scope = p.scope → name ∈ (p.tree.scope p.scope).refs) build := by
  intro unfinished b a after sound _ ended
  rw [is b] at ended
  cases ended
  refine ⟨becomes_same_scopes b _ unfinished sound (Tree.add_ref_kept _ _ _ _)
    (Tree.add_ref_shaped _ _ _ sound.shaped) (Tree.size_modify _ _ _), fun tree arguments future here => ?_⟩
  refine future.tree.refs _ _ ?_
  rw [here]
  exact Tree.add_ref_member b.scopes b.scope name sound.scope

theorem yields_refer (name : String) :
    Yields (fun p _ => name ∈ (p.tree.scope p.scope).refs) (referTo name) := by
  intro unfinished b a after sound below ended
  have refers := yields_add_ref name b.scope (modifyScopes fun t => t.addRef b.scope name) fun _ => rfl
  obtain ⟨becomes, holds⟩ := refers unfinished b a after sound below ended
  exact ⟨becomes, fun tree arguments future => holds tree arguments future rfl⟩

theorem yields_checked (node : Node Rule) (strict : Bool) :
    Yields (fun _ _ => True) (checkedName node strict) := by
  refine yields_bind (fun _ _ => True) _ _ _ (yields_lift _ _ _ fun _ _ => trivial) fun name => ?_
  dsimp only
  split
  · exact yields_fail_then _ _ _ _
  · exact yields_pure _ _ fun _ _ => trivial

-- What strict code binds is not called `arguments`.
theorem yields_binding (node : Node Rule) (strict : Bool) :
    Yields (fun _ name => strict = true → name ≠ "arguments") (bindingName node strict) := by
  refine yields_bind (fun _ _ => True) _ _ _ (yields_checked node strict) fun name => ?_
  dsimp only
  split
  · exact yields_fail_then _ _ _ _
  · rename_i free
    refine yields_pure _ _ fun _ _ isStrict same => ?_
    rw [isStrict, same] at free
    exact free rfl

theorem yields_uses_arguments :
    Yields (fun p _ => p.arguments = true) (modifyCode fun c => { c with usesArguments := true }) := by
  intro unfinished b a after sound _ ended
  cases ended
  refine ⟨becomes_code b _ unfinished sound rfl rfl rfl rfl (fun uses => uses) (fun _ => rfl)
    (fun _ member => member) sound.declared sound.functions fun _ _ _ _ member => Or.inl member, ?_⟩
  exact fun tree arguments future => future.usesArguments rfl

theorem yields_identifier (name : String) (span : Span) :
    Yields (fun p id => (name = "arguments" → p.arguments = true) → id.Scoped p) do
      let scope := (← get).scope
      modifyScopes fun t => t.addRef scope name
      return (⟨name, scope, span⟩ : Identifier) := by
  intro unfinished b a after sound below ended
  have refers := yields_add_ref name b.scope (modifyScopes fun t => t.addRef b.scope name) fun _ => rfl
  cases ended
  obtain ⟨becomes, holds⟩ := refers unfinished b () _ sound below rfl
  exact ⟨becomes, fun tree arguments future known => ⟨rfl, holds tree arguments future rfl, known⟩⟩

theorem yields_reference (node : Node Rule) : Yields (fun p id => id.Scoped p) (reference node) := by
  refine yields_bind _ _ _ _ yields_strict fun strict => ?_
  refine yields_bind _ _ _ _ (yields_checked node strict) fun name => ?_
  dsimp only
  split
  · refine yields_bind _ _ _ _ yields_uses_arguments fun _ => ?_
    refine yields_weaker _ _ _ (yields_identifier name (spanOf node)) fun p id holds noted _ _ => ?_
    exact holds fun _ => noted
  · rename_i other
    refine yields_weaker _ _ _ (yields_identifier name (spanOf node)) fun p id holds _ _ => ?_
    exact holds fun same => absurd (beq_iff_eq.mpr same) other

-- A declared variable is bound by its code, whether or not it is referred to.
theorem yields_declare (node : Node Rule) :
    Yields (fun p id => id.scope = p.scope ∧ (p.strict = true → id.name ≠ "arguments") ∧
      (id.name = "arguments" → p.arguments = true)) (declareVariable node) := by
  intro unfinished b a after sound below ended
  obtain ⟨strict, b₁, first, ended⟩ := build_bind _ _ b after a ended
  cases first
  obtain ⟨name, b₂, second, ended⟩ := build_bind _ _ _ after a ended
  cases ended
  obtain ⟨becomes, holds⟩ := yields_binding node b.code.strict unfinished b name b₂ sound below second
  -- Strict code has been told by now that its variables are not called `arguments`.
  have free : b.code.strict = true → name ≠ "arguments" := by
    have future : b₂.Future unfinished b₂.scopes true :=
      ⟨.refl _ _, fun _ => rfl, fun _ => rfl⟩
    exact holds b₂.scopes true future
  have grows := becomes.grows
  refine ⟨.trans b b₂ _ unfinished becomes (becomes_code b₂ _ unfinished becomes.sound rfl rfl rfl rfl
    (fun uses => uses) (fun uses => uses) ?_ ?_ becomes.sound.functions fun _ _ _ _ member => Or.inl member), ?_⟩
  · exact fun other member => (mem_add_name _ _ _).mpr (Or.inl member)
  · intro isStrict member
    rcases (mem_add_name _ _ _).mp member with known | same
    · exact becomes.sound.declared isStrict known
    · exact free (grows.strict.symm.trans isStrict) same.symm
  · intro tree arguments future
    refine ⟨grows.scope, free, fun same => future.declared ?_⟩
    exact (mem_add_name _ _ _).mpr (Or.inr same.symm)

theorem yields_target (target : Expression) (node : Node Rule) :
    Yields (fun p _ => assignable p target) (checkTarget target node) := by
  cases target with
  | identifier id =>
    refine yields_bind _ _ _ _ yields_strict fun strict => ?_
    by_cases wrong : (strict && isEvalOrArguments id.name) = true
    · rw [if_pos wrong]
      exact yields_fail _ _ _
    · rw [if_neg wrong]
      refine yields_pure _ _ fun p same isStrict named => wrong ?_
      rw [same, isStrict, isEvalOrArguments, named]
      rfl
  | member span object key => exact yields_pure _ _ fun _ => trivial
  | _ => exact yields_fail_then _ _ _ _

/-! Parts without names. -/

theorem yields_octal {α : Type} (octal : Bool) (cause : EarlyError) (node : Node Rule) (value : α) :
    Yields (fun _ _ => True) (do
      if octal && (← Build.strict) then fail cause node
      return value) := by
  refine yields_bind _ _ _ _ yields_strict fun strict => ?_
  by_cases wrong : (octal && strict) = true
  · dsimp only
    rw [if_pos wrong]
    exact yields_fail_then _ _ _ _
  · dsimp only
    rw [if_neg wrong]
    exact yields_pure _ _ fun _ _ => trivial

theorem yields_string (node : Node Rule) : Yields (fun _ _ => True) (stringValue node) := by
  refine yields_bind (fun _ _ => True) _ _ _ (yields_lift _ _ _ fun _ _ => trivial) fun value => ?_
  exact yields_weaker _ _ _ (yields_octal value.2 .octalEscape node value.1) fun _ _ _ _ => trivial

theorem yields_number (node : Node Rule) : Yields (fun _ _ => True) (numberValue node) := by
  have value := Number.ofLiteral node.chars
  exact yields_octal (Number.ofLiteral node.chars).2 .octalLiteral node (Number.ofLiteral node.chars).1

theorem yields_key (node : Node Rule) : Yields (fun _ _ => True) (propertyKey node) := by
  rw [propertyKey]
  split
  · exact yields_lift _ _ _ fun _ _ => trivial
  · exact yields_string node
  · exact yields_bind _ _ _ _ (yields_number node) fun _ => yields_pure _ _ fun _ _ => trivial
  · exact yields_fail _ _ _

theorem yields_note (seen : SeenKeys) (key : String) (kind : PropertyKind) (offset : Nat) :
    Yields (fun _ _ => True) (noteKey seen key kind offset) := by
  refine yields_bind _ _ _ _ yields_strict fun strict => ?_
  by_cases wrong : ((seen.lookup key).getD {}).conflicts strict kind = true
  · dsimp only
    rw [if_pos wrong]
    exact yields_fail_then _ _ _ _
  · dsimp only
    rw [if_neg wrong]
    exact yields_pure _ _ fun _ _ => trivial

theorem yields_continue (node : Node Rule) :
    Yields (fun p name => p.goals.continues (some name)) (continueLabel node) := by
  refine yields_bind _ _ _ _ yields_strict fun strict => ?_
  refine yields_bind _ _ _ _ (yields_checked node strict) fun name => ?_
  refine yields_goals _ _ fun b => ?_
  cases found : b.code.labels.lookup name with
  | none => exact yields_fail _ _ _
  | some loop =>
    cases loop with
    | false => exact yields_fail _ _ _
    | true =>
      refine yields_pure _ _ fun p here _ _ => ?_
      rw [here]
      exact found

theorem yields_break (node : Node Rule) :
    Yields (fun p name => p.goals.breaks (some name)) (breakLabel node) := by
  refine yields_bind _ _ _ _ yields_strict fun strict => ?_
  refine yields_bind _ _ _ _ (yields_checked node strict) fun name => ?_
  refine yields_goals _ _ fun b => ?_
  cases found : b.code.labels.lookup name with
  | none => exact yields_fail _ _ _
  | some loop =>
    refine yields_pure _ _ fun p here _ _ => ?_
    rw [here, Goals.breaks]
    exact Option.isSome_iff_exists.mpr ⟨loop, found⟩

/-! What is around a part. -/

section

variable {α : Type} (fits : Setting → α → Prop) (build : Build α) (yields : Yields fits build)
include yields

-- What is counted before a part and taken back after it changes only where the jumps of the part can go.
theorem yields_between (before after : Unfinished → Unfinished) (inner : Goals → Goals)
    (sameKind : ∀ g, (inner g).kind = g.kind) (enters : ∀ c, before c = c.at (inner c.goals))
    (leaves : ∀ c g, c.goals = inner g → after c = c.at g) :
    Yields (fun p a => fits { p with goals := inner p.goals } a) do
      modifyCode before
      let a ← build
      modifyCode after
      return a := by
  intro unfinished b a last sound below ended
  obtain ⟨result, between, built, ended⟩ := build_bind build _ { b with code := before b.code } last a ended
  cases ended
  rw [enters] at built
  have entered : (b.code.at (inner b.code.goals)).goals = inner b.code.goals := by
    have kind : b.code.kind = (inner b.code.goals).kind := (sameKind b.code.goals).symm
    rw [Unfinished.goals, Unfinished.at]
    dsimp only
    rw [kind]
  obtain ⟨becomes, holds⟩ := yields unfinished { b with code := b.code.at (inner b.code.goals) } a between
    ⟨sound.shaped, sound.scope, sound.unit, sound.code, sound.unitCode, sound.declared, sound.functions⟩ below built
  have grows := becomes.grows
  have inside : between.code.goals = inner b.code.goals := grows.goals.trans entered
  have kind : between.code.kind = b.code.kind := (congrArg Goals.kind inside).trans (sameKind _)
  dsimp only
  rw [leaves between.code b.code.goals inside]
  refine ⟨⟨⟨becomes.sound.shaped, becomes.sound.scope, becomes.sound.unit, becomes.sound.code,
    becomes.sound.unitCode, becomes.sound.declared, becomes.sound.functions⟩, ⟨grows.tree, grows.scope, grows.id,
    ?_, grows.strict, grows.unit, grows.usesWith, grows.usesArguments, grows.declared, grows.withs⟩, ?_⟩, ?_⟩
  · rw [Unfinished.goals, Unfinished.at]
    dsimp only
    rw [kind]
    rfl
  · exact fun tree arguments future => becomes.functions tree arguments
      ⟨future.tree, future.usesArguments, future.declared⟩
  · intro tree arguments future
    have fit := holds tree arguments ⟨future.tree, future.usesArguments, future.declared⟩
    rw [Builder.setting, entered] at fit
    exact fit

theorem yields_loop : Yields (fun p a => fits p.inLoop a) (inLoop build) := by
  refine yields_between fits build yields _ _ Goals.inLoop (fun _ => rfl) (fun _ => rfl) fun c g inside => ?_
  obtain ⟨_, labels, loops, breakables⟩ := Goals.mk.inj inside
  rw [Unfinished.at, ← labels, loops, breakables]
  rfl

theorem yields_switch : Yields (fun p a => fits p.inSwitch a) (inSwitch build) := by
  refine yields_between fits build yields _ _ Goals.inSwitch (fun _ => rfl) (fun _ => rfl) fun c g inside => ?_
  obtain ⟨_, labels, loops, breakables⟩ := Goals.mk.inj inside
  rw [Unfinished.at, ← labels, ← loops, breakables]
  rfl

theorem yields_label (label : String) (loop : Bool) :
    Yields (fun p a => fits (p.under label loop) a) (underLabel label loop build) := by
  refine yields_between fits build yields _ _ (fun g => g.under label loop) (fun _ => rfl) (fun _ => rfl)
    fun c g inside => ?_
  obtain ⟨_, labels, loops, breakables⟩ := Goals.mk.inj inside
  rw [Unfinished.at, labels, ← loops, ← breakables]
  rfl

end

-- The name `eval` may call code that sees every scope around.
theorem yields_callee (callee : Expression) :
    Yields (fun p _ => callable p callee) (noteCallee callee) := by
  cases callee with
  | identifier id =>
    by_cases named : (id.name == "eval") = true
    · intro unfinished b a after sound below ended
      rw [noteCallee, if_pos named] at ended
      obtain ⟨_, between, first, ended⟩ := build_bind _ _ b after a ended
      obtain ⟨becomes, _⟩ := yields_note_eval unfinished b () between sound below first
      have changed := becomes_same_scopes between (between.scopes.markDirectEval between.scope) unfinished
        becomes.sound (Tree.mark_direct_kept _ _ _) (Tree.mark_direct_shaped _ _ becomes.sound.shaped)
        (Tree.size_modify _ _ _)
      cases ended
      refine ⟨.trans _ _ _ _ becomes changed, fun tree arguments future _ => ?_⟩
      have direct := future.tree.directEval _
        (Tree.mark_direct_same between.scopes between.scope becomes.sound.scope)
      rw [becomes.grows.scope] at direct
      exact direct
    · rw [noteCallee, if_neg named]
      exact yields_pure _ _ fun _ same => absurd (beq_iff_eq.mpr same) named
  | _ => exact yields_pure _ _ fun _ => trivial

/-! Scopes. -/

/-- The tree with one more scope that binds some names. -/
def Builder.opened (b : Builder) (kind : ScopeKind) (names : List String) : Scope.Tree :=
  (b.scopes.newScope kind (some b.scope) b.code.id).1.addDefs b.scopes.scopes.size names

section

variable (b : Builder) (kind : ScopeKind) (names : List String) (sound : b.Sound)

include sound in
theorem opened_scope :
    b.scopes.scopes.size < (b.opened kind names).scopes.size ∧
      (b.opened kind names).scope b.scopes.scopes.size =
        { kind := kind, outer := some b.scope, code := b.code.id, defs := names.foldl addName [] } := by
  have inside := Tree.new_scope_inside b.scopes kind b.scope b.code.id
  have kept := Tree.add_defs_kept (b.scopes.newScope kind (some b.scope) b.code.id).1
    b.scopes.scopes.size names (fun _ => True) trivial
  refine ⟨Nat.lt_of_lt_of_le inside kept.scopes, ?_⟩
  rw [Builder.opened, Tree.add_defs_scope _ _ _ inside, Tree.new_scope_same _ _ _ _ sound.scope]

theorem opened_kept (unfinished : ScopeId → Prop) : b.scopes.Kept (b.opened kind names) unfinished := by
  have opens := Tree.new_scope_kept b.scopes kind b.scope b.code.id (· = b.scopes.scopes.size)
  have binds := Tree.add_defs_kept (b.scopes.newScope kind (some b.scope) b.code.id).1
    b.scopes.scopes.size names (· = b.scopes.scopes.size) rfl
  exact .fewer _ _ _ _ (.trans _ _ _ _ opens binds) fun s inside _ => Nat.ne_of_lt inside

include sound in
theorem opened_becomes (unfinished : List ScopeId) (root : kind.isRoot = false) (inner : kind ≠ .function)
    (marked : kind = .withObject → b.code.usesWith = true ∧ names = []) :
    b.Becomes { b with scopes := b.opened kind names } unfinished := by
  have inside := Tree.new_scope_inside b.scopes kind b.scope b.code.id
  have same := Tree.new_scope_same b.scopes kind b.scope b.code.id sound.scope
  have known : b.code.id < b.scopes.codes.size := by
    rw [← sound.code]
    exact sound.shaped.code_known _ sound.scope
  have shaped := Tree.new_scope_shaped b.scopes kind b.scope b.code.id sound.scope known
    (fun function => absurd function inner) (fun _ => sound.code) root sound.shaped
  refine becomes_scopes b _ unfinished sound (opened_kept b kind names _) ?_ ?_
  · by_cases object : kind = .withObject
    · rw [Builder.opened, (marked object).2]
      exact shaped
    · refine Tree.add_defs_shaped _ _ _ inside ?_ shaped
      rw [same]
      exact object
  · intro s start
    obtain ⟨_, found⟩ := opened_scope b kind names sound
    by_cases here : s = b.scopes.scopes.size
    · subst here
      intro object
      rw [found] at object ⊢
      exact Or.inr ⟨rfl, (marked object).1⟩
    · intro object
      rw [Tree.scope_unknown] at object
      · cases object
      · rw [Builder.opened, Tree.add_defs_size, Tree.new_scope_size]
        exact Nat.not_lt.mpr (Nat.lt_of_le_of_ne start (Ne.symm here))

end

theorem within_becomes {α : Type} (fits : Setting → α → Prop) (build : Build α) (yields : Yields fits build)
    (scope : ScopeId) (unfinished : List ScopeId) (b after : Builder) (a : α) (sound : b.Sound)
    (below : ∀ s ∈ unfinished, s < b.scopes.scopes.size) (inside : scope < b.scopes.scopes.size)
    (code : (b.scopes.scope scope).code = b.code.id) (ended : within scope build b = .ok a after) :
    b.Becomes after unfinished ∧ ∀ tree arguments, after.Future unfinished tree arguments →
      fits ((b.setting tree arguments).inside scope) a := by
  obtain ⟨result, between, built, ended⟩ := build_bind build _ { b with scope := scope } after a ended
  cases ended
  have moved : ({ b with scope := scope } : Builder).Sound :=
    ⟨sound.shaped, inside, sound.unit, code, sound.unitCode, sound.declared, sound.functions⟩
  obtain ⟨becomes, holds⟩ := yields unfinished { b with scope := scope } a between moved below built
  have grows := becomes.grows
  refine ⟨⟨⟨becomes.sound.shaped, ?_, becomes.sound.unit, ?_, becomes.sound.unitCode, becomes.sound.declared,
    becomes.sound.functions⟩, ⟨grows.tree, rfl, grows.id, grows.goals, grows.strict, grows.unit, grows.usesWith,
    grows.usesArguments, grows.declared, grows.withs⟩, ?_⟩, ?_⟩
  · exact Nat.lt_of_lt_of_le sound.scope grows.tree.scopes
  · exact (grows.tree.code _ sound.scope).trans (sound.code.trans grows.id.symm)
  · exact fun tree arguments future => becomes.functions tree arguments
      ⟨future.tree, future.usesArguments, future.declared⟩
  · exact fun tree arguments future => holds tree arguments
      ⟨future.tree, future.usesArguments, future.declared⟩

end Ecma.Syntax
