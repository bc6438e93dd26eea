import Ecma.Proofs.Syntax.Lawful

set_option autoImplicit false

/-!
Building proper parts. The nodes are those of one parsed text; what is built from them is properly spelled
and, in strict code, lawful, and so are the functions and variables that the unit at hand has collected.
-/

namespace Ecma.Syntax

open Ecma.Grammar Ecma.Scope Build

/-- A node of a parsed text. -/
structure Known (text : List Char) (root node : Node Rule) : Prop where
  below : node.Below root
  genuine : node.Genuine ecmascript text

/-- A name that may be mentioned. -/
def Mentionable (text : List Char) (strict : Bool) (name : String) : Prop :=
  Spelled text name ∧ (strict = true → name ∉ strictReserved)

/-- A name that may be bound. -/
def Bindable (text : List Char) (strict : Bool) (name : String) : Prop :=
  Mentionable text strict name ∧ (strict = true → name ≠ "eval" ∧ name ≠ "arguments")

section

variable (text : List Char) (root : Node Rule)

/-- What the unit at hand has collected is proper. -/
structure Builder.Good (b : Builder) : Prop where
  source : b.source.text.toList = text
  functions : ∀ f ∈ b.code.functions, (Part.code f).Holds text root b.code.strict
  «variables» : ∀ name ∈ b.code.variables, Bindable text b.code.strict name

-- Whatever is built in a unit fits its strictness.
def Builds {α : Type} (fits : Bool → α → Prop) (build : Build α) : Prop :=
  ∀ (b : Builder) (a : α) (after : Builder), b.Good text root → build b = .ok a after →
    after.Good text root ∧ after.code.strict = b.code.strict ∧ fits b.code.strict a

variable {α β : Type}

theorem builds_pure (fits : Bool → α → Prop) (a : α) (holds : ∀ strict, fits strict a) :
    Builds text root fits (pure a) := by
  intro b c after good ended
  cases ended
  exact ⟨good, rfl, holds _⟩

theorem builds_bind (first : Bool → α → Prop) (fits : Bool → β → Prop) (x : Build α) (f : α → Build β)
    (before : Builds text root first x)
    (next : ∀ a, Builds text root (fun strict c => first strict a → fits strict c) (f a)) :
    Builds text root fits (x >>= f) := by
  intro b c after good ended
  obtain ⟨a, between, one, two⟩ := build_bind x f b after c ended
  obtain ⟨good, same, holds⟩ := before b a between good one
  obtain ⟨good, same', then'⟩ := next a between c after good two
  rw [same] at same' then'
  exact ⟨good, same', then' holds⟩

theorem builds_weaker (strong fits : Bool → α → Prop) (x : Build α) (builds : Builds text root strong x)
    (weaker : ∀ strict a, strong strict a → fits strict a) : Builds text root fits x := by
  intro b a after good ended
  obtain ⟨good, same, holds⟩ := builds b a after good ended
  exact ⟨good, same, weaker _ a holds⟩

theorem builds_throw (fits : Bool → α → Prop) (e : SyntaxError) : Builds text root fits (throw e : Build α) := by
  intro b a after _ ended
  cases ended

theorem builds_fail (fits : Bool → α → Prop) (cause : EarlyError) (node : Node Rule) :
    Builds text root fits (fail cause node : Build α) :=
  builds_throw text root fits _

theorem builds_fail_then (fits : Bool → β → Prop) (cause : EarlyError) (offset : Nat) (f : α → Build β) :
    Builds text root fits (failAt cause offset >>= f) := by
  intro b a after _ ended
  obtain ⟨c, between, one, _⟩ := build_bind _ f b after a ended
  cases one

theorem builds_lift (fits : Bool → α → Prop) (node : Node Rule) (result : Except EarlyError α)
    (holds : ∀ strict a, result = .ok a → fits strict a) : Builds text root fits (liftAt node result) := by
  cases result with
  | ok a => exact builds_pure text root fits a fun strict => holds strict a rfl
  | error cause => exact builds_fail text root fits cause node

theorem builds_get (fits : Bool → α → Prop) (f : Builder → Build α) (next : ∀ b, Builds text root fits (f b)) :
    Builds text root fits (get >>= f) := by
  intro b a after good ended
  exact next b b a after good ended

theorem builds_strict : Builds text root (fun strict is => is = strict) Build.strict := by
  intro b a after good ended
  cases ended
  exact ⟨good, rfl, rfl⟩

/-! Names. -/

theorem spelled_identifier (node : Node Rule) (known : Known text root node) (rule : node.rule = .identifier)
    (name : String) (decodes : decodeIdentifier node.chars = .ok name) : Spelled text name := by
  obtain ⟨before, after, whole, _⟩ := genuine_text ecmascript text node known.genuine
  obtain ⟨name, unreserved⟩ := identifier_text text node known.genuine rule
  exact ⟨before, node.chars, after, whole, decodes, name, unreserved⟩

section

variable (node : Node Rule) (known : Known text root node) (rule : node.rule = .identifier)
include known rule

theorem builds_checked (strict : Bool) :
    Builds text root (fun _ name => Mentionable text strict name) (checkedName node strict) := by
  refine builds_bind text root (fun _ name => decodeIdentifier node.chars = .ok name) _ _ _
    (builds_lift text root _ _ _ fun _ _ decodes => decodes) fun name => ?_
  dsimp only
  split
  · exact builds_fail_then text root _ _ _ _
  · rename_i free
    refine builds_pure text root _ _ fun _ decodes => ⟨spelled_identifier text root node known rule name decodes, ?_⟩
    intro isStrict member
    rw [isStrict, Bool.true_and, List.contains_iff_mem] at free
    exact free member

theorem builds_binding (strict : Bool) :
    Builds text root (fun _ name => Bindable text strict name) (bindingName node strict) := by
  refine builds_bind text root _ _ _ _ (builds_checked text root node known rule strict) fun name => ?_
  dsimp only
  split
  · exact builds_fail_then text root _ _ _ _
  · rename_i free
    refine builds_pure text root _ _ fun _ mentionable => ⟨mentionable, fun isStrict => ?_⟩
    rw [isStrict, Bool.true_and, isEvalOrArguments, Bool.or_eq_true, not_or, beq_iff_eq, beq_iff_eq] at free
    exact free

end

/-! Changes of the state. -/

-- Neither the functions nor the variables of the unit change.
theorem builds_change (f : Builder → Builder) (source : ∀ b, (f b).source = b.source)
    (functions : ∀ b, (f b).code.functions = b.code.functions)
    (names : ∀ b, (f b).code.variables = b.code.variables) (strict : ∀ b, (f b).code.strict = b.code.strict) :
    Builds text root (fun _ _ => True) (modify f) := by
  intro b a after good ended
  cases ended
  refine ⟨⟨?_, ?_, ?_⟩, strict b, trivial⟩
  · rw [source]
    exact good.source
  · rw [functions, strict]
    exact good.functions
  · rw [names, strict]
    exact good.variables

theorem builds_scopes (f : Scope.Tree → Scope.Tree) : Builds text root (fun _ _ => True) (modifyScopes f) :=
  builds_change text root _ (fun _ => rfl) (fun _ => rfl) (fun _ => rfl) fun _ => rfl

theorem builds_refer (name : String) : Builds text root (fun _ _ => True) (referTo name) :=
  builds_get text root _ _ fun _ => builds_scopes text root _

theorem builds_scope (kind : ScopeKind) (outer : ScopeId) :
    Builds text root (fun _ _ => True) (openScope kind outer) := by
  intro b a after good ended
  cases ended
  exact ⟨⟨good.source, good.functions, good.variables⟩, rfl, trivial⟩

-- What is built between two changes of the state.
theorem builds_between (fits : Bool → α → Prop) (x : Build α) (before after : Builder → Builder)
    (opens : Builds text root (fun _ _ => True) (modify before))
    (closes : Builds text root (fun _ _ => True) (modify after)) (builds : Builds text root fits x) :
    Builds text root fits (do
      modify before
      let a ← x
      modify after
      return a) := by
  refine builds_bind text root _ _ _ _ opens fun _ => ?_
  refine builds_bind text root _ _ _ _ builds fun a => ?_
  refine builds_bind text root _ _ _ _ closes fun _ => ?_
  exact builds_pure text root _ a fun _ _ holds _ => holds

theorem builds_within (fits : Bool → α → Prop) (scope : ScopeId) (x : Build α) (builds : Builds text root fits x) :
    Builds text root fits (Build.within scope x) := by
  refine builds_get text root _ _ fun b => ?_
  exact builds_between text root fits x _ _
    (builds_change text root _ (fun _ => rfl) (fun _ => rfl) (fun _ => rfl) fun _ => rfl)
    (builds_change text root _ (fun _ => rfl) (fun _ => rfl) (fun _ => rfl) fun _ => rfl) builds

theorem builds_loop (fits : Bool → α → Prop) (x : Build α) (builds : Builds text root fits x) :
    Builds text root fits (inLoop x) :=
  builds_between text root fits x _ _
    (builds_change text root _ (fun _ => rfl) (fun _ => rfl) (fun _ => rfl) fun _ => rfl)
    (builds_change text root _ (fun _ => rfl) (fun _ => rfl) (fun _ => rfl) fun _ => rfl) builds

theorem builds_switch (fits : Bool → α → Prop) (x : Build α) (builds : Builds text root fits x) :
    Builds text root fits (inSwitch x) :=
  builds_between text root fits x _ _
    (builds_change text root _ (fun _ => rfl) (fun _ => rfl) (fun _ => rfl) fun _ => rfl)
    (builds_change text root _ (fun _ => rfl) (fun _ => rfl) (fun _ => rfl) fun _ => rfl) builds

theorem builds_label (fits : Bool → α → Prop) (label : String) (loop : Bool) (x : Build α)
    (builds : Builds text root fits x) : Builds text root fits (underLabel label loop x) :=
  builds_between text root fits x _ _
    (builds_change text root _ (fun _ => rfl) (fun _ => rfl) (fun _ => rfl) fun _ => rfl)
    (builds_change text root _ (fun _ => rfl) (fun _ => rfl) (fun _ => rfl) fun _ => rfl) builds

theorem builds_callee (callee : Expression) : Builds text root (fun _ _ => True) (noteCallee callee) := by
  unfold noteCallee
  split
  · dsimp only
    split
    · refine builds_bind text root (fun _ _ => True) _ _ _
        (builds_change text root _ (fun _ => rfl) (fun _ => rfl) (fun _ => rfl) fun _ => rfl) fun _ => ?_
      refine builds_get text root _ _ fun b => ?_
      exact builds_weaker text root _ _ _ (builds_scopes text root _) fun _ _ _ _ => trivial
    · exact builds_pure text root _ _ fun _ => trivial
  · exact builds_pure text root _ _ fun _ => trivial

theorem builds_reference (node : Node Rule) (known : Known text root node) (rule : node.rule = .identifier) :
    Builds text root (fun strict id => Mentionable text strict id.name) (reference node) := by
  refine builds_bind text root _ _ _ _ (builds_strict text root) fun strict => ?_
  refine builds_bind text root _ _ _ _ (builds_checked text root node known rule strict) fun name => ?_
  have refers : Builds text root (fun (_ : Bool) (id : Identifier) => id.name = name) (do
      let scope := (← get).scope
      modifyScopes fun t => t.addRef scope name
      return ⟨name, scope, spanOf node⟩) := by
    refine builds_get text root _ _ fun b => ?_
    refine builds_bind text root _ _ _ _ (builds_scopes text root _) fun _ => ?_
    exact builds_pure text root _ _ fun _ _ => rfl
  have mentions (is : Bool) (id : Identifier) (same : id.name = name) (mentionable : Mentionable text strict name)
      (here : strict = is) : Mentionable text is id.name := by
    rw [same, ← here]
    exact mentionable
  dsimp only
  split
  · refine builds_bind text root (fun _ _ => True) _ _ _
      (builds_change text root _ (fun _ => rfl) (fun _ => rfl) (fun _ => rfl) fun _ => rfl) fun _ => ?_
    exact builds_weaker text root _ _ _ refers fun is id same _ => mentions is id same
  · exact builds_weaker text root _ _ _ refers mentions

theorem builds_declare (node : Node Rule) (known : Known text root node) (rule : node.rule = .identifier) :
    Builds text root (fun strict id => Bindable text strict id.name) (declareVariable node) := by
  intro b id after good ended
  obtain ⟨strict, _, zeroth, ended⟩ := build_bind _ _ b after id ended
  cases zeroth
  obtain ⟨name, between, first, ended⟩ := build_bind _ _ _ after id ended
  obtain ⟨good, same, bindable⟩ := builds_binding text root node known rule b.code.strict b name between good first
  cases ended
  refine ⟨⟨good.source, good.functions, fun other member => ?_⟩, same, bindable⟩
  change other ∈ addName between.code.variables name at member
  rw [addName] at member
  split at member
  · exact good.variables other member
  · rcases List.mem_append.mp member with before | last
    · exact good.variables other before
    · rw [List.mem_singleton.mp last]
      change Bindable text between.code.strict name
      rw [same]
      exact bindable

theorem builds_target (target : Expression) (node : Node Rule) :
    Builds text root (fun strict _ => strict = true → target.Assignable) (checkTarget target node) := by
  cases target with
  | identifier id =>
    refine builds_bind text root _ _ _ _ (builds_strict text root) fun strict => ?_
    by_cases wrong : (strict && isEvalOrArguments id.name) = true
    · rw [if_pos wrong]
      exact builds_fail text root _ _ _
    · rw [if_neg wrong]
      refine builds_pure text root _ _ fun is same isStrict => ?_
      rw [same, isStrict, Bool.true_and, isEvalOrArguments, Bool.or_eq_true, not_or, beq_iff_eq, beq_iff_eq] at wrong
      exact wrong
  | member span object key => exact builds_pure text root _ _ fun _ _ => trivial
  | _ => exact builds_fail_then text root _ _ _ _

/-! Parts without names. -/

theorem builds_octal (octal : Bool) (cause : EarlyError) (node : Node Rule) (value : α) :
    Builds text root (fun strict _ => strict = true → octal = false) (do
      if octal && (← Build.strict) then fail cause node
      return value) := by
  refine builds_bind text root _ _ _ _ (builds_strict text root) fun strict => ?_
  dsimp only
  split
  · exact builds_fail_then text root _ _ _ _
  · rename_i free
    refine builds_pure text root _ _ fun is same isStrict => ?_
    rw [same, isStrict, Bool.and_true, Bool.not_eq_true] at free
    exact free

theorem builds_number (node : Node Rule) :
    Builds text root (fun strict _ => strict = true → ¬ OctalNumber node.chars) (numberValue node) := by
  refine builds_weaker text root _ _ _ (builds_octal text root (Number.ofLiteral node.chars).2 .octalLiteral node
    (Number.ofLiteral node.chars).1) fun _ _ free isStrict octal => ?_
  rw [octal_number_flagged node.chars octal] at free
  cases free isStrict

theorem builds_string (node : Node Rule) :
    Builds text root (fun strict _ => strict = true → ¬ OctalString node.chars) (stringValue node) := by
  refine builds_bind text root (fun _ value => decodeString node.chars = .ok value) _ _ _
    (builds_lift text root _ _ _ fun _ _ decodes => decodes) fun value => ?_
  refine builds_weaker text root _ _ _ (builds_octal text root value.2 .octalEscape node value.1)
    fun _ _ free decodes isStrict octal => ?_
  rw [octal_string_flagged node.chars value.1 value.2 octal decodes] at free
  cases free isStrict

theorem builds_key (node : Node Rule) :
    Builds text root (fun strict _ => strict = true → ¬ OctalLiteral node) (propertyKey node) := by
  have name (other : Rule) (rule : node.rule = other) (number : other ≠ .numericLiteral)
      (string : other ≠ .stringLiteral) : ¬ OctalLiteral node := by
    rintro (⟨same, _⟩ | ⟨same, _⟩)
    · exact number (rule.symm.trans same)
    · exact string (rule.symm.trans same)
  rw [propertyKey]
  split
  · rename_i rule
    exact builds_lift text root _ _ _ fun _ _ _ _ => name _ rule Rule.noConfusion Rule.noConfusion
  · rename_i rule
    refine builds_weaker text root _ _ _ (builds_string text root node) fun _ _ free isStrict => ?_
    rintro (⟨same, _⟩ | ⟨_, octal⟩)
    · rw [rule] at same
      cases same
    · exact free isStrict octal
  · rename_i rule
    refine builds_bind text root _ _ _ _ (builds_number text root node) fun _ => ?_
    refine builds_pure text root _ _ fun _ free isStrict => ?_
    rintro (⟨_, octal⟩ | ⟨same, _⟩)
    · exact free isStrict octal
    · rw [rule] at same
      cases same
  · exact builds_fail text root _ _ _

theorem builds_note (seen : SeenKeys) (key : String) (kind : PropertyKind) (offset : Nat) :
    Builds text root (fun strict after => ((seen.lookup key).getD {}).conflicts strict kind = false ∧
      after = (key, ((seen.lookup key).getD {}).note kind) :: seen) (noteKey seen key kind offset) := by
  refine builds_bind text root _ _ _ _ (builds_strict text root) fun strict => ?_
  dsimp only
  split
  · exact builds_fail_then text root _ _ _ _
  · rename_i free
    refine builds_pure text root _ _ fun is same => ⟨?_, rfl⟩
    rw [← same]
    exact Bool.eq_false_iff.mpr free

section

variable (node : Node Rule) (known : Known text root node) (rule : node.rule = .identifier)
include known rule

theorem builds_continue : Builds text root (fun strict name => Mentionable text strict name) (continueLabel node) := by
  refine builds_bind text root _ _ _ _ (builds_strict text root) fun strict => ?_
  refine builds_bind text root _ _ _ _ (builds_checked text root node known rule strict) fun name => ?_
  refine builds_get text root _ _ fun b => ?_
  split
  · refine builds_pure text root _ _ fun is mentionable same => ?_
    rw [← same]
    exact mentionable
  · exact builds_fail text root _ _ _
  · exact builds_fail text root _ _ _

theorem builds_break : Builds text root (fun strict name => Mentionable text strict name) (breakLabel node) := by
  refine builds_bind text root _ _ _ _ (builds_strict text root) fun strict => ?_
  refine builds_bind text root _ _ _ _ (builds_checked text root node known rule strict) fun name => ?_
  refine builds_get text root _ _ fun b => ?_
  split
  · refine builds_pure text root _ _ fun is mentionable same => ?_
    rw [← same]
    exact mentionable
  · exact builds_fail text root _ _ _

end

theorem builds_parameters (strict : Bool) (nodes : Nodes)
    (known : ∀ node ∈ nodes, Known text root node ∧ node.rule = .identifier) (names : List String)
    (bindable : ∀ name ∈ names, Bindable text strict name) (distinct : strict = true → names.Nodup) :
    Builds text root (fun _ names => (∀ name ∈ names, Bindable text strict name) ∧ (strict = true → names.Nodup))
      (parameters strict nodes names) := by
  induction nodes generalizing names with
  | nil => exact builds_pure text root _ _ fun _ => ⟨bindable, distinct⟩
  | cons node rest hyp =>
    obtain ⟨first, rule⟩ := known node List.mem_cons_self
    rw [parameters]
    intro b a after good ended
    obtain ⟨name, between, one, ended⟩ := build_bind _ _ b after a ended
    obtain ⟨good, same, new⟩ := builds_binding text root node first rule strict b name between good one
    dsimp only at ended
    split at ended
    · obtain ⟨_, _, failed, _⟩ := build_bind _ _ between after a ended
      cases failed
    · rename_i free
      have all : ∀ other ∈ names ++ [name], Bindable text strict other := by
        intro other member
        rcases List.mem_append.mp member with before | last
        · exact bindable other before
        · rw [List.mem_singleton.mp last]
          exact new
      have apart (isStrict : strict = true) : (names ++ [name]).Nodup := by
        rw [isStrict, Bool.true_and, List.contains_iff_mem] at free
        exact nodup_last names name (distinct isStrict) free
      obtain ⟨good, same', holds⟩ := hyp (fun other member => known other (List.mem_cons_of_mem _ member))
        (names ++ [name]) all apart between a after good ended
      exact ⟨good, same'.trans same, holds⟩

end

end Ecma.Syntax

/-!
Every unit that is built from a parsed text is proper, with all its parts. The induction is on the size of
the nodes, over all kinds of parts at once.
-/

namespace Ecma.Syntax

open Ecma.Grammar Ecma.Scope Build

section

variable (text : List Char) (root : Node Rule)

/-! Literals. -/

def IsLiteral (node : Node Rule) : Prop :=
  node.rule = .numericLiteral ∨ node.rule = .stringLiteral

/-- The rules of all nodes but literals. -/
def isOther : Rule → Bool
  | .numericLiteral | .stringLiteral => false
  | _ => true

theorem octal_is_literal (node : Node Rule) (octal : OctalLiteral node) : IsLiteral node :=
  octal.imp And.left And.left

theorem octal_text (node : Node Rule) (octal : OctalLiteral node) : node.chars ≠ [] := by
  intro none
  rcases octal with ⟨_, _, _, same, _⟩ | ⟨_, before, _, _, same, _⟩
  · rw [none] at same
    cases same
  · rw [none] at same
    exact List.append_ne_nil_of_right_ne_nil before (List.cons_ne_nil _ _) same.symm

theorem literal_parts (node : Node Rule) (genuine : node.Genuine ecmascript text) (literal : IsLiteral node) :
    node.parts = [] := by
  rcases literal with rule | rule
  · exact parts_none text node genuine _ rule rfl
  · exact parts_none text node genuine _ rule rfl

-- A literal in the span of a node that is none itself is below the node.
theorem decimal_span (genuine : root.Genuine ecmascript text) (node : Node Rule) (below : node.Below root)
    (other : ¬ IsLiteral node) (decimal : Decimal node) (literal : Node Rule) (inside : literal.Below root)
    (start : node.start ≤ literal.start) (stop : literal.stop ≤ node.stop) : ¬ OctalLiteral literal := by
  intro octal
  have known := below_genuine ecmascript text literal root inside genuine
  have long : literal.start < literal.stop := by
    obtain ⟨_, _, _, _, stop, _⟩ := genuine_text ecmascript text literal known
    have some := octal_text literal octal
    cases chars : literal.chars with
    | nil => exact absurd chars some
    | cons c rest =>
      rw [stop, chars, bytes_cons]
      have := c.utf8Size_pos
      omega
  rcases below_apart ecmascript text literal node root genuine inside below with under | above | before | after
  · exact decimal literal under octal
  · cases above with
    | here => exact other (octal_is_literal node octal)
    | part part _ member =>
      rw [literal_parts text literal known (octal_is_literal literal octal)] at member
      exact absurd member List.not_mem_nil
  · omega
  · omega

theorem not_literal (node : Node Rule) (other : isOther node.rule = true) : ¬ IsLiteral node := by
  rintro (rule | rule)
  · rw [rule] at other
    cases other
  · rw [rule] at other
    cases other

theorem decimal_parts (node : Node Rule) (other : ¬ IsLiteral node)
    (decimal : ∀ part ∈ node.parts, Decimal part) : Decimal node := by
  intro literal below octal
  cases below with
  | here => exact other (octal_is_literal node octal)
  | part part _ member inside => exact decimal part member literal inside octal

theorem decimal_literal (node : Node Rule) (genuine : node.Genuine ecmascript text) (literal : IsLiteral node)
    (decimal : ¬ OctalLiteral node) : Decimal node := by
  intro other below octal
  cases below with
  | here => exact decimal octal
  | part part _ member inside =>
    rw [literal_parts text node genuine literal] at member
    exact absurd member List.not_mem_nil

-- A node without parts that is no literal.
theorem decimal_leaf (node : Node Rule) (genuine : node.Genuine ecmascript text) (name : Rule)
    (rule : node.rule = name) (leaf : Es.among name [] = true) (other : isOther name = true) : Decimal node := by
  refine decimal_parts node (not_literal node (rule ▸ other)) fun part member => ?_
  rw [parts_none text node genuine name rule leaf] at member
  exact absurd member List.not_mem_nil

theorem known_part (node : Node Rule) (known : Known text root node) (part : Node Rule) (member : part ∈ node.parts) :
    Known text root part :=
  ⟨below_part node root known.below part member, genuine_parts ecmascript text node known.genuine part member⟩

/-! Units. -/

/-- A statement that was built from a node. -/
structure Built (strict top : Bool) (node : Node Rule) (s : Statement) : Prop where
  holds : ∀ g own, (Part.statement g own s).Holds text root strict
  placed : strict = true → top = false → ∀ g own, (Part.statement g own s).isDeclaration = false
  span : s.span = ⟨node.start, node.stop⟩
  other : ¬ IsLiteral node
  decimal : strict = true → Decimal node

/-- Statements that were built from nodes. -/
structure BodyBuilt (strict top : Bool) (nodes : Nodes) (body : List Statement) : Prop where
  built : ∀ s ∈ body, ∃ node ∈ nodes, Built text root strict top node s
  decimal : strict = true → ∀ node ∈ nodes, Decimal node

theorem unit_holds (genuine : root.Genuine ecmascript text) (outer : Bool) (nodes : Nodes)
    (known : ∀ node ∈ nodes, Known text root node) (b : Builder) (good : b.Good text root)
    (nested : outer = true → b.code.strict = true) (title : Option String) (params : List String)
    (titled : ∀ name ∈ title, Bindable text b.code.strict name)
    (bindable : ∀ name ∈ params, Bindable text b.code.strict name)
    (distinct : b.code.strict = true → params.Nodup) (span : Span) (body : List Statement)
    (built : BodyBuilt text root b.code.strict true nodes body) :
    (Part.code (.mk (b.code.header title params b.source span) b.code.functions body)).Holds text root outer := by
  have bound : ∀ name ∈ (Part.code (.mk (b.code.header title params b.source span) b.code.functions body)).bound,
      Bindable text b.code.strict name := by
    intro name member
    rcases List.mem_append.mp member with own | others
    · exact titled name (Option.mem_toList.mp own)
    · exact (List.mem_append.mp others).elim (bindable name) (good.variables name)
  have named : ∀ name ∈ (Part.code (.mk (b.code.header title params b.source span) b.code.functions body)).names,
      Bindable text b.code.strict name := by
    intro name member
    rcases List.mem_append.mp member with here | none
    · exact bound name here
    · exact absurd none List.not_mem_nil
  refine .mk outer _ ⟨?_, fun name member => (named name member).1.1, nested, fun isStrict => ⟨?_, ?_, ?_, ?_, ?_, ?_⟩⟩ ?_
  · rintro _ ⟨rfl⟩
    exact good.source
  · exact fun name member => (named name member).1.2 isStrict
  · exact fun name member => (bound name member).2 isStrict
  · rintro _ ⟨⟩
  · rintro _ _ _ ⟨⟩
  · rintro _ ⟨rfl⟩
    exact distinct isStrict
  · rintro _ ⟨rfl⟩ s member
    obtain ⟨node, among, built⟩ := built.built s member
    rw [built.span]
    exact ⟨⟨node, (known node among).below, rfl⟩, decimal_span text root genuine node (known node among).below
      built.other (built.decimal isStrict)⟩
  · intro part member
    rcases List.mem_append.mp member with functions | statements
    · obtain ⟨f, among, rfl⟩ := List.mem_map.mp functions
      exact good.functions f among
    · obtain ⟨s, among, rfl⟩ := List.mem_map.mp statements
      obtain ⟨node, _, built⟩ := built.built s among
      exact built.holds _ _

theorem builds_title (name : Option (Node Rule))
    (known : ∀ node ∈ name, Known text root node ∧ node.rule = .identifier) (strict : Bool) :
    Builds text root (fun _ title => ∀ name ∈ title, Bindable text strict name)
      (name.mapM fun node => bindingName node strict) := by
  cases name with
  | none =>
    refine builds_pure text root _ none fun _ name member => ?_
    cases member
  | some node =>
    obtain ⟨found, rule⟩ := known node rfl
    refine builds_bind text root _ _ _ _ (builds_binding text root node found rule strict) fun name => ?_
    refine builds_pure text root _ _ fun _ bindable other member => ?_
    cases member
    exact bindable

theorem builds_function (genuine : root.Genuine ecmascript text) (outer : ScopeId) (name : Option (Node Rule))
    (named : ∀ node ∈ name, Known text root node ∧ node.rule = .identifier) (params : Nodes)
    (parametric : ∀ node ∈ params, Known text root node ∧ node.rule = .identifier) (span : Span) (nodes : Nodes)
    (known : ∀ node ∈ nodes, Known text root node) (build : Build (List Statement))
    (builds : Builds text root (fun strict body => BodyBuilt text root strict true nodes body) build) :
    Builds text root (fun strict code => (Part.code code).Holds text root strict ∧
      (strict = true → ∀ node ∈ nodes, Decimal node)) (functionCode outer name params span nodes build) := by
  intro b code after good ended
  obtain ⟨title, b₁, b₂, inner, names, body, first, second, third, rfl, rfl⟩ :=
    function_code_is outer name params span nodes build b after code ended
  obtain ⟨good, same, titled⟩ := builds_title text root name named _ b title b₁ good first
  obtain ⟨good, same', bindable, distinct⟩ := builds_parameters text root _ params parametric [] (fun name member =>
    absurd member List.not_mem_nil) (fun _ => List.nodup_nil) b₁ names b₂ good second
  have starts : (b₂.entered outer names (b.code.strict || hasUseStrict nodes)).Good text root :=
    ⟨good.source, fun f member => absurd member List.not_mem_nil, fun name member => absurd member List.not_mem_nil⟩
  obtain ⟨ends, strict, built⟩ := builds _ body inner starts third
  change inner.code.strict = (b.code.strict || hasUseStrict nodes) at strict
  change BodyBuilt text root (b.code.strict || hasUseStrict nodes) true nodes body at built
  rw [← strict] at titled bindable distinct built
  have nested (outside : b.code.strict = true) : inner.code.strict = true := by
    rw [strict, outside, Bool.true_or]
  exact ⟨⟨ends.source, good.functions, good.variables⟩, same'.trans same,
    unit_holds text root genuine _ nodes known inner ends nested title names titled bindable distinct span body built,
    fun outside => built.decimal (nested outside)⟩

end

end Ecma.Syntax
