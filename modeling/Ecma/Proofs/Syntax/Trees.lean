import Ecma.Proofs.Syntax.Units

set_option autoImplicit false

/-!
Every syntax tree that is built fits the scopes that are opened along with it. The induction is on the
size of the nodes, over all kinds of parts at once.
-/

namespace Ecma.Syntax

open Ecma.Grammar Ecma.Scope Build

structure ForParts.Scoped (p : Setting) (loop : ForParts) : Prop where
  init : loop.init.Scoped p
  test : optionalScoped p loop.test
  update : optionalScoped p loop.update
  body : alternativeScoped p.inLoop loop.body

-- Everything is shown for the parts of smaller nodes already.
structure YieldsBelow (n : Nat) : Prop where
  expression : ∀ node, sizeOf node < n → Yields (fun p e => e.Scoped p) (expression node)
  expressions : ∀ nodes, sizeOf nodes < n → Yields expressionsScoped (expressions nodes)
  operands : ∀ nodes, sizeOf nodes < n →
    Yields (fun p rest => ∀ operand ∈ rest, operand.2.Scoped p) (operands nodes)
  suffixes : ∀ start object nodes, sizeOf nodes < n →
    Yields (fun p e => object.Scoped p → e.Scoped p) (suffixes start object nodes)
  elements : ∀ filled nodes, sizeOf nodes < n → Yields elementsScoped (elements filled nodes)
  properties : ∀ seen nodes, sizeOf nodes < n → Yields propertiesScoped (properties seen nodes)
  statement : ∀ top node, sizeOf node < n →
    Yields (fun p s => s.Scoped p ∧ s.isLoop = isLoop node) (statement top node)
  statements : ∀ top nodes, sizeOf nodes < n → Yields statementsScoped (statements top nodes)
  declarator : ∀ node, sizeOf node < n →
    Yields (fun p d => d.Scoped p ∧ ∀ span id init, d = .mk span id init → id.scope = p.scope ∧
      (p.strict = true → id.name ≠ "arguments") ∧ (id.name = "arguments" → p.arguments = true) ∧
      optionalScoped p init) (declarator node)
  declarators : ∀ nodes, sizeOf nodes < n → Yields declaratorsScoped (declarators nodes)
  forParts : ∀ loop nodes, sizeOf nodes < n →
    Yields (fun p whole => loop.Scoped p → whole.Scoped p) (forParts loop nodes)
  clauses : ∀ seen nodes, sizeOf nodes < n → Yields clausesScoped (clauses seen nodes)
  handler : ∀ node, sizeOf node < n → Yields (fun p h => handlerScoped p (some h)) (handler node)

/-! Operators between operands. -/

theorem infix_scoped (p : Setting) (op : Infix) (left right : Expression) (leftScoped : left.Scoped p)
    (rightScoped : right.Scoped p) : (infixExpression op left right).Scoped p := by
  cases op <;> exact ⟨leftScoped, rightScoped⟩

section

variable (fits : Expression → Prop)
  (closed : ∀ op left right, fits left → fits right → fits (infixExpression op left right))
include closed

theorem settle_closed (least : Nat) (waiting : List (Expression × Infix)) (right : Expression)
    (waitingFit : ∀ operand ∈ waiting, fits operand.1) (rightFits : fits right) :
    (∀ operand ∈ (settle infixExpression least waiting right).1, fits operand.1) ∧
      fits (settle infixExpression least waiting right).2 := by
  induction waiting generalizing right with
  | nil => exact ⟨waitingFit, rightFits⟩
  | cons first rest hyp =>
    obtain ⟨left, op⟩ := first
    have leftFits := waitingFit (left, op) List.mem_cons_self
    have others : ∀ operand ∈ rest, fits operand.1 := fun operand member =>
      waitingFit operand (List.mem_cons_of_mem _ member)
    rw [settle]
    by_cases tight : least ≤ level op
    · rw [if_pos tight]
      exact hyp _ others (closed op left right leftFits rightFits)
    · rw [if_neg tight]
      exact ⟨waitingFit, rightFits⟩

-- What holds of the operands holds of the expression when operators keep it.
theorem group_closed (waiting : List (Expression × Infix)) (operand : Expression)
    (rest : List (Infix × Expression)) (waitingFit : ∀ other ∈ waiting, fits other.1)
    (operandFits : fits operand) (restFit : ∀ other ∈ rest, fits other.2) :
    fits (groupWith infixExpression waiting operand rest) := by
  induction rest generalizing waiting operand with
  | nil => exact (settle_closed fits closed 0 waiting operand waitingFit operandFits).2
  | cons first rest hyp =>
    obtain ⟨op, next⟩ := first
    have settled := settle_closed fits closed (level op) waiting operand waitingFit operandFits
    rw [groupWith]
    refine hyp _ next ?_ (restFit (op, next) List.mem_cons_self) fun other member =>
      restFit other (List.mem_cons_of_mem _ member)
    intro other member
    rcases List.mem_cons.mp member with same | older
    · rw [same]
      exact settled.2
    · exact settled.1 other older

end

/-! Expressions. -/

theorem unary_yields (span : Span) (operator argumentNode : Node Rule) (argument : Expression) :
    Yields (fun p e => argument.Scoped p → e.Scoped p) (applyUnary span operator argumentNode argument) := by
  rw [applyUnary]
  dsimp only
  split
  · refine yields_bind _ _ _ _ (yields_target argument argumentNode) fun _ => ?_
    exact yields_pure _ _ fun p able holds => ⟨able, holds⟩
  · split
    · exact yields_fail _ _ _
    · split
      · rename_i id
        refine yields_bind _ _ _ _ yields_strict fun strict => ?_
        cases strict with
        | true => exact yields_fail_then _ _ _ _
        | false => exact yields_pure _ _ fun p sloppy holds => ⟨fun _ => sloppy.symm, holds⟩
      · rename_i other
        refine yields_pure _ _ fun p holds => ⟨fun same => ?_, holds⟩
        cases argument with
        | identifier id => exact absurd rfl (other id same)
        | _ => trivial

-- What a scope that was opened is in the end.
theorem opened_last (b after : Builder) (kind : ScopeKind) (names : List String) (unfinished : List ScopeId)
    (tree : Scope.Tree) (arguments : Bool) (sound : b.Sound)
    (below : ∀ s ∈ unfinished, s < b.scopes.scopes.size)
    (grows : ({ b with scopes := b.opened kind names } : Builder).Grows after)
    (future : after.Future unfinished tree arguments) :
    Opened (b.setting tree arguments) kind b.scopes.scopes.size ∧
      (tree.scope b.scopes.scopes.size).defs = names.foldl addName [] := by
  obtain ⟨inside, found⟩ := opened_scope b kind names sound
  have kept := (Builder.Future.before _ after unfinished tree arguments grows future).tree
  have done : b.scopes.scopes.size ∉ unfinished := fun member => Nat.lt_irrefl _ (below _ member)
  refine ⟨⟨Nat.lt_of_lt_of_le inside kept.scopes, ?_, ?_⟩, ?_⟩
  · change (tree.scope _).kind = kind
    rw [kept.kind _ inside, found]
  · change (tree.scope _).outer = _
    rw [kept.outer _ inside, found]
    rfl
  · rw [kept.defs _ inside done, found]

-- The body of a `with` statement; its unit is marked before the scope is opened.
theorem with_yields (build : Build Statement) (yields : Yields (fun p s => s.Scoped p) build) (span : Span)
    (object : Expression) :
    Yields (fun p (s : Statement) => object.Scoped p → s.Scoped p ∧ s.isLoop = false) do
      modifyCode fun c => { c with usesWith := true }
      let scope ← openScope .withObject (← get).scope
      return Statement.withObject span object scope (← within scope build) := by
  intro unfinished b s after sound below ended
  have marks := becomes_code b { b.code with usesWith := true } unfinished sound rfl rfl rfl rfl (fun _ => rfl)
    (fun h => h) (fun _ h => h) sound.declared sound.functions fun _ _ _ _ member => Or.inl member
  let b₁ : Builder := { b with code := { b.code with usesWith := true } }
  obtain ⟨body, last, second, ended⟩ := build_bind (within b₁.scopes.scopes.size build) _
    { b₁ with scopes := b₁.opened .withObject [] } after s ended
  cases ended
  have opens := opened_becomes b₁ .withObject [] marks.sound unfinished rfl
    (fun contra => nomatch contra) fun _ => ⟨rfl, rfl⟩
  obtain ⟨inside, found⟩ := opened_scope b₁ .withObject [] marks.sound
  obtain ⟨builds, holds⟩ := within_becomes _ _ yields _ unfinished _ after body opens.sound
    (fun s member => Nat.lt_of_lt_of_le (below s member) opens.grows.tree.scopes) inside
    (congrArg Scope.code found) second
  refine ⟨.trans _ _ _ _ marks (.trans _ _ _ _ opens builds), fun tree arguments future objectHolds => ?_⟩
  obtain ⟨opened, _⟩ := opened_last b₁ after .withObject [] unfinished tree arguments marks.sound below
    builds.grows future
  exact ⟨⟨objectHolds, opened, holds tree arguments future⟩, rfl⟩

section

variable (build : Build (List Statement)) (yields : Yields statementsScoped build)
include yields

theorem function_yields {β : Type} (fits : Setting → β → Prop) (name : Option (Node Rule)) (params : Nodes)
    (span : Span) (nodes : Nodes) (f : Code → Build β)
    (next : ∀ code, Yields (fun p c => code.Scoped p.tree p.scope → fits p c) (f code)) :
    Yields fits (do
      let code ← functionCode (← get).scope name params span nodes build
      f code) := by
  have builds : Yields (fun p code => Code.Scoped p.tree p.scope code)
      (get >>= fun b : Builder => functionCode b.scope name params span nodes build) := by
    intro unfinished b code after sound below ended
    obtain ⟨becomes, holds, _⟩ := function_code_becomes b.scope name params span nodes build yields
      unfinished b after code sound sound.scope below ended
    exact ⟨becomes, holds⟩
  have whole := yields_bind _ fits _ f builds next
  exact fun unfinished b c after sound below ended => whole unfinished b c after sound below ended

-- A declared function waits in its unit until the names of the unit are bound.
theorem declared_function_yields (name : Node Rule) (params : Nodes) (span : Span) (nodes : Nodes) :
    Yields (fun p (s : Statement) => s.Scoped p ∧ s.isLoop = false) do
      let outer := (← get).code.scope
      let code ← functionCode outer (some name) params span nodes build
      modifyCode fun c => { c with functions := c.functions ++ [code] }
      return Statement.function span := by
  intro unfinished b s after sound below ended
  obtain ⟨code, last, first, ended⟩ := build_bind
    (functionCode b.code.scope (some name) params span nodes build) _ b after s ended
  cases ended
  obtain ⟨becomes, holds, free, _⟩ := function_code_becomes b.code.scope (some name) params span nodes build
    yields unfinished b last code sound sound.unit below first
  refine ⟨.trans _ _ _ _ becomes (becomes_code last _ unfinished becomes.sound rfl rfl rfl rfl (fun h => h)
    (fun h => h) (fun _ h => h) becomes.sound.declared ?_ ?_), fun _ _ _ => ⟨trivial, rfl⟩⟩
  · intro isStrict f member
    rcases List.mem_append.mp member with known | new
    · exact becomes.sound.functions isStrict f known
    · rw [List.mem_singleton.mp new]
      exact free (becomes.grows.strict.symm.trans isStrict)
  · intro tree arguments future f member
    rcases List.mem_append.mp member with known | new
    · exact Or.inl known
    · rw [List.mem_singleton.mp new, becomes.grows.unit]
      exact Or.inr (holds tree arguments ⟨future.tree, future.usesArguments, future.declared⟩)

theorem named_function_yields (name : Node Rule) (params : Nodes) (span : Span) (nodes : Nodes) :
    Yields (fun p (e : Expression) => e.Scoped p) do
      let own ← checkedName name (← Build.strict)
      let scope ← openScope .namedFunction (← get).scope
      modifyScopes fun t => t.addDef scope own
      let code ← functionCode scope (some name) params span nodes build
      return Expression.function span code (some scope) := by
  intro unfinished b e after sound below ended
  obtain ⟨strict, b₀, zeroth, ended⟩ := build_bind _ _ b after e ended
  cases zeroth
  obtain ⟨own, b₁, first, ended⟩ := build_bind _ _ _ after e ended
  obtain ⟨code, last, second, ended⟩ := build_bind
    (functionCode b₁.scopes.scopes.size (some name) params span nodes build) _
    { b₁ with scopes := b₁.opened .namedFunction [own] } after e ended
  cases ended
  obtain ⟨becomes, _⟩ := yields_checked name b.code.strict unfinished b own b₁ sound below first
  have below₁ : ∀ s ∈ unfinished, s < b₁.scopes.scopes.size := fun s member =>
    Nat.lt_of_lt_of_le (below s member) becomes.grows.tree.scopes
  have opens := opened_becomes b₁ .namedFunction [own] becomes.sound unfinished rfl
    (fun contra => nomatch contra) (fun contra => nomatch contra)
  obtain ⟨inside, _⟩ := opened_scope b₁ .namedFunction [own] becomes.sound
  obtain ⟨builds, holds, _, named⟩ := function_code_becomes _ (some name) params span nodes build yields
    unfinished _ after code opens.sound inside
    (fun s member => Nat.lt_of_lt_of_le (below₁ s member) opens.grows.tree.scopes) second
  refine ⟨.trans _ _ _ _ becomes (.trans _ _ _ _ opens builds), fun tree arguments future => ?_⟩
  obtain ⟨opened, defs⟩ := opened_last b₁ after .namedFunction [own] unfinished tree arguments becomes.sound
    below₁ builds.grows future
  obtain ⟨text, title, decoded⟩ := named name rfl
  have same := checked_name_is name b.code.strict b b₁ own first
  rw [decoded] at same
  cases same
  rw [setting_same b b₁ tree arguments becomes.grows] at opened
  exact ⟨opened, ⟨own, title, defs⟩, holds tree arguments future⟩

end

section

variable (n : Nat) (below : YieldsBelow n)
include below

theorem expression_yields (node : Node Rule) (size : sizeOf node < n + 1) :
    Yields (fun p e => e.Scoped p) (expression node) := by
  obtain ⟨rule, start, stop, input, parts⟩ := node
  unfold expression
  dsimp only
  split <;> try simp only [Node.mk.sizeOf_spec, List.cons.sizeOf_spec, List.nil.sizeOf_spec] at size
  case h_1 item => exact below.expression item (by omega)
  case h_2 =>
    refine yields_bind _ _ _ _ (below.expressions parts (by omega)) fun items => ?_
    exact yields_pure _ _ fun p holds => holds
  case h_3 left => exact below.expression left (by omega)
  case h_4 left operator right =>
    refine yields_bind _ _ _ _ (below.expression left (by omega)) fun target => ?_
    split
    · exact yields_fail _ _ _
    · refine yields_bind _ _ _ _ (yields_target target left) fun _ => ?_
      refine yields_bind _ _ _ _ (below.expression right (by omega)) fun value => ?_
      exact yields_pure _ _ fun p valueHolds able targetHolds => ⟨able, targetHolds, valueHolds⟩
  case h_5 test => exact below.expression test (by omega)
  case h_6 test yes no =>
    refine yields_bind _ _ _ _ (below.expression test (by omega)) fun test => ?_
    refine yields_bind _ _ _ _ (below.expression yes (by omega)) fun yes => ?_
    refine yields_bind _ _ _ _ (below.expression no (by omega)) fun no => ?_
    exact yields_pure _ _ fun p noHolds yesHolds testHolds => ⟨testHolds, yesHolds, noHolds⟩
  case h_7 first rest =>
    refine yields_bind _ _ _ _ (below.expression first (by omega)) fun first => ?_
    refine yields_bind _ _ _ _ (below.operands rest (by omega)) fun rest => ?_
    exact yields_pure _ _ fun p restHolds firstHolds =>
      group_closed (fun e => e.Scoped p) (infix_scoped p) [] first rest (fun _ member => nomatch member) firstHolds
        restHolds
  case h_8 operand => exact below.expression operand (by omega)
  case h_9 operator argument =>
    refine yields_bind _ _ _ _ (below.expression argument (by omega)) fun value => ?_
    exact unary_yields _ operator argument value
  case h_10 operand => exact below.expression operand (by omega)
  case h_11 operand operator =>
    refine yields_bind _ _ _ _ (below.expression operand (by omega)) fun target => ?_
    refine yields_bind _ _ _ _ (yields_target target operand) fun _ => ?_
    exact yields_pure _ _ fun p able holds => ⟨able, holds⟩
  case h_12 first rest =>
    refine yields_bind _ _ _ _ (below.expression first (by omega)) fun e => ?_
    split
    · exact yields_pure _ _ fun p holds => ⟨holds, trivial⟩
    · exact below.suffixes first.start e rest (by omega)
  case h_13 inner =>
    refine yields_bind _ _ _ _ (below.expression inner (by omega)) fun e => ?_
    refine yields_pure _ _ fun p holds => ?_
    split
    · exact ⟨holds, trivial⟩
    · exact holds
  case h_14 first rest =>
    refine yields_bind _ _ _ _ (below.expression first (by omega)) fun e => ?_
    exact below.suffixes first.start e rest (by omega)
  case h_15 callee s t i items =>
    refine yields_bind _ _ _ _ (below.expression callee (by omega)) fun callee => ?_
    refine yields_bind _ _ _ _ (below.expressions items (by omega)) fun items => ?_
    exact yields_pure _ _ fun p itemsHold calleeHolds => ⟨calleeHolds, itemsHold⟩
  case h_16 _ _ _ params _ _ _ body =>
    refine function_yields _ (below.statements true body (by omega)) _ none params _ body _ fun code => ?_
    exact yields_pure _ _ fun p holds => holds
  case h_17 name _ _ _ params _ _ _ body =>
    exact named_function_yields _ (below.statements true body (by omega)) name params _ body
  case h_18 => exact yields_pure _ _ fun _ => trivial
  case h_19 => exact yields_pure _ _ fun _ => trivial
  case h_20 => exact yields_pure _ _ fun _ => trivial
  case h_21 =>
    refine yields_bind _ _ _ _ (yields_number _) fun _ => ?_
    exact yields_pure _ _ fun _ _ => trivial
  case h_22 =>
    refine yields_bind _ _ _ _ (yields_string _) fun _ => ?_
    exact yields_pure _ _ fun _ _ => trivial
  case h_23 =>
    refine yields_bind _ _ _ _ (yields_reference _) fun id => ?_
    exact yields_pure _ _ fun p holds => holds
  case h_24 =>
    refine yields_bind _ _ _ _ (below.elements false parts (by omega)) fun items => ?_
    exact yields_pure _ _ fun p holds => holds
  case h_25 =>
    refine yields_bind _ _ _ _ (below.properties [] parts (by omega)) fun items => ?_
    exact yields_pure _ _ fun p holds => holds
  case h_26 => exact yields_fail _ _ _

theorem expressions_yields (nodes : Nodes) (size : sizeOf nodes < n + 1) :
    Yields expressionsScoped (expressions nodes) := by
  cases nodes with
  | nil =>
    rw [expressions]
    exact yields_pure _ _ fun _ => trivial
  | cons node rest =>
    rw [List.cons.sizeOf_spec] at size
    rw [expressions]
    refine yields_bind _ _ _ _ (below.expression node (by omega)) fun e => ?_
    refine yields_bind _ _ _ _ (below.expressions rest (by omega)) fun others => ?_
    exact yields_pure _ _ fun p othersHold holds => ⟨holds, othersHold⟩

theorem operands_yields (nodes : Nodes) (size : sizeOf nodes < n + 1) :
    Yields (fun p rest => ∀ operand ∈ rest, operand.2.Scoped p) (operands nodes) := by
  unfold operands
  split <;> try simp only [Node.mk.sizeOf_spec, List.cons.sizeOf_spec] at size
  case h_1 op _ _ _ _ operand rest =>
    refine yields_bind _ _ _ _ (below.expression operand (by omega)) fun e => ?_
    refine yields_bind _ _ _ _ (below.operands rest (by omega)) fun others => ?_
    refine yields_pure _ _ fun p othersHold holds other member => ?_
    rcases List.mem_cons.mp member with same | later
    · rw [same]
      exact holds
    · exact othersHold other later
  case h_2 => exact yields_pure _ _ fun _ _ member => nomatch member
  case h_3 => exact yields_fail _ _ _

theorem suffixes_yields (start : Nat) (object : Expression) (nodes : Nodes) (size : sizeOf nodes < n + 1) :
    Yields (fun p e => object.Scoped p → e.Scoped p) (suffixes start object nodes) := by
  cases nodes with
  | nil =>
    rw [suffixes]
    exact yields_pure _ _ fun _ holds => holds
  | cons node rest =>
    obtain ⟨rule, s, stop, input, parts⟩ := node
    unfold suffixes
    dsimp only
    split <;> try simp only [Node.mk.sizeOf_spec, List.cons.sizeOf_spec, List.nil.sizeOf_spec] at size
    case h_1 =>
      refine yields_bind _ _ _ _ (yields_callee object) fun _ => ?_
      refine yields_bind _ _ _ _ (below.expressions parts (by omega)) fun items => ?_
      refine yields_weaker _ _ _ (below.suffixes start (.call ⟨start, stop⟩ object items) rest (by omega)) ?_
      exact fun p e whole itemsHold noted holds => whole ⟨noted, holds, itemsHold⟩
    case h_2 key =>
      refine yields_bind _ _ _ _ (below.expression key (by omega)) fun key => ?_
      refine yields_weaker _ _ _ (below.suffixes start (.member ⟨start, stop⟩ object key) rest (by omega)) ?_
      exact fun p e whole keyHolds holds => whole ⟨holds, keyHolds⟩
    case h_3 name =>
      refine yields_bind (fun _ _ => True) _ _ _ (yields_lift _ _ _ fun _ _ => trivial) fun key => ?_
      refine yields_weaker _ _ _ (below.suffixes start
        (.member ⟨start, stop⟩ object (.literal (spanOf name) (.string key))) rest (by omega)) ?_
      exact fun p e whole _ holds => whole ⟨holds, trivial⟩
    case h_4 => exact yields_fail _ _ _

theorem elements_yields (filled : Bool) (nodes : Nodes) (size : sizeOf nodes < n + 1) :
    Yields elementsScoped (elements filled nodes) := by
  unfold elements
  split <;> try simp only [Node.mk.sizeOf_spec, List.cons.sizeOf_spec] at size
  case h_1 => exact yields_pure _ _ fun _ => trivial
  case h_2 rest =>
    refine yields_bind _ _ _ _ (below.elements false rest (by omega)) fun others => ?_
    refine yields_pure _ _ fun p holds => ?_
    cases filled with
    | false => exact holds
    | true => exact holds
  case h_3 node rest _ =>
    refine yields_bind _ _ _ _ (below.expression node (by omega)) fun e => ?_
    refine yields_bind _ _ _ _ (below.elements true rest (by omega)) fun others => ?_
    exact yields_pure _ _ fun p othersHold holds => ⟨holds, othersHold⟩

theorem properties_yields (seen : SeenKeys) (nodes : Nodes) (size : sizeOf nodes < n + 1) :
    Yields propertiesScoped (properties seen nodes) := by
  cases nodes with
  | nil =>
    rw [properties]
    exact yields_pure _ _ fun _ => trivial
  | cons node rest =>
    obtain ⟨rule, start, stop, input, parts⟩ := node
    unfold properties
    dsimp only
    split <;> try simp only [Node.mk.sizeOf_spec, List.cons.sizeOf_spec, List.nil.sizeOf_spec] at size
    case h_1 name value =>
      refine yields_bind _ _ _ _ (yields_key name) fun key => ?_
      refine yields_bind _ _ _ _ (below.expression value (by omega)) fun value => ?_
      refine yields_bind _ _ _ _ (yields_note seen key .init start) fun seen => ?_
      refine yields_bind _ _ _ _ (below.properties seen rest (by omega)) fun others => ?_
      exact yields_pure _ _ fun p othersHold _ holds _ => ⟨holds, othersHold⟩
    case h_2 name _ _ _ body =>
      refine yields_bind _ _ _ _ (yields_key name) fun key => ?_
      refine function_yields _ (below.statements true body (by omega)) _ none [] _ body _ fun code => ?_
      refine yields_bind _ _ _ _ (yields_note seen key .getter start) fun seen => ?_
      refine yields_bind _ _ _ _ (below.properties seen rest (by omega)) fun others => ?_
      exact yields_pure _ _ fun p othersHold _ holds _ => ⟨holds, othersHold⟩
    case h_3 name param _ _ _ body =>
      refine yields_bind _ _ _ _ (yields_key name) fun key => ?_
      refine function_yields _ (below.statements true body (by omega)) _ none [param] _ body _ fun code => ?_
      refine yields_bind _ _ _ _ (yields_note seen key .setter start) fun seen => ?_
      refine yields_bind _ _ _ _ (below.properties seen rest (by omega)) fun others => ?_
      exact yields_pure _ _ fun p othersHold _ holds _ => ⟨holds, othersHold⟩
    case h_4 => exact yields_fail _ _ _

/-! Statements. -/

theorem statements_yields (top : Bool) (nodes : Nodes) (size : sizeOf nodes < n + 1) :
    Yields statementsScoped (statements top nodes) := by
  cases nodes with
  | nil =>
    rw [statements]
    exact yields_pure _ _ fun _ => trivial
  | cons node rest =>
    rw [List.cons.sizeOf_spec] at size
    rw [statements]
    refine yields_bind _ _ _ _ (below.statement top node (by omega)) fun s => ?_
    refine yields_bind _ _ _ _ (below.statements top rest (by omega)) fun others => ?_
    exact yields_pure _ _ fun p othersHold holds => ⟨holds.1, othersHold⟩

theorem declarator_yields (node : Node Rule) (size : sizeOf node < n + 1) :
    Yields (fun p d => d.Scoped p ∧ ∀ span id init, d = .mk span id init → id.scope = p.scope ∧
      (p.strict = true → id.name ≠ "arguments") ∧ (id.name = "arguments" → p.arguments = true) ∧
      optionalScoped p init) (declarator node) := by
  obtain ⟨rule, start, stop, input, parts⟩ := node
  unfold declarator
  dsimp only
  split <;> try simp only [Node.mk.sizeOf_spec, List.cons.sizeOf_spec, List.nil.sizeOf_spec] at size
  case h_1 name =>
    refine yields_bind _ _ _ _ (yields_declare name) fun id => ?_
    refine yields_pure _ _ fun p facts => ⟨trivial, fun span other init same => ?_⟩
    cases same
    exact ⟨facts.1, facts.2.1, facts.2.2, trivial⟩
  case h_2 name value =>
    refine yields_bind _ _ _ _ (yields_declare name) fun id => ?_
    refine yields_bind _ _ _ _ (yields_refer id.name) fun _ => ?_
    refine yields_bind _ _ _ _ (below.expression value (by omega)) fun e => ?_
    refine yields_pure _ _ fun p holds referred facts => ⟨⟨⟨facts.1, referred, facts.2.2⟩, facts.2.1, holds⟩, ?_⟩
    intro span other init same
    cases same
    exact ⟨facts.1, facts.2.1, facts.2.2, holds⟩
  case h_3 => exact yields_fail _ _ _

theorem declarators_yields (nodes : Nodes) (size : sizeOf nodes < n + 1) :
    Yields declaratorsScoped (declarators nodes) := by
  cases nodes with
  | nil =>
    rw [declarators]
    exact yields_pure _ _ fun _ => trivial
  | cons node rest =>
    rw [List.cons.sizeOf_spec] at size
    rw [declarators]
    refine yields_bind _ _ _ _ (below.declarator node (by omega)) fun d => ?_
    refine yields_bind _ _ _ _ (below.declarators rest (by omega)) fun others => ?_
    exact yields_pure _ _ fun p othersHold holds => ⟨holds.1, othersHold⟩

theorem for_parts_yields (loop : ForParts) (nodes : Nodes) (size : sizeOf nodes < n + 1) :
    Yields (fun p whole => loop.Scoped p → whole.Scoped p) (forParts loop nodes) := by
  unfold forParts
  split <;> try simp only [Node.mk.sizeOf_spec, List.cons.sizeOf_spec, List.nil.sizeOf_spec] at size
  case h_1 => exact yields_pure _ _ fun _ holds => holds
  case h_2 items rest =>
    refine yields_bind _ _ _ _ (below.declarators items (by omega)) fun items => ?_
    refine yields_weaker _ _ _ (below.forParts { loop with init := .«variables» items } rest (by omega)) ?_
    exact fun p whole next itemsHold holds => next ⟨itemsHold, holds.test, holds.update, holds.body⟩
  case h_3 e rest _ =>
    refine yields_bind _ _ _ _ (below.expression e (by omega)) fun e => ?_
    refine yields_weaker _ _ _ (below.forParts { loop with init := .expression e } rest (by omega)) ?_
    exact fun p whole next eHolds holds => next ⟨eHolds, holds.test, holds.update, holds.body⟩
  case h_4 e rest =>
    refine yields_bind _ _ _ _ (below.expression e (by omega)) fun e => ?_
    refine yields_weaker _ _ _ (below.forParts { loop with test := some e } rest (by omega)) ?_
    exact fun p whole next eHolds holds => next ⟨holds.init, eHolds, holds.update, holds.body⟩
  case h_5 e rest =>
    refine yields_bind _ _ _ _ (below.expression e (by omega)) fun e => ?_
    refine yields_weaker _ _ _ (below.forParts { loop with update := some e } rest (by omega)) ?_
    exact fun p whole next eHolds holds => next ⟨holds.init, holds.test, eHolds, holds.body⟩
  case h_6 body rest _ _ _ _ =>
    refine yields_bind _ _ _ _ (yields_loop _ _ (below.statement false body (by omega))) fun s => ?_
    refine yields_weaker _ _ _ (below.forParts { loop with body := some s } rest (by omega)) ?_
    exact fun p whole next sHolds holds => next ⟨holds.init, holds.test, holds.update, sHolds.1⟩

theorem clauses_yields (seen : Bool) (nodes : Nodes) (size : sizeOf nodes < n + 1) :
    Yields clausesScoped (clauses seen nodes) := by
  cases nodes with
  | nil =>
    rw [clauses]
    exact yields_pure _ _ fun _ => trivial
  | cons node rest =>
    obtain ⟨rule, start, stop, input, parts⟩ := node
    unfold clauses
    dsimp only
    split <;> try simp only [Node.mk.sizeOf_spec, List.cons.sizeOf_spec] at size
    case h_1 =>
      cases seen with
      | true => exact yields_fail_then _ _ _ _
      | false =>
        refine yields_bind _ _ _ _ (below.statements false parts (by omega)) fun body => ?_
        refine yields_bind _ _ _ _ (below.clauses true rest (by omega)) fun others => ?_
        exact yields_pure _ _ fun p othersHold holds => ⟨⟨trivial, holds⟩, othersHold⟩
    case h_2 test body =>
      refine yields_bind _ _ _ _ (below.expression test (by omega)) fun test => ?_
      refine yields_bind _ _ _ _ (below.statements false body (by omega)) fun body => ?_
      refine yields_bind _ _ _ _ (below.clauses seen rest (by omega)) fun others => ?_
      exact yields_pure _ _ fun p othersHold holds testHolds => ⟨⟨testHolds, holds⟩, othersHold⟩
    case h_3 => exact yields_fail _ _ _

theorem handler_yields (node : Node Rule) (size : sizeOf node < n + 1) :
    Yields (fun p h => handlerScoped p (some h)) (handler node) := by
  obtain ⟨rule, start, stop, input, parts⟩ := node
  unfold handler
  dsimp only
  split <;> try simp only [Node.mk.sizeOf_spec, List.cons.sizeOf_spec, List.nil.sizeOf_spec] at size
  case h_2 => exact yields_fail _ _ _
  case h_1 param _ _ _ body =>
    intro unfinished b h after sound under ended
    obtain ⟨strict, b₀, zeroth, ended⟩ := build_bind _ _ b after h ended
    cases zeroth
    obtain ⟨name, b₁, first, ended⟩ := build_bind _ _ _ after h ended
    obtain ⟨result, last, second, ended⟩ := build_bind
      (within b₁.scopes.scopes.size (statements false body)) _
      { b₁ with scopes := b₁.opened .handler [name] } after h ended
    cases ended
    obtain ⟨becomes, _⟩ := yields_binding param b.code.strict unfinished b name b₁ sound under first
    have under₁ : ∀ s ∈ unfinished, s < b₁.scopes.scopes.size := fun s member =>
      Nat.lt_of_lt_of_le (under s member) becomes.grows.tree.scopes
    have opens := opened_becomes b₁ .handler [name] becomes.sound unfinished rfl
      (fun contra => nomatch contra) (fun contra => nomatch contra)
    obtain ⟨inside, found⟩ := opened_scope b₁ .handler [name] becomes.sound
    obtain ⟨builds, holds⟩ := within_becomes _ _ (below.statements false body (by omega)) _ unfinished _ after
      result opens.sound (fun s member => Nat.lt_of_lt_of_le (under₁ s member) opens.grows.tree.scopes) inside
      (congrArg Scope.code found) second
    refine ⟨.trans _ _ _ _ becomes (.trans _ _ _ _ opens builds), fun tree arguments future => ?_⟩
    obtain ⟨opened, defs⟩ := opened_last b₁ after .handler [name] unfinished tree arguments becomes.sound
      under₁ builds.grows future
    rw [← setting_same b b₁ tree arguments becomes.grows]
    exact ⟨opened, defs, holds tree arguments future⟩

theorem statement_yields (top : Bool) (node : Node Rule) (size : sizeOf node < n + 1) :
    Yields (fun p s => s.Scoped p ∧ s.isLoop = isLoop node) (statement top node) := by
  obtain ⟨rule, start, stop, input, parts⟩ := node
  unfold statement
  dsimp only
  split <;> try simp only [Node.mk.sizeOf_spec, List.cons.sizeOf_spec, List.nil.sizeOf_spec] at size
  case h_1 =>
    refine yields_bind _ _ _ _ (below.statements false parts (by omega)) fun body => ?_
    exact yields_pure _ _ fun p holds => ⟨holds, rfl⟩
  case h_2 items =>
    refine yields_bind _ _ _ _ (below.declarators items (by omega)) fun items => ?_
    exact yields_pure _ _ fun p holds => ⟨holds, rfl⟩
  case h_3 => exact yields_pure _ _ fun _ => ⟨trivial, rfl⟩
  case h_4 name _ _ _ params _ _ _ body =>
    have declares := declared_function_yields _ (below.statements true body (by omega)) name params ⟨start, stop⟩ body
    cases top with
    | true => exact declares
    | false =>
      refine yields_bind _ _ _ _ yields_strict fun strict => ?_
      cases strict with
      | true => exact yields_fail_then _ _ _ _
      | false => exact yields_weaker _ _ _ declares fun p s holds _ => holds
  case h_5 e =>
    refine yields_bind _ _ _ _ (below.expression e (by omega)) fun e => ?_
    exact yields_pure _ _ fun p holds => ⟨holds, rfl⟩
  case h_6 test yes =>
    refine yields_bind _ _ _ _ (below.expression test (by omega)) fun test => ?_
    refine yields_bind _ _ _ _ (below.statement false yes (by omega)) fun yes => ?_
    exact yields_pure _ _ fun p yesHolds holds => ⟨⟨holds, yesHolds.1, trivial⟩, rfl⟩
  case h_7 test yes no =>
    refine yields_bind _ _ _ _ (below.expression test (by omega)) fun test => ?_
    refine yields_bind _ _ _ _ (below.statement false yes (by omega)) fun yes => ?_
    refine yields_bind _ _ _ _ (below.statement false no (by omega)) fun no => ?_
    exact yields_pure _ _ fun p noHolds yesHolds holds => ⟨⟨holds, yesHolds.1, noHolds.1⟩, rfl⟩
  case h_8 body test =>
    refine yields_bind _ _ _ _ (yields_loop _ _ (below.statement false body (by omega))) fun body => ?_
    refine yields_bind _ _ _ _ (below.expression test (by omega)) fun test => ?_
    exact yields_pure _ _ fun p testHolds holds => ⟨⟨holds.1, testHolds⟩, rfl⟩
  case h_9 test body =>
    refine yields_bind _ _ _ _ (below.expression test (by omega)) fun test => ?_
    refine yields_bind _ _ _ _ (yields_loop _ _ (below.statement false body (by omega))) fun body => ?_
    exact yields_pure _ _ fun p bodyHolds holds => ⟨⟨holds, bodyHolds.1⟩, rfl⟩
  case h_10 =>
    refine yields_bind _ _ _ _ (below.forParts {} parts (by omega)) fun loop => ?_
    obtain ⟨init, test, update, body⟩ := loop
    cases body with
    | none => exact yields_fail _ _ _
    | some body =>
      refine yields_pure _ _ fun p whole => ?_
      have holds := whole ⟨trivial, trivial, trivial, trivial⟩
      exact ⟨⟨holds.init, holds.test, holds.update, holds.body⟩, rfl⟩
  case h_11 declared object body =>
    refine yields_bind _ _ _ _ (below.declarator declared (by omega)) fun d => ?_
    obtain ⟨s, id, init⟩ := d
    refine yields_bind _ _ _ _ (yields_refer id.name) fun _ => ?_
    refine yields_bind _ _ _ _ (below.expression object (by omega)) fun object => ?_
    refine yields_bind _ _ _ _ (yields_loop _ _ (below.statement false body (by omega))) fun body => ?_
    refine yields_pure _ _ fun p bodyHolds objectHolds referred declared => ?_
    obtain ⟨scope, free, bound, initHolds⟩ := declared.2 s id init rfl
    exact ⟨⟨⟨⟨scope, referred, bound⟩, free, initHolds⟩, objectHolds, bodyHolds.1⟩, rfl⟩
  case h_12 target object body _ =>
    refine yields_bind _ _ _ _ (below.expression target (by omega)) fun e => ?_
    refine yields_bind _ _ _ _ (yields_target e target) fun _ => ?_
    refine yields_bind _ _ _ _ (below.expression object (by omega)) fun object => ?_
    refine yields_bind _ _ _ _ (yields_loop _ _ (below.statement false body (by omega))) fun body => ?_
    exact yields_pure _ _ fun p bodyHolds objectHolds able holds =>
      ⟨⟨⟨able, holds⟩, objectHolds, bodyHolds.1⟩, rfl⟩
  case h_13 =>
    refine yields_goals _ _ fun b => ?_
    split
    · exact yields_fail_then _ _ _ _
    · rename_i inLoop
      refine yields_pure _ _ fun p here => ⟨?_, rfl⟩
      rw [Statement.Scoped, here]
      exact fun none => inLoop (beq_iff_eq.mpr none)
  case h_14 label =>
    refine yields_bind _ _ _ _ (yields_continue label) fun name => ?_
    refine yields_get _ _ fun b => ?_
    split
    · exact yields_fail_then _ _ _ _
    · exact yields_pure _ _ fun _ holds => ⟨holds, rfl⟩
  case h_15 =>
    refine yields_goals _ _ fun b => ?_
    split
    · exact yields_fail_then _ _ _ _
    · rename_i inBreakable
      refine yields_pure _ _ fun p here => ⟨?_, rfl⟩
      rw [Statement.Scoped, here]
      exact fun none => inBreakable (beq_iff_eq.mpr none)
  case h_16 label =>
    refine yields_bind _ _ _ _ (yields_break label) fun name => ?_
    exact yields_pure _ _ fun _ holds => ⟨holds, rfl⟩
  case h_17 =>
    refine yields_goals _ _ fun b => ?_
    split
    · exact yields_fail_then _ _ _ _
    · rename_i inFunction
      refine yields_pure _ _ fun p here => ⟨⟨?_, trivial⟩, rfl⟩
      rw [here]
      exact Decidable.not_not.mp fun other => inFunction (bne_iff_ne.mpr other)
  case h_18 value =>
    refine yields_goals _ _ fun b => ?_
    split
    · exact yields_fail_then _ _ _ _
    · rename_i inFunction
      refine yields_bind _ _ _ _ (below.expression value (by omega)) fun e => ?_
      refine yields_pure _ _ fun p holds here => ⟨⟨?_, holds⟩, rfl⟩
      rw [here]
      exact Decidable.not_not.mp fun other => inFunction (bne_iff_ne.mpr other)
  case h_19 object body =>
    refine yields_bind _ _ _ _ yields_strict fun strict => ?_
    cases strict with
    | true => exact yields_fail_then _ _ _ _
    | false =>
      refine yields_bind _ _ _ _ (below.expression object (by omega)) fun object => ?_
      have builds := yields_weaker _ _ _ (below.statement false body (by omega)) fun _ _ holds => holds.1
      exact yields_weaker _ _ _ (with_yields _ builds ⟨start, stop⟩ object) fun p s whole holds _ => whole holds
  case h_20 subject items =>
    refine yields_bind _ _ _ _ (below.expression subject (by omega)) fun subject => ?_
    refine yields_bind _ _ _ _ (yields_switch _ _ (below.clauses false items (by omega))) fun clauses => ?_
    exact yields_pure _ _ fun p clausesHold holds => ⟨⟨holds, clausesHold⟩, rfl⟩
  case h_21 value =>
    refine yields_bind _ _ _ _ (below.expression value (by omega)) fun e => ?_
    exact yields_pure _ _ fun p holds => ⟨holds, rfl⟩
  case h_22 body _ _ _ _ _ _ last =>
    refine yields_bind _ _ _ _ (below.statements false body (by omega)) fun body => ?_
    refine yields_bind _ _ _ _ (below.statements false last (by omega)) fun last => ?_
    exact yields_pure _ _ fun p lastHolds holds => ⟨⟨holds, trivial, lastHolds⟩, rfl⟩
  case h_23 body caught _ =>
    refine yields_bind _ _ _ _ (below.statements false body (by omega)) fun body => ?_
    refine yields_bind _ _ _ _ (below.handler caught (by omega)) fun caught => ?_
    exact yields_pure _ _ fun p caughtHolds holds => ⟨⟨holds, caughtHolds, trivial⟩, rfl⟩
  case h_24 body caught _ _ _ _ _ _ last =>
    refine yields_bind _ _ _ _ (below.statements false body (by omega)) fun body => ?_
    refine yields_bind _ _ _ _ (below.handler caught (by omega)) fun caught => ?_
    refine yields_bind _ _ _ _ (below.statements false last (by omega)) fun last => ?_
    exact yields_pure _ _ fun p lastHolds caughtHolds holds => ⟨⟨holds, caughtHolds, lastHolds⟩, rfl⟩
  case h_25 => exact yields_pure _ _ fun _ => ⟨trivial, rfl⟩
  case h_26 label body =>
    refine yields_bind _ _ _ _ yields_strict fun strict => ?_
    refine yields_bind _ _ _ _ (yields_checked label strict) fun name => ?_
    refine yields_goals _ _ fun b => ?_
    split
    · exact yields_fail_then _ _ _ _
    · rename_i new
      refine yields_bind _ _ _ _ (yields_label _ _ (below.statement false body (by omega)) _ _) fun s => ?_
      refine yields_pure _ _ fun p holds here _ _ => ⟨⟨?_, ?_⟩, holds.2⟩
      · rw [here]
        exact Option.not_isSome_iff_eq_none.mp new
      · rw [holds.2]
        exact holds.1
  case h_27 => exact yields_fail _ _ _

end

theorem yields_below (n : Nat) : YieldsBelow n := by
  induction n with
  | zero =>
    constructor <;> (intros; rename_i size; exact absurd size (Nat.not_lt_zero _))
  | succ n below =>
    exact ⟨expression_yields n below, expressions_yields n below, operands_yields n below,
      suffixes_yields n below, elements_yields n below, properties_yields n below, statement_yields n below,
      statements_yields n below, declarator_yields n below, declarators_yields n below,
      for_parts_yields n below, clauses_yields n below, handler_yields n below⟩

end Ecma.Syntax
