import Ecma.Proofs.Syntax.Proper

set_option autoImplicit false

/-!
What is built from the nodes of a parsed text is proper: what is shown of each kind of part, and expressions.
Everything is known for smaller nodes already.
-/

namespace Ecma.Syntax

open Ecma.Grammar Ecma.Scope Build

section

variable (text : List Char) (root : Node Rule)

/-- A proper expression, and a node without octal literals in strict code. -/
structure ExpressionBuilt (strict : Bool) (node : Node Rule) (e : Expression) : Prop where
  holds : (Part.expression e).Holds text root strict
  decimal : strict = true → Decimal node

/-- Proper expressions, and nodes without octal literals in strict code. -/
structure ExpressionsBuilt (strict : Bool) (nodes : Nodes) (es : List Expression) : Prop where
  holds : ∀ e ∈ es, (Part.expression e).Holds text root strict
  decimal : strict = true → ∀ node ∈ nodes, Decimal node

/-- A statement that is proper and declares no function. -/
structure Inner (strict : Bool) (s : Statement) : Prop where
  holds : ∀ g own, (Part.statement g own s).Holds text root strict
  placed : strict = true → ∀ g own, (Part.statement g own s).isDeclaration = false

structure DeclaratorBuilt (strict : Bool) (d : Declarator) : Prop where
  bound : Bindable text strict d.id.name
  init : ∀ e ∈ d.init, (Part.expression e).Holds text root strict

structure ForParts.Built (strict : Bool) (loop : ForParts) : Prop where
  bound : ∀ name ∈ loop.init.bound, Bindable text strict name
  init : ∀ e ∈ loop.init.expressions, (Part.expression e).Holds text root strict
  test : ∀ e ∈ loop.test, (Part.expression e).Holds text root strict
  update : ∀ e ∈ loop.update, (Part.expression e).Holds text root strict
  body : ∀ s ∈ loop.body, Inner text root strict s

structure ClauseBuilt (strict : Bool) (clause : Clause) : Prop where
  test : ∀ e ∈ clause.test, (Part.expression e).Holds text root strict
  body : ∀ s ∈ clause.body, Inner text root strict s

structure HandlerBuilt (strict : Bool) (handler : Handler) : Prop where
  bound : Bindable text strict handler.param.name
  body : ∀ s ∈ handler.body, Inner text root strict s

/-- Data properties have keys of their own, and none that is data already. -/
def KeysBuilt (strict : Bool) (seen : SeenKeys) (properties : List Property) : Prop :=
  strict = true → (properties.filterMap Property.dataKey?).Nodup ∧
    ∀ key ∈ properties.filterMap Property.dataKey?, ((seen.lookup key).getD {}).data = false

-- Everything is shown for the parts of smaller nodes already.
structure BuildsBelow (n : Nat) : Prop where
  expression : ∀ node, sizeOf node < n → Known text root node →
    Builds text root (fun strict e => ExpressionBuilt text root strict node e) (expression node)
  expressions : ∀ nodes, sizeOf nodes < n → (∀ node ∈ nodes, Known text root node) →
    Builds text root (fun strict es => ExpressionsBuilt text root strict nodes es) (expressions nodes)
  operands : ∀ nodes, sizeOf nodes < n → (∀ node ∈ nodes, Known text root node) →
    Builds text root (fun strict rest => ExpressionsBuilt text root strict nodes (rest.map Prod.snd)) (operands nodes)
  suffixes : ∀ start object nodes, sizeOf nodes < n → (∀ node ∈ nodes, Known text root node) →
    Builds text root (fun strict e => (Part.expression object).Holds text root strict →
      (Part.expression e).Holds text root strict ∧ (strict = true → ∀ node ∈ nodes, Decimal node))
      (suffixes start object nodes)
  elements : ∀ filled nodes, sizeOf nodes < n → (∀ node ∈ nodes, Known text root node) →
    Builds text root (fun strict items => ExpressionsBuilt text root strict nodes (items.filterMap Element.item?))
      (elements filled nodes)
  properties : ∀ seen nodes, sizeOf nodes < n → (∀ node ∈ nodes, Known text root node) →
    Builds text root (fun strict items => ExpressionsBuilt text root strict nodes (items.map Property.value) ∧
      KeysBuilt strict seen items) (properties seen nodes)
  statement : ∀ top node, sizeOf node < n → Known text root node →
    Builds text root (fun strict s => Built text root strict top node s) (statement top node)
  statements : ∀ top nodes, sizeOf nodes < n → (∀ node ∈ nodes, Known text root node) →
    Builds text root (fun strict body => BodyBuilt text root strict top nodes body) (statements top nodes)
  declarator : ∀ node, sizeOf node < n → Known text root node →
    Builds text root (fun strict d => DeclaratorBuilt text root strict d ∧ (strict = true → Decimal node))
      (declarator node)
  declarators : ∀ nodes, sizeOf nodes < n → (∀ node ∈ nodes, Known text root node) →
    Builds text root (fun strict ds => (∀ d ∈ ds, DeclaratorBuilt text root strict d) ∧
      (strict = true → ∀ node ∈ nodes, Decimal node)) (declarators nodes)
  forParts : ∀ loop nodes, sizeOf nodes < n → (∀ node ∈ nodes, Known text root node) →
    Builds text root (fun strict whole => loop.Built text root strict → whole.Built text root strict ∧
      (strict = true → ∀ node ∈ nodes, Decimal node)) (forParts loop nodes)
  clauses : ∀ seen nodes, sizeOf nodes < n → (∀ node ∈ nodes, Known text root node) →
    Builds text root (fun strict items => (∀ clause ∈ items, ClauseBuilt text root strict clause) ∧
      (strict = true → ∀ node ∈ nodes, Decimal node)) (clauses seen nodes)
  handler : ∀ node, sizeOf node < n → Known text root node →
    Builds text root (fun strict h => HandlerBuilt text root strict h ∧ (strict = true → Decimal node)) (handler node)

variable {text root}

theorem all_cons {γ : Type} {p : γ → Prop} {a : γ} {rest : List γ} (one : p a) (others : ∀ x ∈ rest, p x) :
    ∀ x ∈ a :: rest, p x :=
  List.forall_mem_cons.mpr ⟨one, others⟩

theorem all_none {γ : Type} {p : γ → Prop} : ∀ x ∈ ([] : List γ), p x :=
  fun _ member => absurd member List.not_mem_nil

theorem all_absent {γ : Type} {p : γ → Prop} : ∀ x ∈ (none : Option γ), p x := by
  intro x member
  cases member

theorem all_some {γ : Type} {p : γ → Prop} {a : γ} (one : p a) : ∀ x ∈ some a, p x := by
  intro x member
  cases member
  exact one

/-! Expressions from their parts. -/

theorem expression_holds (strict : Bool) (e : Expression)
    (named : ∀ name ∈ (Part.expression e).names, Mentionable text strict name) (law : strict = true → e.Lawful)
    (inner : ∀ part ∈ e.parts, part.Holds text root strict) : (Part.expression e).Holds text root strict := by
  refine .mk strict _ ⟨?_, fun name member => (named name member).1, fun isStrict => isStrict, fun isStrict =>
    ⟨fun name member => (named name member).2 isStrict, all_none, ?_, ?_, ?_, ?_⟩⟩ inner
  · rintro _ ⟨⟩
  · rintro _ ⟨rfl⟩
    exact law isStrict
  · rintro _ _ _ ⟨⟩
  · rintro _ ⟨⟩
  · rintro _ ⟨⟩

theorem expression_list_holds (strict : Bool) (es : List Expression)
    (all : ∀ e ∈ es, (Part.expression e).Holds text root strict) :
    ∀ part ∈ Part.expressions es, part.Holds text root strict := by
  intro part member
  obtain ⟨e, among, rfl⟩ := List.mem_map.mp member
  exact all e among

-- An expression that mentions no name itself and that no law is about.
theorem plain_holds (strict : Bool) (e : Expression) (es : List Expression) (unnamed : (Part.expression e).names = [])
    (lawful : e.Lawful) (parts : e.parts = Part.expressions es)
    (all : ∀ e ∈ es, (Part.expression e).Holds text root strict) : (Part.expression e).Holds text root strict := by
  refine expression_holds strict e ?_ (fun _ => lawful) ?_
  · rw [unnamed]
    exact all_none
  · rw [parts]
    exact expression_list_holds strict es all

theorem infix_holds (strict : Bool) (op : Infix) (left right : Expression)
    (one : (Part.expression left).Holds text root strict) (two : (Part.expression right).Holds text root strict) :
    (Part.expression (infixExpression op left right)).Holds text root strict := by
  cases op <;> exact plain_holds strict _ [left, right] rfl trivial rfl (all_cons one (all_cons two all_none))

theorem unary_builds (span : Span) (operator argumentNode : Node Rule) (argument : Expression) :
    Builds text root (fun strict e => (Part.expression argument).Holds text root strict →
      (Part.expression e).Holds text root strict) (applyUnary span operator argumentNode argument) := by
  rw [applyUnary]
  dsimp only
  split
  · refine builds_bind text root _ _ _ _ (builds_target text root argument argumentNode) fun _ => ?_
    exact builds_pure text root _ _ fun strict able holds =>
      expression_holds strict _ all_none able (expression_list_holds strict [argument] (all_cons holds all_none))
  · split
    · exact builds_fail text root _ _ _
    · split
      · rename_i id
        refine builds_bind text root _ _ _ _ (builds_strict text root) fun strict => ?_
        cases strict with
        | true => exact builds_fail_then text root _ _ _ _
        | false =>
          refine builds_pure text root _ _ fun strict sloppy holds => ?_
          refine expression_holds strict _ all_none (fun isStrict => ?_)
            (expression_list_holds strict [_] (all_cons holds all_none))
          cases sloppy.trans isStrict
      · rename_i other
        refine builds_pure text root _ _ fun strict holds => ?_
        refine plain_holds strict _ [argument] rfl (fun same id found => ?_) rfl (all_cons holds all_none)
        cases found
        exact other id same rfl

-- A node that is no literal itself.
theorem composite_decimal {name : Rule} {start stop : Nat} {input : List Char} {parts : Nodes}
    (other : isOther name = true) (decimal : ∀ part ∈ parts, Decimal part) :
    Decimal (.mk name start stop input parts) :=
  decimal_parts _ (not_literal _ other) decimal

-- The node of an expression around another one.
theorem around_builds (name : Rule) (start stop : Nat) (input : List Char) (item : Node Rule)
    (other : isOther name = true) (build : Build Expression)
    (builds : Builds text root (fun strict e => ExpressionBuilt text root strict item e) build) :
    Builds text root (fun strict e => ExpressionBuilt text root strict (.mk name start stop input [item]) e) build := by
  refine builds_weaker text root _ _ _ builds fun strict e built => ⟨built.holds, fun isStrict => ?_⟩
  exact composite_decimal other (all_cons (built.decimal isStrict) all_none)

theorem new_holds (strict : Bool) (span : Span) (callee : Expression) (items : List Expression)
    (calleeHolds : (Part.expression callee).Holds text root strict)
    (all : ∀ e ∈ items, (Part.expression e).Holds text root strict) :
    (Part.expression (.new span callee items)).Holds text root strict :=
  plain_holds strict _ (callee :: items) rfl trivial rfl (all_cons calleeHolds all)

/-! Functions. -/

theorem parameters_known (start stop : Nat) (input : List Char) (params : Nodes)
    (known : Known text root (.mk .formalParameters start stop input params)) :
    ∀ node ∈ params, Known text root node ∧ node.rule = .identifier := by
  intro node member
  have among := parts_among text _ known.genuine .formalParameters rfl [.identifier] (by decide +kernel) node member
  exact ⟨known_part text root _ known node member, List.mem_singleton.mp among⟩

theorem identifier_decimal (node : Node Rule) (known : Known text root node) (rule : node.rule = .identifier) :
    Decimal node :=
  decimal_leaf text node known.genuine _ rule rfl rfl

theorem parameters_decimal (start stop : Nat) (input : List Char) (params : Nodes)
    (known : Known text root (.mk .formalParameters start stop input params)) :
    Decimal (.mk .formalParameters start stop input params) := by
  refine composite_decimal rfl fun node member => ?_
  obtain ⟨found, rule⟩ := parameters_known start stop input params known node member
  exact identifier_decimal node found rule

theorem function_holds (strict : Bool) (span : Span) (code : Code) (scope : Option ScopeId)
    (holds : (Part.code code).Holds text root strict) :
    (Part.expression (.function span code scope)).Holds text root strict :=
  expression_holds strict _ all_none (fun _ => trivial) (all_cons holds all_none)

section

variable (n : Nat) (below : BuildsBelow text root n)
include below

theorem expression_builds (genuine : root.Genuine ecmascript text) (node : Node Rule) (size : sizeOf node < n + 1)
    (known : Known text root node) :
    Builds text root (fun strict e => ExpressionBuilt text root strict node e) (expression node) := by
  have part := known_part text root node known
  have exact := known.genuine
  obtain ⟨rule, start, stop, input, parts⟩ := node
  unfold expression
  dsimp only
  split <;> try simp only [Node.mk.sizeOf_spec, List.cons.sizeOf_spec, List.nil.sizeOf_spec] at size
  case h_1 item | h_3 item | h_5 item | h_8 item | h_10 item =>
    exact around_builds _ _ _ _ item rfl _
      (below.expression item (by omega) (part item List.mem_cons_self))
  case h_2 =>
    refine builds_bind text root _ _ _ _ (below.expressions parts (by omega) part) fun items => ?_
    exact builds_pure text root _ _ fun strict built => ⟨plain_holds strict _ items rfl trivial rfl built.holds,
      fun isStrict => composite_decimal rfl (built.decimal isStrict)⟩
  case h_4 left operator right =>
    have rule : operator.rule = .assignmentOperator :=
      Option.some.inj (part_at text _ _ _ _ _ exact 3 1 _ (by decide +kernel) rfl)
    have knownLeft := part left List.mem_cons_self
    have knownOperator := part operator (List.mem_cons_of_mem _ List.mem_cons_self)
    have knownRight := part right (List.mem_cons_of_mem _ (List.mem_cons_of_mem _ List.mem_cons_self))
    refine builds_bind text root _ _ _ _ (below.expression left (by omega) knownLeft) fun target => ?_
    split
    · exact builds_fail text root _ _ _
    · refine builds_bind text root _ _ _ _ (builds_target text root target left) fun _ => ?_
      refine builds_bind text root _ _ _ _ (below.expression right (by omega) knownRight) fun value => ?_
      refine builds_pure text root _ _ fun strict value able target => ⟨?_, fun isStrict => ?_⟩
      · exact expression_holds strict _ all_none able
          (expression_list_holds strict [_, _] (all_cons target.holds (all_cons value.holds all_none)))
      · exact composite_decimal rfl (all_cons (target.decimal isStrict)
          (all_cons (decimal_leaf text operator knownOperator.genuine _ rule rfl rfl)
            (all_cons (value.decimal isStrict) all_none)))
  case h_6 test yes no =>
    refine builds_bind text root _ _ _ _ (below.expression test (by omega) (part test (.head _))) fun first => ?_
    refine builds_bind text root _ _ _ _ (below.expression yes (by omega) (part yes (.tail _ (.head _)))) fun second => ?_
    refine builds_bind text root _ _ _ _
      (below.expression no (by omega) (part no (.tail _ (.tail _ (.head _))))) fun third => ?_
    refine builds_pure text root _ _ fun strict third second first => ⟨?_, fun isStrict => ?_⟩
    · exact plain_holds strict _ [_, _, _] rfl trivial rfl
        (all_cons first.holds (all_cons second.holds (all_cons third.holds all_none)))
    · exact composite_decimal rfl (all_cons (first.decimal isStrict)
        (all_cons (second.decimal isStrict) (all_cons (third.decimal isStrict) all_none)))
  case h_7 first rest =>
    refine builds_bind text root _ _ _ _ (below.expression first (by omega) (part first (.head _))) fun e => ?_
    refine builds_bind text root _ _ _ _
      (below.operands rest (by omega) fun node member => part node (.tail _ member)) fun others => ?_
    refine builds_pure text root _ _ fun strict built head => ⟨?_, fun isStrict => ?_⟩
    · exact group_closed (fun e => (Part.expression e).Holds text root strict) (infix_holds strict) [] e others
        all_none head.holds fun other member => built.holds _ (List.mem_map_of_mem member)
    · exact composite_decimal rfl
        (all_cons (head.decimal isStrict) (built.decimal isStrict))
  case h_9 operator argument =>
    have rule : operator.rule = .unaryOperator :=
      Option.some.inj (part_at text _ _ _ _ _ exact 2 0 _ (by decide +kernel) rfl)
    have knownOperator := part operator (.head _)
    refine builds_bind text root _ _ _ _
      (below.expression argument (by omega) (part argument (.tail _ (.head _)))) fun value => ?_
    refine builds_weaker text root _ _ _ (unary_builds _ operator argument value) fun strict e holds built =>
      ⟨holds built.holds, fun isStrict => ?_⟩
    exact composite_decimal rfl (all_cons
      (decimal_leaf text operator knownOperator.genuine _ rule rfl rfl)
      (all_cons (built.decimal isStrict) all_none))
  case h_11 operand operator =>
    have rule : operator.rule = .postfixOperator :=
      Option.some.inj (part_at text _ _ _ _ _ exact 2 1 _ (by decide +kernel) rfl)
    have knownOperator := part operator (.tail _ (.head _))
    refine builds_bind text root _ _ _ _ (below.expression operand (by omega) (part operand (.head _))) fun target => ?_
    refine builds_bind text root _ _ _ _ (builds_target text root target operand) fun _ => ?_
    refine builds_pure text root _ _ fun strict able built => ⟨?_, fun isStrict => ?_⟩
    · exact expression_holds strict _ all_none able (expression_list_holds strict [_] (all_cons built.holds all_none))
    · exact composite_decimal rfl (all_cons (built.decimal isStrict) (all_cons
        (decimal_leaf text operator knownOperator.genuine _ rule rfl rfl) all_none))
  case h_12 first rest =>
    refine builds_bind text root _ _ _ _ (below.expression first (by omega) (part first (.head _))) fun e => ?_
    split
    · rename_i new
      refine builds_pure text root _ _ fun strict built => ⟨new_holds strict _ e [] built.holds all_none, fun isStrict => ?_⟩
      cases alone_when_new text _ _ _ first rest exact (eq_of_beq new)
      exact composite_decimal rfl (all_cons (built.decimal isStrict) all_none)
    · refine builds_weaker text root _ _ _ (below.suffixes first.start e rest (by omega) fun node member =>
        part node (.tail _ member)) fun strict whole holds built => ⟨(holds built.holds).1, fun isStrict => ?_⟩
      exact composite_decimal rfl
        (all_cons (built.decimal isStrict) ((holds built.holds).2 isStrict))
  case h_13 inner =>
    refine builds_bind text root _ _ _ _ (below.expression inner (by omega) (part inner (.head _))) fun e => ?_
    refine builds_pure text root _ _ fun strict built => ⟨?_, fun isStrict => ?_⟩
    · split
      · exact new_holds strict _ e [] built.holds all_none
      · exact built.holds
    · exact composite_decimal rfl (all_cons (built.decimal isStrict) all_none)
  case h_14 first rest =>
    refine builds_bind text root _ _ _ _ (below.expression first (by omega) (part first (.head _))) fun e => ?_
    refine builds_weaker text root _ _ _ (below.suffixes first.start e rest (by omega) fun node member =>
      part node (.tail _ member)) fun strict whole holds built => ⟨(holds built.holds).1, fun isStrict => ?_⟩
    exact composite_decimal rfl
      (all_cons (built.decimal isStrict) ((holds built.holds).2 isStrict))
  case h_15 callee s t i items =>
    have knownItems := known_part text root _ (part (.mk .arguments s t i items) (.tail _ (.head _)))
    refine builds_bind text root _ _ _ _ (below.expression callee (by omega) (part callee (.head _))) fun callee => ?_
    refine builds_bind text root _ _ _ _ (below.expressions items (by omega) knownItems) fun items => ?_
    refine builds_pure text root _ _ fun strict built head => ⟨new_holds strict _ callee items head.holds built.holds,
      fun isStrict => ?_⟩
    exact composite_decimal rfl (all_cons (head.decimal isStrict)
      (all_cons (composite_decimal rfl (built.decimal isStrict)) all_none))
  case h_16 s t i params s' t' i' body =>
    have knownParams := part _ (.head _)
    have knownBody := known_part text root _ (part (.mk .functionBody s' t' i' body) (.tail _ (.head _)))
    refine builds_get text root _ _ fun b => ?_
    refine builds_bind text root _ _ _ _ (builds_function text root genuine b.scope none all_absent params
      (parameters_known s t i params knownParams) _ body knownBody _
      (below.statements true body (by omega) knownBody)) fun code => ?_
    refine builds_pure text root _ _ fun strict built => ⟨function_holds strict _ code none built.1, fun isStrict => ?_⟩
    exact composite_decimal rfl (all_cons (parameters_decimal s t i params knownParams)
      (all_cons (composite_decimal rfl (built.2 isStrict)) all_none))
  case h_17 name s t i params s' t' i' body =>
    have rule : name.rule = .identifier :=
      Option.some.inj (part_at text _ _ _ _ _ exact 3 0 _ (by decide +kernel) rfl)
    have knownName := part name (.head _)
    have knownParams := part (.mk .formalParameters s t i params) (.tail _ (.head _))
    have knownBody := known_part text root _ (part (.mk .functionBody s' t' i' body) (.tail _ (.tail _ (.head _))))
    refine builds_bind text root _ _ _ _ (builds_strict text root) fun strict => ?_
    refine builds_bind text root _ _ _ _ (builds_checked text root name knownName rule strict) fun own => ?_
    refine builds_get text root _ _ fun b => ?_
    refine builds_bind text root _ _ _ _ (builds_scope text root .namedFunction b.scope) fun scope => ?_
    refine builds_bind text root _ _ _ _ (builds_scopes text root _) fun _ => ?_
    refine builds_bind text root _ _ _ _ (builds_function text root genuine scope (some name)
      (all_some ⟨knownName, rule⟩) params (parameters_known s t i params knownParams) _ body knownBody _
      (below.statements true body (by omega) knownBody)) fun code => ?_
    refine builds_pure text root _ _ fun strict built _ _ _ _ =>
      ⟨function_holds strict _ code (some scope) built.1, fun isStrict => ?_⟩
    exact composite_decimal rfl (all_cons (identifier_decimal name knownName rule)
      (all_cons (parameters_decimal s t i params knownParams)
        (all_cons (composite_decimal rfl (built.2 isStrict)) all_none)))
  case h_18 | h_19 | h_20 =>
    exact builds_pure text root _ _ fun strict => ⟨plain_holds strict _ [] rfl trivial rfl all_none,
      fun _ => decimal_leaf text _ exact _ rfl rfl rfl⟩
  case h_21 =>
    refine builds_bind text root _ _ _ _ (builds_number text root _) fun _ => ?_
    refine builds_pure text root _ _ fun strict free => ⟨plain_holds strict _ [] rfl trivial rfl all_none,
      fun isStrict => decimal_literal text _ exact (Or.inl rfl) ?_⟩
    rintro (⟨_, octal⟩ | ⟨contra, _⟩)
    · exact free isStrict octal
    · cases contra
  case h_22 =>
    refine builds_bind text root _ _ _ _ (builds_string text root _) fun _ => ?_
    refine builds_pure text root _ _ fun strict free => ⟨plain_holds strict _ [] rfl trivial rfl all_none,
      fun isStrict => decimal_literal text _ exact (Or.inr rfl) ?_⟩
    rintro (⟨contra, _⟩ | ⟨_, octal⟩)
    · cases contra
    · exact free isStrict octal
  case h_23 =>
    refine builds_bind text root _ _ _ _ (builds_reference text root _ known rfl) fun id => ?_
    exact builds_pure text root _ _ fun strict mentionable =>
      ⟨expression_holds strict _ (all_cons mentionable all_none) (fun _ => trivial) all_none,
        fun _ => identifier_decimal _ known rfl⟩
  case h_24 =>
    refine builds_bind text root _ _ _ _ (below.elements false parts (by omega) part) fun items => ?_
    exact builds_pure text root _ _ fun strict built => ⟨plain_holds strict _ _ rfl trivial rfl built.holds,
      fun isStrict => composite_decimal rfl (built.decimal isStrict)⟩
  case h_25 =>
    refine builds_bind text root _ _ _ _ (below.properties [] parts (by omega) part) fun items => ?_
    exact builds_pure text root _ _ fun strict built => ⟨expression_holds strict _ all_none
      (fun isStrict => (built.2 isStrict).1) (expression_list_holds strict _ built.1.holds),
      fun isStrict => composite_decimal rfl (built.1.decimal isStrict)⟩
  case h_26 => exact builds_fail text root _ _ _

theorem expressions_builds (nodes : Nodes) (size : sizeOf nodes < n + 1) (known : ∀ node ∈ nodes, Known text root node) :
    Builds text root (fun strict es => ExpressionsBuilt text root strict nodes es) (expressions nodes) := by
  cases nodes with
  | nil =>
    rw [expressions]
    exact builds_pure text root _ _ fun _ => ⟨all_none, fun _ => all_none⟩
  | cons node rest =>
    rw [List.cons.sizeOf_spec] at size
    rw [expressions]
    refine builds_bind text root _ _ _ _ (below.expression node (by omega) (known node (.head _))) fun e => ?_
    refine builds_bind text root _ _ _ _
      (below.expressions rest (by omega) fun node member => known node (.tail _ member)) fun others => ?_
    exact builds_pure text root _ _ fun strict others first => ⟨all_cons first.holds others.holds,
      fun isStrict => all_cons (first.decimal isStrict) (others.decimal isStrict)⟩

theorem operands_builds (nodes : Nodes) (size : sizeOf nodes < n + 1) (known : ∀ node ∈ nodes, Known text root node) :
    Builds text root (fun strict rest => ExpressionsBuilt text root strict nodes (rest.map Prod.snd))
      (operands nodes) := by
  unfold operands
  split <;> try simp only [Node.mk.sizeOf_spec, List.cons.sizeOf_spec] at size
  case h_1 op s t i parts operand rest =>
    have leaf : Decimal (.mk (.operator op) s t i parts) :=
      decimal_leaf text _ (known _ (.head _)).genuine _ rfl (operator_leaf op) (by cases op <;> rfl)
    refine builds_bind text root _ _ _ _
      (below.expression operand (by omega) (known operand (.tail _ (.head _)))) fun e => ?_
    refine builds_bind text root _ _ _ _
      (below.operands rest (by omega) fun node member => known node (.tail _ (.tail _ member))) fun others => ?_
    exact builds_pure text root _ _ fun strict others first => ⟨all_cons first.holds others.holds,
      fun isStrict => all_cons leaf (all_cons (first.decimal isStrict) (others.decimal isStrict))⟩
  case h_2 => exact builds_pure text root _ _ fun _ => ⟨all_none, fun _ => all_none⟩
  case h_3 => exact builds_fail text root _ _ _

theorem suffixes_builds (start : Nat) (object : Expression) (nodes : Nodes) (size : sizeOf nodes < n + 1)
    (known : ∀ node ∈ nodes, Known text root node) :
    Builds text root (fun strict e => (Part.expression object).Holds text root strict →
      (Part.expression e).Holds text root strict ∧ (strict = true → ∀ node ∈ nodes, Decimal node))
      (suffixes start object nodes) := by
  cases nodes with
  | nil =>
    rw [suffixes]
    exact builds_pure text root _ _ fun _ holds => ⟨holds, fun _ => all_none⟩
  | cons node rest =>
    have part := known_part text root node (known node (.head _))
    have exact := (known node (.head _)).genuine
    have others : ∀ node ∈ rest, Known text root node := fun node member => known node (.tail _ member)
    obtain ⟨rule, s, stop, input, parts⟩ := node
    unfold suffixes
    dsimp only
    split <;> try simp only [Node.mk.sizeOf_spec, List.cons.sizeOf_spec, List.nil.sizeOf_spec] at size
    case h_1 =>
      refine builds_bind text root _ _ _ _ (builds_callee text root object) fun _ => ?_
      refine builds_bind text root _ _ _ _ (below.expressions parts (by omega) part) fun items => ?_
      refine builds_weaker text root _ _ _ (below.suffixes start (.call ⟨start, stop⟩ object items) rest (by omega)
        others) fun strict e whole built _ holds => ?_
      obtain ⟨eHolds, decimal⟩ := whole (plain_holds strict _ (object :: items) rfl trivial rfl
        (all_cons holds built.holds))
      exact ⟨eHolds, fun isStrict => all_cons
        (composite_decimal rfl (built.decimal isStrict)) (decimal isStrict)⟩
    case h_2 key =>
      refine builds_bind text root _ _ _ _ (below.expression key (by omega) (part key (.head _))) fun value => ?_
      refine builds_weaker text root _ _ _ (below.suffixes start (.member ⟨start, stop⟩ object value) rest (by omega)
        others) fun strict e whole built holds => ?_
      obtain ⟨eHolds, decimal⟩ := whole (plain_holds strict _ [object, value] rfl trivial rfl
        (all_cons holds (all_cons built.holds all_none)))
      exact ⟨eHolds, fun isStrict => all_cons (composite_decimal rfl
        (all_cons (built.decimal isStrict) all_none)) (decimal isStrict)⟩
    case h_3 name =>
      have rule : name.rule = .identifierName :=
        Option.some.inj (part_at text _ _ _ _ _ exact 1 0 _ (by decide +kernel) rfl)
      have leaf := decimal_leaf text name (part name (.head _)).genuine _ rule rfl rfl
      refine builds_bind text root (fun _ _ => True) _ _ _ (builds_lift text root _ _ _ fun _ _ _ => trivial)
        fun key => ?_
      refine builds_weaker text root _ _ _ (below.suffixes start
        (.member ⟨start, stop⟩ object (.literal (spanOf name) (.string key))) rest (by omega) others)
        fun strict e whole _ holds => ?_
      have keyHolds : (Part.expression (.literal (spanOf name) (.string key))).Holds text root strict :=
        plain_holds strict _ [] rfl trivial rfl all_none
      obtain ⟨eHolds, decimal⟩ := whole (plain_holds strict _ [object, _] rfl trivial rfl
        (all_cons holds (all_cons keyHolds all_none)))
      exact ⟨eHolds, fun isStrict => all_cons (composite_decimal rfl
        (all_cons leaf all_none)) (decimal isStrict)⟩
    case h_4 => exact builds_fail text root _ _ _

theorem elements_builds (filled : Bool) (nodes : Nodes) (size : sizeOf nodes < n + 1)
    (known : ∀ node ∈ nodes, Known text root node) :
    Builds text root (fun strict items => ExpressionsBuilt text root strict nodes (items.filterMap Element.item?))
      (elements filled nodes) := by
  unfold elements
  split <;> try simp only [Node.mk.sizeOf_spec, List.cons.sizeOf_spec] at size
  case h_1 => exact builds_pure text root _ _ fun _ => ⟨all_none, fun _ => all_none⟩
  case h_2 s t i parts rest =>
    have leaf : Decimal (.mk .comma s t i parts) :=
      decimal_leaf text _ (known _ (.head _)).genuine _ rfl rfl rfl
    refine builds_bind text root _ _ _ _
      (below.elements false rest (by omega) fun node member => known node (.tail _ member)) fun others => ?_
    refine builds_pure text root _ _ fun strict built => ?_
    cases filled with
    | false => exact ⟨built.holds, fun isStrict => all_cons leaf (built.decimal isStrict)⟩
    | true => exact ⟨built.holds, fun isStrict => all_cons leaf (built.decimal isStrict)⟩
  case h_3 node rest _ =>
    refine builds_bind text root _ _ _ _ (below.expression node (by omega) (known node (.head _))) fun e => ?_
    refine builds_bind text root _ _ _ _
      (below.elements true rest (by omega) fun node member => known node (.tail _ member)) fun others => ?_
    exact builds_pure text root _ _ fun strict others first => ⟨all_cons first.holds others.holds,
      fun isStrict => all_cons (first.decimal isStrict) (others.decimal isStrict)⟩

/-! Properties. -/

omit below in
-- A key that is noted is not data already, and what is noted of it is.
theorem keys_with_data (strict : Bool) (seen after : SeenKeys) (key : String) (value : Expression)
    (rest : List Property)
    (notes : ((seen.lookup key).getD {}).conflicts strict .init = false ∧
      after = (key, ((seen.lookup key).getD {}).note .init) :: seen)
    (others : KeysBuilt strict after rest) : KeysBuilt strict seen (.mk key .init value :: rest) := by
  obtain ⟨free, rfl⟩ := notes
  intro isStrict
  obtain ⟨distinct, unseen⟩ := others isStrict
  rw [Seen.conflicts, isStrict, Bool.and_true, Bool.or_eq_false_iff, Bool.or_eq_false_iff] at free
  have new : key ∉ rest.filterMap Property.dataKey? := by
    intro member
    have contra := unseen key member
    rw [List.lookup_cons, beq_self_eq_true] at contra
    cases contra
  refine ⟨List.nodup_cons.mpr ⟨new, distinct⟩, all_cons free.1.1 fun other member => ?_⟩
  have known := unseen other member
  have apart : other ≠ key := by
    rintro rfl
    exact new member
  rw [List.lookup_cons, beq_false_of_ne apart] at known
  exact known

omit below in
theorem keys_with_accessor (strict : Bool) (seen after : SeenKeys) (key : String) (kind : PropertyKind)
    (value : Expression) (rest : List Property) (accessor : kind ≠ .init)
    (notes : after = (key, ((seen.lookup key).getD {}).note kind) :: seen)
    (others : KeysBuilt strict after rest) : KeysBuilt strict seen (.mk key kind value :: rest) := by
  intro isStrict
  obtain ⟨distinct, unseen⟩ := others isStrict
  have keys : (Property.mk key kind value :: rest).filterMap Property.dataKey? =
      rest.filterMap Property.dataKey? := by
    cases kind with
    | init => exact absurd rfl accessor
    | getter | setter => rfl
  rw [keys]
  refine ⟨distinct, fun other member => ?_⟩
  have known := unseen other member
  rw [notes, List.lookup_cons] at known
  by_cases same : other = key
  · rw [same, beq_self_eq_true] at known
    rw [same]
    cases kind with
    | init => exact absurd rfl accessor
    | getter | setter => exact known
  · rw [beq_false_of_ne same] at known
    exact known

/-- The rules that a property name can be of. -/
def keyRules : List Rule :=
  [.identifierName, .stringLiteral, .numericLiteral]

def startsWithKey (rules : List Rule) : Bool :=
  rules.head?.any keyRules.contains

omit below in
theorem key_decimal (name : Node Rule) (known : Known text root name) {rest : List Rule}
    (keyed : startsWithKey (name.rule :: rest) = true) (free : ¬ OctalLiteral name) : Decimal name := by
  have member : name.rule ∈ keyRules := List.contains_iff_mem.mp keyed
  simp only [keyRules, List.mem_cons, List.not_mem_nil, or_false] at member
  rcases member with rule | rule | rule
  · exact decimal_leaf text name known.genuine _ rule rfl rfl
  · exact decimal_literal text name known.genuine (Or.inr rule) free
  · exact decimal_literal text name known.genuine (Or.inl rule) free

theorem properties_builds (genuine : root.Genuine ecmascript text) (seen : SeenKeys) (nodes : Nodes)
    (size : sizeOf nodes < n + 1) (known : ∀ node ∈ nodes, Known text root node) :
    Builds text root (fun strict items => ExpressionsBuilt text root strict nodes (items.map Property.value) ∧
      KeysBuilt strict seen items) (properties seen nodes) := by
  cases nodes with
  | nil =>
    rw [properties]
    exact builds_pure text root _ _ fun _ => ⟨⟨all_none, fun _ => all_none⟩, fun _ => ⟨List.nodup_nil, all_none⟩⟩
  | cons node rest =>
    have part := known_part text root node (known node (.head _))
    have exact := (known node (.head _)).genuine
    have remaining : ∀ node ∈ rest, Known text root node := fun node member => known node (.tail _ member)
    obtain ⟨rule, start, stop, i, parts⟩ := node
    unfold properties
    dsimp only
    split <;> try simp only [Node.mk.sizeOf_spec, List.cons.sizeOf_spec, List.nil.sizeOf_spec] at size
    case h_1 name value =>
      have knownName := part name (.head _)
      have keyed := parts_pass text _ exact .valueProperty rfl startsWithKey (by decide +kernel)
      refine builds_bind text root _ _ _ _ (builds_key text root name) fun key => ?_
      refine builds_bind text root _ _ _ _
        (below.expression value (by omega) (part value (.tail _ (.head _)))) fun value => ?_
      refine builds_bind text root _ _ _ _ (builds_note text root seen key .init start) fun seen => ?_
      refine builds_bind text root _ _ _ _ (below.properties seen rest (by omega) remaining) fun others => ?_
      refine builds_pure text root _ _ fun strict later notes built free => ⟨⟨?_, fun isStrict => ?_⟩, ?_⟩
      · exact all_cons built.holds later.1.holds
      · refine all_cons (composite_decimal rfl ?_) (later.1.decimal isStrict)
        exact all_cons (key_decimal name knownName keyed (free isStrict)) (all_cons (built.decimal isStrict) all_none)
      · exact keys_with_data strict _ seen key value others notes later.2
    case h_2 name s t i body =>
      have knownName := part name (.head _)
      have knownBody := known_part text root _ (part (.mk .functionBody s t i body) (.tail _ (.head _)))
      have keyed := parts_pass text _ exact .getterProperty rfl startsWithKey (by decide +kernel)
      refine builds_bind text root _ _ _ _ (builds_key text root name) fun key => ?_
      refine builds_get text root _ _ fun b => ?_
      refine builds_bind text root _ _ _ _ (builds_function text root genuine b.scope none all_absent [] all_none _
        body knownBody _ (below.statements true body (by omega) knownBody)) fun code => ?_
      refine builds_bind text root _ _ _ _ (builds_note text root seen key .getter start) fun seen => ?_
      refine builds_bind text root _ _ _ _ (below.properties seen rest (by omega) remaining) fun others => ?_
      refine builds_pure text root _ _ fun strict later notes built free => ⟨⟨?_, fun isStrict => ?_⟩, ?_⟩
      · exact all_cons (function_holds strict _ code none built.1) later.1.holds
      · refine all_cons (composite_decimal rfl ?_) (later.1.decimal isStrict)
        exact all_cons (key_decimal name knownName keyed (free isStrict))
          (all_cons (composite_decimal rfl (built.2 isStrict)) all_none)
      · exact keys_with_accessor strict _ seen key .getter _ others PropertyKind.noConfusion notes.2 later.2
    case h_3 name param s t i body =>
      have knownName := part name (.head _)
      have knownParam := part param (.tail _ (.head _))
      have knownBody := known_part text root _ (part (.mk .functionBody s t i body) (.tail _ (.tail _ (.head _))))
      have keyed := parts_pass text _ exact .setterProperty rfl startsWithKey (by decide +kernel)
      have rule : param.rule = .identifier :=
        Option.some.inj (part_at text _ _ _ _ _ exact 3 1 _ (by decide +kernel) rfl)
      refine builds_bind text root _ _ _ _ (builds_key text root name) fun key => ?_
      refine builds_get text root _ _ fun b => ?_
      refine builds_bind text root _ _ _ _ (builds_function text root genuine b.scope none all_absent [param]
        (all_cons ⟨knownParam, rule⟩ all_none) _ body knownBody _
        (below.statements true body (by omega) knownBody)) fun code => ?_
      refine builds_bind text root _ _ _ _ (builds_note text root seen key .setter start) fun seen => ?_
      refine builds_bind text root _ _ _ _ (below.properties seen rest (by omega) remaining) fun others => ?_
      refine builds_pure text root _ _ fun strict later notes built free => ⟨⟨?_, fun isStrict => ?_⟩, ?_⟩
      · exact all_cons (function_holds strict _ code none built.1) later.1.holds
      · refine all_cons (composite_decimal rfl ?_) (later.1.decimal isStrict)
        exact all_cons (key_decimal name knownName keyed (free isStrict))
          (all_cons (identifier_decimal param knownParam rule)
            (all_cons (composite_decimal rfl (built.2 isStrict)) all_none))
      · exact keys_with_accessor strict _ seen key .setter _ others PropertyKind.noConfusion notes.2 later.2
    case h_4 => exact builds_fail text root _ _ _

end

end

end Ecma.Syntax
