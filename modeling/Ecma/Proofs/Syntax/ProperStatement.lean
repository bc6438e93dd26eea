import Ecma.Proofs.Syntax.ProperExpression

set_option autoImplicit false

/-!
What is built from the nodes of a parsed text is proper: statements, and with them the induction on the size
of the nodes, over all kinds of parts at once.
-/

namespace Ecma.Syntax

open Ecma.Grammar Ecma.Scope Build

section

variable {text : List Char} {root : Node Rule}

/-! Statements from their parts. -/

/-- A part that may stand inside a statement. -/
structure Part.Placed (text : List Char) (root : Node Rule) (strict : Bool) (part : Part) : Prop where
  holds : part.Holds text root strict
  placed : strict = true → part.isDeclaration = false

theorem statement_holds (strict : Bool) (s : Statement) (g : Goals) (own : List String)
    (bound : ∀ name ∈ s.bound, Bindable text strict name) (label : ∀ name ∈ s.label, Mentionable text strict name)
    (law : strict = true → s.Lawful) (inner : ∀ part ∈ s.parts g own, part.Placed text root strict) :
    (Part.statement g own s).Holds text root strict := by
  have named : ∀ name ∈ (Part.statement g own s).names, Mentionable text strict name := by
    intro name member
    rcases List.mem_append.mp member with here | mentioned
    · exact (bound name here).1
    · exact label name (Option.mem_toList.mp mentioned)
  refine .mk strict _ ⟨?_, fun name member => (named name member).1, fun isStrict => isStrict, fun isStrict =>
    ⟨fun name member => (named name member).2 isStrict, fun name member => (bound name member).2 isStrict, ?_, ?_, ?_,
      ?_⟩⟩ fun part member => (inner part member).holds
  · rintro _ ⟨⟩
  · rintro _ ⟨⟩
  · rintro _ _ _ ⟨rfl⟩
    exact ⟨law isStrict, fun part member => (inner part member).placed isStrict⟩
  · rintro _ ⟨⟩
  · rintro _ ⟨⟩

theorem expressions_placed (strict : Bool) (es : List Expression)
    (all : ∀ e ∈ es, (Part.expression e).Holds text root strict) :
    ∀ part ∈ Part.expressions es, part.Placed text root strict := by
  intro part member
  obtain ⟨e, among, rfl⟩ := List.mem_map.mp member
  exact ⟨all e among, fun _ => rfl⟩

theorem statements_placed (strict : Bool) (g : Goals) (body : List Statement)
    (all : ∀ s ∈ body, Inner text root strict s) :
    ∀ part ∈ Part.statements g body, part.Placed text root strict := by
  intro part member
  obtain ⟨s, among, rfl⟩ := List.mem_map.mp member
  exact ⟨(all s among).holds g [], fun isStrict => (all s among).placed isStrict g []⟩

theorem all_both {γ : Type} {p : γ → Prop} {first second : List γ} (one : ∀ x ∈ first, p x)
    (two : ∀ x ∈ second, p x) : ∀ x ∈ first ++ second, p x :=
  List.forall_mem_append.mpr ⟨one, two⟩

theorem all_optional {γ : Type} {p : γ → Prop} {a : Option γ} (all : ∀ x ∈ a, p x) : ∀ x ∈ a.toList, p x :=
  fun x member => all x (Option.mem_toList.mp member)

theorem inits_hold (strict : Bool) (ds : List Declarator) (all : ∀ d ∈ ds, DeclaratorBuilt text root strict d) :
    ∀ e ∈ ds.filterMap Declarator.init, (Part.expression e).Holds text root strict := by
  intro e member
  obtain ⟨d, among, init⟩ := List.mem_filterMap.mp member
  exact (all d among).init e init

theorem names_bindable (strict : Bool) (ds : List Declarator) (all : ∀ d ∈ ds, DeclaratorBuilt text root strict d) :
    ∀ name ∈ ds.map fun d => d.id.name, Bindable text strict name := by
  intro name member
  obtain ⟨d, among, rfl⟩ := List.mem_map.mp member
  exact (all d among).bound

theorem clauses_placed (strict : Bool) (g : Goals) (clauses : List Clause)
    (all : ∀ clause ∈ clauses, ClauseBuilt text root strict clause) :
    ∀ part ∈ clauses.flatMap (Clause.parts g), part.Placed text root strict := by
  intro part member
  obtain ⟨clause, among, inside⟩ := List.mem_flatMap.mp member
  have built := all clause among
  exact all_both (expressions_placed strict _ (all_optional built.test)) (statements_placed strict g _ built.body)
    part inside

theorem handled_inner (strict : Bool) (handler : Option Handler)
    (all : ∀ h ∈ handler, HandlerBuilt text root strict h) :
    ∀ s ∈ handler.toList.flatMap Handler.body, Inner text root strict s := by
  intro s member
  obtain ⟨h, among, inside⟩ := List.mem_flatMap.mp member
  exact (all h (Option.mem_toList.mp among)).body s inside

/-! Statements and nodes. -/

theorem built_inner (strict : Bool) (node : Node Rule) (s : Statement) (built : Built text root strict false node s) :
    Inner text root strict s :=
  ⟨built.holds, fun isStrict => built.placed isStrict rfl⟩

theorem body_inner (strict : Bool) (nodes : Nodes) (body : List Statement)
    (built : BodyBuilt text root strict false nodes body) : ∀ s ∈ body, Inner text root strict s := by
  intro s member
  obtain ⟨node, _, one⟩ := built.built s member
  exact built_inner strict node s one

section

variable {name : Rule} {start stop : Nat} {input : List Char} {parts : Nodes} (strict top : Bool) (s : Statement)
  (other : isOther name = true) (span : s.span = ⟨start, stop⟩)
  (plain : ∀ g own, (Part.statement g own s).isDeclaration = false)
  (inner : ∀ g own, ∀ part ∈ s.parts g own, part.Placed text root strict)
  (decimal : strict = true → ∀ part ∈ parts, Decimal part)
include other span plain inner decimal

-- A statement that declares no function, and a node that is no literal itself.
theorem statement_built (bound : ∀ name ∈ s.bound, Bindable text strict name)
    (label : ∀ name ∈ s.label, Mentionable text strict name) (law : strict = true → s.Lawful) :
    Built text root strict top (.mk name start stop input parts) s :=
  ⟨fun g own => statement_holds strict s g own bound label law (inner g own), fun _ _ => plain, span,
    not_literal _ other, fun isStrict => composite_decimal other (decimal isStrict)⟩

-- A statement without names that no law is about.
theorem plain_built (unbound : s.bound = []) (unlabelled : s.label = none) (lawful : s.Lawful) :
    Built text root strict top (.mk name start stop input parts) s := by
  refine statement_built strict top s other span plain inner decimal ?_ ?_ fun _ => lawful
  · rw [unbound]
    exact all_none
  · rw [unlabelled]
    exact all_absent

end

theorem trying_built {start stop : Nat} {input : List Char} {parts : Nodes} (strict top : Bool) (body : List Statement)
    (handler : Option Handler) (finalizer : Option (List Statement)) (first : ∀ s ∈ body, Inner text root strict s)
    (second : ∀ h ∈ handler, HandlerBuilt text root strict h)
    (third : ∀ last ∈ finalizer, ∀ s ∈ last, Inner text root strict s)
    (decimal : strict = true → ∀ part ∈ parts, Decimal part) :
    Built text root strict top (.mk .tryStatement start stop input parts)
      (.trying ⟨start, stop⟩ body handler finalizer) := by
  refine statement_built strict top _ rfl rfl (fun _ _ => rfl) (fun g own => ?_) decimal
    ?_ all_absent fun _ => trivial
  · refine statements_placed strict g _ (all_both first (all_both (handled_inner strict handler second) ?_))
    intro s member
    obtain ⟨last, among, inside⟩ := List.mem_flatten.mp member
    exact third last (Option.mem_toList.mp among) s inside
  · intro name member
    obtain ⟨h, among, rfl⟩ := List.mem_map.mp member
    exact (second h (Option.mem_toList.mp among)).bound

/-! Functions and names. -/

theorem declared_builds (genuine : root.Genuine ecmascript text) (name : Node Rule) (knownName : Known text root name)
    (rule : name.rule = .identifier) (s t : Nat) (i : List Char) (params : Nodes)
    (knownParams : Known text root (.mk .formalParameters s t i params)) (span : Span) (body : Nodes)
    (knownBody : ∀ node ∈ body, Known text root node) (build : Build (List Statement))
    (builds : Builds text root (fun strict result => BodyBuilt text root strict true body result) build) :
    Builds text root (fun strict s => Statement.function span = s ∧ (strict = true → ∀ node ∈ body, Decimal node)) (do
      let outer := (← get).code.scope
      let code ← functionCode outer (some name) params span body build
      modifyCode fun c => { c with functions := c.functions ++ [code] }
      return Statement.function span) := by
  refine builds_get text root _ _ fun b => ?_
  intro b s after good ended
  obtain ⟨code, between, first, ended⟩ := build_bind _ _ b after s ended
  obtain ⟨good, same, holds, decimal⟩ := builds_function text root genuine _ (some name) (all_some ⟨knownName, rule⟩)
    params (parameters_known _ _ _ params knownParams) span body knownBody build builds b code between good first
  cases ended
  refine ⟨⟨good.source, all_both good.functions (all_cons ?_ all_none), good.variables⟩, same, rfl, decimal⟩
  change (Part.code code).Holds text root between.code.strict
  rw [same]
  exact holds

theorem final_decimal {start stop start' stop' : Nat} {input input' : List Char} {last : Nodes}
    (decimal : ∀ node ∈ last, Decimal node) :
    Decimal (.mk .finallyClause start stop input [.mk .block start' stop' input' last]) :=
  composite_decimal rfl
    (all_cons (composite_decimal rfl decimal) all_none)

section

variable (n : Nat) (below : BuildsBelow text root n)
include below

theorem statements_builds (top : Bool) (nodes : Nodes) (size : sizeOf nodes < n + 1)
    (known : ∀ node ∈ nodes, Known text root node) :
    Builds text root (fun strict body => BodyBuilt text root strict top nodes body) (statements top nodes) := by
  cases nodes with
  | nil =>
    rw [statements]
    exact builds_pure text root _ _ fun _ => ⟨all_none, fun _ => all_none⟩
  | cons node rest =>
    rw [List.cons.sizeOf_spec] at size
    rw [statements]
    refine builds_bind text root _ _ _ _ (below.statement top node (by omega) (known node (.head _))) fun s => ?_
    refine builds_bind text root _ _ _ _
      (below.statements top rest (by omega) fun node member => known node (.tail _ member)) fun others => ?_
    refine builds_pure text root _ _ fun strict later first => ⟨?_, fun isStrict => ?_⟩
    · refine all_cons ⟨node, .head _, first⟩ fun s member => ?_
      obtain ⟨other, among, built⟩ := later.built s member
      exact ⟨other, .tail _ among, built⟩
    · exact all_cons (first.decimal isStrict) (later.decimal isStrict)

theorem declarator_builds (node : Node Rule) (size : sizeOf node < n + 1) (known : Known text root node) :
    Builds text root (fun strict d => DeclaratorBuilt text root strict d ∧ (strict = true → Decimal node))
      (declarator node) := by
  have part := known_part text root node known
  have exact := known.genuine
  obtain ⟨rule, start, stop, input, parts⟩ := node
  unfold declarator
  dsimp only
  split <;> try simp only [Node.mk.sizeOf_spec, List.cons.sizeOf_spec, List.nil.sizeOf_spec] at size
  case h_1 name =>
    have knownName := part name (.head _)
    have rule : name.rule = .identifier :=
      Option.some.inj (part_at text _ _ _ _ _ exact 1 0 _ (by decide +kernel) rfl)
    refine builds_bind text root _ _ _ _ (builds_declare text root name knownName rule) fun id => ?_
    refine builds_pure text root _ _ fun strict bindable => ⟨⟨bindable, all_absent⟩, fun _ => ?_⟩
    exact composite_decimal rfl
      (all_cons (identifier_decimal name knownName rule) all_none)
  case h_2 name value =>
    have knownName := part name (.head _)
    have rule : name.rule = .identifier :=
      Option.some.inj (part_at text _ _ _ _ _ exact 2 0 _ (by decide +kernel) rfl)
    refine builds_bind text root _ _ _ _ (builds_declare text root name knownName rule) fun id => ?_
    refine builds_bind text root _ _ _ _ (builds_refer text root id.name) fun _ => ?_
    refine builds_bind text root _ _ _ _
      (below.expression value (by omega) (part value (.tail _ (.head _)))) fun e => ?_
    refine builds_pure text root _ _ fun strict built _ bindable =>
      ⟨⟨bindable, all_some built.holds⟩, fun isStrict => ?_⟩
    exact composite_decimal rfl
      (all_cons (identifier_decimal name knownName rule) (all_cons (built.decimal isStrict) all_none))
  case h_3 => exact builds_fail text root _ _ _

theorem declarators_builds (nodes : Nodes) (size : sizeOf nodes < n + 1) (known : ∀ node ∈ nodes, Known text root node) :
    Builds text root (fun strict ds => (∀ d ∈ ds, DeclaratorBuilt text root strict d) ∧
      (strict = true → ∀ node ∈ nodes, Decimal node)) (declarators nodes) := by
  cases nodes with
  | nil =>
    rw [declarators]
    exact builds_pure text root _ _ fun _ => ⟨all_none, fun _ => all_none⟩
  | cons node rest =>
    rw [List.cons.sizeOf_spec] at size
    rw [declarators]
    refine builds_bind text root _ _ _ _ (below.declarator node (by omega) (known node (.head _))) fun d => ?_
    refine builds_bind text root _ _ _ _
      (below.declarators rest (by omega) fun node member => known node (.tail _ member)) fun others => ?_
    exact builds_pure text root _ _ fun strict later first => ⟨all_cons first.1 later.1,
      fun isStrict => all_cons (first.2 isStrict) (later.2 isStrict)⟩

theorem for_parts_builds (loop : ForParts) (nodes : Nodes) (size : sizeOf nodes < n + 1)
    (known : ∀ node ∈ nodes, Known text root node) :
    Builds text root (fun strict whole => loop.Built text root strict → whole.Built text root strict ∧
      (strict = true → ∀ node ∈ nodes, Decimal node)) (forParts loop nodes) := by
  unfold forParts
  split <;> try simp only [Node.mk.sizeOf_spec, List.cons.sizeOf_spec, List.nil.sizeOf_spec] at size
  case h_1 => exact builds_pure text root _ _ fun _ holds => ⟨holds, fun _ => all_none⟩
  case h_2 s t i s' t' i' items rest =>
    have part := known_part text root _ (known _ (.head _))
    have inside := known_part text root _ (part (.mk .variableDeclarationList s' t' i' items) (.head _))
    refine builds_bind text root _ _ _ _ (below.declarators items (by omega) inside) fun ds => ?_
    refine builds_weaker text root _ _ _ (below.forParts { loop with init := .«variables» ds } rest (by omega)
      fun node member => known node (.tail _ member)) fun strict whole next built holds => ?_
    obtain ⟨wholeBuilt, decimal⟩ := next
      ⟨names_bindable strict ds built.1, inits_hold strict ds built.1, holds.test, holds.update, holds.body⟩
    refine ⟨wholeBuilt, fun isStrict => all_cons ?_ (decimal isStrict)⟩
    exact composite_decimal rfl (all_cons
      (composite_decimal rfl (built.2 isStrict)) all_none)
  case h_3 e rest _ =>
    have part := known_part text root _ (known _ (.head _))
    refine builds_bind text root _ _ _ _ (below.expression e (by omega) (part e (.head _))) fun e => ?_
    refine builds_weaker text root _ _ _ (below.forParts { loop with init := .expression e } rest (by omega)
      fun node member => known node (.tail _ member)) fun strict whole next built holds => ?_
    obtain ⟨wholeBuilt, decimal⟩ := next
      ⟨all_none, all_cons built.holds all_none, holds.test, holds.update, holds.body⟩
    refine ⟨wholeBuilt, fun isStrict => all_cons ?_ (decimal isStrict)⟩
    exact composite_decimal rfl (all_cons (built.decimal isStrict) all_none)
  case h_4 e rest =>
    have part := known_part text root _ (known _ (.head _))
    refine builds_bind text root _ _ _ _ (below.expression e (by omega) (part e (.head _))) fun e => ?_
    refine builds_weaker text root _ _ _ (below.forParts { loop with test := some e } rest (by omega)
      fun node member => known node (.tail _ member)) fun strict whole next built holds => ?_
    obtain ⟨wholeBuilt, decimal⟩ := next
      ⟨holds.bound, holds.init, all_some built.holds, holds.update, holds.body⟩
    refine ⟨wholeBuilt, fun isStrict => all_cons ?_ (decimal isStrict)⟩
    exact composite_decimal rfl (all_cons (built.decimal isStrict) all_none)
  case h_5 e rest =>
    have part := known_part text root _ (known _ (.head _))
    refine builds_bind text root _ _ _ _ (below.expression e (by omega) (part e (.head _))) fun e => ?_
    refine builds_weaker text root _ _ _ (below.forParts { loop with update := some e } rest (by omega)
      fun node member => known node (.tail _ member)) fun strict whole next built holds => ?_
    obtain ⟨wholeBuilt, decimal⟩ := next
      ⟨holds.bound, holds.init, holds.test, all_some built.holds, holds.body⟩
    refine ⟨wholeBuilt, fun isStrict => all_cons ?_ (decimal isStrict)⟩
    exact composite_decimal rfl (all_cons (built.decimal isStrict) all_none)
  case h_6 body rest _ _ _ _ =>
    refine builds_bind text root _ _ _ _ (builds_loop text root _ _
      (below.statement false body (by omega) (known body (.head _)))) fun s => ?_
    refine builds_weaker text root _ _ _ (below.forParts { loop with body := some s } rest (by omega)
      fun node member => known node (.tail _ member)) fun strict whole next built holds => ?_
    obtain ⟨wholeBuilt, decimal⟩ := next
      ⟨holds.bound, holds.init, holds.test, holds.update, all_some (built_inner strict body s built)⟩
    exact ⟨wholeBuilt, fun isStrict => all_cons (built.decimal isStrict) (decimal isStrict)⟩

theorem clauses_builds (seen : Bool) (nodes : Nodes) (size : sizeOf nodes < n + 1)
    (known : ∀ node ∈ nodes, Known text root node) :
    Builds text root (fun strict items => (∀ clause ∈ items, ClauseBuilt text root strict clause) ∧
      (strict = true → ∀ node ∈ nodes, Decimal node)) (clauses seen nodes) := by
  cases nodes with
  | nil =>
    rw [clauses]
    exact builds_pure text root _ _ fun _ => ⟨all_none, fun _ => all_none⟩
  | cons node rest =>
    have part := known_part text root node (known node (.head _))
    have remaining : ∀ node ∈ rest, Known text root node := fun node member => known node (.tail _ member)
    obtain ⟨rule, start, stop, input, parts⟩ := node
    unfold clauses
    dsimp only
    split <;> try simp only [Node.mk.sizeOf_spec, List.cons.sizeOf_spec] at size
    case h_1 =>
      cases seen with
      | true => exact builds_fail_then text root _ _ _ _
      | false =>
        refine builds_bind text root _ _ _ _ (below.statements false parts (by omega) part) fun body => ?_
        refine builds_bind text root _ _ _ _ (below.clauses true rest (by omega) remaining) fun others => ?_
        refine builds_pure text root _ _ fun strict later built => ⟨?_, fun isStrict => ?_⟩
        · exact all_cons ⟨all_absent, body_inner strict parts body built⟩ later.1
        · exact all_cons (composite_decimal rfl (built.decimal isStrict))
            (later.2 isStrict)
    case h_2 test body =>
      refine builds_bind text root _ _ _ _ (below.expression test (by omega) (part test (.head _))) fun e => ?_
      refine builds_bind text root _ _ _ _
        (below.statements false body (by omega) fun node member => part node (.tail _ member)) fun statements => ?_
      refine builds_bind text root _ _ _ _ (below.clauses seen rest (by omega) remaining) fun others => ?_
      refine builds_pure text root _ _ fun strict later built first => ⟨?_, fun isStrict => ?_⟩
      · exact all_cons ⟨all_some first.holds, body_inner strict body statements built⟩ later.1
      · exact all_cons (composite_decimal rfl
          (all_cons (first.decimal isStrict) (built.decimal isStrict))) (later.2 isStrict)
    case h_3 => exact builds_fail text root _ _ _

theorem handler_builds (node : Node Rule) (size : sizeOf node < n + 1) (known : Known text root node) :
    Builds text root (fun strict h => HandlerBuilt text root strict h ∧ (strict = true → Decimal node))
      (handler node) := by
  have part := known_part text root node known
  have exact := known.genuine
  obtain ⟨rule, start, stop, input, parts⟩ := node
  unfold handler
  dsimp only
  split <;> try simp only [Node.mk.sizeOf_spec, List.cons.sizeOf_spec, List.nil.sizeOf_spec] at size
  case h_1 param s t i body =>
    have knownParam := part param (.head _)
    have knownBody := known_part text root _ (part (.mk .block s t i body) (.tail _ (.head _)))
    have rule : param.rule = .identifier :=
      Option.some.inj (part_at text _ _ _ _ _ exact 2 0 _ (by decide +kernel) rfl)
    refine builds_bind text root _ _ _ _ (builds_strict text root) fun is => ?_
    refine builds_bind text root _ _ _ _ (builds_binding text root param knownParam rule is) fun name => ?_
    refine builds_get text root _ _ fun b => ?_
    refine builds_bind text root _ _ _ _ (builds_scope text root .handler b.scope) fun scope => ?_
    refine builds_bind text root _ _ _ _ (builds_scopes text root _) fun _ => ?_
    refine builds_bind text root _ _ _ _ (builds_within text root _ scope _
      (below.statements false body (by omega) knownBody)) fun statements => ?_
    refine builds_pure text root _ _ fun strict built _ _ bindable same => ⟨⟨?_, ?_⟩, fun isStrict => ?_⟩
    · rw [← same]
      exact bindable
    · exact body_inner strict body statements built
    · exact composite_decimal rfl (all_cons (identifier_decimal param knownParam rule)
        (all_cons (composite_decimal rfl (built.decimal isStrict)) all_none))
  case h_2 => exact builds_fail text root _ _ _

theorem statement_builds (genuine : root.Genuine ecmascript text) (top : Bool) (node : Node Rule)
    (size : sizeOf node < n + 1) (known : Known text root node) :
    Builds text root (fun strict s => Built text root strict top node s) (statement top node) := by
  have part := known_part text root node known
  have exact := known.genuine
  obtain ⟨rule, start, stop, input, parts⟩ := node
  unfold statement
  dsimp only
  split <;> try simp only [Node.mk.sizeOf_spec, List.cons.sizeOf_spec, List.nil.sizeOf_spec] at size
  case h_1 =>
    refine builds_bind text root _ _ _ _ (below.statements false parts (by omega) part) fun body => ?_
    refine builds_pure text root _ _ fun strict built => plain_built strict top _ rfl rfl (fun _ _ => rfl)
      (fun g own => ?_) built.decimal rfl rfl trivial
    exact statements_placed strict g body (body_inner strict parts body built)
  case h_2 s t i items =>
    have inside := known_part text root _ (part (.mk .variableDeclarationList s t i items) (.head _))
    refine builds_bind text root _ _ _ _ (below.declarators items (by omega) inside) fun ds => ?_
    refine builds_pure text root _ _ fun strict built => statement_built strict top _ rfl rfl (fun _ _ => rfl)
      (fun g own => ?_) (fun isStrict => ?_) (names_bindable strict ds built.1) all_absent fun _ => trivial
    · exact expressions_placed strict _ (inits_hold strict ds built.1)
    · exact all_cons (composite_decimal rfl (built.2 isStrict)) all_none
  case h_3 =>
    have none : parts = [] := parts_none text _ exact .emptyStatement rfl rfl
    refine builds_pure text root _ _ fun strict => plain_built strict top _ rfl rfl (fun _ _ => rfl)
      (fun _ _ => all_none) (fun _ => ?_) rfl rfl trivial
    rw [none]
    exact all_none
  case h_4 name s t i params s' t' i' body =>
    have knownParams := part (.mk .formalParameters s t i params) (.tail _ (.head _))
    have knownName := part name (.head _)
    have knownBody := known_part text root _ (part (.mk .functionBody s' t' i' body) (.tail _ (.tail _ (.head _))))
    have rule : name.rule = .identifier :=
      Option.some.inj (part_at text _ _ _ _ _ exact 3 0 _ (by decide +kernel) rfl)
    have declares := declared_builds genuine name knownName rule s t i params knownParams ⟨start, stop⟩ body knownBody _
      (below.statements true body (by omega) knownBody)
    have whole (top strict : Bool) (outside : top = false → strict = false)
        (decimal : strict = true → ∀ node ∈ body, Decimal node) :
        Built text root strict top (.mk .functionDeclaration start stop input
          [name, .mk .formalParameters s t i params, .mk .functionBody s' t' i' body]) (.function ⟨start, stop⟩) := by
      refine ⟨fun g own => ?_, fun isStrict inside => ?_, rfl,
        not_literal _ rfl, fun isStrict => ?_⟩
      · exact statement_holds strict _ g own all_none all_absent (fun _ => trivial) all_none
      · cases (outside inside).symm.trans isStrict
      · exact composite_decimal rfl (all_cons (identifier_decimal name knownName rule)
          (all_cons (parameters_decimal s t i params knownParams)
            (all_cons (composite_decimal rfl (decimal isStrict)) all_none)))
    cases top with
    | true =>
      exact builds_weaker text root _ _ _ declares fun strict s built =>
        built.1 ▸ whole true strict Bool.noConfusion built.2
    | false =>
      refine builds_bind text root _ _ _ _ (builds_strict text root) fun strict => ?_
      cases strict with
      | true => exact builds_fail_then text root _ _ _ _
      | false =>
        exact builds_weaker text root _ _ _ declares fun strict s built sloppy =>
          built.1 ▸ whole false strict (fun _ => sloppy.symm) built.2
  case h_5 e =>
    refine builds_bind text root _ _ _ _ (below.expression e (by omega) (part e (.head _))) fun value => ?_
    refine builds_pure text root _ _ fun strict built => plain_built strict top _ rfl rfl (fun _ _ => rfl)
      (fun _ _ => ?_) (fun isStrict => ?_) rfl rfl trivial
    · exact expressions_placed strict [value] (all_cons built.holds all_none)
    · exact all_cons (built.decimal isStrict) all_none
  case h_6 test yes =>
    refine builds_bind text root _ _ _ _ (below.expression test (by omega) (part test (.head _))) fun e => ?_
    refine builds_bind text root _ _ _ _
      (below.statement false yes (by omega) (part yes (.tail _ (.head _)))) fun first => ?_
    refine builds_pure text root _ _ fun strict one built => plain_built strict top _ rfl rfl (fun _ _ => rfl)
      (fun g _ => ?_) (fun isStrict => ?_) rfl rfl trivial
    · exact all_both (expressions_placed strict [e] (all_cons built.holds all_none))
        (statements_placed strict g [first] (all_cons (built_inner strict yes first one) all_none))
    · exact all_cons (built.decimal isStrict) (all_cons (one.decimal isStrict) all_none)
  case h_7 test yes no =>
    refine builds_bind text root _ _ _ _ (below.expression test (by omega) (part test (.head _))) fun e => ?_
    refine builds_bind text root _ _ _ _
      (below.statement false yes (by omega) (part yes (.tail _ (.head _)))) fun first => ?_
    refine builds_bind text root _ _ _ _
      (below.statement false no (by omega) (part no (.tail _ (.tail _ (.head _))))) fun second => ?_
    refine builds_pure text root _ _ fun strict two one built => plain_built strict top _ rfl rfl (fun _ _ => rfl)
      (fun g _ => ?_) (fun isStrict => ?_) rfl rfl trivial
    · exact all_both (expressions_placed strict [e] (all_cons built.holds all_none))
        (statements_placed strict g [first, second] (all_cons (built_inner strict yes first one)
          (all_cons (built_inner strict no second two) all_none)))
    · exact all_cons (built.decimal isStrict) (all_cons (one.decimal isStrict) (all_cons (two.decimal isStrict) all_none))
  case h_8 body test =>
    refine builds_bind text root _ _ _ _ (builds_loop text root _ _
      (below.statement false body (by omega) (part body (.head _)))) fun first => ?_
    refine builds_bind text root _ _ _ _
      (below.expression test (by omega) (part test (.tail _ (.head _)))) fun e => ?_
    refine builds_pure text root _ _ fun strict built one => plain_built strict top _ rfl rfl (fun _ _ => rfl)
      (fun g _ => ?_) (fun isStrict => ?_) rfl rfl trivial
    · exact all_both (expressions_placed strict [e] (all_cons built.holds all_none))
        (statements_placed strict g.inLoop [first] (all_cons (built_inner strict body first one) all_none))
    · exact all_cons (one.decimal isStrict) (all_cons (built.decimal isStrict) all_none)
  case h_9 test body =>
    refine builds_bind text root _ _ _ _ (below.expression test (by omega) (part test (.head _))) fun e => ?_
    refine builds_bind text root _ _ _ _ (builds_loop text root _ _
      (below.statement false body (by omega) (part body (.tail _ (.head _))))) fun first => ?_
    refine builds_pure text root _ _ fun strict one built => plain_built strict top _ rfl rfl (fun _ _ => rfl)
      (fun g _ => ?_) (fun isStrict => ?_) rfl rfl trivial
    · exact all_both (expressions_placed strict [e] (all_cons built.holds all_none))
        (statements_placed strict g.inLoop [first] (all_cons (built_inner strict body first one) all_none))
    · exact all_cons (built.decimal isStrict) (all_cons (one.decimal isStrict) all_none)
  case h_10 =>
    refine builds_bind text root _ _ _ _ (below.forParts {} parts (by omega) part) fun loop => ?_
    obtain ⟨init, test, update, body⟩ := loop
    cases body with
    | none => exact builds_fail text root _ _ _
    | some body =>
      refine builds_pure text root _ _ fun strict whole => ?_
      obtain ⟨built, decimal⟩ := whole ⟨all_none, all_none, all_absent, all_absent, all_absent⟩
      refine statement_built strict top _ rfl rfl (fun _ _ => rfl) (fun g _ => ?_) decimal
        built.bound all_absent fun _ => trivial
      exact all_both (expressions_placed strict _ (all_both built.init
          (all_both (all_optional built.test) (all_optional built.update))))
        (statements_placed strict g.inLoop [body] (all_cons (built.body body rfl) all_none))
  case h_11 s t i declared object body =>
    have inside := known_part text root _ (part (.mk .forVarDeclaration s t i [declared]) (.head _))
    refine builds_bind text root _ _ _ _ (below.declarator declared (by omega) (inside declared (.head _))) fun d => ?_
    obtain ⟨s, id, init⟩ := d
    refine builds_bind text root _ _ _ _ (builds_refer text root id.name) fun _ => ?_
    refine builds_bind text root _ _ _ _
      (below.expression object (by omega) (part object (.tail _ (.head _)))) fun e => ?_
    refine builds_bind text root _ _ _ _ (builds_loop text root _ _
      (below.statement false body (by omega) (part body (.tail _ (.tail _ (.head _)))))) fun first => ?_
    refine builds_pure text root _ _ fun strict one built _ declares => statement_built strict top _
      rfl rfl (fun _ _ => rfl) (fun g _ => ?_) (fun isStrict => ?_)
      (all_cons declares.1.bound all_none) all_absent fun _ => trivial
    · exact all_both (expressions_placed strict _ (all_both (all_optional declares.1.init) (all_cons built.holds all_none)))
        (statements_placed strict g.inLoop [first] (all_cons (built_inner strict body first one) all_none))
    · exact all_cons (composite_decimal rfl (all_cons (declares.2 isStrict) all_none))
        (all_cons (built.decimal isStrict) (all_cons (one.decimal isStrict) all_none))
  case h_12 target object body _ =>
    refine builds_bind text root _ _ _ _ (below.expression target (by omega) (part target (.head _))) fun e => ?_
    refine builds_bind text root _ _ _ _ (builds_target text root e target) fun _ => ?_
    refine builds_bind text root _ _ _ _
      (below.expression object (by omega) (part object (.tail _ (.head _)))) fun names => ?_
    refine builds_bind text root _ _ _ _ (builds_loop text root _ _
      (below.statement false body (by omega) (part body (.tail _ (.tail _ (.head _)))))) fun first => ?_
    refine builds_pure text root _ _ fun strict one built able assigned => statement_built strict top _
      rfl rfl (fun _ _ => rfl) (fun g _ => ?_) (fun isStrict => ?_) all_none all_absent able
    · exact all_both (expressions_placed strict [e, names] (all_cons assigned.holds (all_cons built.holds all_none)))
        (statements_placed strict g.inLoop [first] (all_cons (built_inner strict body first one) all_none))
    · exact all_cons (assigned.decimal isStrict)
        (all_cons (built.decimal isStrict) (all_cons (one.decimal isStrict) all_none))
  case h_13 | h_15 | h_17 =>
    refine builds_get text root _ _ fun b => ?_
    split
    · exact builds_fail_then text root _ _ _ _
    · exact builds_pure text root _ _ fun strict => plain_built strict top _ rfl rfl (fun _ _ => rfl)
        (fun _ _ => all_none) (fun _ => all_none) rfl rfl trivial
  case h_14 label =>
    have knownLabel := part label (.head _)
    have rule : label.rule = .identifier :=
      Option.some.inj (part_at text _ _ _ _ _ exact 1 0 _ (by decide +kernel) rfl)
    refine builds_bind text root _ _ _ _ (builds_continue text root label knownLabel rule) fun name => ?_
    refine builds_get text root _ _ fun b => ?_
    split
    · exact builds_fail_then text root _ _ _ _
    · exact builds_pure text root _ _ fun strict mentionable => statement_built strict top _
        rfl rfl (fun _ _ => rfl) (fun _ _ => all_none)
        (fun _ => all_cons (identifier_decimal label knownLabel rule) all_none) all_none (all_some mentionable)
        fun _ => trivial
  case h_16 label =>
    have knownLabel := part label (.head _)
    have rule : label.rule = .identifier :=
      Option.some.inj (part_at text _ _ _ _ _ exact 1 0 _ (by decide +kernel) rfl)
    refine builds_bind text root _ _ _ _ (builds_break text root label knownLabel rule) fun name => ?_
    exact builds_pure text root _ _ fun strict mentionable => statement_built strict top _
      rfl rfl (fun _ _ => rfl) (fun _ _ => all_none)
      (fun _ => all_cons (identifier_decimal label knownLabel rule) all_none) all_none (all_some mentionable)
      fun _ => trivial
  case h_18 value =>
    refine builds_get text root _ _ fun b => ?_
    split
    · exact builds_fail_then text root _ _ _ _
    · refine builds_bind text root _ _ _ _ (below.expression value (by omega) (part value (.head _))) fun e => ?_
      refine builds_pure text root _ _ fun strict built => plain_built strict top _ rfl rfl (fun _ _ => rfl)
        (fun _ _ => ?_) (fun isStrict => ?_) rfl rfl trivial
      · exact expressions_placed strict [e] (all_cons built.holds all_none)
      · exact all_cons (built.decimal isStrict) all_none
  case h_19 object body =>
    refine builds_bind text root _ _ _ _ (builds_strict text root) fun strict => ?_
    cases strict with
    | true => exact builds_fail_then text root _ _ _ _
    | false =>
      refine builds_bind text root _ _ _ _ (below.expression object (by omega) (part object (.head _))) fun e => ?_
      refine builds_bind text root (fun _ _ => True) _ _ _
        (builds_change text root _ (fun _ => rfl) (fun _ => rfl) (fun _ => rfl) fun _ => rfl) fun _ => ?_
      refine builds_get text root _ _ fun b => ?_
      refine builds_bind text root _ _ _ _ (builds_scope text root .withObject b.scope) fun scope => ?_
      refine builds_bind text root _ _ _ _ (builds_within text root _ scope _
        (below.statement false body (by omega) (part body (.tail _ (.head _))))) fun first => ?_
      refine builds_pure text root _ _ fun strict one _ _ built sloppy => statement_built strict top _
        rfl rfl (fun _ _ => rfl) (fun g _ => ?_) (fun isStrict => ?_) all_none all_absent fun isStrict => ?_
      · exact all_both (expressions_placed strict [e] (all_cons built.holds all_none))
          (statements_placed strict g [first] (all_cons (built_inner strict body first one) all_none))
      · exact all_cons (built.decimal isStrict) (all_cons (one.decimal isStrict) all_none)
      · cases sloppy.trans isStrict
  case h_20 subject items =>
    refine builds_bind text root _ _ _ _ (below.expression subject (by omega) (part subject (.head _))) fun e => ?_
    refine builds_bind text root _ _ _ _ (builds_switch text root _ _
      (below.clauses false items (by omega) fun node member => part node (.tail _ member))) fun clauses => ?_
    refine builds_pure text root _ _ fun strict chosen built => plain_built strict top _ rfl rfl (fun _ _ => rfl)
      (fun g _ => ?_) (fun isStrict => ?_) rfl rfl trivial
    · exact all_both (expressions_placed strict [e] (all_cons built.holds all_none))
        (clauses_placed strict g.inSwitch clauses chosen.1)
    · exact all_cons (built.decimal isStrict) (chosen.2 isStrict)
  case h_21 value =>
    refine builds_bind text root _ _ _ _ (below.expression value (by omega) (part value (.head _))) fun e => ?_
    refine builds_pure text root _ _ fun strict built => plain_built strict top _ rfl rfl (fun _ _ => rfl)
      (fun _ _ => ?_) (fun isStrict => ?_) rfl rfl trivial
    · exact expressions_placed strict [e] (all_cons built.holds all_none)
    · exact all_cons (built.decimal isStrict) all_none
  case h_22 s t i body s' t' i' s'' t'' i'' last =>
    have knownBody := known_part text root _ (part (.mk .block s t i body) (.head _))
    have finals := known_part text root _ (part (.mk .finallyClause s' t' i' [.mk .block s'' t'' i'' last]) (.tail _ (.head _)))
    have knownLast := known_part text root _ (finals (.mk .block s'' t'' i'' last) (.head _))
    refine builds_bind text root _ _ _ _ (below.statements false body (by omega) knownBody) fun first => ?_
    refine builds_bind text root _ _ _ _ (below.statements false last (by omega) knownLast) fun second => ?_
    refine builds_pure text root _ _ fun strict two one => trying_built strict top first none (some second)
      (body_inner strict body first one) all_absent (all_some (body_inner strict last second two)) fun isStrict => ?_
    exact all_cons (composite_decimal rfl (one.decimal isStrict))
      (all_cons (final_decimal (two.decimal isStrict)) all_none)
  case h_23 s t i body caught _ =>
    have knownBody := known_part text root _ (part (.mk .block s t i body) (.head _))
    refine builds_bind text root _ _ _ _ (below.statements false body (by omega) knownBody) fun first => ?_
    refine builds_bind text root _ _ _ _
      (below.handler caught (by omega) (part caught (.tail _ (.head _)))) fun handled => ?_
    refine builds_pure text root _ _ fun strict catches one => trying_built strict top first (some handled) none
      (body_inner strict body first one) (all_some catches.1) all_absent fun isStrict => ?_
    exact all_cons (composite_decimal rfl (one.decimal isStrict))
      (all_cons (catches.2 isStrict) all_none)
  case h_24 s t i body caught s' t' i' s'' t'' i'' last =>
    have knownBody := known_part text root _ (part (.mk .block s t i body) (.head _))
    have finals := known_part text root _
      (part (.mk .finallyClause s' t' i' [.mk .block s'' t'' i'' last]) (.tail _ (.tail _ (.head _))))
    have knownLast := known_part text root _ (finals (.mk .block s'' t'' i'' last) (.head _))
    refine builds_bind text root _ _ _ _ (below.statements false body (by omega) knownBody) fun first => ?_
    refine builds_bind text root _ _ _ _
      (below.handler caught (by omega) (part caught (.tail _ (.head _)))) fun handled => ?_
    refine builds_bind text root _ _ _ _ (below.statements false last (by omega) knownLast) fun second => ?_
    refine builds_pure text root _ _ fun strict two catches one => trying_built strict top first (some handled)
      (some second) (body_inner strict body first one) (all_some catches.1)
      (all_some (body_inner strict last second two)) fun isStrict => ?_
    exact all_cons (composite_decimal rfl (one.decimal isStrict))
      (all_cons (catches.2 isStrict) (all_cons (final_decimal (two.decimal isStrict)) all_none))
  case h_25 =>
    have none : parts = [] := parts_none text _ exact .debuggerStatement rfl rfl
    refine builds_pure text root _ _ fun strict => plain_built strict top _ rfl rfl (fun _ _ => rfl)
      (fun _ _ => all_none) (fun _ => ?_) rfl rfl trivial
    rw [none]
    exact all_none
  case h_26 label body =>
    have knownLabel := part label (.head _)
    have rule : label.rule = .identifier :=
      Option.some.inj (part_at text _ _ _ _ _ exact 2 0 _ (by decide +kernel) rfl)
    refine builds_bind text root _ _ _ _ (builds_strict text root) fun is => ?_
    refine builds_bind text root _ _ _ _ (builds_checked text root label knownLabel rule is) fun name => ?_
    refine builds_get text root _ _ fun b => ?_
    split
    · exact builds_fail_then text root _ _ _ _
    · refine builds_bind text root _ _ _ _ (builds_label text root _ _ _ _
        (below.statement false body (by omega) (part body (.tail _ (.head _))))) fun first => ?_
      refine builds_pure text root _ _ fun strict one mentionable same => statement_built strict top _
        rfl rfl (fun _ _ => rfl) (fun g own => ?_) (fun isStrict => ?_) all_none (all_some ?_)
        fun _ => trivial
      · have inner := built_inner strict body first one
        exact all_cons ⟨inner.holds _ _, fun isStrict => inner.placed isStrict _ _⟩ all_none
      · exact all_cons (identifier_decimal label knownLabel rule) (all_cons (one.decimal isStrict) all_none)
      · rw [← same]
        exact mentionable
  case h_27 => exact builds_fail text root _ _ _

end

theorem builds_below (genuine : root.Genuine ecmascript text) (n : Nat) : BuildsBelow text root n := by
  induction n with
  | zero =>
    constructor <;> (intros; rename_i size _; exact absurd size (Nat.not_lt_zero _))
  | succ n below =>
    exact ⟨expression_builds n below genuine, expressions_builds n below, operands_builds n below,
      suffixes_builds n below, elements_builds n below, properties_builds n below genuine,
      statement_builds n below genuine, statements_builds n below, declarator_builds n below,
      declarators_builds n below, for_parts_builds n below, clauses_builds n below, handler_builds n below⟩

end

end Ecma.Syntax
