import Ecma.Proofs.Syntax.Parse

set_option autoImplicit false

/-!
The parts of a text: every expression, every statement with the goals of the jumps in it and the labels
right before it, and every unit of code. What fits its scopes has parts that do.
-/

namespace Ecma.Syntax

open Ecma.Scope

inductive Part where
  | expression (e : Expression)
  | statement (goals : Goals) (own : List String) (statement : Statement)
  | code (code : Code)

namespace Part

def expressions (es : List Expression) : List Part :=
  es.map .expression

def statements (g : Goals) (body : List Statement) : List Part :=
  body.map (.statement g [])

end Part

def Element.item? : Element → Option Expression
  | .hole => none
  | .item e => some e

def Property.value : Property → Expression
  | .mk _ _ e => e

def Declarator.id : Declarator → Identifier
  | .mk _ id _ => id

def Declarator.init : Declarator → Option Expression
  | .mk _ _ init => init

def Clause.test : Clause → Option Expression
  | .mk _ test _ => test

def Clause.body : Clause → List Statement
  | .mk _ _ body => body

def Handler.body : Handler → List Statement
  | .mk _ _ body => body

def ForInit.expressions : ForInit → List Expression
  | .none => []
  | .«variables» declarators => declarators.filterMap Declarator.init
  | .expression e => [e]

def ForTarget.expressions : ForTarget → List Expression
  | .variable declarator => declarator.init.toList
  | .expression e => [e]

def Expression.parts : Expression → List Part
  | .literal _ _ => []
  | .this _ => []
  | .identifier _ => []
  | .array _ elements => Part.expressions (elements.filterMap Element.item?)
  | .object _ properties => Part.expressions (properties.map Property.value)
  | .function _ unit _ => [.code unit]
  | .member _ base key => Part.expressions [base, key]
  | .call _ callee arguments => Part.expressions (callee :: arguments)
  | .new _ callee arguments => Part.expressions (callee :: arguments)
  | .unary _ _ argument => Part.expressions [argument]
  | .update _ _ _ argument => Part.expressions [argument]
  | .binary _ _ left right => Part.expressions [left, right]
  | .logical _ _ left right => Part.expressions [left, right]
  | .conditional _ test yes no => Part.expressions [test, yes, no]
  | .assign _ _ target value => Part.expressions [target, value]
  | .sequence _ items => Part.expressions items

def Clause.parts (g : Goals) (clause : Clause) : List Part :=
  Part.expressions clause.test.toList ++ Part.statements g clause.body

/-- The parts of a statement that stands behind some labels. -/
def Statement.parts (g : Goals) (own : List String) : Statement → List Part
  | .expression _ e => Part.expressions [e]
  | .block _ body => Part.statements g body
  | .«variables» _ declarators => Part.expressions (declarators.filterMap Declarator.init)
  | .function _ => []
  | .empty _ => []
  | .debugger _ => []
  | .returning _ value => Part.expressions value.toList
  | .breaking _ _ => []
  | .continuing _ _ => []
  | .labelled _ label body => [.statement (g.under label body.isLoop) (own ++ [label]) body]
  | .conditional _ test yes no => Part.expressions [test] ++ Part.statements g (yes :: no.toList)
  | .switching _ subject clauses => Part.expressions [subject] ++ clauses.flatMap (Clause.parts g.inSwitch)
  | .throwing _ e => Part.expressions [e]
  | .trying _ body handler finalizer =>
    Part.statements g (body ++ (handler.toList.flatMap Handler.body ++ finalizer.toList.flatten))
  | .whileLoop _ test body => Part.expressions [test] ++ Part.statements g.inLoop [body]
  | .doLoop _ body test => Part.expressions [test] ++ Part.statements g.inLoop [body]
  | .forLoop _ init test update body =>
    Part.expressions (init.expressions ++ (test.toList ++ update.toList)) ++ Part.statements g.inLoop [body]
  | .forIn _ target names body =>
    Part.expressions (target.expressions ++ [names]) ++ Part.statements g.inLoop [body]
  | .withObject _ base _ body => Part.expressions [base] ++ Part.statements g [body]

/-- What the jumps of a unit can go to at its top. -/
def Header.goals (h : Header) : Goals :=
  { kind := h.kind }

namespace Part

/-- The parts right inside a part. -/
def parts : Part → List Part
  | .expression e => e.parts
  | .statement g own s => s.parts g own
  | .code (.mk h functions body) => functions.map .code ++ statements h.goals body

inductive Within : Part → Part → Prop
  | whole (part : Part) : Within part part
  | inside (part middle whole : Part) (member : middle ∈ whole.parts) (within : Within part middle) :
      Within part whole

/-- The part fits the scopes of a text, wherever it stands in it. -/
def Fits (tree : Scope.Tree) : Part → Prop
  | .expression e => ∃ p, p.tree = tree ∧ e.Scoped p
  | .statement g own s =>
    (∃ p, p.tree = tree ∧ p.goals = g ∧ s.Scoped p) ∧ ∀ name ∈ own, g.labels.lookup name = some s.isLoop
  | .code unit =>
    (unit.header.kind = .function → ∃ outer, unit.header.Scoped tree outer unit.functions) ∧
      ∃ arguments, codesScoped tree unit.header.scope unit.functions ∧
        statementsScoped ⟨tree, unit.header.scope, unit.header.strict, arguments, unit.header.goals⟩ unit.body

end Part

/-! Members of lists. -/

section

variable (p : Setting)

theorem expressions_fit (es : List Expression) (fits : expressionsScoped p es) :
    ∀ part ∈ Part.expressions es, part.Fits p.tree := by
  induction es with
  | nil => exact fun part member => absurd member List.not_mem_nil
  | cons e rest hyp =>
    intro part member
    rcases List.mem_cons.mp member with rfl | later
    · exact ⟨p, rfl, fits.1⟩
    · exact hyp fits.2 part later

theorem statements_fit (body : List Statement) (fits : statementsScoped p body) :
    ∀ part ∈ Part.statements p.goals body, part.Fits p.tree := by
  induction body with
  | nil => exact fun part member => absurd member List.not_mem_nil
  | cons s rest hyp =>
    intro part member
    rcases List.mem_cons.mp member with rfl | later
    · exact ⟨⟨p, rfl, rfl, fits.1⟩, fun name member => absurd member List.not_mem_nil⟩
    · exact hyp fits.2 part later

theorem elements_items (elements : List Element) (fits : elementsScoped p elements) :
    expressionsScoped p (elements.filterMap Element.item?) := by
  induction elements with
  | nil => trivial
  | cons element rest hyp =>
    cases element with
    | hole => exact hyp fits
    | item e => exact ⟨fits.1, hyp fits.2⟩

theorem properties_values (properties : List Property) (fits : propertiesScoped p properties) :
    expressionsScoped p (properties.map Property.value) := by
  induction properties with
  | nil => trivial
  | cons property rest hyp =>
    obtain ⟨key, kind, value⟩ := property
    exact ⟨fits.1, hyp fits.2⟩

theorem declarators_inits (declarators : List Declarator) (fits : declaratorsScoped p declarators) :
    expressionsScoped p (declarators.filterMap Declarator.init) := by
  induction declarators with
  | nil => trivial
  | cons declarator rest hyp =>
    obtain ⟨span, id, init⟩ := declarator
    cases init with
    | none => exact hyp fits.2
    | some e => exact ⟨fits.1.2.2, hyp fits.2⟩

theorem expressions_append (first second : List Expression) (one : expressionsScoped p first)
    (two : expressionsScoped p second) : expressionsScoped p (first ++ second) := by
  induction first with
  | nil => exact two
  | cons e rest hyp => exact ⟨one.1, hyp one.2⟩

theorem optional_expressions (e : Option Expression) (fits : optionalScoped p e) :
    expressionsScoped p e.toList := by
  cases e with
  | none => trivial
  | some e => exact ⟨fits, trivial⟩

theorem clauses_fit (clauses : List Clause) (fits : clausesScoped p clauses) :
    ∀ part ∈ clauses.flatMap (Clause.parts p.goals), part.Fits p.tree := by
  induction clauses with
  | nil => exact fun part member => absurd member List.not_mem_nil
  | cons clause rest hyp =>
    obtain ⟨span, test, body⟩ := clause
    intro part member
    rw [List.flatMap_cons, List.mem_append] at member
    rcases member with here | later
    · rcases List.mem_append.mp here with inTest | inBody
      · exact expressions_fit p _ (optional_expressions p test fits.1.1) part inTest
      · exact statements_fit p body fits.1.2 part inBody
    · exact hyp fits.2 part later

theorem scoped_code_fits (tree : Scope.Tree) (outer : ScopeId) (code : Code) (fits : code.Scoped tree outer) :
    (Part.code code).Fits tree := by
  obtain ⟨h, functions, body⟩ := code
  exact ⟨fun _ => ⟨outer, fits.1⟩, _, fits.2.1, fits.2.2⟩

theorem rooted_code_fits (tree : Scope.Tree) (code : Code) (rooted : code.Rooted tree)
    (root : code.header.kind ≠ .function) : (Part.code code).Fits tree := by
  exact ⟨fun contra => absurd contra root, true, rooted.functions, rooted.body⟩

theorem expression_parts_fit (e : Expression) (fits : e.Scoped p) : ∀ part ∈ e.parts, part.Fits p.tree := by
  cases e with
  | literal _ _ => exact fun part member => absurd member List.not_mem_nil
  | this _ => exact fun part member => absurd member List.not_mem_nil
  | identifier _ => exact fun part member => absurd member List.not_mem_nil
  | array _ elements => exact expressions_fit p _ (elements_items p elements fits)
  | object _ properties => exact expressions_fit p _ (properties_values p properties fits)
  | function _ code own =>
    intro part member
    rw [List.mem_singleton.mp member]
    cases own with
    | none => exact scoped_code_fits p.tree p.scope code fits
    | some scope => exact scoped_code_fits p.tree scope code fits.2.2
  | member _ object key => exact expressions_fit p _ ⟨fits.1, fits.2, trivial⟩
  | call _ callee arguments => exact expressions_fit p _ fits.2
  | new _ callee arguments => exact expressions_fit p _ fits
  | unary _ op argument => exact expressions_fit p _ ⟨fits.2, trivial⟩
  | update _ op before argument => exact expressions_fit p _ ⟨fits.2, trivial⟩
  | binary _ op left right => exact expressions_fit p _ ⟨fits.1, fits.2, trivial⟩
  | logical _ op left right => exact expressions_fit p _ ⟨fits.1, fits.2, trivial⟩
  | conditional _ test yes no => exact expressions_fit p _ ⟨fits.1, fits.2.1, fits.2.2, trivial⟩
  | assign _ op target value => exact expressions_fit p _ ⟨fits.2.1, fits.2.2, trivial⟩
  | sequence _ items => exact expressions_fit p _ fits

theorem init_expressions (init : ForInit) (fits : init.Scoped p) : expressionsScoped p init.expressions := by
  cases init with
  | none => trivial
  | «variables» declarators => exact declarators_inits p declarators fits
  | expression e => exact ⟨fits, trivial⟩

theorem for_target_expressions (target : ForTarget) (fits : target.Scoped p) :
    expressionsScoped p target.expressions := by
  cases target with
  | «variable» declarator =>
    obtain ⟨span, id, init⟩ := declarator
    exact optional_expressions p init fits.2.2
  | expression e => exact ⟨fits.2, trivial⟩

theorem handler_body_fits (handler : Option Handler) (fits : handlerScoped p handler) :
    ∀ part ∈ Part.statements p.goals (handler.toList.flatMap Handler.body), part.Fits p.tree := by
  cases handler with
  | none => exact fun part member => absurd member List.not_mem_nil
  | some handler =>
    obtain ⟨span, param, body⟩ := handler
    intro part member
    rw [Option.toList_some, List.flatMap_cons, List.flatMap_nil, List.append_nil] at member
    exact statements_fit (p.inside param.scope) body fits.2.2 part member

theorem all_append (tree : Scope.Tree) (first second : List Part) (one : ∀ part ∈ first, part.Fits tree)
    (two : ∀ part ∈ second, part.Fits tree) : ∀ part ∈ first ++ second, part.Fits tree := by
  exact fun part member => (List.mem_append.mp member).elim (one part) (two part)

theorem statement_parts_fit (own : List String) (s : Statement) (fits : s.Scoped p)
    (owned : ∀ name ∈ own, p.goals.labels.lookup name = some s.isLoop) :
    ∀ part ∈ s.parts p.goals own, part.Fits p.tree := by
  cases s with
  | expression _ e => exact expressions_fit p _ ⟨fits, trivial⟩
  | block _ body => exact statements_fit p body fits
  | «variables» _ declarators => exact expressions_fit p _ (declarators_inits p declarators fits)
  | function _ => exact fun part member => absurd member List.not_mem_nil
  | empty _ => exact fun part member => absurd member List.not_mem_nil
  | debugger _ => exact fun part member => absurd member List.not_mem_nil
  | returning _ value => exact expressions_fit p _ (optional_expressions p value fits.2)
  | breaking _ _ => exact fun part member => absurd member List.not_mem_nil
  | continuing _ _ => exact fun part member => absurd member List.not_mem_nil
  | labelled _ label body =>
    intro part member
    rw [List.mem_singleton.mp member]
    refine ⟨⟨p.under label body.isLoop, rfl, rfl, fits.2⟩, fun name known => ?_⟩
    change ((label, body.isLoop) :: p.goals.labels).lookup name = _
    rw [List.lookup_cons]
    by_cases same : name = label
    · rw [same, beq_self_eq_true]
    · rw [beq_false_of_ne same]
      rcases List.mem_append.mp known with outer | last
      · exact owned name outer
      · exact absurd (List.mem_singleton.mp last) same
  | conditional _ test yes no =>
    refine all_append _ _ _ (expressions_fit p _ ⟨fits.1, trivial⟩) (statements_fit p _ ⟨fits.2.1, ?_⟩)
    cases no with
    | none => trivial
    | some no => exact ⟨fits.2.2, trivial⟩
  | switching _ subject clauses =>
    exact all_append _ _ _ (expressions_fit p _ ⟨fits.1, trivial⟩) (clauses_fit p.inSwitch clauses fits.2)
  | throwing _ e => exact expressions_fit p _ ⟨fits, trivial⟩
  | trying _ block handler finalizer =>
    have last : ∀ part ∈ Part.statements p.goals finalizer.toList.flatten, part.Fits p.tree := by
      cases finalizer with
      | none => exact fun part member => absurd member List.not_mem_nil
      | some body =>
        rw [Option.toList_some, List.flatten_singleton]
        exact statements_fit p body fits.2.2
    rw [Statement.parts, Part.statements, List.map_append, List.map_append]
    exact all_append _ _ _ (statements_fit p block fits.1)
      (all_append _ _ _ (handler_body_fits p handler fits.2.1) last)
  | whileLoop _ test body =>
    exact all_append _ _ _ (expressions_fit p _ ⟨fits.1, trivial⟩) (statements_fit p.inLoop _ ⟨fits.2, trivial⟩)
  | doLoop _ body test =>
    exact all_append _ _ _ (expressions_fit p _ ⟨fits.2, trivial⟩) (statements_fit p.inLoop _ ⟨fits.1, trivial⟩)
  | forLoop _ init test update body =>
    refine all_append _ _ _ (expressions_fit p _ ?_) (statements_fit p.inLoop _ ⟨fits.2.2.2, trivial⟩)
    refine expressions_append p _ _ (init_expressions p init fits.1) (expressions_append p _ _ ?_ ?_)
    · exact optional_expressions p test fits.2.1
    · exact optional_expressions p update fits.2.2.1
  | forIn _ target object body =>
    refine all_append _ _ _ (expressions_fit p _ ?_) (statements_fit p.inLoop _ ⟨fits.2.2, trivial⟩)
    exact expressions_append p _ _ (for_target_expressions p target fits.1) ⟨fits.2.1, trivial⟩
  | withObject _ object scope body =>
    exact all_append _ _ _ (expressions_fit p _ ⟨fits.1, trivial⟩)
      (statements_fit (p.inside scope) _ ⟨fits.2.2, trivial⟩)

end

/-! Parts of parts. -/

theorem codes_fit (tree : Scope.Tree) (outer : ScopeId) (codes : List Code) (fits : codesScoped tree outer codes) :
    ∀ part ∈ codes.map Part.code, part.Fits tree := by
  induction codes with
  | nil => exact fun part member => absurd member List.not_mem_nil
  | cons code rest hyp =>
    intro part member
    rcases List.mem_cons.mp member with rfl | later
    · exact scoped_code_fits tree outer code fits.1
    · exact hyp fits.2 part later

theorem parts_fit (tree : Scope.Tree) (whole : Part) (fits : whole.Fits tree) :
    ∀ part ∈ whole.parts, part.Fits tree := by
  cases whole with
  | expression e =>
    obtain ⟨p, rfl, fits⟩ := fits
    exact expression_parts_fit p e fits
  | statement g own s =>
    obtain ⟨⟨p, rfl, rfl, fits⟩, owned⟩ := fits
    exact statement_parts_fit p own s fits owned
  | code unit =>
    obtain ⟨h, functions, body⟩ := unit
    obtain ⟨_, arguments, inner, fits⟩ := fits
    exact all_append _ _ _ (codes_fit tree h.scope functions inner) (statements_fit _ body fits)

theorem within_fits (tree : Scope.Tree) (part whole : Part) (within : Part.Within part whole)
    (fits : whole.Fits tree) : part.Fits tree := by
  induction within with
  | whole => exact fits
  | inside middle whole member within hyp => exact hyp (parts_fit tree whole fits middle member)

/-! Accepted texts. -/

/-- What the parser makes of a program, of the argument of `eval`, or of a constructed function. -/
inductive Accepted : CodeKind → Parsed → Prop
  | program (text filename : String) (collapse : Bool) (parsed : Parsed)
      (parses : parseProgram text filename collapse = .ok parsed) : Accepted .global parsed
  | evaluated (text : String) (strict collapse : Bool) (parsed : Parsed)
      (parses : parseEval text strict collapse = .ok parsed) : Accepted .eval parsed
  | constructed (params body : String) (collapse : Bool) (parsed : Parsed)
      (parses : parseFunction params body collapse = .ok parsed) : Accepted .function parsed

-- A text whose code fits the scopes that were found in it, before they are analysed.
structure Parsed.Fits (parsed : Parsed) (tree : Scope.Tree) : Prop where
  formed : tree.WellFormed
  analysed : ∃ collapse, parsed.scopes = tree.analyze collapse
  code : (Part.code parsed.code).Fits tree

theorem unit_fits (source : Text.Source) (kind : CodeKind) (strict wrapper collapse : Bool) (parsed : Parsed)
    (root : kind ≠ .function) (parses : parseUnit source kind strict wrapper collapse = .ok parsed) :
    (∃ tree, parsed.Fits tree) ∧ parsed.code.header.kind = kind := by
  rw [parse_unit_is] at parses
  cases found : built source kind strict wrapper with
  | error e =>
    rw [found] at parses
    cases parses
  | ok unit =>
    rw [found] at parses
    cases parses
    obtain ⟨formed, rooted, same, _⟩ := built_rooted source kind strict wrapper unit root found
    have fits := rooted_code_fits unit.scopes unit.code rooted fun contra => root (same.symm.trans contra)
    exact ⟨⟨unit.scopes, formed, ⟨collapse, rfl⟩, fits⟩, same⟩

theorem accepted_fits (kind : CodeKind) (parsed : Parsed) (accepted : Accepted kind parsed) :
    (∃ tree, parsed.Fits tree) ∧ parsed.code.header.kind = kind := by
  cases accepted with
  | program text filename collapse _ parses =>
    exact unit_fits ⟨filename, text⟩ .global false false collapse parsed CodeKind.noConfusion parses
  | evaluated text strict collapse _ parses =>
    exact unit_fits ⟨"<eval>", text⟩ .eval strict false collapse parsed CodeKind.noConfusion parses
  | constructed params body collapse _ parses =>
    rw [parse_function_is] at parses
    cases found : builtFunction params body with
    | error e =>
      rw [found] at parses
      cases parses
    | ok unit =>
      rw [found] at parses
      cases parses
      obtain ⟨formed, root, _, _, fits⟩ := built_function_scoped params body unit found
      refine ⟨⟨unit.scopes, formed, ⟨collapse, rfl⟩, scoped_code_fits _ root _ fits⟩, ?_⟩
      obtain ⟨⟨h, functions, body⟩, scopes⟩ := unit
      exact fits.1.function

end Ecma.Syntax
