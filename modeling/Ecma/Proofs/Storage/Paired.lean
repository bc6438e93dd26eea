import Ecma.Proofs.Storage.Inside

set_option autoImplicit false

/-!
The two programs that one text is compiled to, with slots and without. They differ only in how names are
resolved and in what is said of the storage of bindings.
-/

namespace Ecma.Storage

open Ecma.Program Ecma.Scope Ecma.Syntax

/-- The same name of a text in two programs. -/
inductive NamePaired (p : Setting) : Variable → Variable → Prop
  | mk (name : String) (referred : name ∈ (p.tree.scope p.scope).refs)
      (arguments : name = "arguments" → p.arguments = true) :
      NamePaired p ⟨name, (p.tree.analyze true).resolve p.scope name⟩
        ⟨name, (p.tree.analyze false).resolve p.scope name⟩

/-- The same function right inside a scope. -/
inductive RoutinePaired (t : Scope.Tree) (outer : ScopeId) : Routine → Routine → Prop
  | mk (text : String) (code : Syntax.Code) (fitted : code.Scoped t outer) :
      RoutinePaired t outer (compileCode ⟨t.analyze true, text, []⟩ code)
        (compileCode ⟨t.analyze false, text, []⟩ code)

/-- The same scope of one name. -/
inductive OwnPaired (p : Setting) (kind : ScopeKind) (scope : ScopeId) : OwnName → OwnName → Prop
  | mk (name : String) (opened : Syntax.Opened p kind scope) (defs : (p.tree.scope scope).defs = [name]) :
      OwnPaired p kind scope
        ⟨name, ((p.tree.analyze true).scope scope).locals.lookup name, ((p.tree.analyze true).scope scope).collapsed⟩
        ⟨name, none, false⟩

/-- Strict code does not assign to `arguments`. -/
def Assigns (p : Setting) : Target → Prop
  | .variable v => p.strict = true → v.name ≠ "arguments"
  | _ => True

/-- Strict code does not delete names. -/
def Deletes (p : Setting) : Target → Prop
  | .variable _ => p.strict = false
  | _ => True

/-! Expressions. -/

mutual

inductive ExprPaired (p : Setting) : Expr → Expr → Prop
  | constant (v : Value) : ExprPaired p (.constant v) (.constant v)
  | this : ExprPaired p .this .this
  | «variable» (v₁ v₂ : Variable) (names : NamePaired p v₁ v₂) : ExprPaired p (.variable v₁) (.variable v₂)
  | array (es fs : List Program.Element) (elements : List.Forall₂ (ElementPaired p) es fs) :
      ExprPaired p (.array es) (.array fs)
  | object (ps qs : List Program.Property) (properties : List.Forall₂ (PropertyPaired p) ps qs) :
      ExprPaired p (.object ps) (.object qs)
  | function (r₁ r₂ : Routine) (routines : RoutinePaired p.tree p.scope r₁ r₂) :
      ExprPaired p (.function r₁ none) (.function r₂ none)
  | named (scope : ScopeId) (r₁ r₂ : Routine) (o₁ o₂ : OwnName) (owns : OwnPaired p .namedFunction scope o₁ o₂)
      (routines : RoutinePaired p.tree scope r₁ r₂) : ExprPaired p (.function r₁ (some o₁)) (.function r₂ (some o₂))
  | member (e₁ e₂ : Expr) (k₁ k₂ : Key) (objects : ExprPaired p e₁ e₂) (keys : KeyPaired p k₁ k₂) :
      ExprPaired p (.member e₁ k₁) (.member e₂ k₂)
  | callMember (site : Site) (e₁ e₂ : Expr) (k₁ k₂ : Key) (as bs : List Expr) (objects : ExprPaired p e₁ e₂)
      (keys : KeyPaired p k₁ k₂) (arguments : List.Forall₂ (ExprPaired p) as bs) :
      ExprPaired p (.callMember site e₁ k₁ as) (.callMember site e₂ k₂ bs)
  | callVariable (site : Site) (v₁ v₂ : Variable) (as bs : List Expr) (names : NamePaired p v₁ v₂)
      (evaluates : v₁.name = "eval" → (p.tree.scope p.scope).directEval = true)
      (arguments : List.Forall₂ (ExprPaired p) as bs) :
      ExprPaired p (.callVariable site v₁ as) (.callVariable site v₂ bs)
  | call (site : Site) (e₁ e₂ : Expr) (as bs : List Expr) (callees : ExprPaired p e₁ e₂)
      (arguments : List.Forall₂ (ExprPaired p) as bs) : ExprPaired p (.call site e₁ as) (.call site e₂ bs)
  | construct (site : Site) (e₁ e₂ : Expr) (as bs : List Expr) (callees : ExprPaired p e₁ e₂)
      (arguments : List.Forall₂ (ExprPaired p) as bs) : ExprPaired p (.construct site e₁ as) (.construct site e₂ bs)
  | typeOfVariable (v₁ v₂ : Variable) (names : NamePaired p v₁ v₂) :
      ExprPaired p (.typeOfVariable v₁) (.typeOfVariable v₂)
  | typeOf (e₁ e₂ : Expr) (operands : ExprPaired p e₁ e₂) : ExprPaired p (.typeOf e₁) (.typeOf e₂)
  | delete (t₁ t₂ : Target) (targets : TargetPaired p t₁ t₂) (may : Deletes p t₁) :
      ExprPaired p (.delete t₁) (.delete t₂)
  | void (e₁ e₂ : Expr) (operands : ExprPaired p e₁ e₂) : ExprPaired p (.void e₁) (.void e₂)
  | not (e₁ e₂ : Expr) (operands : ExprPaired p e₁ e₂) : ExprPaired p (.not e₁) (.not e₂)
  | sign (op : Sign) (primitive : Bool) (e₁ e₂ : Expr) (operands : ExprPaired p e₁ e₂) :
      ExprPaired p (.sign op primitive e₁) (.sign op primitive e₂)
  | update (op : UpdateOp) (before : Bool) (t₁ t₂ : Target) (targets : TargetPaired p t₁ t₂) (may : Assigns p t₁) :
      ExprPaired p (.update op before t₁) (.update op before t₂)
  | binary (operation : Operation) (e₁ e₂ f₁ f₂ : Expr) (lefts : ExprPaired p e₁ e₂) (rights : ExprPaired p f₁ f₂) :
      ExprPaired p (.binary operation e₁ f₁) (.binary operation e₂ f₂)
  | logical (op : LogicalOp) (e₁ e₂ f₁ f₂ : Expr) (lefts : ExprPaired p e₁ e₂) (rights : ExprPaired p f₁ f₂) :
      ExprPaired p (.logical op e₁ f₁) (.logical op e₂ f₂)
  | conditional (e₁ e₂ f₁ f₂ g₁ g₂ : Expr) (tests : ExprPaired p e₁ e₂) (yes : ExprPaired p f₁ f₂)
      (no : ExprPaired p g₁ g₂) : ExprPaired p (.conditional e₁ f₁ g₁) (.conditional e₂ f₂ g₂)
  | assign (t₁ t₂ : Target) (e₁ e₂ : Expr) (targets : TargetPaired p t₁ t₂) (may : Assigns p t₁)
      (values : ExprPaired p e₁ e₂) : ExprPaired p (.assign t₁ e₁) (.assign t₂ e₂)
  | compound (op : BinaryOp) (t₁ t₂ : Target) (e₁ e₂ : Expr) (targets : TargetPaired p t₁ t₂) (may : Assigns p t₁)
      (values : ExprPaired p e₁ e₂) : ExprPaired p (.compound op t₁ e₁) (.compound op t₂ e₂)
  | sequence (as bs : List Expr) (items : List.Forall₂ (ExprPaired p) as bs) :
      ExprPaired p (.sequence as) (.sequence bs)

inductive ElementPaired (p : Setting) : Program.Element → Program.Element → Prop
  | hole : ElementPaired p .hole .hole
  | item (e₁ e₂ : Expr) (items : ExprPaired p e₁ e₂) : ElementPaired p (.item e₁) (.item e₂)

inductive PropertyPaired (p : Setting) : Program.Property → Program.Property → Prop
  | mk (key : PropertyKey) (kind : PropertyKind) (e₁ e₂ : Expr) (values : ExprPaired p e₁ e₂) :
      PropertyPaired p (.mk key kind e₁) (.mk key kind e₂)

inductive KeyPaired (p : Setting) : Key → Key → Prop
  | known (key : PropertyKey) : KeyPaired p (.known key) (.known key)
  | computed (e₁ e₂ : Expr) (keys : ExprPaired p e₁ e₂) : KeyPaired p (.computed e₁) (.computed e₂)

inductive TargetPaired (p : Setting) : Target → Target → Prop
  | «variable» (v₁ v₂ : Variable) (names : NamePaired p v₁ v₂) : TargetPaired p (.variable v₁) (.variable v₂)
  | member (e₁ e₂ : Expr) (k₁ k₂ : Key) (objects : ExprPaired p e₁ e₂) (keys : KeyPaired p k₁ k₂) :
      TargetPaired p (.member e₁ k₁) (.member e₂ k₂)
  | value (e₁ e₂ : Expr) (values : ExprPaired p e₁ e₂) : TargetPaired p (.value e₁) (.value e₂)

end

structure TypedPaired (p : Setting) (a b : Typed) : Prop where
  exprs : ExprPaired p a.expr b.expr
  types : a.types = b.types

/-! Statements. -/

inductive AssignmentPaired (p : Setting) : Assignment → Assignment → Prop
  | mk (v₁ v₂ : Variable) (e₁ e₂ : Expr) (names : NamePaired p v₁ v₂)
      (may : p.strict = true → v₁.name ≠ "arguments") (values : ExprPaired p e₁ e₂) :
      AssignmentPaired p (.mk v₁ e₁) (.mk v₂ e₂)

inductive InitPaired (p : Setting) : LoopInit → LoopInit → Prop
  | none : InitPaired p .none .none
  | «variables» (as bs : List Assignment) (assignments : List.Forall₂ (AssignmentPaired p) as bs) :
      InitPaired p (.variables as) (.variables bs)
  | expression (e₁ e₂ : Expr) (values : ExprPaired p e₁ e₂) : InitPaired p (.expression e₁) (.expression e₂)

inductive TestPaired (p : Setting) : Test → Test → Prop
  | mk (clause : Nat) (e₁ e₂ : Expr) (tests : ExprPaired p e₁ e₂) : TestPaired p (.mk clause e₁) (.mk clause e₂)

inductive SelectorPaired (p : Setting) : Selector → Selector → Prop
  | direct (table : List (Value × Nat)) : SelectorPaired p (.direct table) (.direct table)
  | tests (as bs : List Test) (tests : List.Forall₂ (TestPaired p) as bs) : SelectorPaired p (.tests as) (.tests bs)

mutual

inductive StmtPaired : Setting → Stmt → Stmt → Prop
  | block (p : Setting) (as bs : List Stmt) (bodies : StmtsPaired p as bs) : StmtPaired p (.block as) (.block bs)
  | labelled (p : Setting) (id : Label) (label : String) (loop : Bool) (a b : Stmt)
      (bodies : StmtPaired (p.under label loop) a b) : StmtPaired p (.labelled id a) (.labelled id b)
  | step (p : Setting) (position : Nat) (a b : Action) (actions : ActionPaired p a b) :
      StmtPaired p (.step position a) (.step position b)

inductive StmtsPaired : Setting → List Stmt → List Stmt → Prop
  | nil (p : Setting) : StmtsPaired p [] []
  | cons (p : Setting) (a b : Stmt) (as bs : List Stmt) (first : StmtPaired p a b) (rest : StmtsPaired p as bs) :
      StmtsPaired p (a :: as) (b :: bs)

inductive ActionPaired : Setting → Action → Action → Prop
  | nothing (p : Setting) : ActionPaired p .nothing .nothing
  | expression (p : Setting) (e₁ e₂ : Expr) (values : ExprPaired p e₁ e₂) :
      ActionPaired p (.expression e₁) (.expression e₂)
  | «variables» (p : Setting) (as bs : List Assignment) (assignments : List.Forall₂ (AssignmentPaired p) as bs) :
      ActionPaired p (.variables as) (.variables bs)
  | returning (p : Setting) (e₁ e₂ : Option Expr) (values : Option.Rel (ExprPaired p) e₁ e₂) :
      ActionPaired p (.returning e₁) (.returning e₂)
  | breaking (p : Setting) (label : Option Label) : ActionPaired p (.breaking label) (.breaking label)
  | continuing (p : Setting) (label : Option Label) : ActionPaired p (.continuing label) (.continuing label)
  | conditional (p : Setting) (e₁ e₂ : Expr) (a b : Stmt) (c d : Option Stmt) (tests : ExprPaired p e₁ e₂)
      (yes : StmtPaired p a b) (no : AlternativePaired p c d) :
      ActionPaired p (.conditional e₁ a c) (.conditional e₂ b d)
  | throwing (p : Setting) (e₁ e₂ : Expr) (values : ExprPaired p e₁ e₂) : ActionPaired p (.throwing e₁) (.throwing e₂)
  | whileLoop (p : Setting) (labels : List Label) (e₁ e₂ : Expr) (a b : Stmt) (tests : ExprPaired p e₁ e₂)
      (bodies : StmtPaired p.inLoop a b) : ActionPaired p (.whileLoop labels e₁ a) (.whileLoop labels e₂ b)
  | doLoop (p : Setting) (labels : List Label) (e₁ e₂ : Expr) (a b : Stmt) (tests : ExprPaired p e₁ e₂)
      (bodies : StmtPaired p.inLoop a b) : ActionPaired p (.doLoop labels a e₁) (.doLoop labels b e₂)
  | forLoop (p : Setting) (labels : List Label) (i j : LoopInit) (e₁ e₂ f₁ f₂ : Option Expr) (a b : Stmt)
      (inits : InitPaired p i j) (tests : Option.Rel (ExprPaired p) e₁ e₂)
      (updates : Option.Rel (ExprPaired p) f₁ f₂) (bodies : StmtPaired p.inLoop a b) :
      ActionPaired p (.forLoop labels i e₁ f₁ a) (.forLoop labels j e₂ f₂ b)
  | forIn (p : Setting) (labels : List Label) (as bs : List Assignment) (t₁ t₂ : Target) (e₁ e₂ : Expr) (a b : Stmt)
      (inits : List.Forall₂ (AssignmentPaired p) as bs) (targets : TargetPaired p t₁ t₂) (may : Assigns p t₁)
      (objects : ExprPaired p e₁ e₂) (bodies : StmtPaired p.inLoop a b) :
      ActionPaired p (.forIn labels as t₁ e₁ a) (.forIn labels bs t₂ e₂ b)
  | switching (p : Setting) (labels : List Label) (e₁ e₂ : Expr) (x y : Selector) (otherwise : Option Nat)
      (as bs : List Program.Clause) (subjects : ExprPaired p e₁ e₂)
      (selectors : SelectorPaired p.inSwitch x y) (clauses : ClausesPaired p.inSwitch as bs) :
      ActionPaired p (.switching labels e₁ x otherwise as) (.switching labels e₂ y otherwise bs)
  | trying (p : Setting) (as bs : List Stmt) (h k : Option Program.Handler) (f g : Option (List Stmt))
      (blocks : StmtsPaired p as bs) (handlers : HandlerPaired p h k) (finalizers : FinalizerPaired p f g) :
      ActionPaired p (.trying as h f) (.trying bs k g)
  | withObject (p : Setting) (scope : ScopeId) (e₁ e₂ : Expr) (a b : Stmt) (objects : ExprPaired p e₁ e₂)
      (opened : Syntax.Opened p .withObject scope) (bodies : StmtPaired (p.inside scope) a b) :
      ActionPaired p (.withObject e₁ a) (.withObject e₂ b)

inductive AlternativePaired : Setting → Option Stmt → Option Stmt → Prop
  | none (p : Setting) : AlternativePaired p none none
  | some (p : Setting) (a b : Stmt) (bodies : StmtPaired p a b) : AlternativePaired p (some a) (some b)

inductive ClausesPaired : Setting → List Program.Clause → List Program.Clause → Prop
  | nil (p : Setting) : ClausesPaired p [] []
  | cons (p : Setting) (as bs : List Stmt) (cs ds : List Program.Clause) (first : StmtsPaired p as bs)
      (rest : ClausesPaired p cs ds) : ClausesPaired p (.mk as :: cs) (.mk bs :: ds)

inductive HandlerPaired : Setting → Option Program.Handler → Option Program.Handler → Prop
  | none (p : Setting) : HandlerPaired p none none
  | some (p : Setting) (scope : ScopeId) (o₁ o₂ : OwnName) (as bs : List Stmt) (owns : OwnPaired p .handler scope o₁ o₂)
      (bodies : StmtsPaired (p.inside scope) as bs) : HandlerPaired p (some (.mk o₁ as)) (some (.mk o₂ bs))

inductive FinalizerPaired : Setting → Option (List Stmt) → Option (List Stmt) → Prop
  | none (p : Setting) : FinalizerPaired p none none
  | some (p : Setting) (as bs : List Stmt) (bodies : StmtsPaired p as bs) : FinalizerPaired p (some as) (some bs)

end

/-! What compilation puts together. -/

section

variable (p : Setting)

theorem constant_paired (v : Value) : TypedPaired p (.constant v) (.constant v) := by
  exact ⟨.constant v, rfl⟩

theorem value_paired (a b : Typed) (paired : ExprPaired p a.expr b.expr) : a.value? = b.value? := by
  obtain ⟨e₁, types₁⟩ := a
  obtain ⟨e₂, types₂⟩ := b
  dsimp only at paired
  rw [Typed.value?, Typed.value?]
  cases paired <;> rfl

theorem target_paired (e₁ e₂ : Expr) (paired : ExprPaired p e₁ e₂) : TargetPaired p (asTarget e₁) (asTarget e₂) := by
  have whole := paired
  cases paired with
  | «variable» v₁ v₂ names => exact .variable v₁ v₂ names
  | member f₁ f₂ k₁ k₂ objects keys => exact .member f₁ f₂ k₁ k₂ objects keys
  | _ => exact .value _ _ whole

theorem call_paired (site : Site) (as bs : List Expr) (e₁ e₂ : Expr) (callees : ExprPaired p e₁ e₂)
    (evaluates : ∀ v, e₁ = .variable v → v.name = "eval" → (p.tree.scope p.scope).directEval = true)
    (arguments : List.Forall₂ (ExprPaired p) as bs) : ExprPaired p (asCall site as e₁) (asCall site bs e₂) := by
  have whole := callees
  cases callees with
  | «variable» v₁ v₂ names => exact .callVariable site v₁ v₂ as bs names (evaluates v₁ rfl) arguments
  | member f₁ f₂ k₁ k₂ objects keys => exact .callMember site f₁ f₂ k₁ k₂ as bs objects keys arguments
  | _ => exact .call site _ _ as bs whole arguments

theorem type_of_paired (a b : Typed) (paired : TypedPaired p a b) : TypedPaired p (compileTypeOf a) (compileTypeOf b) := by
  obtain ⟨e₁, types₁⟩ := a
  obtain ⟨e₂, types₂⟩ := b
  obtain ⟨exprs, _⟩ := paired
  dsimp only at exprs
  have whole := exprs
  rw [compileTypeOf, compileTypeOf]
  cases exprs with
  | constant v => exact constant_paired p _
  | «variable» v₁ v₂ names => exact ⟨.typeOfVariable v₁ v₂ names, rfl⟩
  | _ => exact ⟨.typeOf _ _ whole, rfl⟩

theorem not_paired (a b : Typed) (paired : TypedPaired p a b) : TypedPaired p (compileNot a) (compileNot b) := by
  rw [compileNot, compileNot, value_paired p a b paired.exprs]
  cases b.value? with
  | some v => exact constant_paired p _
  | none => exact ⟨.not _ _ paired.exprs, rfl⟩

theorem sign_paired (op : Sign) (a b : Typed) (paired : TypedPaired p a b) :
    TypedPaired p (compileSign op a) (compileSign op b) := by
  rw [compileSign, compileSign, value_paired p a b paired.exprs, Typed.isPrimitive, Typed.isPrimitive, paired.types]
  cases b.value? with
  | some v => exact constant_paired p _
  | none => exact ⟨.sign op _ _ _ paired.exprs, rfl⟩

theorem binary_paired (op : BinaryOp) (a b c d : Typed) (lefts : TypedPaired p a b) (rights : TypedPaired p c d) :
    TypedPaired p (compileBinary op a c) (compileBinary op b d) := by
  rw [compileBinary, compileBinary, foldConstants, foldConstants, value_paired p a b lefts.exprs,
    value_paired p c d rights.exprs, Typed.isPrimitive, Typed.isPrimitive, Typed.isPrimitive, Typed.isPrimitive,
    lefts.types, rights.types]
  split
  · exact constant_paired p _
  · exact ⟨.binary _ _ _ _ _ lefts.exprs rights.exprs, rfl⟩

theorem key_paired (a b : Typed) (paired : TypedPaired p a b) : KeyPaired p (compileKey a) (compileKey b) := by
  rw [compileKey, compileKey, value_paired p a b paired.exprs]
  cases b.value? with
  | some v => exact .known _
  | none => exact .computed _ _ paired.exprs

/-- A clause of a `switch` statement and its test. -/
def TestsPaired (tests others : List (Nat × Typed)) : Prop :=
  List.Forall₂ (fun a b => a.1 = b.1 ∧ TypedPaired p a.2 b.2) tests others

theorem constants_paired (tests others : List (Nat × Typed)) (paired : TestsPaired p tests others) :
    constants? tests = constants? others := by
  induction paired with
  | nil => rfl
  | @cons a b rest rest' both _ hyp =>
    obtain ⟨clause, t⟩ := a
    obtain ⟨clause', t'⟩ := b
    obtain ⟨rfl, typed⟩ := both
    rw [constants?, constants?, value_paired p _ _ typed.exprs, hyp]

theorem selector_paired (tests others : List (Nat × Typed)) (paired : TestsPaired p tests others) :
    SelectorPaired p (chooseSelector tests) (chooseSelector others) := by
  rw [chooseSelector, chooseSelector, constants_paired p tests others paired]
  split
  · exact .direct _
  · refine .tests _ _ (List.forall₂_map_left_iff.mpr (List.forall₂_map_right_iff.mpr (paired.imp fun a b both => ?_)))
    obtain ⟨clause, t⟩ := a
    obtain ⟨clause', t'⟩ := b
    obtain ⟨rfl, typed⟩ := both
    exact .mk clause _ _ typed.exprs

end

/-! Compilation. -/

/-- What compilation knows at a place of a text, with slots or without. -/
def surroundings (p : Setting) (collapse : Bool) (text : String) (labels : List String) : Surroundings :=
  ⟨p.tree.analyze collapse, text, labels⟩

theorem type_of_variable (t : Typed) (v : Variable) : (compileTypeOf t).expr ≠ .variable v := by
  rw [compileTypeOf]
  split <;> exact fun contra => by cases contra

theorem not_variable (t : Typed) (v : Variable) : (compileNot t).expr ≠ .variable v := by
  rw [compileNot]
  split <;> exact fun contra => by cases contra

theorem sign_variable (op : Sign) (t : Typed) (v : Variable) : (compileSign op t).expr ≠ .variable v := by
  rw [compileSign]
  split <;> exact fun contra => by cases contra

theorem call_variable (site : Site) (args : List Expr) (e : Expr) (v : Variable) : asCall site args e ≠ .variable v := by
  unfold asCall
  split <;> exact fun contra => by cases contra

-- Only a name is compiled to a name.
theorem compiled_variable (c : Surroundings) (e : Expression) (v : Variable) (is : (compileExpr c e).expr = .variable v) :
    ∃ id, e = .identifier id ∧ v = c.resolve id := by
  cases e with
  | identifier id =>
    rw [compileExpr] at is
    exact ⟨id, rfl, (Expr.variable.inj is).symm⟩
  | unary span op argument =>
    cases op with
    | typeOf =>
      rw [compileExpr] at is
      exact absurd is (type_of_variable _ v)
    | not =>
      rw [compileExpr] at is
      exact absurd is (not_variable _ v)
    | minus =>
      rw [compileExpr] at is
      exact absurd is (sign_variable _ _ v)
    | plus =>
      rw [compileExpr] at is
      exact absurd is (sign_variable _ _ v)
    | bitNot =>
      rw [compileExpr] at is
      exact absurd is (sign_variable _ _ v)
    | delete =>
      rw [compileExpr] at is
      cases is
    | void =>
      rw [compileExpr] at is
      cases is
  | call span callee arguments =>
    rw [compileExpr] at is
    exact absurd is (call_variable _ _ _ v)
  | binary span op left right =>
    rw [compileExpr, compileBinary] at is
    split at is <;> cases is
  | assign span op target value =>
    cases op with
    | none =>
      rw [compileExpr] at is
      cases is
    | some op =>
      rw [compileExpr] at is
      cases is
  | _ =>
    rw [compileExpr] at is
    cases is

section

variable (p : Setting) (text : String) (labels : List String)

theorem name_paired (id : Identifier) (fitted : id.Scoped p) :
    NamePaired p ((surroundings p true text labels).resolve id) ((surroundings p false text labels).resolve id) := by
  obtain ⟨name, scope, span⟩ := id
  obtain ⟨here, referred, arguments⟩ := fitted
  dsimp only at here
  subst here
  exact .mk name referred arguments

theorem routine_paired (scope : ScopeId) (code : Syntax.Code) (fitted : code.Scoped p.tree scope) :
    RoutinePaired p.tree scope (compileCode (surroundings p true text labels) code)
      (compileCode (surroundings p false text labels) code) := by
  rw [surroundings, surroundings, ← code_labels _ [], ← code_labels ⟨p.tree.analyze false, text, labels⟩ []]
  exact .mk text code fitted

theorem own_paired (formed : p.tree.WellFormed) (kind : ScopeKind) (scope : ScopeId) (name : String)
    (opened : Syntax.Opened p kind scope) (defs : (p.tree.scope scope).defs = [name]) :
    OwnPaired p kind scope ((surroundings p true text labels).ownName scope name)
      ((surroundings p false text labels).ownName scope name) := by
  rw [surroundings, surroundings, own_name_plain p.tree scope name text labels formed]
  exact .mk name opened defs

-- What the surroundings of an assignment or a deletion say of its target.
theorem assigns_compiled (collapse : Bool) (e : Expression) (may : assignable p e) :
    Assigns p (asTarget (compileExpr (surroundings p collapse text labels) e).expr) := by
  cases compiled : (compileExpr (surroundings p collapse text labels) e).expr with
  | «variable» v =>
    obtain ⟨id, rfl, rfl⟩ := compiled_variable _ _ _ compiled
    exact may
  | _ => trivial

theorem deletes_compiled (collapse : Bool) (e : Expression) (may : deletable p e) :
    Deletes p (asTarget (compileExpr (surroundings p collapse text labels) e).expr) := by
  cases compiled : (compileExpr (surroundings p collapse text labels) e).expr with
  | «variable» v =>
    obtain ⟨id, rfl, rfl⟩ := compiled_variable _ _ _ compiled
    exact may
  | _ => trivial

theorem evaluates_compiled (collapse : Bool) (e : Expression) (may : callable p e) (v : Variable)
    (is : (compileExpr (surroundings p collapse text labels) e).expr = .variable v) (named : v.name = "eval") :
    (p.tree.scope p.scope).directEval = true := by
  obtain ⟨id, rfl, rfl⟩ := compiled_variable _ _ _ is
  exact may named

end

end Ecma.Storage
