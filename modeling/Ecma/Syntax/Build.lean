import Ecma.Syntax.Builder
import Ecma.Syntax.Precedence

set_option autoImplicit false

/-!
The syntax tree of a node. Each rule of the grammar has one case; a shape that the grammar cannot
produce is reported as such. Parts are built from left to right, so the first error in the text is
the one reported.
-/

namespace Ecma.Syntax

open Ecma.Grammar Ecma.Scope Build

/-- The operator of a unary expression that is not an update. -/
def unaryOp? (text : String) : Option UnaryOp :=
  if text = "delete" then some .delete
  else if text = "void" then some .void
  else if text = "typeof" then some .typeOf
  else if text = "+" then some .plus
  else if text = "-" then some .minus
  else if text = "~" then some .bitNot
  else if text = "!" then some .not
  else none

/-- The operator of an update. -/
def updateOp? (text : String) : Option UpdateOp :=
  if text = "++" then some .increment
  else if text = "--" then some .decrement
  else none

/-- The operator that an assignment applies first; the plain one has none. -/
def assignOp? (text : String) : Option (Option BinaryOp) :=
  match [("=", none), ("+=", some .add), ("-=", some .subtract), ("*=", some .multiply),
      ("/=", some .divide), ("%=", some .remainder), ("<<=", some .shiftLeft),
      (">>=", some .shiftRight), (">>>=", some .shiftRightUnsigned), ("|=", some .bitOr),
      ("^=", some .bitXor), ("&=", some BinaryOp.bitAnd)].lookup text with
  | some op => some op
  | none => none

/-- The unary expression of an operator and its argument. -/
def applyUnary (span : Span) (operator argumentNode : Node Rule) (argument : Expression) :
    Build Expression := do
  let text := operator.text
  match updateOp? text with
  | some op =>
    checkTarget argument argumentNode
    return .update span op true argument
  | none =>
    match unaryOp? text with
    | none => fail .unexpectedShape operator
    | some op =>
      match op, argument with
      | .delete, .identifier _ =>
        if ← strict then failAt .strictDelete span.start
        return .unary span op argument
      | _, _ => return .unary span op argument

/-- A call of the plain name `eval` may see every name around it. -/
def noteCallee (callee : Expression) : Build Unit :=
  match callee with
  | .identifier id => do
    if id.name == "eval" then
      modifyCode fun c => { c with directEval := true }
      let scope := (← get).scope
      modifyScopes fun t => t.markDirectEval scope
  | _ => pure ()

/-- The first clause of a `for` statement and its optional expressions. -/
structure ForParts where
  init : ForInit := .none
  test : Option Expression := none
  update : Option Expression := none
  body : Option Statement := none

/-- The function expression of an accessor. -/
def accessorValue (code : Code) (span : Span) : Expression :=
  .function span code none

mutual

/-- Builds an expression from any node of the expression grammar. -/
def expression : Node Rule → Build Expression
  | .mk rule start stop input parts => do
    let node : Node Rule := .mk rule start stop input parts
    let span : Span := ⟨start, stop⟩
    match rule, parts with
    | .expression, [item] => expression item
    | .expression, items => return .sequence span (← expressions items)
    | .assignmentExpression, [left] => expression left
    | .assignmentExpression, [left, operator, right] =>
      let target ← expression left
      match assignOp? operator.text with
      | none => fail .unexpectedShape operator
      | some op =>
        checkTarget target left
        return .assign span op target (← expression right)
    | .conditionalExpression, [test] => expression test
    | .conditionalExpression, [test, yes, no] =>
      let test ← expression test
      let yes ← expression yes
      return .conditional span test yes (← expression no)
    | .binaryExpression, first :: rest =>
      let first ← expression first
      return group infixExpression first (← operands rest)
    | .unaryExpression, [operand] => expression operand
    | .unaryExpression, [operator, argument] =>
      let value ← expression argument
      applyUnary span operator argument value
    | .postfixExpression, [operand] => expression operand
    | .postfixExpression, [operand, operator] =>
      let target ← expression operand
      checkTarget target operand
      return .update span (if operator.text == "++" then .increment else .decrement) false target
    | .leftHandSideExpression, first :: rest =>
      let e ← expression first
      if first.rule == .newExpression then return .new span e []
      suffixes first.start e rest
    | .newExpression, [inner] =>
      let e ← expression inner
      return if inner.rule == .newExpression then .new span e [] else e
    | .memberExpression, first :: rest =>
      let e ← expression first
      suffixes first.start e rest
    | .newMember, [callee, .mk .arguments _ _ _ items] =>
      let callee ← expression callee
      return .new span callee (← expressions items)
    | .functionExpression, [.mk .formalParameters _ _ _ params, .mk .functionBody _ _ _ body] =>
      let code ← functionCode (← get).scope none params span body (statements true body)
      return .function span code none
    | .functionExpression,
      [name, .mk .formalParameters _ _ _ params, .mk .functionBody _ _ _ body] =>
      let own ← checkedName name (← strict)
      let scope ← openScope .namedFunction (← get).scope
      modifyScopes fun t => t.addDef scope own
      let code ← functionCode scope (some name) params span body (statements true body)
      return .function span code (some scope)
    | .thisExpression, _ => return .this span
    | .nullLiteral, _ => return .literal span .null
    | .booleanLiteral, _ => return .literal span (.boolean (node.text == "true"))
    | .numericLiteral, _ => return .literal span (.number (← numberValue node))
    | .stringLiteral, _ => return .literal span (.string (← stringValue node))
    | .identifier, _ => return .identifier (← reference node)
    | .arrayLiteral, items => return .array span (← elements false items)
    | .objectLiteral, items => return .object span (← properties [] items)
    | _, _ => fail .unexpectedShape node

/-- Builds expressions in order. -/
def expressions : Nodes → Build (List Expression)
  | [] => return []
  | node :: rest => do
    let e ← expression node
    return e :: (← expressions rest)

/-- Builds the operands that follow the first one, each with its operator. -/
def operands : Nodes → Build (List (Infix × Expression))
  | .mk (.operator op) _ _ _ _ :: operand :: rest => do
    let e ← expression operand
    return (op, e) :: (← operands rest)
  | [] => return []
  | node :: _ => fail .unexpectedShape node

/-- Builds calls and members of an expression that starts at an offset. -/
def suffixes (start : Nat) (object : Expression) : Nodes → Build Expression
  | [] => return object
  | .mk rule s stop i parts :: rest => do
    let span : Span := ⟨start, stop⟩
    match rule, parts with
    | .arguments, items =>
      noteCallee object
      let items ← expressions items
      suffixes start (.call span object items) rest
    | .computedMember, [key] =>
      let key ← expression key
      suffixes start (.member span object key) rest
    | .dotMember, [name] =>
      let key ← liftAt name (decodeIdentifier name.chars)
      suffixes start (.member span object (.literal (spanOf name) (.string key))) rest
    | _, _ => fail .unexpectedShape (.mk rule s stop i parts)

/-- Builds the elements of an array; a comma that no element stands before leaves a hole. -/
def elements (filled : Bool) : Nodes → Build (List Element)
  | [] => return []
  | .mk .comma _ _ _ _ :: rest => do
    let rest ← elements false rest
    return if filled then rest else .hole :: rest
  | node :: rest => do
    let e ← expression node
    return .item e :: (← elements true rest)

/-- Builds the properties of an object literal. -/
def properties (seen : SeenKeys) : Nodes → Build (List Property)
  | [] => return []
  | .mk rule start stop i parts :: rest => do
    let span : Span := ⟨start, stop⟩
    match rule, parts with
    | .valueProperty, [name, value] =>
      let key ← propertyKey name
      let value ← expression value
      let seen ← noteKey seen key .init start
      return .mk key .init value :: (← properties seen rest)
    | .getterProperty, [name, .mk .functionBody _ _ _ body] =>
      let key ← propertyKey name
      let code ← functionCode (← get).scope none [] span body (statements true body)
      let seen ← noteKey seen key .getter start
      return .mk key .getter (accessorValue code span) :: (← properties seen rest)
    | .setterProperty, [name, param, .mk .functionBody _ _ _ body] =>
      let key ← propertyKey name
      let code ← functionCode (← get).scope none [param] span body (statements true body)
      let seen ← noteKey seen key .setter start
      return .mk key .setter (accessorValue code span) :: (← properties seen rest)
    | _, _ => fail .unexpectedShape (.mk rule start stop i parts)

/-- Builds a statement; only at the top of a body may strict code declare a function. -/
def statement (top : Bool) : Node Rule → Build Statement
  | .mk rule start stop input parts => do
    let node : Node Rule := .mk rule start stop input parts
    let span : Span := ⟨start, stop⟩
    match rule, parts with
    | .block, body => return .block span (← statements false body)
    | .variableStatement, [.mk .variableDeclarationList _ _ _ items] =>
      return .«variables» span (← declarators items)
    | .emptyStatement, _ => return .empty span
    | .functionDeclaration,
      [name, .mk .formalParameters _ _ _ params, .mk .functionBody _ _ _ body] =>
      if !top && (← strict) then fail .nestedStrictFunction node
      let outer := (← get).code.scope
      let code ← functionCode outer (some name) params span body (statements true body)
      modifyCode fun c => { c with functions := c.functions ++ [code] }
      return .function span
    | .expressionStatement, [e] => return .expression span (← expression e)
    | .ifStatement, [test, yes] =>
      let test ← expression test
      return .conditional span test (← statement false yes) none
    | .ifStatement, [test, yes, no] =>
      let test ← expression test
      let yes ← statement false yes
      return .conditional span test yes (some (← statement false no))
    | .doWhileStatement, [body, test] =>
      let body ← inLoop (statement false body)
      return .doLoop span body (← expression test)
    | .whileStatement, [test, body] =>
      let test ← expression test
      return .whileLoop span test (← inLoop (statement false body))
    | .forStatement, items =>
      let loop ← forParts {} items
      match loop.body with
      | some body => return .forLoop span loop.init loop.test loop.update body
      | none => fail .unexpectedShape node
    | .forInStatement, [.mk .forVarDeclaration _ _ _ [declared], object, body] =>
      let (.mk s id init) ← declarator declared
      referTo id.name
      let object ← expression object
      return .forIn span (.variable (.mk s id init)) object (← inLoop (statement false body))
    | .forInStatement, [target, object, body] =>
      let e ← expression target
      checkTarget e target
      let object ← expression object
      return .forIn span (.expression e) object (← inLoop (statement false body))
    | .continueStatement, [] =>
      if (← get).code.loops == 0 then fail .illegalContinue node
      return .continuing span none
    | .continueStatement, [label] =>
      let name ← continueLabel label
      if (← get).code.loops == 0 then fail .illegalContinue node
      return .continuing span (some name)
    | .breakStatement, [] =>
      if (← get).code.breakables == 0 then fail .illegalBreak node
      return .breaking span none
    | .breakStatement, [label] => return .breaking span (some (← breakLabel label))
    | .returnStatement, [] =>
      if (← get).code.kind != .function then fail .illegalReturn node
      return .returning span none
    | .returnStatement, [value] =>
      if (← get).code.kind != .function then fail .illegalReturn node
      return .returning span (some (← expression value))
    | .withStatement, [object, body] =>
      if ← strict then fail .strictWith node
      let object ← expression object
      modifyCode fun c => { c with usesWith := true }
      let scope ← openScope .withObject (← get).scope
      return .withObject span object scope (← within scope (statement false body))
    | .switchStatement, subject :: items =>
      let subject ← expression subject
      return .switching span subject (← inSwitch (clauses false items))
    | .throwStatement, [value] => return .throwing span (← expression value)
    | .tryStatement, [.mk .block _ _ _ body, .mk .finallyClause _ _ _ [.mk .block _ _ _ last]] =>
      let body ← statements false body
      return .trying span body none (some (← statements false last))
    | .tryStatement, [.mk .block _ _ _ body, caught] =>
      let body ← statements false body
      return .trying span body (some (← handler caught)) none
    | .tryStatement,
      [.mk .block _ _ _ body, caught, .mk .finallyClause _ _ _ [.mk .block _ _ _ last]] =>
      let body ← statements false body
      let caught ← handler caught
      return .trying span body (some caught) (some (← statements false last))
    | .debuggerStatement, _ => return .debugger span
    | .labelledStatement, [label, body] =>
      let name ← checkedName label (← strict)
      if ((← get).code.labels.lookup name).isSome then fail .duplicateLabel label
      let loop := isLoop body
      return .labelled span name (← underLabel name loop (statement false body))
    | _, _ => fail .unexpectedShape node

/-- Builds statements in order. -/
def statements (top : Bool) : Nodes → Build (List Statement)
  | [] => return []
  | node :: rest => do
    let s ← statement top node
    return s :: (← statements top rest)

/-- Builds a declarator; a name that is initialised is also referred to. -/
def declarator : Node Rule → Build Declarator
  | .mk rule start stop input parts => do
    let span : Span := ⟨start, stop⟩
    match rule, parts with
    | .variableDeclaration, [name] => return .mk span (← declareVariable name) none
    | .variableDeclaration, [name, value] =>
      let id ← declareVariable name
      referTo id.name
      return .mk span id (some (← expression value))
    | _, _ => fail .unexpectedShape (.mk rule start stop input parts)

def declarators : Nodes → Build (List Declarator)
  | [] => return []
  | node :: rest => do
    let d ← declarator node
    return d :: (← declarators rest)

/-- Builds the parts of a `for` statement as they come. -/
def forParts (loop : ForParts) : Nodes → Build ForParts
  | [] => return loop
  | .mk .forInit _ _ _ [.mk .variableDeclarationList _ _ _ items] :: rest => do
    let items ← declarators items
    forParts { loop with init := .«variables» items } rest
  | .mk .forInit _ _ _ [e] :: rest => do
    let e ← expression e
    forParts { loop with init := .expression e } rest
  | .mk .forTest _ _ _ [e] :: rest => do
    let e ← expression e
    forParts { loop with test := some e } rest
  | .mk .forUpdate _ _ _ [e] :: rest => do
    let e ← expression e
    forParts { loop with update := some e } rest
  | body :: rest => do
    let s ← inLoop (statement false body)
    forParts { loop with body := some s } rest

/-- Builds the clauses of a switch, with at most one default. -/
def clauses (seenDefault : Bool) : Nodes → Build (List Clause)
  | [] => return []
  | .mk rule start stop i parts :: rest => do
    let span : Span := ⟨start, stop⟩
    match rule, parts with
    | .defaultClause, body =>
      if seenDefault then fail .duplicateDefault (.mk rule start stop i parts)
      let body ← statements false body
      return .mk span none body :: (← clauses true rest)
    | .caseClause, test :: body =>
      let test ← expression test
      let body ← statements false body
      return .mk span (some test) body :: (← clauses seenDefault rest)
    | _, _ => fail .unexpectedShape (.mk rule start stop i parts)

/-- Builds a catch clause; its parameter has a scope of its own. -/
def handler : Node Rule → Build Handler
  | .mk rule start stop input parts => do
    let span : Span := ⟨start, stop⟩
    match rule, parts with
    | .catchClause, [param, .mk .block _ _ _ body] =>
      let name ← bindingName param (← strict)
      let scope ← openScope .handler (← get).scope
      modifyScopes fun t => t.addDef scope name
      let body ← within scope (statements false body)
      return .mk span ⟨name, scope, spanOf param⟩ body
    | _, _ => fail .unexpectedShape (.mk rule start stop input parts)

end

end Ecma.Syntax
