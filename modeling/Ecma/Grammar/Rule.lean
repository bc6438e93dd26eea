set_option autoImplicit false

/-!
The rules of the ECMAScript 5.1 grammar that leave a node or count for the place of an error.
-/

namespace Ecma.Grammar

/-- Words that begin a statement or join its parts. -/
inductive Keyword where
  | break | case | catch | continue | debugger | default | do | else | finally | for | function
  | if | in | new | return | switch | throw | try | var | while | with
deriving DecidableEq, Repr

/-- Operators that stand between two operands. -/
inductive Infix where
  | or | and | bitOr | bitXor | bitAnd
  | strictEqual | strictUnequal | equal | unequal
  | lessEqual | greaterEqual | shiftRightUnsigned | shiftRight | shiftLeft | less | greater
  | instanceOf | isIn
  | add | subtract | multiply | divide | remainder
deriving DecidableEq, Repr

inductive Rule where
  | identifierName | identifier
  | keyword (word : Keyword)
  | thisExpression | nullLiteral | booleanLiteral | numericLiteral | stringLiteral
  | comma | arrayLiteral | objectLiteral | getterProperty | setterProperty | valueProperty
  | functionExpression | formalParameters | functionBody
  | arguments | computedMember | dotMember | newMember
  | memberExpression | newExpression | leftHandSideExpression
  | postfixOperator | postfixExpression | unaryOperator | unaryExpression
  | operator (op : Infix)
  | binaryExpression | conditionalExpression | assignmentOperator | assignmentExpression
  | expression
  | block | variableStatement | variableDeclarationList | variableDeclaration | emptyStatement
  | expressionStatement | ifStatement | doWhileStatement | whileStatement | forVarDeclaration
  | forInStatement | forInit | forTest | forUpdate | forStatement
  | continueStatement | breakStatement | returnStatement | throwStatement | debuggerStatement
  | withStatement | switchStatement | caseClause | defaultClause | labelledStatement
  | tryStatement | catchClause | finallyClause | functionDeclaration
  | program | endOfInput
deriving DecidableEq, Repr

end Ecma.Grammar
