import Ecma.Grammar.Peg
import Ecma.Grammar.Rule
import Ecma.Text.Letter

set_option autoImplicit false

/-!
The ECMAScript 5.1 grammar. Expressions and statements that a semicolon may be left out of are
tight and name the layout they allow, so that line ends stay visible to automatic semicolons and to
the restricted productions. Rules that contain statements are plain, and a function body allows
layout again inside an expression.
-/

namespace Ecma.Grammar

open Ecma.Text

/-- An expression of this grammar. -/
abbrev Es := Peg Rule

namespace Es

def lit (s : String) : Es :=
  .text s.toList

/-- The items one after the other. -/
def all : List Es → Es
  | [] => .text []
  | [e] => e
  | e :: es => .seq e (all es)

/-- The first of the items that matches. -/
def first : List Es → Es
  | [] => .refuse (.text [])
  | [e] => e
  | e :: es => .choice e (first es)

def words (ws : List String) : Es :=
  first (ws.map lit)

/-- One item or more. -/
def some_ (e : Es) : Es :=
  .seq e (.star e)

def any : Es :=
  .char fun _ => true

/-- Layout of any kind. -/
def sp : Es :=
  .layout true

/-- Layout that stays on the line. -/
def hs : Es :=
  .layout false

/-- Items with a separator between them; layout may stand around the separator. -/
def separated (item separator : Es) : Es :=
  .seq item (.star (all [sp, separator, sp, item]))

def digit : Es :=
  .char fun c => '0' ≤ c && c ≤ '9'

def octalDigit : Es :=
  .char fun c => '0' ≤ c && c ≤ '7'

def isHexDigit (c : Char) : Bool :=
  ('0' ≤ c && c ≤ '9') || ('a' ≤ c && c ≤ 'f') || ('A' ≤ c && c ≤ 'F')

def hexDigit : Es :=
  .char isHexDigit

def lineTerminator : Es :=
  .choice (lit "\r\n") (.char isLineTerminator)

def blockComment : Es :=
  all [lit "/*", .star (.seq (.refuse (lit "*/")) any), lit "*/"]

def lineComment : Es :=
  .seq (lit "//") (.star (.char fun c => !isLineTerminator c))

/-- What ends a statement without a semicolon. -/
def newline : Es :=
  first [lineTerminator, lineComment, blockComment]

/-- The end of a statement: a semicolon, a line end, or what no statement can go on with. -/
def statementEnd : Es :=
  .seq hs (first [lit ";", newline, .look (lit "\x7d"), .refuse any])

def unicodeEscape : Es :=
  all [lit "\\u", hexDigit, hexDigit, hexDigit, hexDigit]

def identifierStart : Es :=
  .choice (.char fun c => isLetter c || c == '$' || c == '_') unicodeEscape

def identifierPart : Es :=
  .choice
    (.char fun c => isLetterOrMark c || c == '$' || c == '_' || c == '\u200C' || c == '\u200D')
    unicodeEscape

/-- A word that no longer identifier begins with. -/
def whole (e : Es) : Es :=
  .seq e (.refuse identifierPart)

def reservedWord : Es :=
  whole (words ["break", "case", "catch", "continue", "debugger", "default", "delete", "do",
    "else", "finally", "for", "function", "if", "instanceof", "in", "new", "return", "switch",
    "this", "throw", "try", "typeof", "var", "void", "while", "with", "class", "const", "enum",
    "export", "extends", "import", "super", "null", "true", "false"])

def keywordText : Keyword → String
  | .break => "break"
  | .case => "case"
  | .catch => "catch"
  | .continue => "continue"
  | .debugger => "debugger"
  | .default => "default"
  | .do => "do"
  | .else => "else"
  | .finally => "finally"
  | .for => "for"
  | .function => "function"
  | .if => "if"
  | .in => "in"
  | .new => "new"
  | .return => "return"
  | .switch => "switch"
  | .throw => "throw"
  | .try => "try"
  | .var => "var"
  | .while => "while"
  | .with => "with"

/-- A keyword; that it is not the beginning of an identifier is looked for first. -/
def kw (word : Keyword) : Es :=
  .seq (.look (.rule (.keyword word))) (lit (keywordText word))

def hexLiteral : Es :=
  .seq (words ["0x", "0X"]) (some_ hexDigit)

def octalLiteral : Es :=
  all [lit "0", some_ octalDigit, .refuse (first [digit, lit ".", lit "e", lit "E"])]

def exponent : Es :=
  all [words ["e", "E"], .maybe (words ["+", "-"]), some_ digit]

def decimalLiteral : Es :=
  .choice
    (all [some_ digit, .maybe (.seq (lit ".") (.star digit)), .maybe exponent])
    (all [lit ".", some_ digit, .maybe exponent])

def escapeSequence : Es :=
  .seq (lit "\\") (.choice (lit "\r\n") any)

/-- A string between two quotes of one kind. -/
def quoted (quote : Char) : Es :=
  all [.text [quote],
    .star (.choice
      (.char fun c => !(c == quote || c == '\\' || isLineTerminator c)) escapeSequence),
    .text [quote]]

def primaryExpression : Es :=
  first [.rule .thisExpression, .rule .nullLiteral, .rule .booleanLiteral, .rule .numericLiteral,
    .rule .stringLiteral, .rule .identifier, .rule .arrayLiteral, .rule .objectLiteral,
    all [lit "(", sp, .rule .expression, sp, lit ")"]]

def propertyName : Es :=
  first [.rule .identifierName, .rule .stringLiteral, .rule .numericLiteral]

def propertyAssignment : Es :=
  first [.rule .getterProperty, .rule .setterProperty, .rule .valueProperty]

/-- A function body between braces. -/
def bracedBody : List Es :=
  [lit "\x7b", sp, .rule .functionBody, sp, lit "\x7d"]

def operatorText : Infix → String
  | .or => "||"
  | .and => "&&"
  | .bitOr => "|"
  | .bitXor => "^"
  | .bitAnd => "&"
  | .strictEqual => "==="
  | .strictUnequal => "!=="
  | .equal => "=="
  | .unequal => "!="
  | .lessEqual => "<="
  | .greaterEqual => ">="
  | .shiftRightUnsigned => ">>>"
  | .shiftRight => ">>"
  | .shiftLeft => "<<"
  | .less => "<"
  | .greater => ">"
  | .instanceOf => "instanceof"
  | .isIn => "in"
  | .add => "+"
  | .subtract => "-"
  | .multiply => "*"
  | .divide => "/"
  | .remainder => "%"

/-- What must not follow an operator, because it would be a longer one. -/
def operatorGuard : Infix → List String
  | .bitOr => ["|", "="]
  | .bitXor => ["="]
  | .bitAnd => ["&", "="]
  | .shiftRightUnsigned => ["="]
  | .shiftRight => ["=", ">"]
  | .shiftLeft => ["="]
  | .less => ["<", "="]
  | .greater => [">", "="]
  | .add => ["+", "="]
  | .subtract => ["-", "="]
  | .multiply => ["="]
  | .divide => ["="]
  | .remainder => ["="]
  | _ => []

def operatorBody (op : Infix) : Es :=
  match op with
  | .instanceOf => whole (lit (operatorText op))
  | .isIn => whole (lit (operatorText op))
  | _ =>
    match operatorGuard op with
    | [] => lit (operatorText op)
    | guard => .seq (lit (operatorText op)) (.refuse (words guard))

/-- The operators in the order in which they are tried. -/
def operators : List Infix :=
  [.or, .and, .bitOr, .bitXor, .bitAnd, .strictEqual, .strictUnequal, .equal, .unequal,
    .lessEqual, .greaterEqual, .shiftRightUnsigned, .shiftRight, .shiftLeft, .less, .greater,
    .instanceOf, .isIn, .add, .subtract, .multiply, .divide, .remainder]

def statement : Es :=
  first [.rule .block, .rule .variableStatement, .rule .emptyStatement,
    .rule .functionDeclaration, .rule .ifStatement, .rule .doWhileStatement,
    .rule .whileStatement, .rule .forInStatement, .rule .forStatement, .rule .continueStatement,
    .rule .breakStatement, .rule .returnStatement, .rule .withStatement, .rule .switchStatement,
    .rule .throwStatement, .rule .tryStatement, .rule .debuggerStatement,
    .rule .labelledStatement, .rule .expressionStatement]

/-- An expression in parentheses where layout is free. -/
def condition : List Es :=
  [lit "(", .rule .expression, lit ")"]

/-- The body of each rule. -/
def body : Rule → Es
  | .identifierName => .seq identifierStart (.star identifierPart)
  | .identifier => .seq (.refuse reservedWord) (.rule .identifierName)
  | .keyword word => whole (lit (keywordText word))
  | .thisExpression => whole (lit "this")
  | .nullLiteral => whole (lit "null")
  | .booleanLiteral => whole (words ["true", "false"])
  | .numericLiteral =>
    .seq (first [hexLiteral, octalLiteral, decimalLiteral])
      (.refuse (.choice identifierStart digit))
  | .stringLiteral => .choice (quoted '"') (quoted '\'')
  | .comma => lit ","
  | .arrayLiteral =>
    let item : Es := .seq (.rule .assignmentExpression) sp
    all [lit "[", sp, .star (all [.maybe item, .rule .comma, sp]), .maybe item, lit "]"]
  | .objectLiteral =>
    all [lit "\x7b", sp,
      .maybe (.seq (separated propertyAssignment (lit ",")) (.maybe (.seq sp (lit ",")))),
      sp, lit "\x7d"]
  | .getterProperty =>
    all ([whole (lit "get"), sp, propertyName, sp, lit "(", sp, lit ")", sp] ++ bracedBody)
  | .setterProperty =>
    all ([whole (lit "set"), sp, propertyName, sp, lit "(", sp, .rule .identifier, sp, lit ")",
      sp] ++ bracedBody)
  | .valueProperty => all [propertyName, sp, lit ":", sp, .rule .assignmentExpression]
  | .functionExpression =>
    all ([kw .function, sp, .maybe (.seq (.rule .identifier) sp), .rule .formalParameters, sp] ++
      bracedBody)
  | .formalParameters =>
    all [lit "(", sp, .maybe (separated (.rule .identifier) (lit ",")), sp, lit ")"]
  | .functionBody => .star statement
  | .arguments =>
    all [lit "(", sp, .maybe (separated (.rule .assignmentExpression) (lit ",")), sp, lit ")"]
  | .computedMember => all [lit "[", sp, .rule .expression, sp, lit "]"]
  | .dotMember => all [lit ".", sp, .rule .identifierName]
  | .newMember => all [kw .new, sp, .rule .memberExpression, sp, .rule .arguments]
  | .memberExpression =>
    .seq (first [.rule .newMember, .rule .functionExpression, primaryExpression])
      (.star (.seq sp (.choice (.rule .computedMember) (.rule .dotMember))))
  | .newExpression =>
    .choice (.rule .memberExpression) (all [kw .new, sp, .rule .newExpression])
  | .leftHandSideExpression =>
    .choice
      (.seq (.rule .memberExpression)
        (.maybe (all [sp, .rule .arguments,
          .star (.seq sp (first [.rule .arguments, .rule .computedMember, .rule .dotMember]))])))
      (all [kw .new, sp, .rule .newExpression])
  | .postfixOperator => words ["++", "--"]
  | .postfixExpression =>
    .seq (.rule .leftHandSideExpression) (.maybe (.seq hs (.rule .postfixOperator)))
  | .unaryOperator =>
    .choice (whole (words ["delete", "void", "typeof"])) (words ["++", "--", "+", "-", "~", "!"])
  | .unaryExpression =>
    .choice (all [.rule .unaryOperator, sp, .rule .unaryExpression]) (.rule .postfixExpression)
  | .operator op => operatorBody op
  | .binaryExpression =>
    .seq (.rule .unaryExpression)
      (.star (all [sp, first (operators.map fun op => .rule (.operator op)), sp,
        .rule .unaryExpression]))
  | .conditionalExpression =>
    .seq (.rule .binaryExpression)
      (.maybe (all [sp, lit "?", sp, .rule .assignmentExpression, sp, lit ":", sp,
        .rule .assignmentExpression]))
  | .assignmentOperator =>
    .choice (.seq (lit "=") (.refuse (lit "=")))
      (words ["*=", "/=", "%=", "+=", "-=", "<<=", ">>>=", ">>=", "&=", "^=", "|="])
  | .assignmentExpression =>
    .seq (.rule .conditionalExpression)
      (.maybe (all [sp, .rule .assignmentOperator, sp, .rule .assignmentExpression]))
  | .expression => separated (.rule .assignmentExpression) (lit ",")
  | .block => all [lit "\x7b", .star statement, lit "\x7d"]
  | .variableStatement => all [kw .var, sp, .rule .variableDeclarationList, statementEnd]
  | .variableDeclarationList => separated (.rule .variableDeclaration) (lit ",")
  | .variableDeclaration =>
    .seq (.rule .identifier)
      (.maybe (all [sp, lit "=", .refuse (lit "="), sp, .rule .assignmentExpression]))
  | .emptyStatement => lit ";"
  | .expressionStatement =>
    all [.refuse (.choice (lit "\x7b") (.rule (.keyword .function))), .rule .expression,
      statementEnd]
  | .ifStatement =>
    all ([kw .if] ++ condition ++ [statement, .maybe (.seq (kw .else) statement)])
  | .doWhileStatement =>
    all ([kw .do, statement, kw .while] ++ condition ++ [.maybe (lit ";")])
  | .whileStatement => all ([kw .while] ++ condition ++ [statement])
  | .forVarDeclaration => all [kw .var, sp, .rule .variableDeclaration]
  | .forInStatement =>
    all [kw .for, lit "(", .choice (.rule .forVarDeclaration) (.rule .leftHandSideExpression),
      kw .in, .rule .expression, lit ")", statement]
  | .forInit =>
    .choice (all [kw .var, sp, .rule .variableDeclarationList]) (.rule .expression)
  | .forTest => .rule .expression
  | .forUpdate => .rule .expression
  | .forStatement =>
    all [kw .for, lit "(", .maybe (.rule .forInit), lit ";", .maybe (.rule .forTest), lit ";",
      .maybe (.rule .forUpdate), lit ")", statement]
  | .continueStatement =>
    all [kw .continue, .maybe (.seq hs (.rule .identifier)), statementEnd]
  | .breakStatement => all [kw .break, .maybe (.seq hs (.rule .identifier)), statementEnd]
  | .returnStatement => all [kw .return, .maybe (.seq hs (.rule .expression)), statementEnd]
  | .throwStatement => all [kw .throw, hs, .rule .expression, statementEnd]
  | .debuggerStatement => .seq (kw .debugger) statementEnd
  | .withStatement => all ([kw .with] ++ condition ++ [statement])
  | .switchStatement =>
    all ([kw .switch] ++ condition ++
      [lit "\x7b", .star (.choice (.rule .caseClause) (.rule .defaultClause)), lit "\x7d"])
  | .caseClause => all [kw .case, .rule .expression, lit ":", .star statement]
  | .defaultClause => all [kw .default, lit ":", .star statement]
  | .labelledStatement => all [.rule .identifier, lit ":", statement]
  | .tryStatement =>
    all [kw .try, .rule .block,
      .choice (.seq (.rule .catchClause) (.maybe (.rule .finallyClause))) (.rule .finallyClause)]
  | .catchClause => all [kw .catch, lit "(", .rule .identifier, lit ")", .rule .block]
  | .finallyClause => .seq (kw .finally) (.rule .block)
  | .functionDeclaration =>
    all [kw .function, .rule .identifier, .rule .formalParameters, lit "\x7b",
      .rule .functionBody, lit "\x7d"]
  | .program => all [.beginning, .star statement, .rule .endOfInput]
  | .endOfInput => .ending

/-- Whether a rule is plain, free, tight or a token. -/
def kind : Rule → Kind
  | .identifierName | .identifier | .keyword _ | .thisExpression | .nullLiteral
  | .booleanLiteral | .numericLiteral | .stringLiteral | .postfixOperator | .unaryOperator
  | .operator _ | .assignmentOperator => .token
  | .functionBody => .free
  | .comma | .block | .emptyStatement | .ifStatement | .doWhileStatement | .whileStatement
  | .forInStatement | .forStatement | .withStatement | .switchStatement | .caseClause
  | .defaultClause | .labelledStatement | .tryStatement | .catchClause | .finallyClause
  | .functionDeclaration | .program | .endOfInput => .plain
  | _ => .tight

end Es

/-- The ECMAScript 5.1 grammar. -/
def ecmascript : Grammar Rule :=
  ⟨Es.kind, Es.body⟩

/-- Parses a program. -/
def parseProgram (s : String) : Except Nat (Node Rule) :=
  parse ecmascript .program s

end Ecma.Grammar
