import Ecma.Text.Source

set_option autoImplicit false

/-!
Why a text is no program. Either the grammar does not match, or a rule that the grammar cannot
express is broken at some node; both carry the byte offset where that shows.
-/

namespace Ecma.Syntax

/-- The rules beyond the grammar. -/
inductive EarlyError where
  | unterminatedString
  | trailingEscape
  | hexEscape
  | unicodeEscape
  | strictReservedWord
  | strictEvalOrArguments
  | assignmentTarget
  | duplicateParameter
  | nestedStrictFunction
  | illegalContinue
  | illegalBreak
  | illegalReturn
  | undefinedLabel
  | duplicateLabel
  | strictWith
  | duplicateDefault
  | strictDelete
  | octalLiteral
  | octalEscape
  | duplicateProperty
  | functionText
  | unexpectedShape
deriving DecidableEq, Repr, Inhabited

def EarlyError.text : EarlyError → String
  | .unterminatedString => "Unterminated string literal"
  | .trailingEscape => "Invalid escape at end of string"
  | .hexEscape => "Invalid hexadecimal escape sequence"
  | .unicodeEscape => "Invalid Unicode escape sequence"
  | .strictReservedWord => "Unexpected strict mode reserved word"
  | .strictEvalOrArguments => "Unexpected eval or arguments in strict mode"
  | .assignmentTarget => "Invalid left-hand side in assignment"
  | .duplicateParameter => "Duplicate parameter name not allowed in this context"
  | .nestedStrictFunction => "In strict mode code, functions can only be declared at top level"
  | .illegalContinue => "Illegal continue statement"
  | .illegalBreak => "Illegal break statement"
  | .illegalReturn => "Illegal return statement"
  | .undefinedLabel => "Undefined label"
  | .duplicateLabel => "Label has already been declared"
  | .strictWith => "Strict mode code may not include a with statement"
  | .duplicateDefault => "More than one default clause in switch statement"
  | .strictDelete => "Delete of an unqualified identifier in strict mode"
  | .octalLiteral => "Octal literals are not allowed in strict mode"
  | .octalEscape => "Octal escape sequences are not allowed in strict mode"
  | .duplicateProperty => "Duplicate property in object literal"
  | .functionText => "Invalid function parameters or body"
  | .unexpectedShape => "Unexpected state reached"

inductive SyntaxError where
  /-- No rule of the grammar goes on from the offset. -/
  | unexpectedToken (offset : Nat)
  | early (cause : EarlyError) (offset : Nat)
deriving DecidableEq, Repr, Inhabited

namespace SyntaxError

def text : SyntaxError → String
  | .unexpectedToken _ => "Unexpected token"
  | .early cause _ => cause.text

def offset : SyntaxError → Nat
  | .unexpectedToken offset => offset
  | .early _ offset => offset

/-- The text of the error with its line and column in the program. -/
def message (e : SyntaxError) (program : String) : String :=
  let (line, column) := Text.errorPlace program e.offset
  s!"{e.text} ({line}:{column})"

end SyntaxError

end Ecma.Syntax
