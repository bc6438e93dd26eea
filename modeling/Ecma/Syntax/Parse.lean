import Ecma.Grammar.Ecmascript
import Ecma.Scope.Analysis
import Ecma.Syntax.Build

set_option autoImplicit false

/-!
From text to syntax tree: the grammar first, then the tree with its early errors, and last the
analysis of the scopes. Global code, eval code and the text of a constructed function are parsed
alike.
-/

namespace Ecma.Syntax

open Ecma.Grammar Ecma.Scope Ecma.Text

/-- The state before the first statement of a unit: one scope, which the unit's names are bound in. -/
def Builder.start (source : Source) (kind : CodeKind) (strict : Bool) : Builder :=
  let (scopes, code) := Scope.Tree.newCode {} kind
  let (scopes, scope) := scopes.newScope (if kind = .eval then .eval else .global) none code
  { source := source, scopes := scopes, scope := scope
    code := { id := code, kind := kind, strict := strict, scope := scope } }

/-- Builds a whole unit. A unit that only wraps a function does not bind the function's name. -/
def buildUnit (nodes : Nodes) (span : Span) (wrapper : Bool) : Build Code := do
  if hasUseStrict nodes then Build.modifyCode fun c => { c with strict := true }
  let body ← statements true nodes
  finish (← get).code none [] body span (!wrapper)

/-- Parses a unit of code and analyses its scopes. -/
def parseUnit (source : Source) (kind : CodeKind) (strict wrapper collapse : Bool) :
    Except SyntaxError Parsed :=
  match Grammar.parseProgram source.text with
  | .error offset => .error (.unexpectedToken offset)
  | .ok node =>
    let nodes := node.parts.filter fun part => part.rule != .endOfInput
    let span : Span := ⟨0, source.text.utf8ByteSize⟩
    match (buildUnit nodes span wrapper).run (Builder.start source kind strict) with
    | .error e _ => .error e
    | .ok code builder => .ok ⟨code, builder.scopes.analyze collapse⟩

/-- Parses global code. -/
def parseProgram (text filename : String) (collapse : Bool) : Except SyntaxError Parsed :=
  parseUnit ⟨filename, text⟩ .global false false collapse

/-- Parses the argument of `eval`; code called from strict code is strict. -/
def parseEval (text : String) (strict collapse : Bool) : Except SyntaxError Parsed :=
  parseUnit ⟨"<eval>", text⟩ .eval strict false collapse

/-- The text of a function made from the texts of its parameters and its body. -/
def functionText (params body : String) : String :=
  "function anonymous(" ++ params ++ "\n) \x7b\n" ++ body ++ "\n\x7d"

/-- Parses a constructed function: its text must be a single function declaration. -/
def parseFunction (params body : String) (collapse : Bool) : Except SyntaxError Parsed :=
  match parseUnit ⟨"<function>", functionText params body⟩ .global false true collapse with
  | .error e => .error e
  | .ok parsed =>
    match parsed.code.body, parsed.code.functions with
    | [_], [f] => .ok ⟨f, parsed.scopes⟩
    | _, _ => .error (.early .functionText 0)

end Ecma.Syntax
