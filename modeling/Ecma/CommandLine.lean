import Ecma.Engine
import Ecma.Text.Blank

set_option autoImplicit false

/-!
The command line. It runs a file, evaluates a text, or reads line after line. All of it is a function
of the arguments, the input and the files; only the outer program touches the system.
-/

namespace Ecma.CommandLine

/-- What a command writes and the code it ends with. -/
structure Output where
  stdout : String := ""
  stderr : String := ""
  code : Nat := 0
deriving DecidableEq, Repr, Inhabited

/-- What the arguments ask for. -/
inductive Command where
  | readLines
  | help
  | runFile (name : String)
  | evaluate (text : String)
  | misuse
deriving DecidableEq, Repr, Inhabited

def Command.ofArgs : List String → Command
  | [] => .readLines
  | [arg] => if arg = "-h" ∨ arg = "--help" then .help else .runFile arg
  | [option, text] => if option = "-e" ∨ option = "--eval" then .evaluate text else .misuse
  | _ => .misuse

def usage : String :=
  "clove - script engine\n\nUsage:\n" ++
  "  clove <file.js>              Run a script file\n" ++
  "  clove -e \"code\"              Evaluate code and print the result\n" ++
  "  clove --eval \"code\"          Evaluate code and print the result\n" ++
  "  clove                        Start REPL (interactive mode)\n"

/-- The host of the command line has no functions. -/
def host : HostFunction := fun _ _ _ => return .undefined

/-- The line that reports a failure; internal limits are marked as uncaught too. -/
def report : Failure → String
  | .malformed message => (Failure.malformed message).message ++ "\n"
  | .uncaught v message => (Failure.uncaught v message).message ++ "\n"
  | e => "Uncaught " ++ e.message ++ "\n"

/-- The line that shows a result; undefined shows nothing. -/
def resultLine (v : Value) (r : Realm) : String × Realm :=
  match v with
  | .undefined => ("", r)
  | v =>
    let (text, r) := r.display host v
    (text ++ "\n", r)

/-- Evaluates a text and gives what is written, and the realm to go on with. -/
def evaluateLine (text filename : String) (showResult : Bool) (r : Realm) : Output × Realm :=
  match r.evaluateProgram host text filename with
  | (.ok v, r) =>
    let (line, r) := if showResult then resultLine v r else ("", r)
    let ((stdout, stderr), r) := r.takeOutput
    ({ stdout := stdout ++ line, stderr := stderr }, r)
  | (.error e, r) =>
    let ((stdout, stderr), r) := r.takeOutput
    ({ stdout := stdout, stderr := stderr ++ report e, code := 1 }, r)

def banner : String :=
  "clove v0.1.0\nType code and press Enter. Type .exit to quit.\n\n"

def prompt : String := "> "

/-- White space at the ends of a line; a byte order mark is none. -/
def isMargin (c : Char) : Bool :=
  Text.isBlank c && c != '\uFEFF'

/-- A line without the white space around it. -/
def trimLine (line : String) : String :=
  String.ofList (((line.toList.dropWhile isMargin).reverse.dropWhile isMargin).reverse)

/-- What a line does: it ends the session, or something is written and the session goes on. -/
def answerLine (line : String) (r : Realm) : Option (Output × Realm) :=
  match trimLine line with
  | ".exit" => none
  | ".quit" => none
  | "" => some ({}, r)
  | text => some (evaluateLine text "<repl>" true r)

/-- Goes through lines until one ends the session or none is left. -/
def session : List String → Realm → Output
  | [], _ => { stdout := prompt }
  | line :: rest, r =>
    match answerLine line r with
    | none => { stdout := prompt }
    | some (output, r) =>
      let later := session rest r
      { stdout := prompt ++ output.stdout ++ later.stdout, stderr := output.stderr ++ later.stderr }

/-- The lines of an input; nothing comes after the last line end. -/
def linesOf (input : String) : List String :=
  let lines := input.splitOn "\n"
  if lines.getLast? = some "" then lines.dropLast else lines

/-- The whole command. `readFile` gives the content of a file or the reason why it cannot be read. -/
def run (args : List String) (input : String) (readFile : String → Except String String) : Output :=
  match Command.ofArgs args with
  | .help => { stderr := usage }
  | .misuse => { stderr := usage, code := 1 }
  | .evaluate text => (evaluateLine text "<eval>" true (.create {})).1
  | .runFile name =>
    match readFile name with
    | .error reason => { stderr := s!"Error reading file '{name}': {reason}\n", code := 1 }
    | .ok text => (evaluateLine text name false (.create {})).1
  | .readLines =>
    let output := session (linesOf input) (.create {})
    { output with stdout := banner ++ output.stdout }

end Ecma.CommandLine
