import Ecma.Builtin.Function

set_option autoImplicit false

/-!
The console, which writes lines to the two output streams of the realm.
-/

namespace Ecma

open Run

/-- The line that arguments make. -/
def consoleLine (args : List Value) : Run String := do
  return String.intercalate " " (← toTexts args) ++ "\n"

def ConsoleFunction.run (f : ConsoleFunction) (args : List Value) : Run Value := do
  let line ← consoleLine args
  match f with
  | .log => modify fun r => { r with stdout := r.stdout ++ line }
  | .error => modify fun r => { r with stderr := r.stderr ++ line }
  return .undefined

end Ecma
