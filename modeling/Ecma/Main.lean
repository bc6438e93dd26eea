import Ecma.CommandLine

set_option autoImplicit false

/-!
The program. Lines are read and answered one at a time, so that a session can be interactive.
-/

namespace Ecma.CommandLine

def Output.write (output : Output) : IO Unit := do
  let stdout ← IO.getStdout
  let stderr ← IO.getStderr
  stdout.putStr output.stdout
  stdout.flush
  stderr.putStr output.stderr
  stderr.flush

def readReason : IO.Error → String
  | .noFileOrDirectory _ _ _ => "No such file or directory (os error 2)"
  | e => toString e

def readFile (name : String) : IO (Except String String) := do
  try
    return .ok (← IO.FS.readFile name)
  catch e => return .error (readReason e)

/-- Answers lines until the input or the session ends. -/
partial def interact (input : IO.FS.Stream) (r : Realm) : IO Unit := do
  Output.write { stdout := prompt }
  let line ← input.getLine
  if line.isEmpty then return
  match answerLine line r with
  | none => return
  | some (output, r) =>
    output.write
    interact input r

def start (args : List String) : IO UInt32 := do
  match Command.ofArgs args with
  | .readLines =>
    Output.write { stdout := banner }
    interact (← IO.getStdin) (.create {})
    return 0
  | .runFile name =>
    let content ← readFile name
    let output := run args "" fun _ => content
    output.write
    return output.code.toUInt32
  | _ =>
    let output := run args "" .error
    output.write
    return output.code.toUInt32

end Ecma.CommandLine

def main (args : List String) : IO UInt32 :=
  Ecma.CommandLine.start args
