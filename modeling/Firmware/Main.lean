import Firmware.Command.Run
import Firmware.Command.Workspace
import Firmware.Crypto.RsaSearch

/-!
# The program

Runs one command line on the files of the machine.  Errors go to the error output; the exit code is
1 when the command failed and 2 when the command line was refused.
-/

namespace Firmware.Command

/-- Whether an action went through. -/
def succeeds (action : IO Unit) : IO Bool :=
  try
    action
    return true
  catch _ => return false

/-- The result of an action that may fail. -/
def result? {α : Type} (action : IO α) : IO (Option α) :=
  try return some (← action)
  catch _ => return none

/-- Whether an error means that there is no terminal: no such device, or not a terminal. -/
def meansNoTerminal : IO.Error → Bool
  | .noSuchThing _ code _ | .illegalOperation code _ | .inappropriateType _ code _
  | .unsupportedOperation code _ | .otherError code _ => code == 6 || code == 25
  | _ => false

/-- Shows a prompt on the terminal of the process and reads a line there. -/
def prompt (text : String) : IO String := do
  let terminal ← IO.FS.Handle.mk "/dev/tty" .readWrite
  terminal.putStr text
  terminal.flush
  return Text.trimLineEnds (← terminal.getLine)

instance : Host IO where
  load path := do
    return (← result? (IO.FS.readBinFile path)).map fun data => data.toList
  isPresent path := (System.mkFilePath [path]).pathExists
  names path := do
    let entries ← result? (System.mkFilePath [path]).readDir
    return entries.map fun entries => entries.toList.map (·.fileName)
  store path data := succeeds (IO.FS.writeBinFile path ⟨data.toArray⟩)
  makeDirectory path := succeeds (IO.FS.createDirAll path)
  lookup name := IO.getEnv name
  ask text := do
    try return .typed (← prompt text)
    catch error => return if meansNoTerminal error then .absent else .broken
  print text := do
    let out ← IO.getStdout
    out.putStr text
  random r := do
    let seed ← IO.getRandomBytes 32
    return r.eval (RandomSource.ofSeed seed.toList)
  newRsa := return Crypto.Rsa.search

/-- What the error output says when a command line was refused. -/
def usage : String :=
  "Usage: <group> <command> [options]\n" ++
  "  image create|info|verify|decrypt\n" ++
  "  key generate|info|extract-public\n" ++
  "  mfg split|join|replace-isk|replace-kek\n" ++
  "  mmr info|rehash\n"

/-- The lines of an error with its causes. -/
def explain : Failure → String
  | [] => ""
  | [text] => text ++ "\n"
  | text :: causes =>
    text ++ "\n\nCaused by:\n" ++ String.join (causes.map fun cause => "    " ++ cause ++ "\n")

end Firmware.Command

open Firmware.Command in
/-- Runs the command line. -/
def main (words : List String) : IO UInt32 := do
  match ← run words with
  | .succeeded => return 0
  | .refused =>
    (← IO.getStderr).putStr usage
    return 2
  | .failed texts =>
    (← IO.getStderr).putStr (explain texts)
    return 1
