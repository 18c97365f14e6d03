import Firmware.Build
import Firmware.Factory.Areas
import Firmware.Factory.Replace
import Firmware.Key.Save

/-!
# What commands need

A command reads and writes files, looks up environment variables, asks for passphrases, draws random
bytes and prints lines.  It asks a `Host` for these, so that the same command runs on files or on a
directory in memory.  The search for an RSA key is left to the host as well.  A command that fails
leaves the texts of its error: first what was to be done, then the error and its causes.
-/

namespace Firmware.Command

/-- The surroundings in which a command runs. -/
class Host (m : Type → Type) where
  /-- The content of a file, if it can be read. -/
  load : String → m (Option Bytes)
  /-- Whether there is something at a path that can be opened. -/
  isPresent : String → m Bool
  /-- The names in a directory, if there is one. -/
  names : String → m (Option (List String))
  /-- Writes a file; false if that fails. -/
  store : String → Bytes → m Bool
  /-- Makes a directory and the directories it lies in; false if that fails. -/
  makeDirectory : String → m Bool
  /-- The value of an environment variable. -/
  lookup : String → m (Option String)
  /-- Shows a prompt on the terminal and reads a line there. -/
  ask : String → m Key.Reply
  /-- Puts a text on the output. -/
  print : String → m Unit
  /-- Runs a computation with the random bytes that come next. -/
  random : {ε α : Type} → Random ε α → m (Except ε α)
  /-- The search for an RSA key with a modulus of a given number of bits. -/
  newRsa : m (Nat → Random Unit Crypto.Rsa.PrivateKey)

/-- The texts of an error from the outside in. -/
abbrev Failure := List String

/-- A command under way, which may fail. -/
abbrev Session (m : Type → Type) := ExceptT Failure m

/-- Errors with the texts of their causes. -/
class HasTexts (ε : Type) where
  texts : ε → Failure

instance : HasTexts Key.Error := ⟨fun e => [e.message]⟩
instance : HasTexts Secret.Error := ⟨fun e => [e.message]⟩
instance : HasTexts Image.Error := ⟨fun e => [e.message]⟩
instance : HasTexts Meta.Error := ⟨fun e => [e.message]⟩
instance : HasTexts Flash.Error := ⟨fun e => [e.message]⟩
instance : HasTexts Legacy.Error := ⟨Legacy.Error.texts⟩
instance : HasTexts Verify.Error := ⟨Verify.Error.texts⟩
instance : HasTexts Build.Error := ⟨Build.Error.texts⟩

instance : HasTexts Factory.Error := ⟨fun e =>
  e.message ::
    match e with
    | .flash cause => [cause.message]
    | .region cause => [cause.message]
    | _ => []⟩

/-- An error that says what failed about which path. -/
def about (what path : String) : String := what ++ ": " ++ Text.quotedPath path

section

variable {m : Type → Type} [Monad m]

/-- Goes on with a result, or fails with the texts of its error. -/
def check {ε α : Type} [HasTexts ε] : Except ε α → Session m α
  | .ok a => pure a
  | .error e => throw (HasTexts.texts e)

/-- Goes on with a result, or fails with what was to be done and the texts of its error. -/
def attempt {ε α : Type} [HasTexts ε] (what : String) : Except ε α → Session m α
  | .ok a => pure a
  | .error e => throw (what :: HasTexts.texts e)

/-- Goes on with a value, or fails with a text. -/
def demand {α : Type} (what : String) : Option α → Session m α
  | some a => pure a
  | none => throw [what]

variable [Host m]

/-- Prints a line about what was done. -/
def status (line : String) : Session m Unit :=
  liftM (Host.print ("\x1b[1m[*] " ++ line ++ "\x1b[0m\n") : m Unit)

/-- Prints a line about what looks wrong. -/
def warning (line : String) : Session m Unit :=
  liftM (Host.print ("\x1b[1;31m[WARNING] " ++ line ++ "\x1b[0m\n") : m Unit)

/-- Prints a text as it is. -/
def output (text : String) : Session m Unit := liftM (Host.print text : m Unit)

def content (what path : String) : Session m Bytes := do
  demand (about what path) (← liftM (Host.load path : m (Option Bytes)))

def save (what path : String) (data : Bytes) : Session m Unit := do
  demand (about what path) (if ← liftM (Host.store path data : m Bool) then some () else none)

/-- Runs a computation that draws random bytes. -/
def draw {ε α : Type} [HasTexts ε] (what : String) (r : Random ε α) : Session m α := do
  attempt what (← liftM (Host.random r : m (Except ε α)))

end

end Firmware.Command
