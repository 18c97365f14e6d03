import Firmware.Command.Binaries
import Firmware.Command.Images

/-!
# Running commands

A command line is refused if it asks for nothing; else the command runs in its surroundings and
either succeeds or leaves the texts of its error.
-/

namespace Firmware.Command

variable {m : Type → Type} [Monad m] [Host m]

def Request.run : Request → Session m Unit
  | createImage creation => Command.createImage creation
  | showImage input => Command.showImage input
  | verifyImage verification => Command.verifyImage verification
  | decryptImage input path unwrap passphrase => Command.decryptImage input path unwrap passphrase
  | generateKey path kind passphrase => Command.generateKey path kind passphrase
  | showKey source => Command.showKey source
  | extractPublic source path => Command.extractPublic source path
  | split input areas device directory erase => splitBinary input areas device directory erase
  | join directory areas path erase => joinBinary directory areas path erase
  | replace kind patch old new => replaceKey kind patch old new
  | showRegion input stop => Command.showRegion input stop
  | rehash patch => rehashBinary patch

/-- How a command line ended. -/
inductive Outcome where
  /-- The command line asks for nothing. -/
  | refused
  | succeeded
  | failed (texts : Failure)

/-- Runs a command line, without the name of the program. -/
def run (words : List String) : m Outcome :=
  match Request.parse? words with
  | none => return .refused
  | some request => do
    match ← request.run.run with
    | .ok () => return .succeeded
    | .error texts => return .failed texts

end Firmware.Command
