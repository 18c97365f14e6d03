import Firmware.Factory.Replace

/-!
# Working on a factory binary

A factory binary may be worked on for a while: keys are replaced in its bytes, and now and then the
digest in its region is brought up to date.  Every action changes the factory in place.  A
replacement of a key knows nothing of the region, even where it writes into it.
-/

namespace Firmware.Factory

/-- A change of a factory binary in place.  If it fails, what it has changed by then stays. -/
abbrev Change := ExceptT Error (StateM Factory)

/-- An edit of the binary. -/
def Change.ofEdit (edit : Edit Unit) : Change Unit := fun f =>
  let (result, binary) := edit f.binary
  (result, { f with binary })

/-- Brings the digest up to date. -/
def Change.rehash (erase : UInt8) : Change Unit := do
  let f ← get
  set (← (f.rehash erase : Except Error Factory))

/-- What can be done to a factory binary. -/
inductive Action where
  | replaceSigningKey (old new : Bytes)
  | replaceKek (old new : Bytes)
  | rehash (erase : UInt8)

def Action.run : Action → Change Unit
  | .replaceSigningKey old new => .ofEdit (.replaceSigningKey old new)
  | .replaceKek old new => .ofEdit (.replaceKek old new)
  | .rehash erase => .rehash erase

/-- The factory binary after actions of which any may have failed. -/
def after (f : Factory) (actions : List Action) : Factory :=
  actions.foldl (fun f action => (action.run f).2) f

end Firmware.Factory
