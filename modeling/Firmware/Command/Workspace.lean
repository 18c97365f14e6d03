import Firmware.Command.Host
import Firmware.Crypto.Sha256

/-!
# A workspace in memory

A directory with files and directories in it, environment variables, a terminal and a source of
random bytes: all that a command can see or change.  A path is followed name by name from the
directory; what is behind a name that is no directory, or outside of the workspace, is not there.  A
name has at most 255 bytes.  Without further ado there is no terminal, and no RSA key is found.
-/

namespace Firmware

/-- The source of the digests of a seed followed by a counter. -/
def RandomSource.ofSeed (seed : Bytes) : RandomSource where
  stream i := (Crypto.sha256 (seed ++ Bytes.ofNatLE 8 (i / 32))).getD (i % 32) 0

namespace Command

/-- Where something is: the names that lead to it. -/
abbrev Location := List String

/-- A directory in memory and what else a command works with. -/
structure Workspace where
  files : List (Location × Bytes) := []
  /-- The directories below the workspace itself. -/
  directories : List Location := []
  environment : List (String × String) := []
  /-- What comes of a prompt with a given text. -/
  terminal : String → Key.Reply := fun _ => .absent
  source : RandomSource
  /-- The search for RSA keys. -/
  newRsa : Nat → Random Unit Crypto.Rsa.PrivateKey := fun _ => throw ()
  /-- What has been printed, the last text first. -/
  printed : List String := []

namespace Workspace

/-- Whether there is a directory. -/
def isDirectory (w : Workspace) (l : Location) : Bool := l.isEmpty || l ∈ w.directories

def file? (w : Workspace) (l : Location) : Option Bytes := w.files.lookup l

/-- A name that a file or directory may have. -/
def isName (name : String) : Bool := name.utf8ByteSize ≤ 255 && !name.contains (Char.ofNat 0)

/-- The names of a path, without those that stay where they are. -/
def namesOf (path : String) : List String :=
  ((Text.splitOn '/' path.toList).map String.ofList).filter fun n => n ≠ "" && n ≠ "."

/-- Follows names from a location to another one; all but the last must be there. -/
def follow? (w : Workspace) (l : Location) : List String → Option Location
  | [] => some l
  | name :: names =>
    if !w.isDirectory l then none
    else if name = ".." then if l.isEmpty then none else w.follow? l.dropLast names
    else if isName name then w.follow? (l ++ [name]) names
    else none

/-- Whether only a directory can be at a path, by its spelling. -/
def asksDirectory (path : String) : Bool :=
  match (Text.splitOn '/' path.toList).getLast? with
  | some [] | some ['.'] | some ['.', '.'] => true
  | _ => false

/-- The location of a path.  A path that starts at the root leads out of the workspace. -/
def locate? (w : Workspace) (path : String) : Option Location :=
  if path.startsWith "/" then none else w.follow? [] (namesOf path)

def load? (w : Workspace) (path : String) : Option Bytes := do
  let l ← w.locate? path
  if asksDirectory path then none else w.file? l

def names? (w : Workspace) (path : String) : Option (List String) := do
  let l ← w.locate? path
  if w.isDirectory l then
    some ((w.files.map (·.1) ++ w.directories).filterMap fun k =>
      if k.dropLast = l then k.getLast? else none)
  else none

def put (w : Workspace) (l : Location) (data : Bytes) : Workspace :=
  { w with files := (l, data) :: w.files.filter (·.1 ≠ l) }

/-- Writes the file at a path, in a directory that is there. -/
def store? (w : Workspace) (path : String) (data : Bytes) : Option Workspace := do
  let l ← w.locate? path
  if asksDirectory path || w.isDirectory l || !w.isDirectory l.dropLast then none
  else some (w.put l data)

/-- Makes the directories that names lead to from a location. -/
def makeFrom? (w : Workspace) (l : Location) : List String → Option Workspace
  | [] => some w
  | name :: names =>
    if name = ".." then if l.isEmpty then none else w.makeFrom? l.dropLast names
    else
      let l := l ++ [name]
      if w.isDirectory l then w.makeFrom? l names
      else if (w.file? l).isSome || !isName name then none
      else makeFrom? { w with directories := w.directories ++ [l] } l names

def makeDirectory? (w : Workspace) (path : String) : Option Workspace :=
  if path.startsWith "/" then none else w.makeFrom? [] (namesOf path)

def text (w : Workspace) : String := String.join w.printed.reverse

/-- Adds a file with the directories it lies in. -/
def withFile (w : Workspace) (path : String) (data : Bytes) : Workspace :=
  let l := namesOf path
  ((w.makeFrom? [] l.dropLast).getD w).put l data

end Workspace

/-- A change of the workspace that may be impossible. -/
def tryChange (change : Workspace → Option Workspace) : StateM Workspace Bool := fun w =>
  match change w with
  | some w => (true, w)
  | none => (false, w)

instance : Host (StateM Workspace) where
  load path := do return (← get).load? path
  isPresent path := do
    let w ← get
    return (w.load? path).isSome || (w.names? path).isSome
  names path := do return (← get).names? path
  store path data := tryChange (·.store? path data)
  makeDirectory path := tryChange (·.makeDirectory? path)
  lookup name := do return (← get).environment.lookup name
  ask prompt := do return (← get).terminal prompt
  print text := modify fun w => { w with printed := text :: w.printed }
  random r := fun w =>
    let (result, source) := r w.source
    (result, { w with source })
  newRsa := do return (← get).newRsa

end Command

end Firmware
