import Shellwright.Path

/-!
# File systems

What the program needs to know of files: which place a path leads to, and the text
found there. Many paths can lead to one place, and a place is named by one of them.
There are finitely many places.
-/

namespace Shellwright

/-- Why something cannot be done with a file. -/
inductive FileFault where
  | notFound
  | denied
  | notDirectory
  | isDirectory
  | notText
  /-- Any other reason, in the words of the system. -/
  | other (message : String)
  deriving DecidableEq, Repr

def FileFault.message : FileFault → String
  | .notFound => "No such file or directory (os error 2)"
  | .denied => "Permission denied (os error 13)"
  | .notDirectory => "Not a directory (os error 20)"
  | .isDirectory => "Is a directory (os error 21)"
  | .notText => "stream did not contain valid UTF-8"
  | .other message => message

/-- Files that can be found and read. -/
structure FileSystem where
  /-- The places that paths can lead to. -/
  places : List Path
  /-- The place that a path leads to. -/
  find : Path → Except FileFault Path
  mem_places : ∀ {path place : Path}, find path = .ok place → place ∈ places
  /-- The text at a place. -/
  read : Path → Except FileFault String
  /-- Why the file that a path leads to cannot be opened, if it cannot. -/
  refuses : Path → Option FileFault := fun _ => none

/-- A path leads somewhere. -/
def FileSystem.has (fs : FileSystem) (path : Path) : Bool := (fs.find path).toOption.isSome

end Shellwright
