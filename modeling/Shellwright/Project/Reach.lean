import Shellwright.Files.Snapshot
import Shellwright.Project.Load

/-!
# What a build looks at

The paths that have to be looked at before a project can be built: the entry file, the directory
it is in, and whatever the files seen so far import.
-/

namespace Shellwright.Project

/-- The paths that a file imports. A file that cannot be parsed has none. -/
def importedPaths (place : Path) (text : String) : List Path :=
  match parseFile place ⟨text⟩ with
  | .error _ => []
  | .ok program => (importsOf program.topLevel).map fun i => importPath place i.module

/-- The paths that are still to be looked at. -/
def unseen (s : Snapshot) (entry : Path) : List Path :=
  let imported := s.reads.flatMap fun (place, text) =>
    match text with
    | .error _ => []
    | .ok text => importedPaths place text
  (entry :: entry.parent?.toList ++ imported).filter fun path => (s.finds.lookup path).isNone

end Shellwright.Project
