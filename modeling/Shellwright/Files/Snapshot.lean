import Shellwright.Files.System

/-!
# Snapshots

What has been seen of a file system so far. A snapshot is a file system of its own, in which
nothing is where nobody has looked.
-/

namespace Shellwright

/-- What is seen where a path leads. -/
structure Sight where
  place : Path
  text : Except FileFault String
  /-- Why the file cannot be opened, if it cannot. -/
  refused : Option FileFault := none

/-- What was seen. -/
structure Snapshot where
  /-- Where paths lead. -/
  finds : List (Path × Except FileFault Path) := []
  /-- What stands at places. -/
  reads : List (Path × Except FileFault String) := []
  /-- The paths of files that cannot be opened. -/
  refused : List (Path × FileFault) := []

namespace Snapshot

/-- Where a path leads. -/
def find (s : Snapshot) (path : Path) : Except FileFault Path :=
  (s.finds.lookup path).getD (.error .notFound)

/-- The places that were seen. -/
def places (s : Snapshot) : List Path :=
  s.finds.filterMap fun (_, found) => found.toOption

/-- What stands at a place. -/
def read (s : Snapshot) (place : Path) : Except FileFault String :=
  (s.reads.lookup place).getD (.error .notFound)

theorem find_mem_places (s : Snapshot) {path place : Path} (h : s.find path = .ok place) :
    place ∈ s.places := by
  cases hl : s.finds.lookup path with
  | none => simp [find, hl] at h
  | some found =>
    have hfound : found = .ok place := by simpa [find, hl] using h
    obtain ⟨before, after, eq, _⟩ := List.lookup_eq_some_iff.mp hl
    exact List.mem_filterMap.mpr ⟨(path, found), by simp [eq], by simp [hfound, Except.toOption]⟩

/-- The snapshot as a file system. -/
def toFileSystem (s : Snapshot) : FileSystem where
  places := s.places
  find := s.find
  mem_places := s.find_mem_places
  read := s.read
  refuses path := s.refused.lookup path

/-- The snapshot after a look at where a path leads and, if it leads somewhere, at what stands
there. -/
def add (s : Snapshot) (path : Path) (found : Except FileFault Sight) : Snapshot :=
  match found with
  | .error fault => { s with finds := (path, .error fault) :: s.finds }
  | .ok sight => {
    finds := (path, .ok sight.place) :: s.finds
    reads := (sight.place, sight.text) :: s.reads
    refused := (sight.refused.map (path, ·)).toList ++ s.refused }

end Snapshot

end Shellwright
