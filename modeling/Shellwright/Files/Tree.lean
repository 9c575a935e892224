import Shellwright.Files.System

/-!
# File trees

A file system held as a value: a finite tree of directories and files. Steps of a path are taken
one after the other from the root or from the directory one works in, and each needs a directory
to start from, a final separator included.
-/

namespace Shellwright

/-- What stands at a place of a tree. -/
inductive Node where
  | directory
  | file (content : ByteArray) (executable : Bool)

/-- A tree of files. A place is the list of names that lead to it from the root; the root
itself is always there. -/
structure Tree where
  nodes : List (List String × Node)

namespace Tree

/-- The tree with nothing but the root. -/
def empty : Tree := ⟨[]⟩

/-- What stands at a place. -/
def node? (t : Tree) (place : List String) : Option Node :=
  if place.isEmpty then some .directory else t.nodes.lookup place

/-- A directory stands at a place. -/
def isDirectory (t : Tree) (place : List String) : Bool :=
  match t.node? place with
  | some .directory => true
  | _ => false

/-- The tree with something else, or something new, at a place. -/
def set (t : Tree) (place : List String) (node : Node) : Tree :=
  ⟨(place, node) :: t.nodes.filter (·.1 ≠ place)⟩

/-- The path that names a place. -/
def pathOf (place : List String) : Path :=
  match place with
  | [] => ⟨"/"⟩
  | _ => ⟨String.join (place.map ("/" ++ ·))⟩

/-! ## Finding -/

/-- Follows the pieces of a path from a place. -/
def follow (t : Tree) (place : List String) : List String → Except FileFault (List String)
  | [] => .ok place
  | piece :: rest =>
    if !t.isDirectory place then .error .notDirectory
    else if piece = "" || piece = "." then follow t place rest
    else if piece = ".." then follow t place.dropLast rest
    else if (t.node? (place ++ [piece])).isSome then follow t (place ++ [piece]) rest
    else .error .notFound

/-- The pieces of a path between separators. -/
def piecesOf (path : Path) : List String :=
  (Path.pieces 0 path.chars).map fun piece => String.ofList piece.2

/-- The place where a path starts. -/
def startOf (home : List String) (path : Path) : List String :=
  if path.isAbsolute then [] else home

/-- The place that a path leads to, for one who works in `home`. -/
def locate (t : Tree) (home : List String) (path : Path) : Except FileFault (List String) :=
  if path.text.isEmpty then .error .notFound
  else t.follow (startOf home path) (piecesOf path)

/-- The paths that name the places of a tree. -/
def places (t : Tree) : List Path := pathOf [] :: t.nodes.map fun n => pathOf n.1

/-- The path that names the place another path leads to. -/
def find (t : Tree) (home : List String) (path : Path) : Except FileFault Path :=
  match t.locate home path with
  | .error fault => .error fault
  | .ok place => if pathOf place ∈ t.places then .ok (pathOf place) else .error .notFound

theorem find_mem (t : Tree) (home : List String) {path place : Path}
    (h : t.find home path = .ok place) : place ∈ t.places := by
  unfold find at h
  split at h
  · cases h
  · split at h
    · cases h
      assumption
    · cases h

/-- The text at the end of a path. -/
def readText (t : Tree) (home : List String) (path : Path) : Except FileFault String :=
  match t.locate home path with
  | .error fault => .error fault
  | .ok place =>
    match t.node? place with
    | none => .error .notFound
    | some .directory => .error .isDirectory
    | some (.file content _) =>
      match String.fromUTF8? content with
      | some text => .ok text
      | none => .error .notText

/-- The tree as a file system, for one who works in `home`. -/
def toFileSystem (t : Tree) (home : List String) : FileSystem where
  places := t.places
  find := t.find home
  mem_places := t.find_mem home
  read := t.readText home

/-! ## Writing -/

/-- The place at which a path would write a file: that of its last piece, in the directory that
the other pieces lead to. A path that ends in dots or in a separator means a directory. -/
def destination (t : Tree) (home : List String) (path : Path) : Except FileFault (List String) :=
  let pieces := piecesOf path
  match pieces.reverse.dropWhile (· = "") with
  | [] => .error (if path.text.isEmpty then .notFound else .isDirectory)
  | last :: before => do
    let parent ← t.follow (startOf home path) before.reverse
    if !t.isDirectory parent then .error .notDirectory
    else if last = "." || last = ".." || pieces.getLast? = some "" then .error .isDirectory
    else if t.isDirectory (parent ++ [last]) then .error .isDirectory
    else return parent ++ [last]

/-- The tree with a text written to a file, which is made if need be. A file that is there keeps
its permission to be run, and gets it when `executable`. -/
def write (t : Tree) (home : List String) (path : Path) (text : String) (executable : Bool) :
    Except FileFault Tree := do
  let place ← t.destination home path
  let before := match t.node? place with
    | some (.file _ old) => old
    | _ => false
  return t.set place (.file text.toUTF8 (before || executable))

/-! ## Building -/

/-- The tree with directories on the whole way to a place. -/
def addDirectories (t : Tree) (place : List String) : Tree :=
  (List.range (place.length + 1)).foldl
    (fun t n =>
      let upper := place.take n
      if (t.node? upper).isSome then t else t.set upper .directory)
    t

/-- The tree with a file, and directories on the way to it. -/
def addFile (t : Tree) (place : List String) (content : ByteArray) : Tree :=
  (t.addDirectories place.dropLast).set place (.file content false)

end Tree

end Shellwright
