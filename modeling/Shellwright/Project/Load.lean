import Shellwright.Compile
import Shellwright.Files.System
import Shellwright.Project.Imports

/-!
# Loading projects

A project is an entry file and every file it imports, directly or through others. Loading joins
them into one program in which a file's functions come after those of the files it imports, and
the global variables of imported files come before the statements of the entry file.

Loading ends because the files being loaded are different places of the file system: a file
that is imported adds one to them, and there are finitely many. Whatever a step loads, the
files that were being loaded before it still are when it is done, so this goes for each import
of a file alike.
-/

namespace Shellwright.Project

open Surface

/-! ## Faults -/

/-- Why a project cannot be loaded. -/
inductive LoadFault where
  | lex (fault : LexFault)
  | parse (fault : ParseFault)
  | unresolved (path : Path) (fault : FileFault)
  | unreadable (place : Path) (fault : FileFault)
  | missingModule (module : String) (path : Path)
  /-- An import leads back to a file that is being loaded. -/
  | cycle (stack : List Path) (again : Path)
  | nestedImport
  | functionConflict (name : String) (definedIn : String)
  | strayStatement
  deriving DecidableEq, Repr

namespace LoadFault

def message : LoadFault → String
  | .lex fault => fault.message
  | .parse fault => fault.message
  | .unresolved path fault => "Failed to resolve path " ++ path.text ++ ": " ++ fault.message
  | .unreadable place fault => "Failed to read " ++ place.text ++ ": " ++ fault.message
  | .missingModule module _ => "cannot find module '" ++ module ++ "'"
  | .cycle stack again =>
    "Import cycle detected: " ++ String.join (stack.map (·.text ++ " -> ")) ++ again.text
  | .nestedImport => "import is only allowed at the top level"
  | .functionConflict name file => "Function '" ++ name ++ "' is already defined in " ++ file
  | .strayStatement =>
    "only assignments and imports are allowed at the top level of an imported file"

/-- What the writer can do about a fault. -/
def help : LoadFault → Option String
  | .missingModule _ path => some ("looked for " ++ path.text)
  | .nestedImport => some "move the import to the start of the file"
  | .strayStatement => some "move this statement into a function"
  | _ => none

end LoadFault

/-- A fault, the file it is about, and the place in its text if that is at hand. -/
structure LoadError where
  fault : LoadFault
  file : Option String
  span : Span
  source : Option Source
  deriving DecidableEq

/-- A fault about a file as a whole. -/
def LoadError.bare (fault : LoadFault) (file : Option String) : LoadError :=
  ⟨fault, file, .zero, none⟩

def LoadError.diagnostic (e : LoadError) : Diagnostic :=
  ⟨e.fault.message, e.span, e.source, e.file, e.fault.help⟩

/-! ## What has been loaded -/

/-- How far a load has come. -/
structure Loading where
  /-- The files that are being loaded. -/
  visiting : List Path
  /-- The way from the entry file to the file at hand, for messages. -/
  stack : List Path
  /-- The files that are loaded with all they import, the last one first. -/
  loaded : List Path
  functions : List Function
  /-- The assignments of imported files. -/
  globals : List TopLevel
  /-- The statements of the entry file outside its functions. -/
  statements : List TopLevel
  sources : List (String × Source)

/-- Where an import is written. -/
structure Site where
  importer : Path
  span : Span
  module : String

namespace Loading

/-- A later stage of a load, in which the same files are being loaded. -/
abbrev Later (l : Loading) : Type := { l' : Loading // l'.visiting = l.visiting }

/-- Nothing has been loaded. -/
def start : Loading := ⟨[], [], [], [], [], [], []⟩

/-- A fault at a place of a file. -/
def error (l : Loading) (fault : LoadFault) (file : String) (span : Span) : LoadError :=
  ⟨fault, some file, span, l.sources.lookup file⟩

/-- The fault of a path that leads nowhere. -/
def missing (l : Loading) (path : Path) (fault : FileFault) : Option Site → LoadError
  | some site => l.error (.missingModule site.module path) site.importer.text site.span
  | none => .bare (.unresolved path fault) (some path.text)

/-- The fault of a path that leads to a file that is being loaded. -/
def cycle (l : Loading) (place : Path) : Option Site → LoadError
  | some site => l.error (.cycle l.stack place) site.importer.text site.span
  | none => .bare (.cycle l.stack place) none

/-- A file begins to be loaded. -/
def enter (l : Loading) (place : Path) (source : Source) : Loading :=
  { l with
    visiting := place :: l.visiting
    stack := l.stack ++ [place]
    sources := (place.text, source) :: l.sources }

/-- A file has been loaded. -/
def leave (l : Loading) (place : Path) : Loading :=
  { l with
    visiting := l.visiting.erase place
    stack := l.stack.dropLast
    loaded := place :: l.loaded }

/-- Known functions and more of them, each of which needs a name of its own. -/
def joinFunctions (l : Loading) (known : List Function) :
    List Function → Except LoadError (List Function)
  | [] => .ok known
  | f :: rest =>
    match known.find? (·.name = f.name) with
    | some g => .error (l.error (.functionConflict f.name g.file) f.file f.span)
    | none => joinFunctions l (known ++ [f]) rest

/-- Known assignments and those of an imported file, which must have no other
statements outside its functions. -/
def joinGlobals (l : Loading) (known : List TopLevel) :
    List TopLevel → Except LoadError (List TopLevel)
  | [] => .ok known
  | ⟨.load _ _, _⟩ :: rest => joinGlobals l known rest
  | ⟨.assign span name value, file⟩ :: rest =>
    joinGlobals l (known ++ [⟨.assign span name value, file⟩]) rest
  | ⟨stmt, file⟩ :: _ => .error (l.error .strayStatement file stmt.span)

/-- Adds what a file defines. Only the entry file may have statements other than assignments. -/
def gather (l : Loading) (isEntry : Bool) (program : Program) : Except LoadError l.Later := do
  let functions ← l.joinFunctions l.functions program.functions
  if isEntry then return ⟨{ l with functions, statements := program.topLevel }, rfl⟩
  else
    let globals ← l.joinGlobals l.globals program.topLevel
    return ⟨{ l with functions, globals }, rfl⟩

end Loading

/-! ## Files -/

/-- The program of a file alone. -/
def parseFile (place : Path) (source : Source) : Except LoadError Program :=
  match Token.scan source.chars with
  | .error e => .error ⟨.lex e.fault, some place.text, e.span, some source⟩
  | .ok tokens =>
    match Program.parse place.text tokens with
    | .error e => .error ⟨.parse e.fault, some place.text, e.span, some source⟩
    | .ok program => .ok program

/-- Reads a file and checks where its imports stand. -/
def openFile (fs : FileSystem) (place : Path) : Except LoadError (Program × Source) := do
  match fs.read place with
  | .error fault => .error (.bare (.unreadable place fault) (some place.text))
  | .ok text =>
    let source : Source := ⟨text⟩
    let program ← parseFile place source
    match nestedImport? program with
    | some span => .error ⟨.nestedImport, some place.text, span, some source⟩
    | none => return (program, source)

/-- How many places of the file system are not being loaded. -/
def openPlaces (fs : FileSystem) (visiting : List Path) : Nat :=
  fs.places.countP (· ∉ visiting)

theorem openPlaces_cons_lt {fs : FileSystem} {visiting : List Path} {place : Path}
    (there : place ∈ fs.places) (new : place ∉ visiting) :
    openPlaces fs (place :: visiting) < openPlaces fs visiting := by
  unfold openPlaces
  revert there
  generalize fs.places = places
  intro there
  obtain ⟨before, after, rfl⟩ := List.append_of_mem there
  have le : ∀ ps : List Path, ps.countP (· ∉ place :: visiting) ≤ ps.countP (· ∉ visiting) :=
    fun ps => List.countP_mono_left fun q _ => by
      simp only [List.mem_cons, not_or, decide_eq_true_eq]
      exact And.right
  have last : (place :: after).countP (· ∉ place :: visiting) <
      (place :: after).countP (· ∉ visiting) := by
    rw [List.countP_cons_of_neg (by simp), List.countP_cons_of_pos (by simpa using new)]
    exact Nat.lt_succ_of_le (le after)
  rw [List.countP_append, List.countP_append]
  exact Nat.add_lt_add_of_le_of_lt (le before) last

mutual

/-- Loads the file that a path leads to, with all it imports. What is loaded already
is not loaded again. -/
def loadFile (fs : FileSystem) (l : Loading) (path : Path) (site : Option Site) :
    Except LoadError l.Later :=
  match found : fs.find path with
  | .error fault => .error (l.missing path fault site)
  | .ok place =>
    if place ∈ l.loaded then .ok ⟨l, rfl⟩
    else if new : place ∈ l.visiting then .error (l.cycle place site)
    else do
      let (program, source) ← openFile fs place
      let ⟨inner, same⟩ ← loadImports fs (l.enter place source) place
          (importsOf program.topLevel)
      let ⟨whole, same'⟩ ← inner.gather l.stack.isEmpty program
      return ⟨whole.leave place, by simp [Loading.leave, same', same, Loading.enter]⟩
termination_by (openPlaces fs l.visiting, 0)
decreasing_by
  exact Prod.Lex.left _ _ (openPlaces_cons_lt (fs.mem_places found) new)

/-- Loads what a file imports, in its order. -/
def loadImports (fs : FileSystem) (l : Loading) (importer : Path) (imports : List Import) :
    Except LoadError l.Later :=
  match imports with
  | [] => .ok ⟨l, rfl⟩
  | ⟨span, module⟩ :: rest => do
    let ⟨next, same⟩ ← loadFile fs l (importPath importer module) (some ⟨importer, span, module⟩)
    let ⟨last, same'⟩ ← loadImports fs next importer rest
    return ⟨last, same'.trans same⟩
termination_by (openPlaces fs l.visiting, imports.length)
decreasing_by
  · exact Prod.Lex.right _ (by simp)
  · rw [same]
    exact Prod.Lex.right _ (by simp)

end

/-- The program of a project. -/
def load (fs : FileSystem) (entry : Path) : Except LoadError Program := do
  let ⟨l, _⟩ ← loadFile fs .start entry none
  match fs.find entry with
  | .error fault => .error (.bare (.unresolved entry fault) (some entry.text))
  | .ok place => return ⟨l.functions, l.globals ++ l.statements, .zero, l.sources, place.text⟩

end Shellwright.Project
