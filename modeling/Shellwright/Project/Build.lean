import Shellwright.Core.Dump
import Shellwright.Files.Tree
import Shellwright.Project.Load

/-!
# Building projects

What is made of a project: its script, or one of the texts that show how far it came. Only a
script that is complete is ever written to a file.
-/

namespace Shellwright.Project

/-- What is asked for. -/
inductive Goal where
  | script
  /-- Whether a script can be made. -/
  | check
  /-- The program as written. -/
  | surface
  /-- The resolved program. -/
  | core
  deriving DecidableEq, Repr

/-- How a project is built. -/
structure Options where
  target : Target := .bash
  library : Bool := false
  goal : Goal := .script
  /-- The file that a script is written to. -/
  output : Option Path := none
  /-- The file is made executable. -/
  executable : Bool := false

/-- Why a build gave nothing. -/
inductive Failure where
  | missing (path : Path)
  | unreadable (path : Path) (fault : FileFault)
  /-- The sources are at fault; paths are shown as seen from a base. -/
  | source (diagnostic : Diagnostic) (base : Option Path)
  | generation (error : Script.Error)
  | unwritable (path : Path) (fault : FileFault)

namespace Failure

/-- The exit code of a program that ends with this failure. -/
def code : Failure → Nat
  | .missing _ | .unreadable _ _ | .unwritable _ _ => 1
  | .source _ _ => 2
  | .generation _ => 3

def message : Failure → String
  | .missing path => "File not found: " ++ path.text
  | .unreadable path fault =>
    "Unable to read file: " ++ path.text ++ " (" ++ fault.message ++ ")"
  | .source diagnostic base => diagnostic.format base
  | .generation error => "internal error: " ++ error.text
  | .unwritable path fault => "Failed to write to " ++ path.text ++ ": " ++ fault.message

end Failure

/-- The directory that file names are shown from: the one the entry file is in. -/
def diagnosticBase (fs : FileSystem) (entry : Path) : Option Path :=
  entry.parent?.map fun dir => ((fs.find dir).toOption).getD dir

/-- What is asked for, as text. -/
def make (fs : FileSystem) (options : Options) (entry : Path) : Except Failure String := do
  let base := diagnosticBase fs entry
  if !fs.has entry then .error (.missing entry)
  else if let some fault := fs.refuses entry then .error (.unreadable entry fault)
  else
    let program ← (load fs entry).mapError fun e => .source e.diagnostic base
    if options.goal = .surface then return program.dump
    else
      let module ← (resolve options.library program).mapError fun d => .source d base
      if options.goal = .core then return module.dump
      else
        let script ← (Script.generate options.target options.library module).mapError .generation
        if options.goal = .check then return "OK" else return script

/-- The file that a build writes, if it comes so far. -/
def Options.written? (options : Options) : Option Path :=
  if options.goal = .script then options.output else none

/-- Builds a project in a tree of files, for one who works in `home`. -/
def build (t : Tree) (home : List String) (options : Options) (entry : Path) :
    Except Failure String × Tree :=
  match make (t.toFileSystem home) options entry with
  | .error failure => (.error failure, t)
  | .ok text =>
    match options.written? with
    | none => (.ok text, t)
    | some path =>
      match t.write home path text options.executable with
      | .error fault => (.error (.unwritable path fault), t)
      | .ok t => (.ok text, t)

end Shellwright.Project
