import Shellwright.Project.Build

/-!
# Requests

What a call asks for once its arguments have been read, what is made of it, and what is printed.
How arguments are read is left open here: all that counts is the request that comes out.
-/

namespace Shellwright.CommandLine

open Project (Failure Goal Options)

/-- What the arguments of a call say. -/
structure Request where
  input : Option Path := none
  target : Target := .bash
  library : Bool := false
  /-- The file that output goes to. -/
  output : Option Path := none
  /-- The file is not made executable. -/
  plainFile : Bool := false
  check : Bool := false
  surface : Bool := false
  core : Bool := false

/-- What a call prints, and its exit code. -/
structure Response where
  code : Nat
  stdout : String
  stderr : String
  deriving DecidableEq, Repr

/-- How the program is called. -/
def usageLine : String := "Usage: bish [OPTIONS] [INPUT]"

/-- The response to a call without input. -/
def missingInput : Response := ⟨1, "", "error: no input file given\n" ++ usageLine ++ "\n"⟩

namespace Request

/-- What is to be made. -/
def goal (r : Request) : Goal :=
  if r.check then .check
  else if r.surface then .surface
  else if r.core then .core
  else .script

/-- A file is written. -/
def writesFile (r : Request) : Bool := r.output.isSome && r.goal = .script

/-- How the project is built. -/
def options (r : Request) : Options where
  target := r.target
  library := r.library
  goal := r.goal
  output := if r.writesFile then r.output else none
  executable := r.writesFile && !r.plainFile

/-- The response to a build. A script that was written to a file is not printed. -/
def response (r : Request) : Except Failure String → Response
  | .error failure => ⟨failure.code, "", failure.message ++ "\n"⟩
  | .ok text =>
    if r.writesFile then ⟨0, "", ""⟩
    else if r.goal = .script then ⟨0, text, ""⟩
    else ⟨0, text ++ "\n", ""⟩

/-- Does what is asked for in a tree of files, for one who works in `home`. -/
def run (r : Request) (t : Tree) (home : List String) : Response × Tree :=
  match r.input with
  | none => (missingInput, t)
  | some input =>
    let (result, t) := Project.build t home r.options input
    (r.response result, t)

end Request

/-- A call in a tree of files, when arguments are read in a given way: as a request, or as
something to be answered at once. -/
def runWith (read : List String → Except Response Request) (t : Tree) (home : List String)
    (args : List String) : Response × Tree :=
  match read args with
  | .error response => (response, t)
  | .ok r => r.run t home

end Shellwright.CommandLine
