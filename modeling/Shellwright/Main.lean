import Shellwright.CommandLine.Run
import Shellwright.Project.Reach

/-!
# The program

Looks at files, writes the script, prints the response.
-/

open Shellwright

/-- What went wrong with a file. -/
def faultOf : IO.Error → FileFault
  | .noFileOrDirectory .. => .notFound
  | .permissionDenied _ code details => if code = 13 then .denied else .other details
  | .inappropriateType _ code details =>
    if code = 20 then .notDirectory
    else if code = 21 then .isDirectory
    else .other details
  | e => .other (toString e)

/-- The text of a file. -/
def readText (handle : IO.FS.Handle) : IO (Except FileFault String) := do
  match ← handle.readBinToEnd.toBaseIO with
  | .error e => return .error (faultOf e)
  | .ok bytes =>
    match String.fromUTF8? bytes with
    | some text => return .ok text
    | none => return .error .notText

/-- Where a path leads, and what stands there. -/
def look (path : Path) : IO (Except FileFault Sight) := do
  match ← (IO.FS.realPath path.text).toBaseIO with
  | .error e => return .error (faultOf e)
  | .ok place =>
    match ← (IO.FS.Handle.mk place .read).toBaseIO with
    | .error e => return .ok ⟨⟨place.toString⟩, .error (faultOf e), some (faultOf e)⟩
    | .ok handle => return .ok ⟨⟨place.toString⟩, ← readText handle, none⟩

/-- Looks at everything that a build needs to see. -/
partial def observe (entry : Path) (s : Snapshot) : IO Snapshot := do
  match Project.unseen s entry with
  | [] => return s
  | path :: _ => observe entry (s.add path (← look path))

/-- The rights of a script that everyone may run. -/
def scriptRights : IO.FileRight :=
  let others : IO.AccessRight := { read := true, execution := true }
  { user := { others with write := true }, group := others, other := others }

/-- Writes a script to a file. -/
def save (path : Path) (text : String) (executable : Bool) : IO (Except FileFault Unit) := do
  match ← (IO.FS.writeFile path.text text).toBaseIO with
  | .error e => return .error (faultOf e)
  | .ok () =>
    if executable then
      discard (IO.setAccessRights path.text scriptRights).toBaseIO
    return .ok ()

/-- Builds what a request asks for. -/
def buildOnDisk (options : Project.Options) (entry : Path) :
    IO (Except Project.Failure String) := do
  let seen ← observe entry {}
  match Project.make seen.toFileSystem options entry, options.written? with
  | .ok text, some path =>
    match ← save path text options.executable with
    | .error fault => return .error (.unwritable path fault)
    | .ok () => return .ok text
  | result, _ => return result

/-- Prints a response. -/
def answer (r : CommandLine.Response) : IO UInt32 := do
  IO.print r.stdout
  IO.eprint r.stderr
  return r.code.toUInt32

def main (args : List String) : IO UInt32 := do
  match CommandLine.readArgs args with
  | .error response => answer response
  | .ok request =>
    match request.input with
    | none => answer CommandLine.missingInput
    | some entry => answer (request.response (← buildOnDisk request.options entry))
