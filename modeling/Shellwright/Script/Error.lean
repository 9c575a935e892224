import Shellwright.Script.Target

/-!
# Faults of resolved programs

Why a resolved program cannot be written as a script. No mistake in a source causes these: they
tell of a program that asks for more than a target has, or that is not in order.
-/

namespace Shellwright.Script

/-- What is wrong, in general. -/
inductive ErrorKind where
  /-- The target has no text for a construct. -/
  | unimplemented
  /-- The program is not in order. -/
  | malformed
  deriving DecidableEq, Repr

/-- An error as it is reported. -/
structure Error where
  kind : ErrorKind
  message : String
  target : Option Target
  deriving DecidableEq, Repr

/-- The text of an error. -/
def Error.text (e : Error) : String :=
  let head := match e.kind with
    | .unimplemented => "unimplemented: "
    | .malformed => "malformed IR: "
  let tail := match e.target with
    | some target => " (target " ++ target.name ++ ")"
    | none => ""
  head ++ e.message ++ tail

/-- Why a resolved program cannot be written. -/
inductive Fault where
  | outputRedirection
  | inputRedirection
  | noEntry
  | missingEntry (name : String)
  deriving DecidableEq, Repr

namespace Fault

def kind : Fault → ErrorKind
  | .outputRedirection | .inputRedirection => .unimplemented
  | .noEntry | .missingEntry _ => .malformed

def message : Fault → String
  | .outputRedirection => "output redirection"
  | .inputRedirection => "input redirection"
  | .noEntry => "executable module has no entry function"
  | .missingEntry name => "entry function '" ++ name ++ "' is not defined in the module"

/-- The error that is reported for a target. -/
def toError (f : Fault) (target : Target) : Error := ⟨f.kind, f.message, some target⟩

end Fault

end Shellwright.Script
