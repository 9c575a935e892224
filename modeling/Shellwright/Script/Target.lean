/-!
# Targets

The shells that scripts can be written for.
-/

namespace Shellwright

/-- A shell that scripts can be written for. -/
inductive Target where
  | bash
  deriving DecidableEq, Repr

namespace Target

def name : Target → String
  | .bash => "bash"

/-- Every target once. -/
def all : List Target := [.bash]

/-- The first line of a script. -/
def shebang : Target → String
  | .bash => "#!/usr/bin/env bash"

/-- The target of a name. -/
def ofName? (name : String) : Option Target := all.find? (·.name = name)

/-- What is said of a name that no target has. -/
def unknownMessage (name : String) : String :=
  "unknown target '" ++ name ++ "' (expected one of: " ++ ", ".intercalate (all.map (·.name)) ++
    ")"

end Target

end Shellwright
