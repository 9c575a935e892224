/-!
# Writing modes

How an expression is written depends on where it stands: inside an arithmetic expansion
a variable must not be quoted, a call that is used as a value is run in a substitution,
and the operands of a logical operator must not be turned into texts of their own. A
mode holds these settings.
-/

namespace Shellwright.Script

/-- The settings for writing one part of a script. -/
structure Mode where
  /-- Variables stand in double quotes. -/
  quote : Bool := true
  /-- Calls and commands are run in a substitution, for their output. -/
  substitute : Bool := false
  /-- Comparisons are turned into the text `1` or `0`. -/
  decide : Bool := true
  /-- Blocks stand in braces. -/
  braces : Bool := true
  /-- How many levels lines are set in. -/
  indent : Nat := 0
  deriving DecidableEq, Repr, Inhabited

namespace Mode

/-- The mode in which a script begins. -/
def initial : Mode := {}

/-- The blanks before a line. -/
def margin (m : Mode) : String := String.ofList (List.replicate (4 * m.indent) ' ')

end Mode

/-- A change of one setting. -/
inductive Change where
  | quoting (on : Bool)
  | substituting (on : Bool)
  | deciding (on : Bool)
  | bracing (on : Bool)
  /-- One level further in. -/
  | deeper
  deriving DecidableEq, Repr

/-- The mode after a change. -/
def Change.apply : Change → Mode → Mode
  | .quoting on, m => { m with quote := on }
  | .substituting on, m => { m with substitute := on }
  | .deciding on, m => { m with decide := on }
  | .bracing on, m => { m with braces := on }
  | .deeper, m => { m with indent := m.indent + 1 }

end Shellwright.Script
