/-!
# Operators

The operators that source expressions and typed expressions share.
-/

namespace Shellwright

/-- The operators with two operands. -/
inductive BinaryOp where
  | eq
  | ne
  | lt
  | le
  | gt
  | ge
  | and
  | or
  | add
  | sub
  | mul
  | div
  | mod
  deriving DecidableEq, Repr

namespace BinaryOp

/-- The result is a number. -/
def isArithmetic : BinaryOp → Bool
  | .add | .sub | .mul | .div | .mod => true
  | _ => false

/-- The result is a truth value. -/
def isComparison (op : BinaryOp) : Bool := !op.isArithmetic

def isEquality : BinaryOp → Bool
  | .eq | .ne => true
  | _ => false

/-- The operands are truth values as well. -/
def isLogical : BinaryOp → Bool
  | .and | .or => true
  | _ => false

end BinaryOp

/-- The operators with one operand. -/
inductive UnaryOp where
  | negate
  | not
  deriving DecidableEq, Repr

/-- The ways to leave the body of a loop early. -/
inductive Jump where
  /-- Leave the loop. -/
  | leave
  /-- Go on with the next round. -/
  | next
  deriving DecidableEq, Repr

/-- The word for a jump, the same in a source as in a script. -/
def Jump.word : Jump → String
  | .leave => "break"
  | .next => "continue"

end Shellwright
