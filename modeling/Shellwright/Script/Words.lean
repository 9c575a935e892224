import Shellwright.Core.Basic
import Shellwright.Number.Decimal
import Shellwright.Script.Error
import Shellwright.Script.Mode
import Shellwright.Token.Lexer

/-!
# Words of a script

The small texts that scripts are put together from: the words for operators, numbers, variables,
and what stands before and after the parts of an expression.
-/

namespace Shellwright.Script

open Shellwright.Core

/-! ## Operators -/

/-- The operands of an operator are compared as texts: when one of them is text, or when one of
them may be and only equality is asked for. -/
def comparesText (op : BinaryOp) (left right : Expr) : Bool :=
  left.ty = .text || right.ty =
    .text || (op.isEquality && (left.ty = .undef || right.ty = .undef))

/-- The word for an operator. Texts can only be tested for coming before and after, so for them
the test for at most and at least is the opposite one. -/
def operatorWord (asText : Bool) : BinaryOp → String
  | .eq => if asText then "==" else "-eq"
  | .ne => if asText then "!=" else "-ne"
  | .lt => if asText then "<" else "-lt"
  | .le => if asText then ">" else "-le"
  | .gt => if asText then ">" else "-gt"
  | .ge => if asText then "<" else "-ge"
  | .and => "&&"
  | .or => "||"
  | .add => "+"
  | .sub => "-"
  | .mul => "*"
  | .div => "/"
  | .mod => "%"

/-- The test that is written is the opposite of the one that is meant. -/
def isOpposite (asText : Bool) : BinaryOp → Bool
  | .le | .ge => asText
  | _ => false

/-- The word for a connection of streams. -/
def streamWord : StreamOp → Except Fault String
  | .pipe => .ok "|"
  | .output => .error .outputRedirection
  | .input => .error .inputRedirection

/-! ## Leaves -/

/-- The text of a whole number. -/
def intText (v : Int64) : String := toString v.toInt

/-- The text of a fractional number. A whole one keeps a point, so that it still reads as
fractional, and has all its digits. -/
def fractionText (v : Binary64) : String :=
  match v.isFinite, v.whole? with
  | true, some n => (if v.isNegative then "-" else "") ++ toString n ++ ".0"
  | _, _ => Layout.plain.write v

/-- The text of a truth value. -/
def boolText (b : Bool) : String := if b then "1" else "0"

/-- The value of a variable. -/
def variableText (m : Mode) (braced : Bool) (v : Variable) : String :=
  let mark := if m.quote then "\"" else ""
  let name := if braced then "\x7b" ++ v.name ++ "\x7d" else v.name
  mark ++ "$" ++ name ++ mark

/-- The segments begin with text that goes on the name of a variable before it. -/
def continuesName : List Segment → Bool
  | .text next :: _ => next.toList.head?.any isNameChar
  | _ => false

/-- Interpolated text. A variable is set apart from text that would go on its name. -/
def segmentsText (m : Mode) : List Segment → String
  | [] => ""
  | .text text :: rest => text ++ segmentsText m rest
  | .var v :: rest => variableText m (continuesName rest) v ++ segmentsText m rest

/-! ## Around expressions -/

/-- What opens a substitution, if the mode asks for output. -/
def substitutionOpen (m : Mode) : String := if m.substitute then "$(" else ""

/-- What closes a substitution, if the mode asks for output. -/
def substitutionClose (m : Mode) : String := if m.substitute then ")" else ""

/-- What turns a finished test into the text `1` or `0`. -/
def decisionClose : String := " ]] && echo 1 || echo 0)"

/-- What makes a value a test. A comparison is a test already. -/
def testClose (e : Expr) : String := if e.isComparison then "" else " -eq 1"

/-- What stands before an operand: logical operators have tests for operands, in brackets if
they are logical themselves. -/
def operandOpen (op : BinaryOp) (e : Expr) : String :=
  if op.isLogical && e.isLogical then "( " else ""

/-- What stands after an operand. -/
def operandClose (op : BinaryOp) (e : Expr) : String :=
  if !op.isLogical then "" else if e.isLogical then " )" else testClose e

/-- What stands before the first operand of an operator. -/
def binaryOpen (m : Mode) (op : BinaryOp) (asText : Bool) : String :=
  (if op.isComparison && m.decide then "$([[ " else "") ++
    (if op.isArithmetic then "$((" else "")
    ++ (if isOpposite asText op then "! " else "")

/-- What stands after the last operand of an operator. -/
def binaryClose (m : Mode) (op : BinaryOp) : String :=
  (if op.isArithmetic then "))" else "")
    ++ (if op.isComparison && m.decide then decisionClose else "")

/-- What stands around an argument: the output of a call may hold blanks. -/
def argMark (m : Mode) (e : Expr) : String := if e.isCall && m.quote then "\"" else ""

/-- What stands around a returned value: the output of a command may hold blanks. -/
def returnMark (e : Expr) : String := if e.isCommand then "\"" else ""

/-! ## Around statements -/

/-- What stands before the value of a variable. One that is not global belongs to its
function. -/
def assignOpen (v : Variable) : String := (if v.isGlobal then "" else "local ") ++ v.name ++ "="

/-- The parameters of a function take their values from the positions of a call, counted from
`i`. -/
def paramLines (m : Mode) (i : Nat) : List String → String
  | [] => ""
  | name :: rest =>
    m.margin ++ "local " ++ name ++ "=\"$" ++ toString i ++ "\";\n" ++ paramLines m (i + 1) rest

/-- What opens a block. -/
def blockOpen (m : Mode) : String := if m.braces then "\x7b\n" else ""

/-- What closes a block. -/
def blockClose (m : Mode) : String := if m.braces then "\x7d\n\n" else ""

/-- The line of a block that has no other, for a block must not be empty. -/
def placeholder (m : Mode) (stmts : List Stmt) : String :=
  if stmts.all Stmt.isLoad then m.margin ++ ": # Empty function\n" else ""

/-- The call of the entry function. A library has none. -/
def entryCall (library : Bool) (module : Module) : Except Fault String :=
  if library then .ok ""
  else
    match module.main with
    | none => .error .noEntry
    | some main =>
      if module.functions.any fun f => f.name = main && f.body.isSome then .ok (main ++ ";\n")
      else .error (.missingEntry main)

end Shellwright.Script
