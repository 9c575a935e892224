import Shellwright.Number.Binary64
import Shellwright.Operator
import Shellwright.Source.Text
import Shellwright.Surface.Segment

/-!
# Programs as written

The tree of a program before names are resolved. Every node carries the span it was read from.
-/

namespace Shellwright.Surface

/-- An expression. -/
inductive Expr where
  | int (span : Span) (value : Int64)
  | fraction (span : Span) (value : Binary64)
  | bool (span : Span) (value : Bool)
  | text (span : Span) (segments : List Segment)
  /-- A command that is run as it stands. -/
  | command (span : Span) (segments : List Segment)
  | var (span : Span) (name : String)
  | binary (span : Span) (op : BinaryOp) (left right : Expr)
  | unary (span : Span) (op : UnaryOp) (operand : Expr)
  | call (span : Span) (name : String) (args : List Expr)
  | pipe (span : Span) (left right : Expr)

namespace Expr

def span : Expr → Span
  | .int span _ => span
  | .fraction span _ => span
  | .bool span _ => span
  | .text span _ => span
  | .command span _ => span
  | .var span _ => span
  | .binary span _ _ _ => span
  | .unary span _ _ => span
  | .call span _ _ => span
  | .pipe span _ _ => span

/-- The same expression at another place. -/
def withSpan (span : Span) : Expr → Expr
  | .int _ value => .int span value
  | .fraction _ value => .fraction span value
  | .bool _ value => .bool span value
  | .text _ segments => .text span segments
  | .command _ segments => .command span segments
  | .var _ name => .var span name
  | .binary _ op left right => .binary span op left right
  | .unary _ op operand => .unary span op operand
  | .call _ name args => .call span name args
  | .pipe _ left right => .pipe span left right

/-- Calls, commands and pipelines do something; any other expression only has a value. -/
def hasEffect : Expr → Bool
  | .call .. | .command .. | .pipe .. => true
  | _ => false

end Expr

mutual

/-- A statement. -/
inductive Stmt where
  | assign (span : Span) (name : String) (value : Expr)
  | branch (span : Span) (cond : Expr) (body : List Stmt) (otherwise : ElseChain)
  | loop (span : Span) (var : String) (lower : Expr) (upper : Option Expr) (body : List Stmt)
  | ret (span : Span) (value : Expr)
  | jump (span : Span) (jump : Jump)
  | load (span : Span) (module : String)
  | expr (span : Span) (expr : Expr)

/-- What follows the first branch of a conditional. -/
inductive ElseChain where
  | done
  | elseIf (cond : Expr) (body : List Stmt) (otherwise : ElseChain)
  | final (body : List Stmt)

end

namespace Stmt

def span : Stmt → Span
  | .assign span _ _ => span
  | .branch span _ _ _ => span
  | .loop span _ _ _ _ => span
  | .ret span _ => span
  | .jump span _ => span
  | .load span _ => span
  | .expr span _ => span

/-- The statement imports a module. -/
def isLoad : Stmt → Bool
  | .load .. => true
  | _ => false

end Stmt

/-- A parameter and where it is declared. -/
structure Param where
  name : String
  span : Span
  deriving DecidableEq

/-- A function; without body it is only declared. -/
structure Function where
  name : String
  params : List Param
  body : Option (List Stmt)
  span : Span
  file : String

/-- A statement outside all functions, with the file it stands in. -/
structure TopLevel where
  stmt : Stmt
  file : String

/-- A program, read from one file or from several. -/
structure Program where
  functions : List Function
  topLevel : List TopLevel
  span : Span
  /-- The texts of the files, by file name. -/
  sources : List (String × Source)
  entryFile : String

/-- The text of a file of the program. -/
def Program.source? (p : Program) (file : String) : Option Source :=
  p.sources.lookup file

end Shellwright.Surface
