import Shellwright.Number.Binary64
import Shellwright.Operator

/-!
# Resolved programs

The tree of a program after its names are resolved: every variable is known to be global or local
to its function, and every expression has a type. Trees that no source gives are allowed too.
-/

namespace Shellwright.Core

/-- What kind of text a value is. -/
inductive Ty where
  /-- Nothing is known. -/
  | undef
  | integer
  | fractional
  | text
  | boolean
  deriving DecidableEq, Repr

/-- A variable and whether the whole script shares it. -/
structure Variable where
  name : String
  isGlobal : Bool
  deriving DecidableEq, Repr

/-- A piece of interpolated text. -/
inductive Segment where
  | text (text : String)
  | var (var : Variable)
  deriving DecidableEq, Repr

/-- How the streams of two commands are connected. -/
inductive StreamOp where
  | pipe
  | output
  | input
  deriving DecidableEq, Repr

/-- An expression with its type. -/
inductive Expr where
  | int (ty : Ty) (value : Int64)
  | fraction (ty : Ty) (value : Binary64)
  | bool (ty : Ty) (value : Bool)
  | text (ty : Ty) (segments : List Segment)
  | command (ty : Ty) (segments : List Segment)
  | var (ty : Ty) (var : Variable)
  | binary (ty : Ty) (op : BinaryOp) (left right : Expr)
  | unary (ty : Ty) (op : UnaryOp) (operand : Expr)
  | call (ty : Ty) (name : String) (args : List Expr)
  | stream (ty : Ty) (op : StreamOp) (left right : Expr)

namespace Expr

def ty : Expr → Ty
  | .int ty _ => ty
  | .fraction ty _ => ty
  | .bool ty _ => ty
  | .text ty _ => ty
  | .command ty _ => ty
  | .var ty _ => ty
  | .binary ty _ _ _ => ty
  | .unary ty _ _ => ty
  | .call ty _ _ => ty
  | .stream ty _ _ _ => ty

/-- The outermost operator gives a truth value by testing its operands. -/
def isComparison : Expr → Bool
  | .binary _ op _ _ => op.isComparison
  | _ => false

/-- The outermost operator joins truth values. -/
def isLogical : Expr → Bool
  | .binary _ op _ _ => op.isLogical
  | _ => false

/-- The expression is a number. -/
def isNumber : Expr → Bool
  | .int .. | .fraction .. => true
  | _ => false

def isCall : Expr → Bool
  | .call .. => true
  | _ => false

def isCommand : Expr → Bool
  | .command .. => true
  | _ => false

end Expr

/-- A value given to a variable. -/
structure Assignment where
  var : Variable
  value : Expr

mutual

/-- A statement. -/
inductive Stmt where
  | assign (var : Variable) (value : Expr)
  | branch (cond : Expr) (body : List Stmt) (otherwise : ElseChain)
  | loop (var : Variable) (lower : Expr) (upper : Option Expr) (body : List Stmt)
  | ret (value : Expr)
  | jump (jump : Jump)
  | load (module : String)
  | expr (expr : Expr)

/-- What follows the first branch of a conditional. -/
inductive ElseChain where
  | done
  | elseIf (cond : Expr) (body : List Stmt) (otherwise : ElseChain)
  | final (body : List Stmt)

end

/-- The statement imports a module. -/
def Stmt.isLoad : Stmt → Bool
  | .load .. => true
  | _ => false

/-- A function; without body it is only declared. -/
structure Function where
  name : String
  params : List Variable
  body : Option (List Stmt)

/-- A whole resolved program. -/
structure Module where
  functions : List Function
  globals : List Assignment
  /-- The function that an executable script calls last. -/
  main : Option String

end Shellwright.Core
