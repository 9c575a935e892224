import Shellwright.Token.Basic

/-!
# Faults of grammar

Why a sequence of tokens is no program.
-/

namespace Shellwright.Surface

/-- What a name is needed for. -/
inductive NameRole where
  | loopVariable
  | function
  | parameter
  deriving DecidableEq, Repr

def NameRole.describe : NameRole → String
  | .loopVariable => "loop variable name"
  | .function => "function name"
  | .parameter => "parameter name"

/-- Why a sequence of tokens is no program. A missing token stands for the end of the file. -/
inductive ParseFault where
  | expected (wanted : Lexeme) (got : Option Lexeme)
  | expectedExpr (got : Option Lexeme)
  | expectedStmt
  | expectedName (role : NameRole)
  | expectedModule
  | valuelessReturn
  | nestedFunction
  | openBlock
  | duplicateParam (name : String)
  deriving DecidableEq, Repr

/-- How a token, or the end of the file, is named. -/
def ParseFault.describe (got : Option Lexeme) : String :=
  match got with
  | some lexeme => lexeme.describe
  | none => "end of file"

def ParseFault.message : ParseFault → String
  | .expected wanted got => "Expected " ++ wanted.describe ++ ", got " ++ describe got
  | .expectedExpr got => "Expected expression, got " ++ describe got
  | .expectedStmt => "Expected statement, got end of file"
  | .expectedName role => "Expected " ++ role.describe
  | .expectedModule => "Expected module name after import"
  | .valuelessReturn => "return requires a value"
  | .nestedFunction => "Functions can only be defined at the top level"
  | .openBlock => "Expected '\x7d' to close block, got end of file"
  | .duplicateParam name => "Duplicate parameter '" ++ name ++ "'"

/-- A fault and the place it is about. -/
structure ParseError where
  fault : ParseFault
  span : Span
  deriving DecidableEq, Repr

end Shellwright.Surface
