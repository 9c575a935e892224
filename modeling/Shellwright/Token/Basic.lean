import Shellwright.Number.Decimal
import Shellwright.Source.Span

/-!
# Tokens

A token is a lexeme with its place in the source. Keywords and symbols have one canonical
spelling each; the words `and`, `or` and `not` are second spellings of symbols.
-/

namespace Shellwright

/-- The reserved words. -/
inductive Keyword where
  | define
  | ifWord
  | elseWord
  | forWord
  | inWord
  | returnWord
  | breakWord
  | continueWord
  | importWord
  | trueWord
  | falseWord
  deriving DecidableEq, Repr

def Keyword.spelling : Keyword → String
  | .define => "def"
  | .ifWord => "if"
  | .elseWord => "else"
  | .forWord => "for"
  | .inWord => "in"
  | .returnWord => "return"
  | .breakWord => "break"
  | .continueWord => "continue"
  | .importWord => "import"
  | .trueWord => "true"
  | .falseWord => "false"

/-- Every keyword once. -/
def Keyword.all : List Keyword :=
  [.define, .ifWord, .elseWord, .forWord, .inWord, .returnWord, .breakWord, .continueWord,
   .importWord, .trueWord, .falseWord]

/-- Brackets, separators and operators. -/
inductive Symbol where
  | leftParen
  | rightParen
  | leftBrace
  | rightBrace
  | comma
  | semicolon
  | assign
  | equal
  | notEqual
  | less
  | lessEqual
  | greater
  | greaterEqual
  | plus
  | minus
  | star
  | slash
  | percent
  | both
  | either
  | bang
  | pipe
  | range
  deriving DecidableEq, Repr

def Symbol.spelling : Symbol → String
  | .leftParen => "("
  | .rightParen => ")"
  | .leftBrace => "\x7b"
  | .rightBrace => "\x7d"
  | .comma => ","
  | .semicolon => ";"
  | .assign => "="
  | .equal => "=="
  | .notEqual => "!="
  | .less => "<"
  | .lessEqual => "<="
  | .greater => ">"
  | .greaterEqual => ">="
  | .plus => "+"
  | .minus => "-"
  | .star => "*"
  | .slash => "/"
  | .percent => "%"
  | .both => "&&"
  | .either => "||"
  | .bang => "!"
  | .pipe => "|"
  | .range => ".."

/-- What a token says, apart from where it stands. -/
inductive Lexeme where
  | keyword (word : Keyword)
  | symbol (symbol : Symbol)
  | ident (name : String)
  | int (value : Int64)
  | fraction (value : Binary64)
  /-- The text between two double quotes, with its escapes as written. -/
  | text (raw : String)
  /-- The text of `@( ... )` between the brackets, without blanks at its ends. -/
  | command (raw : String)
  deriving DecidableEq, Repr

/-- How a lexeme is named in a message. -/
def Lexeme.describe : Lexeme → String
  | .keyword k => "'" ++ k.spelling ++ "'"
  | .symbol s => "'" ++ s.spelling ++ "'"
  | .ident name => "identifier '" ++ name ++ "'"
  | .int v => "integer " ++ toString v.toInt
  | .fraction v => "number " ++ Layout.plain.write v
  | .text _ => "string literal"
  | .command _ => "external command"

/-- A lexeme and its place. -/
structure Token where
  lexeme : Lexeme
  span : Span
  /-- Where the raw text of a string or command begins; for other lexemes the
  start of the span. -/
  body : Nat
  deriving DecidableEq, Repr

end Shellwright
