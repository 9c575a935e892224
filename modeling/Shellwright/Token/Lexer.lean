import Shellwright.Text.Blank
import Shellwright.Token.Basic

/-!
# Reading tokens

`Lexeme.read` reads the one lexeme that begins with a given character and says how many more
characters belong to it. `Token.scan` walks through a text with it. The walk moves one
character at a time and passes over the characters that the last lexeme has taken, so it
follows the text itself.
-/

namespace Shellwright

open Text (byteSize trim isBlank)

/-- Why a text cannot be read as tokens. -/
inductive LexFault where
  | loneAmpersand
  | loneDot
  | openEscape
  | openText
  | commandWithoutParen
  | openCommand
  | intOutOfRange
  | strayCharacter (c : Char)
  deriving DecidableEq, Repr

def LexFault.message : LexFault → String
  | .loneAmpersand => "Unexpected '&' (did you mean '&&'?)"
  | .loneDot => "Unexpected '.' (ranges are written 'a .. b')"
  | .openEscape => "Unexpected EOF in string escape"
  | .openText => "Unterminated string (missing closing quote)"
  | .commandWithoutParen => "Expected '(' after '@'"
  | .openCommand => "Unterminated external command (missing ')')"
  | .intOutOfRange => "Integer literal out of range"
  | .strayCharacter c => "Unexpected character '" ++ String.singleton c ++ "'"

/-- A fault and the characters it is about. -/
structure LexError where
  fault : LexFault
  span : Span
  deriving DecidableEq, Repr

/-! ## Character classes -/

/-- The characters that separate tokens. -/
def isSeparator (c : Char) : Bool := c = ' ' || c = '\n' || c = '\t' || c = '\r'

/-- The characters that a name begins with. -/
def isNameStart (c : Char) : Bool := c.isAlpha || c = '_'

/-- The characters that a name goes on with. -/
def isNameChar (c : Char) : Bool := c.isAlphanum || c = '_'

/-! ## Bodies of strings and commands -/

/-- The text up to the quote that closes a string. A backslash keeps the character after it. -/
def textBody : List Char → Except LexFault (List Char)
  | [] => .error .openText
  | ['\\'] => .error .openEscape
  | '"' :: _ => .ok []
  | '\\' :: c :: cs => (textBody cs).map fun body => '\\' :: c :: body
  | c :: cs => (textBody cs).map fun body => c :: body

/-- The text up to the bracket that closes a command, when `depth` brackets and perhaps a
quote are open. Brackets inside quotes do not count, and inside quotes a backslash keeps
the character after it. -/
def commandBody : Nat → Option Char → List Char → Option (List Char)
  | _, _, [] => none
  | depth, some quote, c :: cs =>
    if c = quote then (commandBody depth none cs).map (c :: ·)
    else if c = '\\' then
      match cs with
      | [] => none
      | d :: ds => (commandBody depth (some quote) ds).map fun body => c :: d :: body
    else (commandBody depth (some quote) cs).map (c :: ·)
  | depth, none, c :: cs =>
    if c = '\x27' || c = '"' then (commandBody depth (some c) cs).map (c :: ·)
    else if c = '(' then (commandBody (depth + 1) none cs).map (c :: ·)
    else if c = ')' then
      match depth with
      | 0 => some []
      | depth + 1 => (commandBody depth none cs).map (c :: ·)
    else (commandBody depth none cs).map (c :: ·)

/-! ## Numbers and words -/

/-- The number that a run of decimal digits stands for. -/
def digitsValue (ds : List Char) : Nat :=
  ds.foldl (fun n d => 10 * n + (d.toNat - 48)) 0

/-- The lexeme of a word. -/
def Lexeme.ofWord (word : String) : Lexeme :=
  match Keyword.all.find? (·.spelling = word) with
  | some k => .keyword k
  | none =>
    if word = "and" then .symbol .both
    else if word = "or" then .symbol .either
    else if word = "not" then .symbol .bang
    else .ident word

/-- A lexeme, the number of bytes before its raw text, and the characters it
takes after the first. -/
structure Reading where
  lexeme : Lexeme
  lead : Nat
  more : List Char

/-- A number that begins with the digit `c`. A point belongs to it only if a digit follows. -/
def Lexeme.readNumber (c : Char) (cs : List Char) : Except (LexFault × List Char) Reading :=
  let digits := cs.takeWhile Char.isDigit
  let whole := digitsValue (c :: digits)
  let asInt : Except (LexFault × List Char) Reading :=
    if whole < twoTo 63 then .ok ⟨.int (.ofNat whole), 0, digits⟩
      else .error (.intOutOfRange, digits)
  match cs.dropWhile Char.isDigit with
  | '.' :: d :: rest =>
    if d.isDigit then
      let places := d :: rest.takeWhile Char.isDigit
      let value := Binary64.ofRatio (digitsValue (c :: digits ++ places)) (tenTo places.length)
      .ok ⟨.fraction value, 0, digits ++ '.' :: places⟩
    else asInt
  | _ => asInt

/-- A command, after its `@`. -/
def Lexeme.readCommand (cs : List Char) : Except (LexFault × List Char) Reading :=
  match cs with
  | '(' :: rest =>
    match commandBody 0 none rest with
    | some body =>
      .ok ⟨.command (String.ofList (trim body)), 2 + byteSize (body.takeWhile isBlank),
        '(' :: body ++ [')']⟩
    | none => .error (.openCommand, cs)
  | _ => .error (.commandWithoutParen, [])

/-! ## Lexemes -/

/-- A symbol of one character. -/
def one (s : Symbol) : Except (LexFault × List Char) Reading :=
  .ok ⟨.symbol s, 0, []⟩

/-- A symbol of two characters if the second one follows, else one of a single character. -/
def oneOrTwo (next : Char) (cs : List Char) (single double : Symbol) :
    Except (LexFault × List Char) Reading :=
  if cs.head? = some next then .ok ⟨.symbol double, 0, [next]⟩ else .ok ⟨.symbol single, 0, []⟩

/-- A symbol that is one character written twice. -/
def twice (c : Char) (cs : List Char) (s : Symbol) (fault : LexFault) :
    Except (LexFault × List Char) Reading :=
  if cs.head? = some c then .ok ⟨.symbol s, 0, [c]⟩ else .error (fault, [])

/-- The lexeme that begins with `c` and goes on in `cs`. A fault comes with the characters after
`c` that were taken before it showed. -/
def Lexeme.read (c : Char) (cs : List Char) : Except (LexFault × List Char) Reading :=
  match c with
  | '(' => one .leftParen
  | ')' => one .rightParen
  | '\x7b' => one .leftBrace
  | '\x7d' => one .rightBrace
  | ',' => one .comma
  | ';' => one .semicolon
  | '+' => one .plus
  | '-' => one .minus
  | '*' => one .star
  | '/' => one .slash
  | '%' => one .percent
  | '=' => oneOrTwo '=' cs .assign .equal
  | '!' => oneOrTwo '=' cs .bang .notEqual
  | '<' => oneOrTwo '=' cs .less .lessEqual
  | '>' => oneOrTwo '=' cs .greater .greaterEqual
  | '|' => oneOrTwo '|' cs .pipe .either
  | '&' => twice '&' cs .both .loneAmpersand
  | '.' => twice '.' cs .range .loneDot
  | '"' =>
    match textBody cs with
    | .ok body => .ok ⟨.text (String.ofList body), 1, body ++ ['"']⟩
    | .error fault => .error (fault, cs)
  | '@' => readCommand cs
  | c =>
    if c.isDigit then readNumber c cs
    else if isNameStart c then
      let more := cs.takeWhile isNameChar
      .ok ⟨ofWord (String.ofList (c :: more)), 0, more⟩
    else .error (.strayCharacter c, [])

/-! ## Texts -/

/-- The tokens of a text whose first character stands at byte `pos`, after passing over the first
`skip` characters, which lie before `pos`. -/
def Token.scanFrom : Nat → Nat → List Char → Except LexError (List Token)
  | _, _, [] => .ok []
  | skip + 1, pos, _ :: cs => scanFrom skip pos cs
  | 0, pos, c :: cs =>
    if isSeparator c then scanFrom 0 (pos + c.utf8Size) cs
    else if c = '#' then
      let comment := cs.takeWhile (· ≠ '\n')
      scanFrom comment.length (pos + byteSize (c :: comment)) cs
    else
      match Lexeme.read c cs with
      | .error (fault, more) => .error ⟨fault, pos, pos + byteSize (c :: more)⟩
      | .ok reading =>
        let stop := pos + byteSize (c :: reading.more)
        match scanFrom reading.more.length stop cs with
        | .ok rest => .ok (⟨reading.lexeme, ⟨pos, stop⟩, pos + reading.lead⟩ :: rest)
        | .error e => .error e

/-- The tokens of a text. -/
def Token.scan (cs : List Char) : Except LexError (List Token) :=
  scanFrom 0 0 cs

end Shellwright
