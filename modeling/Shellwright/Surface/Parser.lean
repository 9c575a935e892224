import Shellwright.Surface.Basic
import Shellwright.Surface.ParseError
import Shellwright.Token.Taken

/-!
# Reading programs

One function per rule of the grammar. Each looks at the next token or two, so no rule ever
goes back. The rules end because every one of them takes at least one token before it comes
back to itself; the weight in `termination_by` counts tokens first and then how far a rule
stands above the others.
-/

namespace Shellwright.Surface

/-- The place of the next token, or of the end of the file. -/
def nextSpan (eof : Span) : List Token → Span
  | [] => eof
  | t :: _ => t.span

/-- Takes one given lexeme, if it comes next, and gives its place. -/
def take? (wanted : Lexeme) (ts : List Token) : Option (Taken ts.length Span) :=
  match ts with
  | [] => none
  | t :: rest => if t.lexeme = wanted then some ⟨t.span, rest, Nat.lt_succ_self _⟩ else none

/-- Takes one given lexeme, which has to come next, and gives its place. -/
def expect (eof : Span) (wanted : Lexeme) (ts : List Token) :
    Except ParseError (Taken ts.length Span) :=
  match take? wanted ts with
  | some taken => .ok taken
  | none => .error ⟨.expected wanted (ts.head?.map (·.lexeme)), nextSpan eof ts⟩

/-- Takes a name. -/
def expectName (eof : Span) (role : NameRole) (ts : List Token) :
    Except ParseError (Taken ts.length Param) :=
  match ts with
  | ⟨.ident name, span, _⟩ :: rest => .ok ⟨⟨name, span⟩, rest, Nat.lt_succ_self _⟩
  | _ => .error ⟨.expectedName role, nextSpan eof ts⟩

/-! ## Operators by strength -/

/-- How two expressions can be joined. -/
inductive Joint where
  | binary (op : BinaryOp)
  | pipe
  deriving DecidableEq

/-- The expression that joins two others. -/
def Joint.join (j : Joint) (left right : Expr) : Expr :=
  let span := left.span.merge right.span
  match j with
  | .binary op => .binary span op left right
  | .pipe => .pipe span left right

/-- The levels of operators with two operands, the loosest first. -/
inductive Level where
  | pipe
  | either
  | both
  | equality
  | relation
  | sum
  | term
  deriving DecidableEq

namespace Level

/-- The next tighter level; none after the last one. -/
def tighter : Level → Option Level
  | .pipe => some .either
  | .either => some .both
  | .both => some .equality
  | .equality => some .relation
  | .relation => some .sum
  | .sum => some .term
  | .term => none

/-- How many levels bind tighter. -/
def height : Level → Nat
  | .pipe => 6
  | .either => 5
  | .both => 4
  | .equality => 3
  | .relation => 2
  | .sum => 1
  | .term => 0

/-- The operator of a level that a lexeme stands for. -/
def joint? : Level → Lexeme → Option Joint
  | .pipe, .symbol .pipe => some .pipe
  | .either, .symbol .either => some (.binary .or)
  | .both, .symbol .both => some (.binary .and)
  | .equality, .symbol .equal => some (.binary .eq)
  | .equality, .symbol .notEqual => some (.binary .ne)
  | .relation, .symbol .less => some (.binary .lt)
  | .relation, .symbol .lessEqual => some (.binary .le)
  | .relation, .symbol .greater => some (.binary .gt)
  | .relation, .symbol .greaterEqual => some (.binary .ge)
  | .sum, .symbol .plus => some (.binary .add)
  | .sum, .symbol .minus => some (.binary .sub)
  | .term, .symbol .star => some (.binary .mul)
  | .term, .symbol .slash => some (.binary .div)
  | .term, .symbol .percent => some (.binary .mod)
  | _, _ => none

/-- The place of a level among the rules; expressions without such operators
stand below all levels. -/
def weight : Option Level → Nat
  | none => 3
  | some l => l.height + 4

theorem weight_tighter_lt (l : Level) : weight l.tighter < weight (some l) := by
  cases l <;> decide

end Level

/-- The operator with one operand that a lexeme stands for. -/
def unaryOp? : Lexeme → Option UnaryOp
  | .symbol .minus => some .negate
  | .symbol .bang => some .not
  | _ => none

/-- The truth value that a keyword stands for. -/
def truth? : Keyword → Option Bool
  | .trueWord => some true
  | .falseWord => some false
  | _ => none

/-! ## Expressions -/

mutual

/-- An expression whose outermost operator is of the given level or a tighter one. -/
def parseLevel (eof : Span) (level : Option Level) (ts : List Token) :
    Except ParseError (Taken ts.length Expr) :=
  match level with
  | none => parseUnary eof ts
  | some l => do
    let ⟨first, rest, h⟩ ← parseLevel eof l.tighter ts
    let whole ← parseJoints eof l first rest
    return whole.within (by omega)
termination_by 16 * ts.length + Level.weight level
decreasing_by
  · simp [Level.weight]
  · have := Level.weight_tighter_lt l
    omega
  · simp only [Level.weight]
    omega

/-- The operators of one level and their right operands, from the left. -/
def parseJoints (eof : Span) (l : Level) (left : Expr) (ts : List Token) :
    Except ParseError (Taken (ts.length + 1) Expr) :=
  match ts with
  | [] => .ok ⟨left, [], by simp⟩
  | t :: rest =>
    match l.joint? t.lexeme with
    | none => .ok ⟨left, t :: rest, Nat.lt_succ_self _⟩
    | some j => do
      let ⟨right, rest', h⟩ ← parseLevel eof l.tighter rest
      let whole ← parseJoints eof l (j.join left right) rest'
      return whole.within (by simp only [List.length_cons]; omega)
termination_by 16 * ts.length
decreasing_by
  · have := Level.weight_tighter_lt l
    have : Level.weight (some l) ≤ 10 := by cases l <;> decide
    simp only [List.length_cons]
    omega
  · simp only [List.length_cons]
    omega

/-- Signs and the expression they stand before. -/
def parseUnary (eof : Span) (ts : List Token) : Except ParseError (Taken ts.length Expr) :=
  match ts with
  | [] => parsePrimary eof []
  | t :: rest =>
    match unaryOp? t.lexeme with
    | none => parsePrimary eof (t :: rest)
    | some op => do
      let ⟨operand, rest', h⟩ ← parseUnary eof rest
      return ⟨.unary (t.span.merge operand.span) op operand, rest',
        by simp only [List.length_cons]; omega⟩
termination_by 16 * ts.length + 2
decreasing_by
  all_goals simp only [List.length_cons, List.length_nil]; omega

/-- A literal, a variable, a call or an expression in brackets. -/
def parsePrimary (eof : Span) (ts : List Token) : Except ParseError (Taken ts.length Expr) :=
  match ts with
  | [] => .error ⟨.expectedExpr none, eof⟩
  | ⟨lexeme, span, body⟩ :: rest =>
    match lexeme with
    | .int value => .ok ⟨.int span value, rest, Nat.lt_succ_self _⟩
    | .fraction value => .ok ⟨.fraction span value, rest, Nat.lt_succ_self _⟩
    | .keyword word =>
      match truth? word with
      | some value => .ok ⟨.bool span value, rest, Nat.lt_succ_self _⟩
      | none => .error ⟨.expectedExpr (some lexeme), span⟩
    | .text raw => .ok ⟨.text span (Segment.split body raw), rest, Nat.lt_succ_self _⟩
    | .command raw => .ok ⟨.command span (Segment.split body raw), rest, Nat.lt_succ_self _⟩
    | .symbol symbol =>
      if symbol = .leftParen then do
        let ⟨inner, rest', h⟩ ← parseLevel eof (some .pipe) rest
        let ⟨close, rest'', h'⟩ ← expect eof (.symbol .rightParen) rest'
        return ⟨inner.withSpan (span.merge close), rest'',
          by simp only [List.length_cons]; omega⟩
      else .error ⟨.expectedExpr (some lexeme), span⟩
    | .ident name =>
      match take? (.symbol .leftParen) rest with
      | some ⟨_, inner, h⟩ => do
        let ⟨(args, close), rest', h'⟩ ← parseArgs eof inner
        return ⟨.call (span.merge close) name args, rest',
          by simp only [List.length_cons]; omega⟩
      | none => .ok ⟨.var span name, rest, Nat.lt_succ_self _⟩
termination_by 16 * ts.length + 1
decreasing_by
  all_goals simp only [List.length_cons, Level.weight, Level.height]; omega

/-- The arguments of a call after its opening bracket, and the place of the closing one. -/
def parseArgs (eof : Span) (ts : List Token) :
    Except ParseError (Taken ts.length (List Expr × Span)) :=
  match take? (.symbol .rightParen) ts with
  | some ⟨close, rest, h⟩ => .ok ⟨([], close), rest, h⟩
  | none => parseArgList eof ts
termination_by 16 * ts.length + 12
decreasing_by
  omega

/-- One or more arguments with commas between them, and the place of the closing bracket. -/
def parseArgList (eof : Span) (ts : List Token) :
    Except ParseError (Taken ts.length (List Expr × Span)) := do
  let ⟨first, rest, h⟩ ← parseLevel eof (some .pipe) ts
  match take? (.symbol .comma) rest with
  | some ⟨_, more, h'⟩ => do
    let ⟨(args, close), rest', h''⟩ ← parseArgList eof more
    return ⟨(first :: args, close), rest', by omega⟩
  | none => do
    let ⟨close, rest', h'⟩ ← expect eof (.symbol .rightParen) rest
    return ⟨([first], close), rest', by omega⟩
termination_by 16 * ts.length + 11
decreasing_by
  · simp only [Level.weight, Level.height]
    omega
  · omega

end

/-- An expression. -/
def parseExpr (eof : Span) (ts : List Token) : Except ParseError (Taken ts.length Expr) :=
  parseLevel eof (some .pipe) ts

/-! ## Statements -/

/-- An expression in brackets that decides about a branch. -/
def parseCondition (eof : Span) (ts : List Token) :
    Except ParseError (Taken ts.length Expr) := do
  let ⟨_, rest, h⟩ ← expect eof (.symbol .leftParen) ts
  let ⟨cond, rest', h'⟩ ← parseExpr eof rest
  let ⟨_, rest'', h''⟩ ← expect eof (.symbol .rightParen) rest'
  return ⟨cond, rest'', by omega⟩

/-- An expression and the semicolon after it, with the semicolon's place. -/
def parseExprEnd (eof : Span) (ts : List Token) :
    Except ParseError (Taken ts.length (Expr × Span)) := do
  let ⟨value, rest, h⟩ ← parseExpr eof ts
  let ⟨stop, rest', h'⟩ ← expect eof (.symbol .semicolon) rest
  return ⟨(value, stop), rest', by omega⟩

/-- What a loop runs over, up to the bracket that closes the head of the loop. -/
def parseBounds (eof : Span) (ts : List Token) :
    Except ParseError (Taken ts.length (Expr × Option Expr)) := do
  let ⟨lower, rest, h⟩ ← parseExpr eof ts
  match take? (.symbol .range) rest with
  | some ⟨_, more, h'⟩ => do
    let ⟨upper, rest', h''⟩ ← parseExpr eof more
    let ⟨_, rest'', h'''⟩ ← expect eof (.symbol .rightParen) rest'
    return ⟨(lower, some upper), rest'', by omega⟩
  | none => do
    let ⟨_, rest', h'⟩ ← expect eof (.symbol .rightParen) rest
    return ⟨(lower, none), rest', by omega⟩

/-- The head of a loop after its first word: the variable and what it runs over. -/
def parseLoopHead (eof : Span) (ts : List Token) :
    Except ParseError (Taken ts.length (String × Expr × Option Expr)) := do
  let ⟨_, rest, h⟩ ← expect eof (.symbol .leftParen) ts
  let ⟨var, rest', h'⟩ ← expectName eof .loopVariable rest
  let ⟨_, rest'', h''⟩ ← expect eof (.keyword .inWord) rest'
  let ⟨bounds, rest''', h'''⟩ ← parseBounds eof rest''
  return ⟨(var.name, bounds), rest''', by omega⟩

/-- The name of a module. -/
def expectModule (eof : Span) (ts : List Token) : Except ParseError (Taken ts.length String) :=
  match ts with
  | ⟨.ident module, _, _⟩ :: rest => .ok ⟨module, rest, Nat.lt_succ_self _⟩
  | ⟨.text module, _, _⟩ :: rest => .ok ⟨module, rest, Nat.lt_succ_self _⟩
  | _ => .error ⟨.expectedModule, nextSpan eof ts⟩

/-- An import after its first word. -/
def parseImport (eof start : Span) (ts : List Token) :
    Except ParseError (Taken ts.length Stmt) := do
  let ⟨module, rest, h⟩ ← expectModule eof ts
  let ⟨stop, rest', h'⟩ ← expect eof (.symbol .semicolon) rest
  return ⟨.load (start.merge stop) module, rest', by omega⟩

/-- A return after its first word. -/
def parseReturn (eof start : Span) (ts : List Token) :
    Except ParseError (Taken ts.length Stmt) :=
  match take? (.symbol .semicolon) ts with
  | some ⟨span, _, _⟩ => .error ⟨.valuelessReturn, span⟩
  | none => do
    let ⟨(value, stop), rest, h⟩ ← parseExprEnd eof ts
    return ⟨.ret (start.merge stop) value, rest, h⟩

/-- A jump after its only word. -/
def parseJump (eof start : Span) (jump : Jump) (ts : List Token) :
    Except ParseError (Taken ts.length Stmt) := do
  let ⟨stop, rest, h⟩ ← expect eof (.symbol .semicolon) ts
  return ⟨.jump (start.merge stop) jump, rest, h⟩

/-- An expression that stands as a statement. -/
def parseExprStmt (eof : Span) (ts : List Token) : Except ParseError (Taken ts.length Stmt) := do
  let ⟨(expr, stop), rest, h⟩ ← parseExprEnd eof ts
  return ⟨.expr ((nextSpan eof ts).merge stop) expr, rest, h⟩

/-- A statement that holds no other statement. -/
def parseSimple (eof : Span) (ts : List Token) : Except ParseError (Taken ts.length Stmt) :=
  match ts with
  | [] => .error ⟨.expectedStmt, eof⟩
  | t :: rest =>
    match t.lexeme with
    | .keyword .define => .error ⟨.nestedFunction, t.span⟩
    | .keyword .importWord => do
      return (← parseImport eof t.span rest).within (Nat.le_succ _)
    | .keyword .returnWord => do
      return (← parseReturn eof t.span rest).within (Nat.le_succ _)
    | .keyword .breakWord => do
      return (← parseJump eof t.span .leave rest).within (Nat.le_succ _)
    | .keyword .continueWord => do
      return (← parseJump eof t.span .next rest).within (Nat.le_succ _)
    | .ident name =>
      match take? (.symbol .assign) rest with
      | some ⟨_, rest', h⟩ => do
        let ⟨(value, stop), rest'', h'⟩ ← parseExprEnd eof rest'
        return ⟨.assign (t.span.merge stop) name value, rest'',
          by simp only [List.length_cons]; omega⟩
      | none => parseExprStmt eof (t :: rest)
    | _ => parseExprStmt eof (t :: rest)

mutual

/-- A statement. -/
def parseStmt (eof : Span) (ts : List Token) : Except ParseError (Taken ts.length Stmt) :=
  match take? (.keyword .ifWord) ts, take? (.keyword .forWord) ts with
  | some ⟨start, rest, h⟩, _ => do
    let ⟨cond, rest', h'⟩ ← parseCondition eof rest
    let ⟨(body, close), rest'', h''⟩ ← parseBlock eof rest'
    let ⟨(otherwise, stop), rest''', h'''⟩ ← parseElse eof close rest''
    return ⟨.branch (start.merge stop) cond body otherwise, rest''', by omega⟩
  | none, some ⟨start, rest, h⟩ => do
    let ⟨(var, lower, upper), rest', h'⟩ ← parseLoopHead eof rest
    let ⟨(body, close), rest'', h''⟩ ← parseBlock eof rest'
    return ⟨.loop (start.merge close) var lower upper body, rest'', by omega⟩
  | none, none => parseSimple eof ts
termination_by 4 * ts.length
decreasing_by
  all_goals omega

/-- Statements in braces, and the place of the closing brace. -/
def parseBlock (eof : Span) (ts : List Token) :
    Except ParseError (Taken ts.length (List Stmt × Span)) := do
  let ⟨_, rest, h⟩ ← expect eof (.symbol .leftBrace) ts
  let ⟨body, rest', h'⟩ ← parseStmts eof rest
  return ⟨body, rest', by omega⟩
termination_by 4 * ts.length

/-- Statements up to a closing brace, and its place. -/
def parseStmts (eof : Span) (ts : List Token) :
    Except ParseError (Taken ts.length (List Stmt × Span)) :=
  match take? (.symbol .rightBrace) ts with
  | some ⟨close, rest, h⟩ => .ok ⟨([], close), rest, h⟩
  | none =>
    if ts.isEmpty then .error ⟨.openBlock, eof⟩
    else do
      let ⟨first, rest, h⟩ ← parseStmt eof ts
      let ⟨(others, close), rest', h'⟩ ← parseStmts eof rest
      return ⟨(first :: others, close), rest', by omega⟩
termination_by 4 * ts.length + 1

/-- What follows the branch that ends at `last`: further branches, or nothing. -/
def parseElse (eof last : Span) (ts : List Token) :
    Except ParseError (Taken (ts.length + 1) (ElseChain × Span)) :=
  match take? (.keyword .elseWord) ts with
  | none => .ok ⟨(.done, last), ts, Nat.lt_succ_self _⟩
  | some ⟨_, rest, h⟩ =>
    match take? (.keyword .ifWord) rest with
    | some ⟨_, rest', h'⟩ => do
      let ⟨cond, rest'', h''⟩ ← parseCondition eof rest'
      let ⟨(body, close), rest''', h'''⟩ ← parseBlock eof rest''
      let ⟨(otherwise, stop), left, h''''⟩ ← parseElse eof close rest'''
      return ⟨(.elseIf cond body otherwise, stop), left, by omega⟩
    | none => do
      let ⟨(body, close), rest', h'⟩ ← parseBlock eof rest
      return ⟨(.final body, close), rest', by omega⟩
termination_by 4 * ts.length
decreasing_by
  all_goals omega

end

/-! ## Functions and programs -/

/-- The parameters that follow those already `seen`, through the closing bracket. -/
def parseParams (eof : Span) (seen : List Param) (ts : List Token) :
    Except ParseError (Taken ts.length (List Param)) := do
  let ⟨param, rest, h⟩ ← expectName eof .parameter ts
  if seen.any (·.name = param.name) then
    .error ⟨.duplicateParam param.name, param.span⟩
  else
    match take? (.symbol .comma) rest with
    | some ⟨_, more, h'⟩ => do
      let whole ← parseParams eof (seen ++ [param]) more
      return whole.within (by omega)
    | none => do
      let ⟨_, rest', h'⟩ ← expect eof (.symbol .rightParen) rest
      return ⟨seen ++ [param], rest', by omega⟩
termination_by ts.length

/-- All parameters after the opening bracket, through the closing one. -/
def parseParamList (eof : Span) (ts : List Token) :
    Except ParseError (Taken ts.length (List Param)) :=
  match take? (.symbol .rightParen) ts with
  | some ⟨_, rest, h⟩ => .ok ⟨[], rest, h⟩
  | none => parseParams eof [] ts

/-- The body of a function, or the semicolon in its place, and where it ends. -/
def parseBody (eof : Span) (ts : List Token) :
    Except ParseError (Taken ts.length (Option (List Stmt) × Span)) :=
  match take? (.symbol .semicolon) ts with
  | some ⟨stop, rest, h⟩ => .ok ⟨(none, stop), rest, h⟩
  | none => do
    let ⟨(body, close), rest, h⟩ ← parseBlock eof ts
    return ⟨(some body, close), rest, h⟩

/-- A function of a file. -/
def parseFunction (eof : Span) (file : String) (ts : List Token) :
    Except ParseError (Taken ts.length Function) := do
  let ⟨start, rest, h⟩ ← expect eof (.keyword .define) ts
  let ⟨name, rest', h'⟩ ← expectName eof .function rest
  let ⟨_, rest'', h''⟩ ← expect eof (.symbol .leftParen) rest'
  let ⟨params, rest''', h'''⟩ ← parseParamList eof rest''
  let ⟨(body, stop), last, h''''⟩ ← parseBody eof rest'''
  return ⟨⟨name.name, params, body, start.merge stop, file⟩, last, by omega⟩

/-- Functions and statements up to the end, each kind in its order. -/
def parseItems (eof : Span) (file : String) (ts : List Token) :
    Except ParseError (List Function × List TopLevel) :=
  match ts with
  | [] => .ok ([], [])
  | t :: rest =>
    if t.lexeme = .keyword .define then do
      let ⟨function, rest', _h⟩ ← parseFunction eof file (t :: rest)
      let (functions, stmts) ← parseItems eof file rest'
      return (function :: functions, stmts)
    else do
      let ⟨stmt, rest', _h⟩ ← parseStmt eof (t :: rest)
      let (functions, stmts) ← parseItems eof file rest'
      return (functions, ⟨stmt, file⟩ :: stmts)
termination_by ts.length
decreasing_by
  all_goals exact _h

/-- The place just after the last token. -/
def eofSpan (ts : List Token) : Span :=
  match ts.getLast? with
  | some last => ⟨last.span.stop, last.span.stop + 1⟩
  | none => .zero

/-- The place from the first token to the last. -/
def wholeSpan (ts : List Token) : Span :=
  match ts.head?, ts.getLast? with
  | some first, some last => first.span.merge last.span
  | _, _ => .zero

/-- The program that the tokens of a file spell. -/
def Program.parse (file : String) (ts : List Token) : Except ParseError Program := do
  let (functions, stmts) ← parseItems (eofSpan ts) file ts
  return ⟨functions, stmts, wholeSpan ts, [], file⟩

end Shellwright.Surface
