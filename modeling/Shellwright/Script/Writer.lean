import Shellwright.Script.Words

/-!
# Writers

A writer holds the text written so far and the mode in which it goes on. Changes of the mode
are made in scopes: opening one remembers the whole mode, closing it brings that mode back,
whatever happened in between. What is written inside a scope may fail; the scope is closed all
the same. The parameters of a function are handed to its body through the writer: the block
that comes next takes them.
-/

namespace Shellwright.Script

open Shellwright.Core

/-- A writer of scripts. -/
structure Writer where
  target : Target
  library : Bool
  /-- The text written so far. -/
  out : String := ""
  mode : Mode := .initial
  /-- The parameters of the function whose body comes next. -/
  pending : Option (List String) := none
  /-- The modes that the open scopes remember, the innermost first. -/
  scopes : List Mode := []

namespace Writer

/-- Opens a scope with a changed mode. -/
def openScope (w : Writer) (change : Change) : Writer :=
  { w with mode := change.apply w.mode, scopes := w.mode :: w.scopes }

/-- Closes the innermost scope, if there is one. -/
def closeScope (w : Writer) : Writer :=
  match w.scopes with
  | [] => w
  | mode :: scopes => { w with mode, scopes }

/-- The writer after it has written a text. -/
def append (w : Writer) (text : String) : Writer := { w with out := w.out ++ text }

end Writer

/-- An act of writing. It may fail, and what was written before stays written. -/
abbrev Writing := EStateM Fault Writer

/-- Writes a text. -/
def put (text : String) : Writing Unit := fun w => .ok () (w.append text)

/-- The mode at hand. -/
def currentMode : Writing Mode := fun w => .ok w.mode w

/-- Hands parameters to the block that comes next. -/
def expect (params : List String) :
    Writing Unit := fun w => .ok () { w with pending := some params }

/-- Takes the parameters that were handed over, if any were. -/
def takePending : Writing (List String) := fun w =>
  .ok (w.pending.getD []) { w with pending := none }

/-- A value that may be a fault. -/
def attempt {α : Type} : Except Fault α → Writing α
  | .ok a => fun w => .ok a w
  | .error fault => fun w => .error fault w

/-- Writes in a scope of its own. -/
def within (change : Change) (act : Writing Unit) : Writing Unit := fun w =>
  match act (w.openScope change) with
  | .ok () w => .ok () w.closeScope
  | .error fault w => .error fault w.closeScope

/-- Writes the blanks before a line. -/
def putMargin : Writing Unit := do put (← currentMode).margin

/-! ## Expressions -/

/-- Writes interpolated text. -/
def putSegments (segments : List Segment) : Writing Unit := do
  put (segmentsText (← currentMode) segments)

mutual

/-- Writes an expression. -/
def writeExpr : Expr → Writing Unit
  | .int _ value => put (intText value)
  | .fraction _ value => put (fractionText value)
  | .bool _ value => put (boolText value)
  | .text _ segments => do
    put "\""
    within (.quoting false) (putSegments segments)
    put "\""
  | .command _ segments => do
    let m ← currentMode
    put (substitutionOpen m)
    within (.quoting false) (putSegments segments)
    put (substitutionClose m)
  | .var _ v => do put (variableText (← currentMode) false v)
  | .binary _ op left right => do
    let m ← currentMode
    let asText := comparesText op left right
    put (binaryOpen m op asText)
    within (.deciding (!op.isLogical)) <| within (.quoting (asText && !op.isArithmetic)) do
      put (operandOpen op left)
      writeExpr left
      put (operandClose op left)
      put (" " ++ operatorWord asText op ++ " ")
      put (operandOpen op right)
      writeExpr right
      put (operandClose op right)
    put (binaryClose m op)
  | .unary _ .negate operand => do
    if operand.isNumber then
      put "-"
      writeExpr operand
    else
      put "$((-("
      within (.quoting false) <| within (.substituting true) (writeExpr operand)
      put ")))"
  | .unary _ .not operand => do
    put "$(! [[ "
    within (.deciding false) (writeExpr operand)
    put (testClose operand)
    put decisionClose
  | .call _ name args => do
    let m ← currentMode
    put (substitutionOpen m)
    put name
    writeArgs args
    put (substitutionClose m)
  | .stream _ op left right => do
    let word ← attempt (streamWord op)
    put "$("
    within (.substituting false) do
      writeExpr left
      put (" " ++ word ++ " ")
      writeExpr right
    put ")"

/-- Writes the arguments of a call, each after a blank. -/
def writeArgs : List Expr → Writing Unit
  | [] => put ""
  | arg :: rest => do
    put " "
    within (.substituting true) do
      let m ← currentMode
      put (argMark m arg)
      writeExpr arg
      put (argMark m arg)
    writeArgs rest

end

/-! ## Statements -/

/-- Writes an assignment. -/
def writeAssign (v : Variable) (value : Expr) : Writing Unit := do
  put (assignOpen v)
  within (.substituting true) (writeExpr value)

/-- Writes the test of a condition. -/
def writeCondition (cond : Expr) : Writing Unit := do
  if cond.isComparison then
    within (.substituting true) <| within (.deciding false) (writeExpr cond)
  else
    within (.substituting true) (writeExpr cond)
  put (testClose cond)

/-- Writes what a loop runs over: the numbers of a range, or the words of a value. -/
def writeBounds (lower : Expr) : Option Expr → Writing Unit
  | some upper => do
    put "$(seq "
    within (.substituting true) do
      writeExpr lower
      put " "
      writeExpr upper
    put ")"
  | none => within (.substituting true) <| within (.quoting false) (writeExpr lower)

/-- Writes the return of a value. -/
def writeReturn (value : Expr) : Writing Unit := do
  put "echo "
  put (returnMark value)
  within (.substituting true) (writeExpr value)
  put (returnMark value)
  put "; exit"

/-- Writes an expression that is run for its effect. -/
def writeEffect : Expr → Writing Unit
  | .stream _ op left right => do
    let word ← attempt (streamWord op)
    within (.substituting false) do
      writeExpr left
      put (" " ++ word ++ " ")
      writeExpr right
  | e => writeExpr e

/-- Writes a block that begins with parameters, given the act that writes its lines. -/
def writeBody (params : List String) (stmts : List Stmt) (lines : Writing Unit) :
    Writing Unit := do
  let m ← currentMode
  put (blockOpen m)
  within .deeper do
    let m ← currentMode
    put (paramLines m 1 params)
    lines
    put (placeholder m stmts)
  put (blockClose m)

/-- Writes a block. It begins with the parameters that were handed to it. -/
def writeBlock (stmts : List Stmt) (lines : Writing Unit) : Writing Unit := do
  writeBody (← takePending) stmts lines

mutual

/-- Writes a statement. -/
def writeStmt : Stmt → Writing Unit
  | .assign v value => writeAssign v value
  | .branch cond body otherwise => do
    put "if [[ "
    writeCondition cond
    put " ]]; then\n"
    within (.bracing false) do
      writeBlock body (writeStmts body)
      writeElse otherwise
    putMargin
    put "fi"
  | .loop v lower upper body => do
    put ("for " ++ v.name ++ " in ")
    writeBounds lower upper
    put "; do\n"
    within (.bracing false) (writeBlock body (writeStmts body))
    putMargin
    put "done"
  | .ret value => writeReturn value
  | .jump jump => put jump.word
  | .load _ => put ""
  | .expr expr => writeEffect expr

/-- Writes the lines of statements. Imports have none. -/
def writeStmts : List Stmt → Writing Unit
  | [] => put ""
  | .load _ :: rest => writeStmts rest
  | stmt :: rest => do
    putMargin
    writeStmt stmt
    put ";\n"
    writeStmts rest

/-- Writes the branches after the first one. -/
def writeElse : ElseChain → Writing Unit
  | .done => put ""
  | .elseIf cond body otherwise => do
    putMargin
    put "elif [[ "
    writeCondition cond
    put " ]]; then\n"
    writeBlock body (writeStmts body)
    writeElse otherwise
  | .final body => do
    putMargin
    put "else\n"
    writeBlock body (writeStmts body)

end

/-! ## Scripts -/

/-- Writes a function. One that is only declared has no text. -/
def writeFunction (f : Function) : Writing Unit :=
  match f.body with
  | none => put ""
  | some body => do
    put ("function " ++ f.name ++ " () ")
    expect (f.params.map (·.name))
    writeBlock body (writeStmts body)

/-- Writes functions, in their order. -/
def writeFunctions : List Function → Writing Unit
  | [] => put ""
  | f :: rest => do
    writeFunction f
    writeFunctions rest

/-- Writes the values of global variables, in their order. -/
def writeGlobals : List Assignment → Writing Unit
  | [] => put ""
  | a :: rest => do
    writeAssign a.var a.value
    put ";\n"
    writeGlobals rest

/-- Writes all of a script after its first line. -/
def writeModule (library : Bool) (module : Module) : Writing Unit := do
  writeFunctions module.functions
  writeGlobals module.globals
  put (← attempt (entryCall library module))

namespace Writer

/-- The writer before a new script: nothing is written, nothing is pending, and the mode
is the initial one. -/
def restart (w : Writer) : Writer := { w with out := "", mode := .initial, pending := none }

/-- The writer after its text has been handed over. -/
def clear (w : Writer) : Writer := { w with out := "" }

/-- Writes a script and hands it over. -/
def generate (w : Writer) (module : Module) : Except Error String × Writer :=
  let act : Writing Unit := do
    put (w.target.shebang ++ "\n")
    writeModule w.library module
  match act w.restart with
  | .ok () w => (.ok w.out, w.clear)
  | .error fault w => (.error (fault.toError w.target), w.clear)

end Writer

/-- The script of a resolved program. -/
def generate (target : Target) (library : Bool) (module : Module) : Except Error String :=
  ({ target, library : Writer }.generate module).1

end Shellwright.Script
