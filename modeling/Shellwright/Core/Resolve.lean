import Shellwright.Core.Scope
import Shellwright.Surface.Basic

/-!
# Resolving names

From programs as written to resolved programs. Names are looked up in the scope at hand,
expressions get their types, minus signs before numbers become part of them, and the statements
outside functions are divided into values of global variables and the body of the entry function.
-/

namespace Shellwright.Core

/-- The function that an executable script begins with. -/
def entryName : String := "main"

/-! ## Expressions -/

/-- Puts plain text before segments, as part of the first one if that is plain text too. -/
def Segment.consText (text : String) : List Segment → List Segment
  | .text next :: rest => .text (text ++ next) :: rest
  | segments => .text text :: segments

/-- The segments of a text. A reference to an unknown name stays as it was written, for
the shell to expand. -/
def resolveSegments (s : Scope) : List Surface.Segment → List Segment
  | [] => []
  | .text text :: rest => Segment.consText text (resolveSegments s rest)
  | .ref name raw _ :: rest =>
    match s.find? name with
    | some (v, _) => .var v :: resolveSegments s rest
    | none => Segment.consText raw (resolveSegments s rest)

/-- The type of the result of an operator. -/
def resultTy (op : BinaryOp) (left right : Ty) : Ty :=
  if op.isComparison then .boolean
  else if left = .fractional || right = .fractional then .fractional
  else .integer

/-- The application of an operator with one operand; a sign before a number is
part of the number. -/
def applyUnary (op : UnaryOp) (operand : Expr) : Expr :=
  match op, operand with
  | .negate, .int _ value => .int .integer (-value)
  | .negate, .fraction _ value => .fraction .fractional value.neg
  | .negate, operand =>
    .unary (if operand.ty = .undef then .integer else operand.ty) .negate operand
  | .not, operand => .unary .boolean .not operand

mutual

/-- The expression that an expression as written means in a scope. -/
def resolveExpr (s : Scope) : Surface.Expr → Except ScopeError Expr
  | .int _ value => .ok (.int .integer value)
  | .fraction _ value => .ok (.fraction .fractional value)
  | .bool _ value => .ok (.bool .boolean value)
  | .text _ segments => .ok (.text .text (resolveSegments s segments))
  | .command _ segments => .ok (.command .text (resolveSegments s segments))
  | .var span name =>
    match s.find? name with
    | some (v, ty) => .ok (.var ty v)
    | none => .error (s.error (.undefinedVariable name (Suggest.nearest? name s.known)) span)
  | .binary _ op left right => do
    let left ← resolveExpr s left
    let right ← resolveExpr s right
    return .binary (resultTy op left.ty right.ty) op left right
  | .unary _ op operand => do
    return applyUnary op (← resolveExpr s operand)
  | .call span name args =>
    match s.signatures.get? name with
    | none =>
      .error (s.error (.undefinedFunction name (Suggest.nearest? name s.signatures.keys)) span)
    | some signature =>
      if signature.arity = args.length then do
        return .call signature.result name (← resolveArgs s args)
      else .error (s.error (.wrongArity name signature.arity args.length) span)
  | .pipe _ left right => do
    let left ← resolveExpr s left
    let right ← resolveExpr s right
    return .stream .text .pipe left right

/-- The arguments of a call, from the left. -/
def resolveArgs (s : Scope) : List Surface.Expr → Except ScopeError (List Expr)
  | [] => .ok []
  | arg :: rest => do
    let arg ← resolveExpr s arg
    let rest ← resolveArgs s rest
    return arg :: rest

end

/-! ## Statements -/

/-- The end of a range, if there is one. -/
def resolveUpper (s : Scope) : Option Surface.Expr → Except ScopeError (Option Expr)
  | none => .ok none
  | some upper => do return some (← resolveExpr s upper)

mutual

/-- The statement that a statement as written means in a scope, and the scope after it. -/
def resolveStmt (inLoop : Bool) (s : Scope) : Surface.Stmt → Except ScopeError (Stmt × Scope)
  | .assign _ name value => do
    let value ← resolveExpr s value
    let (v, s) := s.bind name value.ty
    return (.assign v value, s)
  | .branch _ cond body otherwise => do
    let cond ← resolveExpr s cond
    let (body, s) ← resolveStmts inLoop s body
    let (otherwise, s) ← resolveElse inLoop s otherwise
    return (.branch cond body otherwise, s)
  | .loop _ name lower upper body => do
    let lower ← resolveExpr s lower
    let upper ← resolveUpper s upper
    let (v, s) := s.bind name (if upper.isSome then .integer else .text)
    let (body, s) ← resolveStmts true s body
    return (.loop v lower upper body, s)
  | .ret _ value => do
    let value ← resolveExpr s value
    return (.ret value, s.noteResult value.ty)
  | .jump span jump =>
    if inLoop then .ok (.jump jump, s) else .error (s.error (.jumpOutsideLoop jump) span)
  | .load _ module => .ok (.load module, s)
  | .expr _ expr =>
    if expr.hasEffect then do return (.expr (← resolveExpr s expr), s)
    else .error (s.error .unusedResult expr.span)

/-- Statements one after the other. -/
def resolveStmts (inLoop : Bool) (s : Scope) :
    List Surface.Stmt → Except ScopeError (List Stmt × Scope)
  | [] => .ok ([], s)
  | stmt :: rest => do
    let (stmt, s) ← resolveStmt inLoop s stmt
    let (rest, s) ← resolveStmts inLoop s rest
    return (stmt :: rest, s)

/-- The branches after the first one, in their order. -/
def resolveElse (inLoop : Bool) (s : Scope) :
    Surface.ElseChain → Except ScopeError (ElseChain × Scope)
  | .done => .ok (.done, s)
  | .elseIf cond body otherwise => do
    let cond ← resolveExpr s cond
    let (body, s) ← resolveStmts inLoop s body
    let (otherwise, s) ← resolveElse inLoop s otherwise
    return (.elseIf cond body otherwise, s)
  | .final body => do
    let (body, s) ← resolveStmts inLoop s body
    return (.final body, s)

end

/-! ## Statements outside functions -/

/-- The first value of a global variable. -/
structure GlobalInit where
  file : String
  name : String
  value : Surface.Expr

/-- Divides the statements outside functions. The assignments that come first give
global variables their values, and imports among them do not matter; all else runs
in the entry function. -/
def divide : Bool → List Surface.TopLevel → List GlobalInit × List Surface.TopLevel
  | _, [] => ([], [])
  | leading, ⟨stmt, file⟩ :: rest =>
    match leading, stmt with
    | true, .assign _ name value =>
      let (inits, others) := divide true rest
      (⟨file, name, value⟩ :: inits, others)
    | leading, .load span module =>
      let (inits, others) := divide leading rest
      (inits, ⟨.load span module, file⟩ :: others)
    | _, stmt =>
      let (inits, others) := divide false rest
      (inits, ⟨stmt, file⟩ :: others)

/-- Every variable that some statement outside functions assigns is global. -/
def globalNames : List Surface.TopLevel → Names Ty → Names Ty
  | [], names => names
  | ⟨.assign _ name _, _⟩ :: rest, names => globalNames rest (names.put name .undef)
  | _ :: rest, names => globalNames rest names

/-- The signatures of functions, no two of which may have one name. -/
def collectSignatures :
    List Surface.Function → Names Signature → Except ScopeError (Names Signature)
  | [], known => .ok known
  | f :: rest, known =>
    if known.has f.name then .error ⟨.duplicateFunction f.name, f.span, f.file⟩
    else collectSignatures rest (known.put f.name ⟨f.params.length, .undef⟩)

/-- The values of global variables, each of which sees the types of those before it. -/
def resolveGlobals (s : Scope) : List GlobalInit → Except ScopeError (List Assignment × Scope)
  | [] => .ok ([], s)
  | init :: rest => do
    let value ← resolveExpr { s with file := init.file } init.value
    let (rest, s) ← resolveGlobals { s with globals := s.globals.put init.name value.ty } rest
    return (⟨⟨init.name, true⟩, value⟩ :: rest, s)

/-! ## Functions -/

/-- The scope at the start of a function's body. -/
def Scope.enter (s : Scope) (file : String) (params : List String) : Scope :=
  { s with file, locals := some (params.map fun name => (name, .undef)), result := none }

/-- The scope after a function's body: callers that follow know the type of its value. -/
def Scope.learn (s : Scope) (name : String) : Scope :=
  match s.result, s.signatures.get? name with
  | some ty, some signature =>
    { s with signatures := s.signatures.put name { signature with result := ty } }
  | _, _ => s

/-- A function, and the scope after it. -/
def resolveFunction (s : Scope) (f : Surface.Function) : Except ScopeError (Function × Scope) :=
  let names := f.params.map (·.name)
  let params := names.map fun name => (⟨name, false⟩ : Variable)
  match f.body with
  | none => .ok (⟨f.name, params, none⟩, s)
  | some body => do
    let (body, s) ← resolveStmts false (s.enter f.file names) body
    return (⟨f.name, params, some body⟩, s.learn f.name)

/-- Functions one after the other. -/
def resolveFunctions (s : Scope) :
    List Surface.Function → Except ScopeError (List Function × Scope)
  | [] => .ok ([], s)
  | f :: rest => do
    let (f, s) ← resolveFunction s f
    let (rest, s) ← resolveFunctions s rest
    return (f :: rest, s)

/-- The statements of the entry function, each seen in its own file. -/
def resolveEntry (s : Scope) : List Surface.TopLevel → Except ScopeError (List Stmt × Scope)
  | [] => .ok ([], s)
  | t :: rest => do
    let (stmt, s) ← resolveStmt false { s with file := t.file } t.stmt
    let (rest, s) ← resolveEntry s rest
    return (stmt :: rest, s)

/-! ## Programs -/

/-- The resolved form of a program. Unless it is a library, a program without entry function of
its own gets one. -/
def Module.ofProgram (library : Bool) (p : Surface.Program) : Except ScopeError Module := do
  let (inits, others) := divide true p.topLevel
  let signatures ← collectSignatures p.functions []
  let loose := others.any fun t => !t.stmt.isLoad
  let userMain := p.functions.find? (·.name = entryName)
  match loose, userMain with
  | true, some f => .error ⟨.mainBesideStatements, f.span, f.file⟩
  | _, _ =>
    let s : Scope := ⟨p.entryFile, signatures, globalNames p.topLevel [], none, none⟩
    let (globals, s) ← resolveGlobals s inits
    let (functions, s) ← resolveFunctions s p.functions
    if loose || (userMain.isNone && !library) then
      let (body, _) ← resolveEntry (s.enter p.entryFile []) others
      return ⟨functions ++ [⟨entryName, [], some body⟩], globals, some entryName⟩
    else
      return ⟨functions, globals, (userMain.filter (·.body.isSome)).map (·.name)⟩

end Shellwright.Core
