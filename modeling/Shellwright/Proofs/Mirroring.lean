import Mathlib.Data.List.Forall2
import Shellwright.Proofs.Respelling
import Shellwright.Proofs.WellFormed
import Shellwright.Proofs.WrittenText

/-!
# Nothing is lost on the way

Resolving takes the statements outside functions apart: some become values of global variables,
the others the body of an entry function. Put side by side again, they mirror the source,
statement by statement and in its order, and so do the functions.

* `Expr.Mirrors`, `Stmt.Mirrors`, `ElseChain.Mirrors`: a resolved tree has the shape of its
  source, with the same names, operators and values.
* `Resolves.mirrors`: resolving keeps the shape.
* `Module.Mirrors`: how a resolved program relates to the program it was made from.
-/

namespace Shellwright.Surface

/-- The statement gives a value to a variable. -/
def Stmt.isAssign : Stmt → Bool
  | .assign .. => true
  | _ => false

/-- The statements but for the imports. -/
def TopLevel.statements (ts : List TopLevel) : List Stmt := (ts.map (·.stmt)).filter (!·.isLoad)

end Shellwright.Surface

namespace Shellwright.Core

/-! ## Shapes -/

/-- The segments stand for the same pieces of text. A reference is either one to a variable of
that name or plain text. -/
inductive Segment.Mirrors : List Surface.Segment → List Segment → Prop
  | nil : Mirrors [] []
  | text {text : String} {src : List Surface.Segment} {segments : List Segment} :
    Mirrors src segments → Mirrors (.text text :: src) (Segment.consText text segments)
  | var {name raw : String} {span : Span} {v : Variable} {src : List Surface.Segment}
      {segments : List Segment} :
    v.name = name → Mirrors src segments →
    Mirrors (.ref name raw span :: src) (.var v :: segments)
  | raw {name raw : String} {span : Span} {src : List Surface.Segment}
      {segments : List Segment} :
    Mirrors src segments → Mirrors (.ref name raw span :: src) (Segment.consText raw segments)

/-- The expression has the shape of its source. A sign before a number is part of the number. -/
inductive Expr.Mirrors : Surface.Expr → Expr → Prop
  | int {span : Span} {ty : Ty} {value : Int64} : Mirrors (.int span value) (.int ty value)
  | fraction {span : Span} {ty : Ty} {value : Binary64} :
    Mirrors (.fraction span value) (.fraction ty value)
  | bool {span : Span} {ty : Ty} {value : Bool} : Mirrors (.bool span value) (.bool ty value)
  | text {span : Span} {ty : Ty} {src : List Surface.Segment} {segments : List Segment} :
    Segment.Mirrors src segments → Mirrors (.text span src) (.text ty segments)
  | command {span : Span} {ty : Ty} {src : List Surface.Segment} {segments : List Segment} :
    Segment.Mirrors src segments → Mirrors (.command span src) (.command ty segments)
  | var {span : Span} {name : String} {ty : Ty} {v : Variable} :
    v.name = name → Mirrors (.var span name) (.var ty v)
  | binary {span : Span} {ty : Ty} {op : BinaryOp} {srcLeft srcRight : Surface.Expr}
      {left right : Expr} :
    Mirrors srcLeft left → Mirrors srcRight right →
      Mirrors (.binary span op srcLeft srcRight) (.binary ty op left right)
  | unary {span : Span} {ty : Ty} {op : UnaryOp} {src : Surface.Expr} {operand : Expr} :
    Mirrors src operand → Mirrors (.unary span op src) (.unary ty op operand)
  | signedInt {span : Span} {ty ty' : Ty} {src : Surface.Expr} {value : Int64} :
    Mirrors src (.int ty value) → Mirrors (.unary span .negate src) (.int ty' (-value))
  | signedFraction {span : Span} {ty ty' : Ty} {src : Surface.Expr} {value : Binary64} :
    Mirrors src (.fraction ty value) →
      Mirrors (.unary span .negate src) (.fraction ty' value.neg)
  | call {span : Span} {ty : Ty} {name : String} {srcs : List Surface.Expr} {args : List Expr} :
    List.Forall₂ Mirrors srcs args → Mirrors (.call span name srcs) (.call ty name args)
  | pipe {span : Span} {ty : Ty} {srcLeft srcRight : Surface.Expr} {left right : Expr} :
    Mirrors srcLeft left → Mirrors srcRight right →
      Mirrors (.pipe span srcLeft srcRight) (.stream ty .pipe left right)

mutual

/-- The statement is of the kind of its source, and so are the statements inside
it, one for each. -/
inductive Stmt.Mirrors : Surface.Stmt → Stmt → Prop
  | assign {span : Span} {name : String} {v : Variable} {src : Surface.Expr} {value : Expr} :
    v.name = name → Expr.Mirrors src value →
    Stmt.Mirrors (.assign span name src) (.assign v value)
  | branch {span : Span} {src : Surface.Expr} {cond : Expr} {srcBody : List Surface.Stmt}
      {body : List Stmt} {srcChain : Surface.ElseChain} {chain : ElseChain} :
    Expr.Mirrors src cond → List.Forall₂ Stmt.Mirrors srcBody body →
      ElseChain.Mirrors srcChain chain →
      Stmt.Mirrors (.branch span src srcBody srcChain) (.branch cond body chain)
  | loop {span : Span} {name : String} {v : Variable} {srcLower : Surface.Expr} {lower : Expr}
      {srcUpper : Option Surface.Expr} {upper : Option Expr} {srcBody : List Surface.Stmt}
      {body : List Stmt} :
    v.name = name → Expr.Mirrors srcLower lower → Option.Rel Expr.Mirrors srcUpper upper →
      List.Forall₂ Stmt.Mirrors srcBody body →
      Stmt.Mirrors (.loop span name srcLower srcUpper srcBody) (.loop v lower upper body)
  | ret {span : Span} {src : Surface.Expr} {value : Expr} :
    Expr.Mirrors src value → Stmt.Mirrors (.ret span src) (.ret value)
  | jump {span : Span} {jump : Jump} : Stmt.Mirrors (.jump span jump) (.jump jump)
  | load {span : Span} {module : String} : Stmt.Mirrors (.load span module) (.load module)
  | expr {span : Span} {src : Surface.Expr} {expr : Expr} :
    Expr.Mirrors src expr → Stmt.Mirrors (.expr span src) (.expr expr)

/-- There are as many branches as in the source, and a last one without condition
if it has one. -/
inductive ElseChain.Mirrors : Surface.ElseChain → ElseChain → Prop
  | done : ElseChain.Mirrors .done .done
  | elseIf {src : Surface.Expr} {cond : Expr} {srcBody : List Surface.Stmt} {body : List Stmt}
      {srcChain : Surface.ElseChain} {chain : ElseChain} :
    Expr.Mirrors src cond → List.Forall₂ Stmt.Mirrors srcBody body →
      ElseChain.Mirrors srcChain chain →
      ElseChain.Mirrors (.elseIf src srcBody srcChain) (.elseIf cond body chain)
  | final {srcBody : List Surface.Stmt} {body : List Stmt} :
    List.Forall₂ Stmt.Mirrors srcBody body → ElseChain.Mirrors (.final srcBody) (.final body)

end

/-- The function has the name, the parameters and the body of its source. -/
structure Function.Mirrors (src : Surface.Function) (f : Function) : Prop where
  name : f.name = src.name
  params : f.params = src.params.map fun param => ⟨param.name, false⟩
  body : Option.Rel (List.Forall₂ Stmt.Mirrors) src.body f.body

/-- A value given to a variable, as a statement. -/
def Assignment.toStmt (a : Assignment) : Stmt := .assign a.var a.value

/-- The statement gives its first value to a global variable. -/
def Assignment.Mirrors (src : Surface.Stmt) (a : Assignment) : Prop :=
  Stmt.Mirrors src a.toStmt ∧ a.var.isGlobal = true

/-- The resolved program has these functions in the place of those of its source and, if it is
needed, an entry function with that body. -/
structure Module.Mirrors (p : Surface.Program) (m : Module) (functions : List Function)
    (entry : List Stmt) : Prop where
  whole : m.functions = functions ∧ entry = [] ∨
    m.functions = functions ++ [⟨entryName, [], some entry⟩]
  functions : List.Forall₂ Function.Mirrors p.functions functions
  /-- The global variables get the values of the assignments that the program begins with. -/
  globals : List.Forall₂ Assignment.Mirrors
    ((Surface.TopLevel.statements p.topLevel).takeWhile Surface.Stmt.isAssign) m.globals
  /-- All statements outside functions are there, in their order. -/
  statements : List.Forall₂ Stmt.Mirrors (Surface.TopLevel.statements p.topLevel)
    (m.globals.map Assignment.toStmt ++ entry.filter (!·.isLoad))

/-! ## Expressions -/

theorem resolveSegments_mirrors (s : Scope) (src : List Surface.Segment) :
    Segment.Mirrors src (resolveSegments s src) := by
  induction src with
  | nil => exact .nil
  | cons segment rest ih =>
    cases segment with
    | text text => exact .text ih
    | ref name raw span =>
      rw [resolveSegments]
      cases found : s.find? name with
      | none => exact .raw ih
      | some r => exact .var (Scope.find?_name found) ih

/-- Folding a minus sign into a number keeps what is mirrored. -/
theorem applyUnary_mirrors {span : Span} {op : UnaryOp} {src : Surface.Expr} {operand : Expr}
    (h : Expr.Mirrors src operand) :
    Expr.Mirrors (.unary span op src) (applyUnary op operand) := by
  cases op with
  | not => exact .unary h
  | negate =>
    cases operand with
    | int => exact .signedInt h
    | fraction => exact .signedFraction h
    | _ => exact .unary h

mutual

/-- A resolved expression mirrors its source, by induction on the source. -/
theorem resolveExpr_mirrors (s : Scope) : ∀ {src : Surface.Expr} {e : Expr},
    resolveExpr s src = .ok e → Expr.Mirrors src e
  | .int .., _, h => by cases h; exact .int
  | .fraction .., _, h => by cases h; exact .fraction
  | .bool .., _, h => by cases h; exact .bool
  | .text .., _, h => by cases h; exact .text (resolveSegments_mirrors s _)
  | .command .., _, h => by cases h; exact .command (resolveSegments_mirrors s _)
  | .var span name, e, h => by
    rw [resolveExpr] at h
    split at h
    · next found =>
      cases h
      exact .var (Scope.find?_name found)
    · cases h
  | .binary span op left right, e, h => by
    rw [resolveExpr] at h
    obtain ⟨l, isLeft, h⟩ := bind_eq_ok.mp h
    obtain ⟨r, isRight, h⟩ := bind_eq_ok.mp h
    cases h
    exact .binary (resolveExpr_mirrors s isLeft) (resolveExpr_mirrors s isRight)
  | .unary span op operand, e, h => by
    rw [resolveExpr] at h
    obtain ⟨o, isOperand, h⟩ := bind_eq_ok.mp h
    cases h
    exact applyUnary_mirrors (resolveExpr_mirrors s isOperand)
  | .call span name args, e, h => by
    rw [resolveExpr] at h
    split at h
    · cases h
    · split at h
      · obtain ⟨as, areArgs, h⟩ := bind_eq_ok.mp h
        cases h
        exact .call (resolveArgs_mirrors s areArgs)
      · cases h
  | .pipe span left right, e, h => by
    rw [resolveExpr] at h
    obtain ⟨l, isLeft, h⟩ := bind_eq_ok.mp h
    obtain ⟨r, isRight, h⟩ := bind_eq_ok.mp h
    cases h
    exact .pipe (resolveExpr_mirrors s isLeft) (resolveExpr_mirrors s isRight)

theorem resolveArgs_mirrors (s : Scope) : ∀ {srcs : List Surface.Expr} {args : List Expr},
    resolveArgs s srcs = .ok args → List.Forall₂ Expr.Mirrors srcs args
  | [], _, h => by cases h; exact .nil
  | src :: rest, args, h => by
    rw [resolveArgs] at h
    obtain ⟨arg, isArg, h⟩ := bind_eq_ok.mp h
    obtain ⟨others, areArgs, h⟩ := bind_eq_ok.mp h
    cases h
    exact .cons (resolveExpr_mirrors s isArg) (resolveArgs_mirrors s areArgs)

end

theorem resolveUpper_mirrors {s : Scope} {src : Option Surface.Expr} {upper : Option Expr}
    (h : resolveUpper s src = .ok upper) : Option.Rel Expr.Mirrors src upper := by
  cases src with
  | none =>
    cases h
    exact .none
  | some src =>
    obtain ⟨e, isExpr, h⟩ := bind_eq_ok.mp h
    cases h
    exact .some (resolveExpr_mirrors s isExpr)

/-! ## Statements and functions -/

/-- The tree has the shape of its source. -/
def Part.Mirrors : (part : Part) → part.Source → part.Tree → Prop
  | .stmt => Stmt.Mirrors
  | .stmts => List.Forall₂ Stmt.Mirrors
  | .chain => ElseChain.Mirrors

/-- Resolving keeps the shape of each part. -/
theorem Resolves.mirrors {part : Part} {inLoop : Bool} {s s' : Scope} {src : part.Source}
    {tree : part.Tree} (h : Resolves part inLoop s src tree s') : part.Mirrors src tree := by
  induction h with
  | assign value => exact .assign (Scope.bind_name ..) (resolveExpr_mirrors _ value)
  | branch cond _ _ body chain => exact .branch (resolveExpr_mirrors _ cond) body chain
  | loop lower upper _ body =>
    exact .loop (Scope.bind_name ..) (resolveExpr_mirrors _ lower)
      (resolveUpper_mirrors upper) body
  | ret value => exact .ret (resolveExpr_mirrors _ value)
  | jump => exact .jump
  | load => exact .load
  | expr _ value => exact .expr (resolveExpr_mirrors _ value)
  | nil => exact .nil
  | cons _ _ first rest => exact .cons first rest
  | done => exact .done
  | elseIf cond _ _ body chain => exact .elseIf (resolveExpr_mirrors _ cond) body chain
  | final _ body => exact .final body

/-- A resolved function mirrors its source. -/
theorem resolveFunction_mirrors {s : Scope} {src : Surface.Function} {r : Function × Scope}
    (h : resolveFunction s src = .ok r) : Function.Mirrors src r.1 := by
  unfold resolveFunction at h
  split at h
  · next declared =>
    cases h
    exact ⟨rfl, List.map_map, by rw [declared]; exact .none⟩
  · next defined =>
    obtain ⟨body, resolved, h⟩ := bind_eq_ok.mp h
    cases h
    exact ⟨rfl, List.map_map, by rw [defined]; exact .some (resolves_stmts resolved).mirrors⟩

/-- Resolved functions mirror theirs one by one. -/
theorem resolveFunctions_mirrors {s : Scope} {srcs : List Surface.Function}
    {r : List Function × Scope} (h : resolveFunctions s srcs = .ok r) :
    List.Forall₂ Function.Mirrors srcs r.1 := by
  induction srcs generalizing s r with
  | nil =>
    cases h
    exact .nil
  | cons src rest ih =>
    obtain ⟨f, first, h⟩ := bind_eq_ok.mp h
    obtain ⟨others, resolved, h⟩ := bind_eq_ok.mp h
    cases h
    exact .cons (resolveFunction_mirrors first) (ih resolved)

theorem resolveEntry_mirrors {s : Scope} {ts : List Surface.TopLevel} {r : List Stmt × Scope}
    (h : resolveEntry s ts = .ok r) : List.Forall₂ Stmt.Mirrors (ts.map (·.stmt)) r.1 := by
  induction ts generalizing s r with
  | nil =>
    cases h
    exact .nil
  | cons t rest ih =>
    obtain ⟨stmt, first, h⟩ := bind_eq_ok.mp h
    obtain ⟨others, resolved, h⟩ := bind_eq_ok.mp h
    cases h
    exact .cons (resolves_stmt first).mirrors (ih resolved)

/-! ## Statements outside functions -/

open Surface.TopLevel (statements leads)

/-- The global variables mirror the assignments that come first. -/
theorem resolveGlobals_mirrors {s : Scope} {ts : List Surface.TopLevel}
    {r : List Assignment × Scope} (leading : ∀ t ∈ ts, t.leads = true)
    (h : resolveGlobals s (ts.filterMap GlobalInit.of?) = .ok r) :
    List.Forall₂ Assignment.Mirrors (statements ts) r.1 := by
  induction ts generalizing s r with
  | nil =>
    cases h
    exact .nil
  | cons t rest ih =>
    obtain ⟨stmt, file⟩ := t
    obtain ⟨leads, others⟩ := List.forall_mem_cons.mp leading
    cases stmt with
    | load => exact ih others h
    | assign span name src =>
      obtain ⟨value, isValue, h⟩ := bind_eq_ok.mp h
      obtain ⟨initial, resolved, h⟩ := bind_eq_ok.mp h
      cases h
      exact .cons ⟨.assign rfl (resolveExpr_mirrors _ isValue), rfl⟩ (ih others resolved)
    | _ => cases leads

/-- Only imports become imports. -/
theorem Stmt.Mirrors.isLoad_eq {src : Surface.Stmt} {stmt : Stmt} (h : Stmt.Mirrors src stmt) :
    src.isLoad = stmt.isLoad := by
  cases h <;> rfl

/-- What the entry function runs mirrors the statements that are left, imports apart. -/
theorem resolveEntry_statements {s : Scope} {ts : List Surface.TopLevel} {r : List Stmt × Scope}
    (h : resolveEntry s ts = .ok r) :
    List.Forall₂ Stmt.Mirrors (statements ts) (r.1.filter (!·.isLoad)) := by
  refine List.rel_filter ?_ (resolveEntry_mirrors h)
  intro src stmt mirrors
  show (!src.isLoad) = true ↔ (!stmt.isLoad) = true
  rw [mirrors.isLoad_eq]

/-- Imports neither end nor extend the assignments that a program begins with. -/
theorem statements_leading (ts : List Surface.TopLevel) :
    statements (ts.takeWhile leads) = (statements ts).takeWhile Surface.Stmt.isAssign := by
  induction ts with
  | nil => rfl
  | cons t rest ih =>
    obtain ⟨stmt, file⟩ := t
    cases stmt with
    | assign span name src => exact congrArg (Surface.Stmt.assign span name src :: ·) ih
    | load => exact ih
    | _ => rfl

theorem statements_append (ts us : List Surface.TopLevel) :
    statements (ts ++ us) = statements ts ++ statements us := by
  rw [statements, List.map_append, List.filter_append]
  rfl

theorem statements_topLevel (p : Surface.Program) :
    statements p.topLevel = statements p.leading ++ statements p.remaining := by
  rw [← statements_append, Surface.Program.leading, Surface.Program.remaining,
    List.takeWhile_append_dropWhile]

theorem statements_entryStatements (p : Surface.Program) :
    statements (entryStatements p) = statements p.remaining := by
  have imports : statements (p.leading.filter (·.stmt.isLoad)) = [] := by
    simp only [statements, List.filter_eq_nil_iff, List.forall_mem_map, List.mem_filter]
    rintro t ⟨-, isLoad⟩
    rw [isLoad]
    exact Bool.false_ne_true
  rw [entryStatements, statements_append, imports, List.nil_append]

/-- Without an entry function nothing is left to run. -/
theorem statements_remaining_of_not_loose {p : Surface.Program} (tidy : isLoose p = false) :
    statements p.remaining = [] := by
  rw [← statements_entryStatements]
  simpa [isLoose, statements, List.filter_eq_nil_iff] using tidy

/-- Function by function and statement by statement, a resolved program mirrors its source. -/
theorem Stages.mirrors {p : Surface.Program} {globals : List Assignment}
    {functions : List Function} {s : Scope} (h : Stages p globals functions s) :
    List.Forall₂ Function.Mirrors p.functions functions ∧
      List.Forall₂ Assignment.Mirrors (statements p.leading) globals := by
  obtain ⟨-, initial, defined⟩ := h
  exact ⟨resolveFunctions_mirrors defined,
    resolveGlobals_mirrors (List.all_eq_true.mp List.all_takeWhile) initial⟩

/-- A resolved program mirrors the program as written. -/
theorem Module.ofProgram_mirrors {library : Bool} {p : Surface.Program} {m : Module}
    (resolved : Module.ofProgram library p = .ok m) :
    ∃ functions entry, Module.Mirrors p m functions entry := by
  have values {globals : List Assignment}
      (h : List.Forall₂ Assignment.Mirrors (statements p.leading) globals) :
      List.Forall₂ Stmt.Mirrors (statements p.leading) (globals.map Assignment.toStmt) :=
    List.forall₂_map_right_iff.mpr (h.imp fun _ _ mirrors => mirrors.1)
  have leading := statements_leading p.topLevel
  cases resolvesProgram_iff.mp resolved with
  | @made globals functions s s' body stages absent needed made =>
    obtain ⟨defined, initial⟩ := stages.mirrors
    have entry := resolveEntry_statements made
    rw [statements_entryStatements] at entry
    refine ⟨functions, body, .inr rfl, defined, leading ▸ initial, ?_⟩
    rw [statements_topLevel]
    exact List.rel_append (values initial) entry
  | @kept globals functions s stages tidy given =>
    obtain ⟨defined, initial⟩ := stages.mirrors
    refine ⟨functions, [], .inl ⟨rfl, rfl⟩, defined, leading ▸ initial, ?_⟩
    rw [statements_topLevel, statements_remaining_of_not_loose tidy]
    exact List.rel_append (values initial) .nil

/-- A program with an import among the assignments that it begins with, a later assignment, and
statements inside statements. -/
def mixedSample : Source :=
  ⟨"x = 1; import a; y = -2; f(y); z = 3; def g(a);\n" ++
    "def f(n) \x7b for (i in 1 .. n) \x7b if (n) \x7b break; \x7d\n" ++
    "else if (i) \x7b \x7d else \x7b x = i; \x7d \x7d \x7d"⟩

theorem Module.ofProgram_mirrors_mixed : ∃ p m, readProgram "sample" mixedSample = .ok p ∧
    (statements p.topLevel).map (·.isAssign) = [true, true, false, true] ∧
    Module.ofProgram false p = .ok m ∧
    ∃ functions entry, Module.Mirrors p m functions entry := by
  obtain ⟨p, m, isRead, asked, resolved⟩ := exists_resolved "sample" mixedSample false
    (fun p => (statements p.topLevel).map (·.isAssign) = [true, true, false, true])
    (by decide +kernel)
  exact ⟨p, m, isRead, of_decide_eq_true asked, resolved, ofProgram_mirrors resolved⟩

end Shellwright.Core
