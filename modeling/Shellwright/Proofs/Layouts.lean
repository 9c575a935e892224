import Shellwright.Compile
import Shellwright.Proofs.Relocation
import Shellwright.Proofs.Tokenisation

/-!
# Layout does not matter

What a program means does not depend on where its parts stand. Resolving two programs that
differ in their places only gives one and the same module, or the same fault at related
places. So two texts of one file that spell the same lexemes are one program, whatever
stands between the lexemes.

* `Program.Moved.placeless_eq`: without their places, moved programs are equal.
* `Module.ofProgram_moved`: moved programs mean the same.
* `compile_relaid`: texts with the same lexemes give the same script, and gaps
  can be put anywhere.
-/

namespace Shellwright.Surface

variable {R : Span → Span → Prop}

/-! ## Trees without places -/

section

variable {α β : Type} {S : α → α → Prop} {f : α → β} (same : ∀ a a', S a a' → f a = f a')

include same

/-- A function that does not see the difference gives the same list. -/
theorem map_eq_of_forall₂ {as as' : List α} (h : List.Forall₂ S as as') :
    as.map f = as'.map f := by
  induction h with
  | nil => rfl
  | cons first _ ih => rw [List.map_cons, List.map_cons, same _ _ first, ih]

theorem map_eq_of_rel {a a' : Option α} (h : Option.Rel S a a') : a.map f = a'.map f := by
  cases h with
  | none => rfl
  | some related => exact congrArg some (same _ _ related)

end

mutual

/-- An expression that has only moved is the same without its places. -/
theorem Expr.Moved.placeless_eq : ∀ {e e' : Expr}, Expr.Moved R e e' → e.placeless = e'.placeless
  | .int .., _, .int .. => rfl
  | .fraction .., _, .fraction .. => rfl
  | .bool .., _, .bool .. => rfl
  | .text .., _, .text _ same => by rw [Expr.placeless, Expr.placeless, same]
  | .command .., _, .command _ same => by rw [Expr.placeless, Expr.placeless, same]
  | .var .., _, .var .. => rfl
  | .binary .., _, .binary _ _ left right => by
    rw [Expr.placeless, Expr.placeless, left.placeless_eq, right.placeless_eq]
  | .unary .., _, .unary _ _ operand => by
    rw [Expr.placeless, Expr.placeless, operand.placeless_eq]
  | .call .., _, .call _ _ args => by
    rw [Expr.placeless, Expr.placeless, Expr.placelessList_eq args]
  | .pipe .., _, .pipe _ left right => by
    rw [Expr.placeless, Expr.placeless, left.placeless_eq, right.placeless_eq]

theorem Expr.placelessList_eq : ∀ {es es' : List Expr}, List.Forall₂ (Expr.Moved R) es es' →
    Expr.placelessList es = Expr.placelessList es'
  | [], _, .nil => rfl
  | _ :: _, _, .cons first others => by
    rw [Expr.placelessList, Expr.placelessList, first.placeless_eq, Expr.placelessList_eq others]

end

mutual

/-- So is a statement. -/
theorem Stmt.Moved.placeless_eq : ∀ {s s' : Stmt}, Stmt.Moved R s s' → s.placeless = s'.placeless
  | .assign .., _, .assign _ _ value => by
    rw [Stmt.placeless, Stmt.placeless, value.placeless_eq]
  | .branch .., _, .branch _ cond body otherwise => by
    rw [Stmt.placeless, Stmt.placeless, cond.placeless_eq, Stmt.placelessList_eq body,
      otherwise.placeless_eq]
  | .loop .., _, .loop _ _ lower upper body => by
    rw [Stmt.placeless, Stmt.placeless, lower.placeless_eq,
      map_eq_of_rel (fun _ _ moved => Expr.Moved.placeless_eq moved) upper,
      Stmt.placelessList_eq body]
  | .ret .., _, .ret _ value => by rw [Stmt.placeless, Stmt.placeless, value.placeless_eq]
  | .jump .., _, .jump .. => rfl
  | .load .., _, .load .. => rfl
  | .expr .., _, .expr _ expr => by rw [Stmt.placeless, Stmt.placeless, expr.placeless_eq]

theorem Stmt.placelessList_eq : ∀ {ss ss' : List Stmt}, List.Forall₂ (Stmt.Moved R) ss ss' →
    Stmt.placelessList ss = Stmt.placelessList ss'
  | [], _, .nil => rfl
  | _ :: _, _, .cons first others => by
    rw [Stmt.placelessList, Stmt.placelessList, first.placeless_eq, Stmt.placelessList_eq others]

theorem ElseChain.Moved.placeless_eq :
    ∀ {c c' : ElseChain}, ElseChain.Moved R c c' → c.placeless = c'.placeless
  | .done, _, .done => rfl
  | .elseIf .., _, .elseIf cond body otherwise => by
    rw [ElseChain.placeless, ElseChain.placeless, cond.placeless_eq, Stmt.placelessList_eq body,
      otherwise.placeless_eq]
  | .final .., _, .final body => by
    rw [ElseChain.placeless, ElseChain.placeless, Stmt.placelessList_eq body]

end

/-- So is a function, with its parameters and its body. -/
theorem Function.Moved.placeless_eq {file : String} {f f' : Function}
    (h : Function.Moved R file f f') :
    f.placeless = f'.placeless := by
  have params := map_eq_of_forall₂ (f := fun p : Param => { p with span := Span.zero })
    (fun p p' moved => by rw [moved.name]) h.params
  have body := map_eq_of_rel (fun _ _ moved => Stmt.placelessList_eq moved) h.body
  simp only [Function.placeless, h.name, params, body, h.files.1, h.files.2]

/-- Without their places, moved programs are equal. -/
theorem Program.Moved.placeless_eq {file : String} {p p' : Program}
    (h : Program.Moved R file p p') :
    p.placeless.withoutSources = p'.placeless.withoutSources := by
  have functions :=
    map_eq_of_forall₂ (fun _ _ moved => Function.Moved.placeless_eq moved) h.functions
  have topLevel :=
    map_eq_of_forall₂ (f := fun t : TopLevel => { t with stmt := t.stmt.placeless })
    (fun t t' moved => by rw [moved.stmt.placeless_eq, moved.files.1, moved.files.2]) h.topLevel
  simp only [Program.placeless, Program.withoutSources, functions, topLevel, h.files.1,
    h.files.2]

/-- Moving does not change what an expression does. -/
theorem Expr.Moved.hasEffect_eq {e e' : Expr} (h : Expr.Moved R e e') :
    e.hasEffect = e'.hasEffect := by
  cases h <;> rfl

theorem Stmt.Moved.isLoad_eq {s s' : Stmt} (h : Stmt.Moved R s s') : s.isLoad = s'.isLoad := by
  cases h <;> rfl

end Shellwright.Surface

namespace Shellwright.Core

open Surface (map_eq_of_forall₂)

/-- The faults are the same, at related places of one file. -/
structure ScopeError.Moved (R : Span → Span → Prop) (file : String) (e e' : ScopeError) :
    Prop where
  fault : e.fault = e'.fault
  span : R e.span e'.span
  files : e.file = file ∧ e'.file = file

variable {R : Span → Span → Prop} {file : String}

/-- Faults of the same kind at related places of the same file. -/
theorem Scope.error_moved {s : Scope} (here : s.file = file) (fault : ScopeFault) {a b : Span}
    (related : R a b) : ScopeError.Moved R file (s.error fault a) (s.error fault b) :=
  ⟨rfl, related, here, here⟩

/-! ## Expressions -/

/-- Where references stand does not matter for what they mean. -/
theorem resolveSegments_placeless (s : Scope) (segments : List Surface.Segment) :
    resolveSegments s (segments.map Surface.Segment.placeless) = resolveSegments s segments := by
  induction segments with
  | nil => rfl
  | cons segment rest ih =>
    cases segment with
    | text text => simp only [List.map_cons, Surface.Segment.placeless, resolveSegments, ih]
    | ref name raw span =>
      simp only [List.map_cons, Surface.Segment.placeless, resolveSegments, ih]

/-- Segments that read the same mean the same. -/
theorem resolveSegments_eq (s : Scope) {segments segments' : List Surface.Segment}
    (same : segments.map Surface.Segment.placeless = segments'.map Surface.Segment.placeless) :
    resolveSegments s segments = resolveSegments s segments' := by
  rw [← resolveSegments_placeless, same, resolveSegments_placeless]

mutual

/-- A moved expression is resolved to the same, or refused for the same reason
at the moved place. -/
theorem resolveExpr_moved {s : Scope} (here : s.file = file) :
    ∀ {e e' : Surface.Expr}, Surface.Expr.Moved R e e' →
      Alike (ScopeError.Moved R file) Eq (resolveExpr s e) (resolveExpr s e')
  | .int .., _, .int .. => .ok rfl
  | .fraction .., _, .fraction .. => .ok rfl
  | .bool .., _, .bool .. => .ok rfl
  | .text .., _, .text _ same => .ok (by rw [resolveSegments_eq s same])
  | .command .., _, .command _ same => .ok (by rw [resolveSegments_eq s same])
  | .var .., _, .var name related => by
    rw [resolveExpr, resolveExpr]
    split
    · exact .ok rfl
    · exact .error (s.error_moved here _ related)
  | .binary .., _, .binary op _ left right => by
    rw [resolveExpr, resolveExpr]
    refine (resolveExpr_moved here left).bind fun _ _ same => ?_
    refine (resolveExpr_moved here right).bind fun _ _ same' => ?_
    rw [same, same']
    exact .ok rfl
  | .unary .., _, .unary op _ operand => by
    rw [resolveExpr, resolveExpr]
    refine (resolveExpr_moved here operand).bind fun _ _ same => ?_
    rw [same]
    exact .ok rfl
  | .call .., _, .call name related args => by
    rw [resolveExpr, resolveExpr, ← args.length_eq]
    split
    · exact .error (s.error_moved here _ related)
    · split
      · refine (resolveArgs_moved here args).bind fun _ _ same => ?_
        rw [same]
        exact .ok rfl
      · exact .error (s.error_moved here _ related)
  | .pipe .., _, .pipe _ left right => by
    rw [resolveExpr, resolveExpr]
    refine (resolveExpr_moved here left).bind fun _ _ same => ?_
    refine (resolveExpr_moved here right).bind fun _ _ same' => ?_
    rw [same, same']
    exact .ok rfl

theorem resolveArgs_moved {s : Scope} (here : s.file = file) :
    ∀ {es es' : List Surface.Expr}, List.Forall₂ (Surface.Expr.Moved R) es es' →
      Alike (ScopeError.Moved R file) Eq (resolveArgs s es) (resolveArgs s es')
  | [], _, .nil => .ok rfl
  | _ :: _, _, .cons first others => by
    rw [resolveArgs, resolveArgs]
    refine (resolveExpr_moved here first).bind fun _ _ same => ?_
    refine (resolveArgs_moved here others).bind fun _ _ same' => ?_
    rw [same, same']
    exact .ok rfl

end

theorem resolveUpper_moved {s : Scope} (here : s.file = file)
    {upper upper' : Option Surface.Expr} (h : Option.Rel (Surface.Expr.Moved R) upper upper') :
    Alike (ScopeError.Moved R file) Eq (resolveUpper s upper) (resolveUpper s upper') := by
  cases h with
  | none => exact .ok rfl
  | some moved =>
    refine (resolveExpr_moved here moved).bind fun _ _ same => ?_
    rw [same]
    exact .ok rfl

/-! ## Statements -/

theorem Scope.bind_file (s : Scope) (name : String) (ty : Ty) :
    (s.bind name ty).2.file = s.file := by
  unfold Scope.bind
  repeat' split
  all_goals rfl

theorem Scope.noteResult_file (s : Scope) (ty : Ty) : (s.noteResult ty).file = s.file := by
  unfold Scope.noteResult
  split <;> rfl

theorem Scope.learn_file (s : Scope) (name : String) : (s.learn name).file = s.file := by
  unfold Scope.learn
  split <;> rfl

/-- The results are the same, and the scope after them is still one of the file. -/
def Stays {α : Type} (file : String) (x y : α × Scope) : Prop := x = y ∧ x.2.file = file

mutual

/-- So is a moved statement, and it leaves the same scope. -/
theorem resolveStmt_moved (inLoop : Bool) : ∀ {s : Scope} {stmt stmt' : Surface.Stmt},
    s.file = file → Surface.Stmt.Moved R stmt stmt' →
      Alike (ScopeError.Moved R file) (Stays file) (resolveStmt inLoop s stmt)
        (resolveStmt inLoop s stmt')
  | s, .assign .., _, here, .assign name _ value => by
    rw [resolveStmt, resolveStmt]
    refine (resolveExpr_moved here value).bind fun _ _ same => ?_
    rw [same]
    exact .ok ⟨rfl, (s.bind_file ..).trans here⟩
  | s, .branch .., _, here, .branch _ cond body otherwise => by
    rw [resolveStmt, resolveStmt]
    refine (resolveExpr_moved here cond).bind fun _ _ same => ?_
    refine (resolveStmts_moved inLoop here body).bind fun _ _ bodies => ?_
    obtain ⟨rfl, here⟩ := bodies
    refine (resolveElse_moved inLoop here otherwise).bind fun _ _ chains => ?_
    obtain ⟨rfl, here⟩ := chains
    rw [same]
    exact .ok ⟨rfl, here⟩
  | s, .loop .., _, here, .loop var _ lower upper body => by
    rw [resolveStmt, resolveStmt]
    refine (resolveExpr_moved here lower).bind fun _ _ same => ?_
    refine (resolveUpper_moved here upper).bind fun _ _ same' => ?_
    rw [same, same']
    refine (resolveStmts_moved true ((s.bind_file ..).trans here) body).bind fun _ _ bodies => ?_
    obtain ⟨rfl, here⟩ := bodies
    exact .ok ⟨rfl, here⟩
  | s, .ret .., _, here, .ret _ value => by
    rw [resolveStmt, resolveStmt]
    refine (resolveExpr_moved here value).bind fun _ _ same => ?_
    rw [same]
    exact .ok ⟨rfl, (s.noteResult_file _).trans here⟩
  | s, .jump .., _, here, .jump jump related => by
    rw [resolveStmt, resolveStmt]
    split
    · exact .ok ⟨rfl, here⟩
    · exact .error (s.error_moved here _ related)
  | s, .load .., _, here, .load .. => .ok ⟨rfl, here⟩
  | s, .expr .., _, here, .expr _ expr => by
    rw [resolveStmt, resolveStmt, expr.hasEffect_eq]
    split
    · refine (resolveExpr_moved here expr).bind fun _ _ same => ?_
      rw [same]
      exact .ok ⟨rfl, here⟩
    · exact .error (s.error_moved here _ expr.span)

/-- So are statements, each in the scope that those before it leave. -/
theorem resolveStmts_moved (inLoop : Bool) : ∀ {s : Scope} {ss ss' : List Surface.Stmt},
    s.file = file → List.Forall₂ (Surface.Stmt.Moved R) ss ss' →
      Alike (ScopeError.Moved R file) (Stays file) (resolveStmts inLoop s ss)
        (resolveStmts inLoop s ss')
  | _, [], _, here, .nil => .ok ⟨rfl, here⟩
  | _, _ :: _, _, here, .cons first others => by
    rw [resolveStmts, resolveStmts]
    refine (resolveStmt_moved inLoop here first).bind fun _ _ stmts => ?_
    obtain ⟨rfl, here⟩ := stmts
    refine (resolveStmts_moved inLoop here others).bind fun _ _ rests => ?_
    obtain ⟨rfl, here⟩ := rests
    exact .ok ⟨rfl, here⟩

/-- So are the branches after the first one. -/
theorem resolveElse_moved (inLoop : Bool) : ∀ {s : Scope} {c c' : Surface.ElseChain},
    s.file = file → Surface.ElseChain.Moved R c c' →
      Alike (ScopeError.Moved R file) (Stays file) (resolveElse inLoop s c)
        (resolveElse inLoop s c')
  | _, .done, _, here, .done => .ok ⟨rfl, here⟩
  | _, .elseIf .., _, here, .elseIf cond body otherwise => by
    rw [resolveElse, resolveElse]
    refine (resolveExpr_moved here cond).bind fun _ _ same => ?_
    refine (resolveStmts_moved inLoop here body).bind fun _ _ bodies => ?_
    obtain ⟨rfl, here⟩ := bodies
    refine (resolveElse_moved inLoop here otherwise).bind fun _ _ chains => ?_
    obtain ⟨rfl, here⟩ := chains
    rw [same]
    exact .ok ⟨rfl, here⟩
  | _, .final .., _, here, .final body => by
    rw [resolveElse, resolveElse]
    refine (resolveStmts_moved inLoop here body).bind fun _ _ bodies => ?_
    obtain ⟨rfl, here⟩ := bodies
    exact .ok ⟨rfl, here⟩

end

/-! ## Programs -/

/-- The first values are those of one variable and differ in their places only. -/
structure GlobalInit.Moved (R : Span → Span → Prop) (file : String) (i i' : GlobalInit) :
    Prop where
  name : i.name = i'.name
  value : Surface.Expr.Moved R i.value i'.value
  files : i.file = file ∧ i'.file = file

/-- Moved statements are divided at the same point. -/
theorem divide_moved {ts ts' : List Surface.TopLevel}
    (h : List.Forall₂ (Surface.TopLevel.Moved R file) ts ts') (leading : Bool) :
    List.Forall₂ (GlobalInit.Moved R file) (divide leading ts).1 (divide leading ts').1 ∧
      List.Forall₂ (Surface.TopLevel.Moved R file) (divide leading ts).2
        (divide leading ts').2 := by
  induction h generalizing leading with
  | nil => exact ⟨.nil, .nil⟩
  | @cons t t' ts ts' first _ ih =>
    obtain ⟨stmt, _⟩ := t
    obtain ⟨stmt', _⟩ := t'
    obtain ⟨moved : Surface.Stmt.Moved R stmt stmt', files⟩ := first
    cases moved with
    | assign name related value =>
      cases leading with
      | true => exact ⟨.cons ⟨rfl, value, files⟩ (ih true).1, (ih true).2⟩
      | false => exact ⟨(ih false).1, .cons ⟨.assign name related value, files⟩ (ih false).2⟩
    | load module related =>
      cases leading with
      | true => exact ⟨(ih true).1, .cons ⟨.load module related, files⟩ (ih true).2⟩
      | false => exact ⟨(ih false).1, .cons ⟨.load module related, files⟩ (ih false).2⟩
    | branch related cond body otherwise =>
      cases leading <;>
        exact ⟨(ih false).1, .cons ⟨.branch related cond body otherwise, files⟩ (ih false).2⟩
    | loop var related lower upper body =>
      cases leading <;>
        exact ⟨(ih false).1, .cons ⟨.loop var related lower upper body, files⟩ (ih false).2⟩
    | ret related value =>
      cases leading <;> exact ⟨(ih false).1, .cons ⟨.ret related value, files⟩ (ih false).2⟩
    | jump jump related =>
      cases leading <;> exact ⟨(ih false).1, .cons ⟨.jump jump related, files⟩ (ih false).2⟩
    | expr related expr =>
      cases leading <;> exact ⟨(ih false).1, .cons ⟨.expr related expr, files⟩ (ih false).2⟩

/-- The same names are global. -/
theorem globalNames_moved {ts ts' : List Surface.TopLevel}
    (h : List.Forall₂ (Surface.TopLevel.Moved R file) ts ts') (names : Names Ty) :
    globalNames ts names = globalNames ts' names := by
  induction h generalizing names with
  | nil => rfl
  | @cons t t' ts ts' first _ ih =>
    obtain ⟨stmt, _⟩ := t
    obtain ⟨stmt', _⟩ := t'
    obtain ⟨moved : Surface.Stmt.Moved R stmt stmt', -⟩ := first
    cases moved <;> exact ih _

/-- The same functions are declared, or the same one is declared twice. -/
theorem collectSignatures_moved {fs fs' : List Surface.Function}
    (h : List.Forall₂ (Surface.Function.Moved R file) fs fs') (known : Names Signature) :
    Alike (ScopeError.Moved R file) Eq (collectSignatures fs known)
      (collectSignatures fs' known) := by
  induction h generalizing known with
  | nil => exact .ok rfl
  | cons first _ ih =>
    rw [collectSignatures, collectSignatures, ← first.name, ← first.params.length_eq]
    split
    · exact .error ⟨rfl, first.span, first.files⟩
    · exact ih _

/-- The global variables get the same values. -/
theorem resolveGlobals_moved {s : Scope} (here : s.file = file) {inits inits' : List GlobalInit}
    (h : List.Forall₂ (GlobalInit.Moved R file) inits inits') :
    Alike (ScopeError.Moved R file) (Stays file) (resolveGlobals s inits)
      (resolveGlobals s inits') := by
  induction h generalizing s with
  | nil => exact .ok ⟨rfl, here⟩
  | @cons _ init _ _ first _ ih =>
    rw [resolveGlobals, resolveGlobals, first.files.1, first.files.2, first.name]
    have value : Alike (ScopeError.Moved R file) Eq _ _ :=
      resolveExpr_moved (s := { s with file }) rfl first.value
    refine value.bind fun _ e same => ?_
    rw [same]
    refine (ih (s := { s with globals := s.globals.put init.name e.ty }) here).bind
      fun _ _ rests => ?_
    obtain ⟨rfl, here⟩ := rests
    exact .ok ⟨rfl, here⟩

/-- A moved function is resolved to the same one. -/
theorem resolveFunction_moved {s : Scope} (here : s.file = file) {f f' : Surface.Function}
    (h : Surface.Function.Moved R file f f') :
    Alike (ScopeError.Moved R file) (Stays file) (resolveFunction s f)
      (resolveFunction s f') := by
  have names : f.params.map (·.name) = f'.params.map (·.name) :=
    map_eq_of_forall₂ (fun _ _ moved => moved.name) h.params
  have bodies := h.body
  unfold resolveFunction
  rw [names, h.name, h.files.1, h.files.2]
  generalize f.body = body, f'.body = body' at bodies
  cases bodies with
  | none => exact .ok ⟨rfl, here⟩
  | some moved =>
    have entered : (s.enter file (f'.params.map (·.name))).file = file := rfl
    refine (resolveStmts_moved false entered moved).bind fun _ _ bodies => ?_
    obtain ⟨rfl, here⟩ := bodies
    exact .ok ⟨rfl, (Scope.learn_file ..).trans here⟩

/-- So are moved functions, one after the other. -/
theorem resolveFunctions_moved {s : Scope} (here : s.file = file)
    {fs fs' : List Surface.Function} (h : List.Forall₂ (Surface.Function.Moved R file) fs fs') :
    Alike (ScopeError.Moved R file) (Stays file) (resolveFunctions s fs)
      (resolveFunctions s fs') := by
  induction h generalizing s with
  | nil => exact .ok ⟨rfl, here⟩
  | cons first _ ih =>
    rw [resolveFunctions, resolveFunctions]
    refine (resolveFunction_moved here first).bind fun _ _ functions => ?_
    obtain ⟨rfl, here⟩ := functions
    refine (ih here).bind fun _ _ rests => ?_
    obtain ⟨rfl, here⟩ := rests
    exact .ok ⟨rfl, here⟩

/-- So are the statements of the entry function. -/
theorem resolveEntry_moved {s : Scope} (here : s.file = file) {ts ts' : List Surface.TopLevel}
    (h : List.Forall₂ (Surface.TopLevel.Moved R file) ts ts') :
    Alike (ScopeError.Moved R file) (Stays file) (resolveEntry s ts) (resolveEntry s ts') := by
  induction h generalizing s with
  | nil => exact .ok ⟨rfl, here⟩
  | cons first _ ih =>
    rw [resolveEntry, resolveEntry, first.files.1, first.files.2]
    have stmt := resolveStmt_moved (s := { s with file }) false rfl first.stmt
    refine stmt.bind fun _ _ stmts => ?_
    obtain ⟨rfl, here⟩ := stmts
    refine (ih here).bind fun _ _ rests => ?_
    obtain ⟨rfl, here⟩ := rests
    exact .ok ⟨rfl, here⟩

theorem any_isLoad_moved {ts ts' : List Surface.TopLevel}
    (h : List.Forall₂ (Surface.TopLevel.Moved R file) ts ts') :
    (ts.any fun t => !t.stmt.isLoad) = ts'.any fun t => !t.stmt.isLoad := by
  induction h with
  | nil => rfl
  | cons first _ ih => rw [List.any_cons, List.any_cons, first.stmt.isLoad_eq, ih]

/-- The function of a name is found on both sides or on neither. -/
theorem find?_name_moved {fs fs' : List Surface.Function}
    (h : List.Forall₂ (Surface.Function.Moved R file) fs fs') (name : String) :
    Option.Rel (Surface.Function.Moved R file) (fs.find? (·.name = name))
      (fs'.find? (·.name = name)) := by
  induction h with
  | nil => exact .none
  | cons first _ ih =>
    rw [List.find?_cons, List.find?_cons, first.name]
    split
    · exact .some first
    · exact ih

theorem isNone_moved {main main' : Option Surface.Function}
    (h : Option.Rel (Surface.Function.Moved R file) main main') :
    main.isNone = main'.isNone := by
  cases h <;> rfl

theorem map_name_filter_moved {main main' : Option Surface.Function}
    (h : Option.Rel (Surface.Function.Moved R file) main main') :
    (main.filter (·.body.isSome)).map (·.name) =
      (main'.filter (·.body.isSome)).map (·.name) := by
  cases h with
  | none => rfl
  | @some f f' moved =>
    have bodies : f.body.isSome = f'.body.isSome := by
      have related := moved.body
      generalize f.body = body, f'.body = body' at related
      cases related <;> rfl
    cases isSome : f'.body.isSome with
    | true => simp [Option.filter, bodies, isSome, moved.name]
    | false => simp [Option.filter, bodies, isSome]

/-- A main function beside loose statements is refused. -/
theorem mainBeside_moved {loose : Bool} {main main' : Option Surface.Function}
    {x y : Except ScopeError Module} :
    Option.Rel (Surface.Function.Moved R file) main main' →
    Alike (ScopeError.Moved R file) Eq x y →
    Alike (ScopeError.Moved R file) Eq
      (match loose, main with
        | true, some f => .error ⟨.mainBesideStatements, f.span, f.file⟩
        | _, _ => x)
      (match loose, main' with
        | true, some f => .error ⟨.mainBesideStatements, f.span, f.file⟩
        | _, _ => y) := by
  intro h otherwise
  cases loose with
  | false => exact otherwise
  | true =>
    cases h with
    | none => exact otherwise
    | some moved => exact .error ⟨rfl, moved.span, moved.files⟩

/-- Moved programs mean the same, or fail for the same reason. -/
theorem Module.ofProgram_moved (library : Bool) {p p' : Surface.Program}
    (h : Surface.Program.Moved R file p p') :
    Alike (ScopeError.Moved R file) Eq (Module.ofProgram library p)
      (Module.ofProgram library p') := by
  have divided := divide_moved h.topLevel true
  have mains := find?_name_moved h.functions entryName
  unfold Module.ofProgram
  dsimp only
  rw [h.files.1, h.files.2, globalNames_moved h.topLevel, any_isLoad_moved divided.2]
  refine (collectSignatures_moved h.functions []).bind fun signatures _ same => ?_
  subst same
  generalize p.functions.find? (·.name = entryName) = main,
    p'.functions.find? (·.name = entryName) = main' at mains
  rw [isNone_moved mains, map_name_filter_moved mains]
  refine mainBeside_moved mains ?_
  have here : Scope.file ⟨file, signatures, globalNames p'.topLevel [], none, none⟩ = file := rfl
  refine (resolveGlobals_moved here divided.1).bind fun _ _ globals => ?_
  obtain ⟨rfl, here⟩ := globals
  refine (resolveFunctions_moved here h.functions).bind fun _ _ functions => ?_
  obtain ⟨rfl, here⟩ := functions
  split
  · have entered (s : Scope) : (s.enter file []).file = file := rfl
    refine (resolveEntry_moved (entered _) divided.2).bind fun _ _ bodies => ?_
    obtain ⟨rfl, -⟩ := bodies
    exact .ok rfl
  · exact .ok rfl

end Shellwright.Core

namespace Shellwright

open Text (byteSize)

/-! ## Texts with the same lexemes -/

/-- The same is told about the same file, maybe at another place. -/
structure Diagnostic.SameAdvice (d d' : Diagnostic) : Prop where
  message : d.message = d'.message
  help : d.help = d'.help
  file : d.file = d'.file

/-- The script of a file, if there is one. -/
def scriptOf (target : Target) (library : Bool) (file : String) (s : Source) :
    Except Diagnostic (Except Script.Error String) := do
  let p ← readWithSource file s
  let m ← resolve library p
  return Script.generate target library m

/-- Tokens that read the same are in a row, whatever their places. -/
theorem Token.row_of_lexemes {ts ts' : List Token}
    (same : ts.map Token.lexeme = ts'.map Token.lexeme) :
    Token.Row (fun _ _ => True) ts ts' := by
  rw [← List.forall₂_eq_eq_eq, List.forall₂_map_left_iff, List.forall₂_map_right_iff] at same
  exact same.imp fun _ _ lexeme => ⟨lexeme, trivial⟩

section

variable {file : String} {s s' : Source} {ts ts' : List Token}

/-- Reading a file is reading its tokens, with the text put in afterwards. -/
theorem readWithSource_eq (isRead : readTokens file s = .ok ts) :
    readWithSource file s =
      ((Surface.Program.parse file ts).mapError (·.diagnostic file s)).map
        ({ · with sources := [(file, s)] }) := by
  rw [readWithSource, readProgram, isRead]
  rfl

/-- Two texts with the same words are read alike. -/
theorem readWithSource_relaid (isRead : readTokens file s = .ok ts)
    (isRead' : readTokens file s' = .ok ts')
    (same : ts.map Token.lexeme = ts'.map Token.lexeme) :
    Alike Diagnostic.SameAdvice (Surface.Program.Moved (fun _ _ => True) file)
      (readWithSource file s) (readWithSource file s') := by
  have places : Relates (fun _ _ => True) (Surface.eofSpan ts) (Surface.eofSpan ts') :=
    ⟨trivial, fun _ _ => trivial⟩
  have parsed := Surface.Program.parse_moved places (Token.row_of_lexemes same) file
  rw [readWithSource_eq isRead, readWithSource_eq isRead']
  refine (parsed.mapError fun e e' moved => ?_).map fun p p' moved => ?_
  · exact ⟨congrArg Surface.ParseFault.message moved.fault, rfl, rfl⟩
  · exact ⟨moved.functions, moved.topLevel, moved.files⟩

/-- Programs that have only moved are resolved alike. -/
theorem resolve_relaid {R : Span → Span → Prop} (library : Bool) {p p' : Surface.Program}
    (h : Surface.Program.Moved R file p p') :
    Alike Diagnostic.SameAdvice Eq (resolve library p) (resolve library p') := by
  refine (Core.Module.ofProgram_moved library h).mapError fun e e' moved => ⟨?_, ?_, ?_⟩
  · exact congrArg Core.ScopeFault.message moved.fault
  · exact congrArg Core.ScopeFault.help moved.fault
  · exact congrArg some (moved.files.1.trans moved.files.2.symm)

end

/-- Two texts of a file that spell the same lexemes are the same program, and they give the same
module and the same script, or all fails with the same advice. And a gap put directly before or
behind a token leaves the lexemes as they are. -/
theorem compile_relaid :
    (∀ (file : String) (library : Bool) (s s' : Source) (ts ts' : List Token),
      readTokens file s = .ok ts → readTokens file s' = .ok ts' →
      ts.map Token.lexeme = ts'.map Token.lexeme →
      Alike Diagnostic.SameAdvice (fun p p' =>
        p.placeless.withoutSources = p'.placeless.withoutSources)
        (readWithSource file s) (readWithSource file s') ∧
      Alike Diagnostic.SameAdvice Eq (readWithSource file s >>= resolve library)
        (readWithSource file s' >>= resolve library) ∧
      ∀ target, Alike Diagnostic.SameAdvice Eq (scriptOf target library file s)
        (scriptOf target library file s')) ∧
    ∀ (before gap after : List Char) (ts : List Token) (t : Token),
      Token.scan (before ++ after) = .ok ts → t ∈ ts →
      byteSize before = t.span.start ∨ byteSize before = t.span.stop → IsGap gap →
      ∃ ts', Token.scan (before ++ (gap ++ after)) = .ok ts' ∧
        ts'.map Token.lexeme = ts.map Token.lexeme := by
  constructor
  · intro file library s s' ts ts' isRead isRead' same
    have parsed := readWithSource_relaid isRead isRead' same
    refine ⟨?_, ?_, fun target => ?_⟩
    · exact parsed.imp fun p p' moved => moved.placeless_eq
    · exact parsed.bind fun p p' moved => resolve_relaid library moved
    · refine parsed.bind fun p p' moved => ?_
      refine (resolve_relaid library moved).bind fun m m' same => ?_
      rw [same]
      exact .ok rfl
  · intro before gap after ts t scanned mem place isGap
    exact Token.scan_insert scanned mem place isGap

/-- A program on one line and with a comment in it, and a comment put behind a name. -/
theorem compile_relaid_samples :
    Alike Diagnostic.SameAdvice Eq (scriptOf .bash false "f" ⟨"x=1;@(echo $x);"⟩)
      (scriptOf .bash false "f" ⟨"x = 1; # one\n@( echo $x ) ;"⟩) ∧
    ∃ ts, Token.scan ("x".toList ++ ("# one\n".toList ++ "=1".toList)) = .ok ts ∧
      ts.map Token.lexeme = [.ident "x", .symbol .assign, .int 1] := by
  constructor
  · exact (compile_relaid.1 "f" false ⟨"x=1;@(echo $x);"⟩
      ⟨"x = 1; # one\n@( echo $x ) ;"⟩ _ _ rfl rfl
      rfl).2.2 .bash
  · have inside : '\n' ∉ " one".toList := by decide
    have isGap : IsGap "# one\n".toList := .comment inside .nil
    exact compile_relaid.2 "x".toList _ "=1".toList _ _ rfl (.head _) (.inr rfl) isGap

end Shellwright
