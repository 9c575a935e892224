import Shellwright.Proofs.Layouts
import Shellwright.Proofs.Nodes
import Shellwright.Proofs.Scoping

/-!
# What faults of meaning are about

A fault of meaning tells of a part of the program that has no meaning where it stands. Where a
part stands is said by the list of all parts in source order, each with whether a loop is around
it and with the names that have been given values before it.

* `Program.occurrences`: the parts of a program where they stand.
* `Blames`: the part that a fault is about, and what is wrong with it.
* `ofProgram_eq_error`: whatever resolving a program fails for, some part is to blame, and the
  file that is named is the one that the part carries.
-/

namespace Shellwright.Surface

/-! ## Parts where they stand -/

mutual

/-- An expression and all inside it. -/
def Expr.nested : Expr → List Expr
  | .int span value => [.int span value]
  | .fraction span value => [.fraction span value]
  | .bool span value => [.bool span value]
  | .text span segments => [.text span segments]
  | .command span segments => [.command span segments]
  | .var span name => [.var span name]
  | .binary span op left right => .binary span op left right :: (left.nested ++ right.nested)
  | .unary span op operand => .unary span op operand :: operand.nested
  | .call span name args => .call span name args :: argsNested args
  | .pipe span left right => .pipe span left right :: (left.nested ++ right.nested)

def argsNested : List Expr → List Expr
  | [] => []
  | arg :: rest => arg.nested ++ argsNested rest

end

/-- A part of a program where it stands. -/
structure Occurrence where
  node : Node
  /-- A loop is around it. -/
  inLoop : Bool
  /-- The parameters and the names that have been given values before it. -/
  own : List String

/-- Expressions that stand at one place. -/
def occurring (inLoop : Bool) (own : List String) (es : List Expr) : List Occurrence :=
  es.map fun e => ⟨.expr e, inLoop, own⟩

mutual

/-- All that stands inside a statement. -/
def Stmt.inside (inLoop : Bool) (own : List String) : Stmt → List Occurrence
  | .assign _ _ value => occurring inLoop own value.nested
  | .branch _ cond body otherwise =>
    occurring inLoop own cond.nested ++ (stmtsOccurrences inLoop own body ++
      otherwise.inside inLoop (own ++ boundNames (stmtsUses body)))
  | .loop _ var lower upper body =>
    occurring inLoop own (lower.nested ++ upper.toList.flatMap Expr.nested) ++
      stmtsOccurrences true (own ++ [var]) body
  | .ret _ value => occurring inLoop own value.nested
  | .jump _ _ | .load _ _ => []
  | .expr _ e => occurring inLoop own e.nested

/-- Statements one after the other, and all that stands inside them. -/
def stmtsOccurrences (inLoop : Bool) (own : List String) : List Stmt → List Occurrence
  | [] => []
  | stmt :: rest =>
    ⟨.stmt stmt, inLoop, own⟩ :: (stmt.inside inLoop own ++
      stmtsOccurrences inLoop (own ++ boundNames stmt.uses) rest)

def ElseChain.inside (inLoop : Bool) (own : List String) : ElseChain → List Occurrence
  | .done => []
  | .elseIf cond body otherwise =>
    occurring inLoop own cond.nested ++ (stmtsOccurrences inLoop own body ++
      otherwise.inside inLoop (own ++ boundNames (stmtsUses body)))
  | .final body => stmtsOccurrences inLoop own body

end

/-- A function and all that stands inside it. -/
def Function.occurrences (f : Function) : List Occurrence :=
  ⟨.function f, false, []⟩ :: stmtsOccurrences false (f.params.map (·.name)) (f.body.getD [])

/-- All parts of a program that a fault of meaning can be about. -/
def Program.occurrences (p : Program) : List Occurrence :=
  p.functions.flatMap Function.occurrences ++ stmtsOccurrences false [] (p.topLevel.map (·.stmt))

/-- Statements that follow others stand where those have bound their names. -/
theorem stmtsOccurrences_append (inLoop : Bool) (own : List String) (as bs : List Stmt) :
    stmtsOccurrences inLoop own (as ++ bs) = stmtsOccurrences inLoop own as ++
      stmtsOccurrences inLoop (own ++ boundNames (stmtsUses as)) bs := by
  induction as generalizing own with
  | nil => simp [stmtsOccurrences, stmtsUses]
  | cons a as ih => simp [stmtsOccurrences, stmtsUses, ih]

/-! ## Parts that stand somewhere are parts -/

namespace Program.Part

variable {p : Program}

mutual

/-- What stands in an expression of a program is a part of it, too. -/
theorem nested : ∀ {e : Expr}, p.Part (.expr e) → ∀ x ∈ e.nested, p.Part (.expr x)
  | .int _ _, h | .fraction _ _, h | .bool _ _, h | .text _ _, h | .command _ _, h
  | .var _ _, h =>
    List.forall_mem_singleton.mpr h
  | .binary _ _ _ _, h | .pipe _ _ _, h =>
    List.forall_mem_cons.mpr ⟨h, List.forall_mem_append.mpr
      ⟨nested (h.child (.head _)), nested (h.child (.tail _ (.head _)))⟩⟩
  | .unary _ _ _, h => List.forall_mem_cons.mpr ⟨h, nested (h.child (.head _))⟩
  | .call _ _ _, h =>
    List.forall_mem_cons.mpr ⟨h, argsNested fun _ mem => h.child (List.mem_map_of_mem mem)⟩

theorem argsNested : ∀ {args : List Expr}, (∀ a ∈ args, p.Part (.expr a)) →
    ∀ x ∈ Surface.argsNested args, p.Part (.expr x)
  | [], _ => nofun
  | _ :: _, h => by
    obtain ⟨first, others⟩ := List.forall_mem_cons.mp h
    exact List.forall_mem_append.mpr ⟨nested first, argsNested others⟩

end

theorem occurring {inLoop : Bool} {own : List String} {es : List Expr}
    (h : ∀ e ∈ es, p.Part (.expr e)) : ∀ o ∈ Surface.occurring inLoop own es, p.Part o.node := by
  intro o mem
  obtain ⟨e, isIn, rfl⟩ := List.mem_map.mp mem
  exact h e isIn

mutual

/-- So is what stands in a statement. Statements, their lists and their branches hold each other,
so the three are taken together. -/
theorem inside : ∀ {inLoop : Bool} {own : List String} {s : Stmt}, p.Part (.stmt s) →
    ∀ o ∈ s.inside inLoop own, p.Part o.node
  | _, _, .assign _ _ _, h | _, _, .ret _ _, h | _, _, .expr _ _, h =>
    occurring (nested (h.child (.head _)))
  | _, _, .branch _ _ _ _, h =>
    List.forall_mem_append.mpr ⟨occurring (nested (h.child (.head _))),
      List.forall_mem_append.mpr
        ⟨stmtsOccurrences fun _ mem =>
            h.child (.tail _ (List.mem_append_left _ (List.mem_map_of_mem mem))),
          elseInside fun _ mem => h.child (.tail _ (List.mem_append_right _ mem))⟩⟩
  | _, _, .loop _ _ _ upper _, h => by
    refine List.forall_mem_append.mpr
      ⟨occurring (List.forall_mem_append.mpr ⟨nested (h.child (.head _)), fun x mem => ?_⟩),
        stmtsOccurrences fun _ mem =>
          h.child (.tail _ (List.mem_append_right _ (List.mem_map_of_mem mem)))⟩
    obtain ⟨e, isUpper, isIn⟩ := List.mem_flatMap.mp mem
    exact nested (h.child (.tail _ (List.mem_append_left _ (List.mem_map_of_mem isUpper)))) x
      isIn
  | _, _, .jump _ _, _ | _, _, .load _ _, _ => nofun

theorem stmtsOccurrences : ∀ {inLoop : Bool} {own : List String} {ss : List Stmt},
    (∀ s ∈ ss, p.Part (.stmt s)) → ∀ o ∈ Surface.stmtsOccurrences inLoop own ss, p.Part o.node
  | _, _, [], _ => nofun
  | _, _, _ :: _, h => by
    obtain ⟨first, others⟩ := List.forall_mem_cons.mp h
    exact List.forall_mem_cons.mpr
      ⟨first, List.forall_mem_append.mpr ⟨inside first, stmtsOccurrences others⟩⟩

theorem elseInside : ∀ {inLoop : Bool} {own : List String} {c : ElseChain},
    (∀ n ∈ c.children, p.Part n) → ∀ o ∈ c.inside inLoop own, p.Part o.node
  | _, _, .done, _ => nofun
  | _, _, .elseIf _ _ _, h => by
    obtain ⟨cond, others⟩ := List.forall_mem_cons.mp h
    obtain ⟨body, otherwise⟩ := List.forall_mem_append.mp others
    exact List.forall_mem_append.mpr ⟨occurring (nested cond), List.forall_mem_append.mpr
      ⟨stmtsOccurrences fun _ mem => body _ (List.mem_map_of_mem mem), elseInside otherwise⟩⟩
  | _, _, .final _, h => stmtsOccurrences fun _ mem => h _ (List.mem_map_of_mem mem)

end

end Program.Part

/-- Whatever stands somewhere in a program is a part of it. -/
theorem Program.part_of_mem_occurrences {p : Program} {o : Occurrence}
    (mem : o ∈ p.occurrences) :
    p.Part o.node := by
  rcases List.mem_append.mp mem with mem | mem
  · obtain ⟨f, isFunction, mem⟩ := List.mem_flatMap.mp mem
    have part : p.Part (.function f) := .function isFunction
    rcases List.mem_cons.mp mem with rfl | mem
    · exact part
    · exact Part.stmtsOccurrences (fun _ isStmt =>
        part.child (List.mem_append_right _ (List.mem_map_of_mem isStmt))) o mem
  · refine Part.stmtsOccurrences (fun s isStmt => ?_) o mem
    obtain ⟨t, isTop, rfl⟩ := List.mem_map.mp isStmt
    exact .stmt isTop

end Shellwright.Surface

namespace Shellwright.Core

open Surface (Occurrence boundNames occurring stmtsOccurrences)

/-! ## What a fault is about -/

/-- The part that a fault is about, among parts of a program, and what is wrong with it. -/
inductive Blames (p : Surface.Program) (parts : List Occurrence) :
    ScopeFault → Surface.Node → Prop
  /-- Neither is the variable global, nor has it been given a value. -/
  | undefinedVariable {span : Span} {name : String} {near : Option String} {inLoop : Bool}
      {own : List String} :
    ⟨.expr (.var span name), inLoop, own⟩ ∈ parts → ¬p.Assigns name → name ∉ own →
      Blames p parts (.undefinedVariable name near) (.expr (.var span name))
  | undefinedFunction {span : Span} {name : String} {near : Option String} {inLoop : Bool}
      {own : List String} {args : List Surface.Expr} :
    ⟨.expr (.call span name args), inLoop, own⟩ ∈ parts → (∀ n, ¬p.Declares name n) →
      Blames p parts (.undefinedFunction name near) (.expr (.call span name args))
  | wrongArity {span : Span} {name : String} {wanted : Nat} {inLoop : Bool} {own : List String}
      {args : List Surface.Expr} :
    ⟨.expr (.call span name args), inLoop, own⟩ ∈ parts → p.Declares name wanted →
      wanted ≠ args.length →
      Blames p parts (.wrongArity name wanted args.length) (.expr (.call span name args))
  /-- The expression is a statement of its own, and does nothing. -/
  | unusedResult {span : Span} {e : Surface.Expr} {inLoop : Bool} {own : List String} :
    ⟨.stmt (.expr span e), inLoop, own⟩ ∈ parts → e.hasEffect = false →
      Blames p parts .unusedResult (.expr e)
  | jumpOutsideLoop {span : Span} {jump : Jump} {own : List String} :
    ⟨.stmt (.jump span jump), false, own⟩ ∈ parts →
      Blames p parts (.jumpOutsideLoop jump) (.stmt (.jump span jump))
  /-- The function has the entry function's name, and another entry function has to be made. -/
  | mainBesideStatements {f : Surface.Function} {inLoop : Bool} {own : List String} :
    ⟨.function f, inLoop, own⟩ ∈ parts → f.name = entryName → isLoose p = true →
      Blames p parts .mainBesideStatements (.function f)

/-- A fault of some parts is a fault of more parts. -/
theorem Blames.mono {p : Surface.Program} {parts more : List Occurrence} {fault : ScopeFault}
    {node : Surface.Node} (h : Blames p parts fault node) (sub : parts ⊆ more) :
    Blames p more fault node := by
  cases h with
  | undefinedVariable mem notGlobal notOwn => exact .undefinedVariable (sub mem) notGlobal notOwn
  | undefinedFunction mem unknown => exact .undefinedFunction (sub mem) unknown
  | wrongArity mem declared other => exact .wrongArity (sub mem) declared other
  | unusedResult mem idle => exact .unusedResult (sub mem) idle
  | jumpOutsideLoop mem => exact .jumpOutsideLoop (sub mem)
  | mainBesideStatements mem isEntry loose => exact .mainBesideStatements (sub mem) isEntry loose

/-- What is to blame is a part of the program that the parts were taken from. -/
theorem Blames.part {p file : Surface.Program} {fault : ScopeFault} {node : Surface.Node}
    (h : Blames p file.occurrences fault node) : file.Part node := by
  cases h with
  | unusedResult mem _ =>
    exact (Surface.Program.part_of_mem_occurrences mem).child (.head _)
  | undefinedVariable mem | undefinedFunction mem | wrongArity mem | jumpOutsideLoop mem
  | mainBesideStatements mem => exact Surface.Program.part_of_mem_occurrences mem

/-- The error tells of one of these parts, and names this file. -/
structure ScopeError.Tells (e : ScopeError) (p : Surface.Program) (file : String)
    (parts : List Occurrence) : Prop where
  file : e.file = file
  blames : ∃ node : Surface.Node, node.span = e.span ∧ Blames p parts e.fault node

theorem ScopeError.Tells.mono {e : ScopeError} {p : Surface.Program} {file : String}
    {parts more : List Occurrence} (h : e.Tells p file parts) (sub : parts ⊆ more) :
    e.Tells p file more := by
  obtain ⟨here, node, span, blames⟩ := h
  exact ⟨here, node, span, blames.mono sub⟩

/-! ## What a scope lets be read -/

/-- The scope lies in the file and knows the program, and besides global variables just these
names can be read. -/
structure Scope.Reads (s : Scope) (p : Surface.Program) (file : String) (own : List String) :
    Prop where
  here : s.file = file
  serves : s.Serves p.Declares p.Assigns
  sees : ∀ x, (∃ r, s.find? x = some r) ↔ p.Assigns x ∨ x ∈ own

/-- The same inside a function, where names can be given values. -/
structure Scope.Hosts (s : Scope) (p : Surface.Program) (file : String) (own : List String) :
    Prop where
  here : s.file = file
  fits : ∃ params bound, s.Fits ⟨p.Declares, p.Assigns, params⟩ bound ∧
    ∀ x, p.Assigns x ∨ x ∈ params ∨ x ∈ bound ↔ p.Assigns x ∨ x ∈ own

section

variable {p : Surface.Program} {file : String} {own : List String} {s : Scope} {e : ScopeError}

theorem Scope.Hosts.reads (h : s.Hosts p file own) : s.Reads p file own := by
  obtain ⟨here, params, bound, fits, same⟩ := h
  exact ⟨here, fits.serves, fun x => (fits.exists_find? x).trans (same x)⟩

theorem Scope.Hosts.moved (h : s.Hosts p file own) (file' : String) :
    { s with file := file' }.Hosts p file' own := by
  obtain ⟨-, params, bound, fits, same⟩ := h
  exact ⟨rfl, params, bound,
    ⟨⟨fits.serves.arity, fits.serves.global⟩, fits.inside, fits.owns⟩, same⟩

/-- A step after which names are known besides. -/
theorem Scope.Hosts.grow {s' : Scope} {more : List String} (h : s.Hosts p file own)
    (stays : s'.file = s.file)
    (fits : ∀ {c : Setting} {bound : List String}, s.Fits c bound → s'.Fits c (bound ++ more)) :
    s'.Hosts p file (own ++ more) := by
  obtain ⟨here, params, bound, known, same⟩ := h
  refine ⟨stays.trans here, params, bound ++ more, fits known, fun x => ?_⟩
  have same := same x
  simp only [List.mem_append]
  tauto

/-- After a name was bound it can be read. -/
theorem Scope.Hosts.bind (h : s.Hosts p file own) (name : String) (ty : Ty) :
    (s.bind name ty).2.Hosts p file (own ++ [name]) :=
  h.grow (s.bind_file name ty) fun fits => (fits.bind name ty).2

/-- Resolving does not leave the file. -/
theorem Resolves.file_eq {part : Part} {inLoop : Bool} {s s' : Scope} {src : part.Source}
    {tree : part.Tree} (h : Resolves part inLoop s src tree s') : s'.file = s.file := by
  induction h with
  | assign => exact Scope.bind_file ..
  | loop _ _ _ ih => exact ih.trans (Scope.bind_file ..)
  | ret => exact Scope.noteResult_file ..
  | branch _ _ _ ihBody ihChain => exact ihChain.trans ihBody
  | cons _ _ ihStmt ihRest => exact ihRest.trans ihStmt
  | elseIf _ _ _ ihBody ihChain => exact ihChain.trans ihBody
  | final _ ih => exact ih
  | jump | load | expr | nil | done => rfl

/-- After statements were resolved, the names that they bind can be read. -/
theorem Scope.Hosts.after {part : Part} {inLoop : Bool} {s' : Scope} {src : part.Source}
    {tree : part.Tree} (h : s.Hosts p file own) (resolved : Resolves part inLoop s src tree s') :
    s'.Hosts p file (own ++ boundNames (part.uses src)) :=
  h.grow resolved.file_eq resolved.fits

/-! ## Expressions -/

/-- A fault at the place of a node tells of that node. -/
theorem Scope.error_tells {fault : ScopeFault} {parts : List Occurrence} (here : s.file = file)
    (node : Surface.Node) (blames : Blames p parts fault node) :
    (s.error fault node.span).Tells p file parts :=
  ⟨here, node, rfl, blames⟩

mutual

/-- If an expression cannot be resolved, something inside it is to blame. -/
theorem resolveExpr_tells (inLoop : Bool) (reads : s.Reads p file own) : ∀ {src : Surface.Expr},
    resolveExpr s src = .error e → e.Tells p file (occurring inLoop own src.nested)
  | .int _ _, h | .fraction _ _, h | .bool _ _, h | .text _ _, h | .command _ _, h => by
    rw [resolveExpr] at h
    cases h
  | .var span name, h => by
    rw [resolveExpr] at h
    have unknown := reads.sees name
    cases found : s.find? name with
    | some r => rw [found] at h; cases h
    | none =>
      rw [found] at h unknown
      cases h
      obtain ⟨notGlobal, notOwn⟩ := not_or.mp (unknown.not.mp (by simp))
      exact Scope.error_tells reads.here (.expr (.var span name))
        (.undefinedVariable (.head _) notGlobal notOwn)
  | .binary _ _ left right, h | .pipe _ left right, h => by
    rw [resolveExpr] at h
    rcases bind_eq_error.mp h with h | ⟨_, -, h⟩
    · exact (resolveExpr_tells inLoop reads h).mono
        (List.map_subset _ (List.subset_cons_of_subset _ (List.subset_append_left ..)))
    rcases bind_eq_error.mp h with h | ⟨_, -, ⟨⟩⟩
    exact (resolveExpr_tells inLoop reads h).mono
      (List.map_subset _ (List.subset_cons_of_subset _ (List.subset_append_right ..)))
  | .unary _ _ operand, h => by
    rw [resolveExpr] at h
    rcases bind_eq_error.mp h with h | ⟨_, -, ⟨⟩⟩
    exact (resolveExpr_tells inLoop reads h).mono (List.map_subset _ (List.subset_cons_self ..))
  | .call span name args, h => by
    rw [resolveExpr] at h
    have declared := reads.serves.arity name
    cases found : s.signatures.get? name with
    | none =>
      rw [found] at h declared
      cases h
      exact Scope.error_tells reads.here (.expr (.call span name args))
        (.undefinedFunction (.head _) fun n => (declared n).not.mp (by simp))
    | some signature =>
      rw [found] at h declared
      dsimp only at h
      split at h
      case isTrue =>
        rcases bind_eq_error.mp h with h | ⟨_, -, ⟨⟩⟩
        exact (resolveArgs_tells inLoop reads h).mono
          (List.map_subset _ (List.subset_cons_self ..))
      case isFalse other =>
        cases h
        exact Scope.error_tells reads.here (.expr (.call span name args))
          (.wrongArity (.head _) ((declared _).mp ⟨_, rfl, rfl⟩) other)

/-- A fault in arguments tells of a part of one of them. -/
theorem resolveArgs_tells (inLoop : Bool) (reads : s.Reads p file own) :
    ∀ {src : List Surface.Expr},
    resolveArgs s src = .error e → e.Tells p file (occurring inLoop own (Surface.argsNested src))
  | [], h => by
    rw [resolveArgs] at h
    cases h
  | arg :: rest, h => by
    rw [resolveArgs] at h
    rcases bind_eq_error.mp h with h | ⟨_, -, h⟩
    · exact (resolveExpr_tells inLoop reads h).mono
        (List.map_subset _ (List.subset_append_left ..))
    rcases bind_eq_error.mp h with h | ⟨_, -, ⟨⟩⟩
    exact (resolveArgs_tells inLoop reads h).mono
      (List.map_subset _ (List.subset_append_right ..))

end

theorem resolveUpper_tells (inLoop : Bool) (reads : s.Reads p file own)
    {src : Option Surface.Expr} (h : resolveUpper s src = .error e) :
    e.Tells p file (occurring inLoop own (src.toList.flatMap Surface.Expr.nested)) := by
  cases src with
  | none => cases h
  | some upper =>
    rcases bind_eq_error.mp h with h | ⟨_, -, ⟨⟩⟩
    rw [Option.toList_some, List.flatMap_singleton]
    exact resolveExpr_tells inLoop reads h

end

/-! ## Statements -/

section

variable {p : Surface.Program} {file : String} {e : ScopeError}

mutual

/-- If a statement cannot be resolved, it or something inside it is to blame. -/
theorem resolveStmt_tells :
    ∀ {src : Surface.Stmt} {inLoop : Bool} {s : Scope} {own : List String},
    s.Hosts p file own → resolveStmt inLoop s src = .error e →
      e.Tells p file (⟨.stmt src, inLoop, own⟩ :: src.inside inLoop own)
  | .assign _ _ _, inLoop, s, own, hosts, h => by
    rw [resolveStmt] at h
    rcases bind_eq_error.mp h with h | ⟨_, -, ⟨⟩⟩
    exact (resolveExpr_tells inLoop hosts.reads h).mono (List.subset_cons_self ..)
  | .branch _ cond body otherwise, inLoop, s, own, hosts, h => by
    rw [resolveStmt] at h
    rcases bind_eq_error.mp h with h | ⟨_, -, h⟩
    · exact (resolveExpr_tells inLoop hosts.reads h).mono
        (List.subset_cons_of_subset _ (List.subset_append_left ..))
    rcases bind_eq_error.mp h with h | ⟨r, resolved, h⟩
    · exact (resolveStmts_tells hosts h).mono (List.subset_cons_of_subset _
        (List.subset_append_of_subset_right _ (List.subset_append_left ..)))
    rcases bind_eq_error.mp h with h | ⟨_, -, ⟨⟩⟩
    exact (resolveElse_tells (hosts.after (resolves_stmts resolved)) h).mono
      (List.subset_cons_of_subset _ (List.subset_append_of_subset_right _
        (List.subset_append_right ..)))
  | .loop _ name lower upper body, inLoop, s, own, hosts, h => by
    rw [resolveStmt] at h
    rcases bind_eq_error.mp h with h | ⟨_, -, h⟩
    · exact (resolveExpr_tells inLoop hosts.reads h).mono (List.subset_cons_of_subset _
        (List.subset_append_of_subset_left _ (List.map_subset _ (List.subset_append_left ..))))
    rcases bind_eq_error.mp h with h | ⟨_, -, h⟩
    · exact (resolveUpper_tells inLoop hosts.reads h).mono (List.subset_cons_of_subset _
        (List.subset_append_of_subset_left _ (List.map_subset _ (List.subset_append_right ..))))
    rcases bind_eq_error.mp h with h | ⟨_, -, ⟨⟩⟩
    exact (resolveStmts_tells (hosts.bind name _) h).mono
      (List.subset_cons_of_subset _ (List.subset_append_right ..))
  | .ret _ _, inLoop, s, own, hosts, h => by
    rw [resolveStmt] at h
    rcases bind_eq_error.mp h with h | ⟨_, -, ⟨⟩⟩
    exact (resolveExpr_tells inLoop hosts.reads h).mono (List.subset_cons_self ..)
  | .jump span jump, inLoop, s, own, hosts, h => by
    rw [resolveStmt] at h
    cases inLoop with
    | true => cases h
    | false =>
      cases h
      exact Scope.error_tells hosts.here (.stmt (.jump span jump)) (.jumpOutsideLoop (.head _))
  | .load _ _, inLoop, s, own, hosts, h => by cases h
  | .expr _ src, inLoop, s, own, hosts, h => by
    rw [resolveStmt] at h
    split at h
    case isTrue =>
      rcases bind_eq_error.mp h with h | ⟨_, -, ⟨⟩⟩
      exact (resolveExpr_tells inLoop hosts.reads h).mono (List.subset_cons_self ..)
    case isFalse idle =>
      cases h
      exact Scope.error_tells hosts.here (.expr src)
        (.unusedResult (.head _) (Bool.not_eq_true _ ▸ idle))

/-- A fault in statements tells of a part of one, where those before it have bound their
names. -/
theorem resolveStmts_tells : ∀ {src : List Surface.Stmt} {inLoop : Bool} {s : Scope}
    {own : List String}, s.Hosts p file own → resolveStmts inLoop s src = .error e →
      e.Tells p file (stmtsOccurrences inLoop own src)
  | [], _, _, _, _, h => by cases h
  | stmt :: rest, inLoop, s, own, hosts, h => by
    rw [resolveStmts] at h
    rcases bind_eq_error.mp h with h | ⟨r, resolved, h⟩
    · exact (resolveStmt_tells hosts h).mono
        (List.cons_subset_cons _ (List.subset_append_left ..))
    rcases bind_eq_error.mp h with h | ⟨_, -, ⟨⟩⟩
    exact (resolveStmts_tells (hosts.after (resolves_stmt resolved)) h).mono
      (List.subset_cons_of_subset _ (List.subset_append_right ..))

/-- A fault in the branches after the first one tells of a part of them. -/
theorem resolveElse_tells : ∀ {src : Surface.ElseChain} {inLoop : Bool} {s : Scope}
    {own : List String}, s.Hosts p file own → resolveElse inLoop s src = .error e →
      e.Tells p file (src.inside inLoop own)
  | .done, _, _, _, _, h => by cases h
  | .elseIf cond body otherwise, inLoop, s, own, hosts, h => by
    rw [resolveElse] at h
    rcases bind_eq_error.mp h with h | ⟨_, -, h⟩
    · exact (resolveExpr_tells inLoop hosts.reads h).mono (List.subset_append_left ..)
    rcases bind_eq_error.mp h with h | ⟨r, resolved, h⟩
    · exact (resolveStmts_tells hosts h).mono
        (List.subset_append_of_subset_right _ (List.subset_append_left ..))
    rcases bind_eq_error.mp h with h | ⟨_, -, ⟨⟩⟩
    exact (resolveElse_tells (hosts.after (resolves_stmts resolved)) h).mono
      (List.subset_append_of_subset_right _ (List.subset_append_right ..))
  | .final body, inLoop, s, own, hosts, h => by
    rw [resolveElse] at h
    rcases bind_eq_error.mp h with h | ⟨_, -, ⟨⟩⟩
    exact resolveStmts_tells hosts h

end

end

/-! ## Programs -/

section

variable {p : Surface.Program} {e : ScopeError} {s : Scope}

/-- Names that are global anyway may be counted among the names with values. -/
theorem Scope.Serves.hosts (serves : s.Serves p.Declares p.Assigns) (file : String)
    (params : List String) {own : List String} (globals : ∀ x ∈ own, p.Assigns x) :
    (s.enter file params).Hosts p file (own ++ params) := by
  refine ⟨rfl, params, [], serves.enter file params, fun x => ?_⟩
  have isGlobal := globals x
  simp only [List.mem_append, List.not_mem_nil, or_false]
  tauto

/-- Outside functions the global names can be read. -/
theorem Scope.Serves.reads (serves : s.Serves p.Declares p.Assigns)
    (outside : s.Owns fun _ => False) (file : String) {own : List String}
    (globals : ∀ x ∈ own, p.Assigns x) :
    { s with file }.Reads p file own := by
  have serves : { s with file }.Serves p.Declares p.Assigns := ⟨serves.arity, serves.global⟩
  have outside : { s with file }.Owns fun _ => False := outside
  refine ⟨rfl, serves, fun x => ?_⟩
  rw [Scope.exists_find? serves outside]
  have isGlobal := globals x
  tauto

/-- A fault in the value of a global variable tells of a part of it. -/
theorem resolveGlobals_tells {inits : List GlobalInit} (serves : s.Serves p.Declares p.Assigns)
    (outside : s.Owns fun _ => False) (known : ∀ init ∈ inits, p.Assigns init.name)
    (h : resolveGlobals s inits = .error e) :
    ∃ init ∈ inits, ∀ own : List String, (∀ x ∈ own, p.Assigns x) →
      e.Tells p init.file (occurring false own init.value.nested) := by
  induction inits generalizing s with
  | nil => cases h
  | cons init rest ih =>
    rw [resolveGlobals] at h
    rcases bind_eq_error.mp h with h | ⟨value, -, h⟩
    · exact ⟨init, .head _, fun own globals =>
        resolveExpr_tells false (serves.reads outside init.file globals) h⟩
    · rcases bind_eq_error.mp h with h | ⟨_, -, ⟨⟩⟩
      obtain ⟨other, mem, tells⟩ := ih (serves.putGlobal value.ty (known init (.head _))) outside
        (fun i mem => known i (.tail _ mem)) h
      exact ⟨other, .tail _ mem, tells⟩

/-- A fault in a function tells of a part of it, or of its parameters. -/
theorem resolveFunction_tells {f : Surface.Function} (serves : s.Serves p.Declares p.Assigns)
    (h : resolveFunction s f = .error e) : e.Tells p f.file f.occurrences := by
  rw [resolveFunction] at h
  split at h
  case h_1 => cases h
  case h_2 body isBody =>
    rcases bind_eq_error.mp h with h | ⟨_, -, ⟨⟩⟩
    have none : ∀ x ∈ ([] : List String), p.Assigns x := List.forall_mem_nil _
    refine (resolveStmts_tells (serves.hosts f.file _ none) h).mono
      (List.subset_cons_of_subset _ ?_)
    rw [isBody]
    exact List.Subset.refl _

/-- A fault in functions tells of one of them. -/
theorem resolveFunctions_tells {fs : List Surface.Function}
    (serves : s.Serves p.Declares p.Assigns) (h : resolveFunctions s fs = .error e) :
    ∃ f ∈ fs, e.Tells p f.file f.occurrences := by
  induction fs generalizing s with
  | nil => cases h
  | cons f fs ih =>
    rw [resolveFunctions] at h
    rcases bind_eq_error.mp h with h | ⟨r, resolved, h⟩
    · exact ⟨f, .head _, resolveFunction_tells serves h⟩
    · rcases bind_eq_error.mp h with h | ⟨_, -, ⟨⟩⟩
      obtain ⟨g, mem, tells⟩ := ih (resolveFunction_serves serves resolved) h
      exact ⟨g, .tail _ mem, tells⟩

/-- A fault in the statements outside functions tells of one of them. -/
theorem resolveEntry_tells {file : String} {own : List String} {ts : List Surface.TopLevel}
    (hosts : s.Hosts p file own) (h : resolveEntry s ts = .error e) :
    ∃ t ∈ ts, e.Tells p t.file (stmtsOccurrences false own (ts.map (·.stmt))) := by
  induction ts generalizing s file own with
  | nil => cases h
  | cons t ts ih =>
    have here := hosts.moved t.file
    rw [resolveEntry] at h
    rcases bind_eq_error.mp h with h | ⟨r, resolved, h⟩
    · exact ⟨t, .head _, (resolveStmt_tells here h).mono
        (List.cons_subset_cons _ (List.subset_append_left ..))⟩
    · rcases bind_eq_error.mp h with h | ⟨_, -, ⟨⟩⟩
      obtain ⟨u, mem, tells⟩ := ih (here.after (resolves_stmt resolved)) h
      exact ⟨u, .tail _ mem, tells.mono
        (List.subset_cons_of_subset _ (List.subset_append_right ..))⟩

/-- Imports are never to blame. -/
theorem resolveEntry_imports_append {file : String} {own : List String}
    {imports ts : List Surface.TopLevel} (only : ∀ t ∈ imports, t.stmt.isLoad = true)
    (hosts : s.Hosts p file own)
    (h : resolveEntry s (imports ++ ts) = .error e) :
    ∃ file' s', Scope.Hosts s' p file' own ∧ resolveEntry s' ts = .error e := by
  induction imports generalizing s file with
  | nil => exact ⟨file, s, hosts, h⟩
  | cons t imports ih =>
    obtain ⟨isLoad, others⟩ := List.forall_mem_cons.mp only
    obtain ⟨stmt, file'⟩ := t
    cases stmt with
    | load span module =>
      rw [List.cons_append, resolveEntry] at h
      rcases bind_eq_error.mp h with ⟨⟨⟩⟩ | ⟨_, ⟨⟩, h⟩
      rcases bind_eq_error.mp h with h | ⟨_, -, ⟨⟩⟩
      exact ih others (hosts.moved file') h
    | _ => cases isLoad

/-- What resolving a program can fail for, if functions have different names. A part of a
function is to blame, or one of the assignments that the program begins with, or one of the
statements after them; the names that are given values outside functions are global ones, so that
it does not matter which of those before a statement are counted. -/
theorem ofProgram_eq_error {library : Bool} (distinct : (p.functions.map (·.name)).Nodup)
    (h : Module.ofProgram library p = .error e) :
    (∃ f ∈ p.functions, e.Tells p f.file f.occurrences) ∨
      (∃ t ∈ p.leading, ∀ own : List String, (∀ x ∈ own, p.Assigns x) →
        e.Tells p t.file (t.stmt.inside false own)) ∨
      ∀ own : List String, (∀ x ∈ own, p.Assigns x) →
        ∃ t ∈ p.remaining, e.Tells p t.file
          (stmtsOccurrences false own (p.remaining.map (·.stmt))) := by
  obtain ⟨signatures, collected⟩ :=
    (exists_collectSignatures p.functions []).mpr ⟨distinct, fun _ _ => rfl⟩
  have first := Scope.first_serves collected
  have known : ∀ init ∈ globalInits p, p.Assigns init.name := fun _ => assigns_of_mem_globalInits
  rw [Module.ofProgram, divide_topLevel] at h
  rcases bind_eq_error.mp h with failed | ⟨_, collected', h⟩
  · rw [collected] at failed
    cases failed
  rw [collected] at collected'
  cases collected'
  dsimp only at h
  split at h
  case h_1 f loose isMain =>
    cases h
    have isEntry : f.name = entryName := by simpa using List.find?_some isMain
    exact .inl ⟨f, List.mem_of_find?_eq_some isMain, rfl, .function f, rfl,
      .mainBesideStatements (.head _) isEntry loose⟩
  case h_2 =>
    rcases bind_eq_error.mp h with failed | ⟨⟨globals, s⟩, initial, h⟩
    · obtain ⟨init, mem, tells⟩ := resolveGlobals_tells first (Scope.first_owns p _) known failed
      obtain ⟨t, leading, isInit⟩ := List.mem_filterMap.mp mem
      obtain ⟨span, rfl⟩ := GlobalInit.of?_eq_some.mp isInit
      exact .inr (.inl ⟨_, leading, tells⟩)
    have second := resolveGlobals_serves first known initial
    rcases bind_eq_error.mp h with failed | ⟨⟨functions, s'⟩, defined, h⟩
    · exact .inl (resolveFunctions_tells second failed)
    have third := resolveFunctions_serves second defined
    split at h
    case isFalse => cases h
    case isTrue =>
      rcases bind_eq_error.mp h with failed | ⟨_, -, ⟨⟩⟩
      refine .inr (.inr fun own globals => ?_)
      have hosts := third.hosts p.entryFile [] globals
      rw [List.append_nil] at hosts
      obtain ⟨_, _, hosts, failed⟩ := resolveEntry_imports_append
        (fun t mem => (List.mem_filter.mp mem).2) hosts failed
      exact resolveEntry_tells hosts failed

end

end Shellwright.Core
