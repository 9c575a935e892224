import Shellwright.Compile
import Shellwright.Project.Imports
import Shellwright.Proofs.Commands
import Shellwright.Proofs.Relocation

/-!
# Programs without their imports

An import is there for loading. Afterwards it is a statement like any other, and it can stand
anywhere: among the assignments that a program begins with, between statements of the entry
function, or alone in a branch. Taking it out changes nothing. Names mean the same, the same
statements begin the program, and the blocks that get a placeholder are the same.

* `Surface.Program.withoutLoads`, `Core.Module.withoutLoads`: a program without its imports.
* `Module.ofProgram_withoutLoads`: it is resolved to the module without its imports.
* `moduleText_withoutLoads`: such a module has the same text.
* `script_withoutLoads`: imports leave no trace in a script, nor in what is said
  when there is none.
-/

namespace Shellwright.Surface

/-! ## Taking imports out -/

mutual

/-- The statement without the imports inside it. -/
def Stmt.withoutLoads : Stmt → Stmt
  | .assign span name value => .assign span name value
  | .branch span cond body otherwise =>
    .branch span cond (stmtsWithoutLoads body) otherwise.withoutLoads
  | .loop span var lower upper body => .loop span var lower upper (stmtsWithoutLoads body)
  | .ret span value => .ret span value
  | .jump span jump => .jump span jump
  | .load span module => .load span module
  | .expr span expr => .expr span expr

/-- The statements without the imports among them and inside them. -/
def stmtsWithoutLoads : List Stmt → List Stmt
  | [] => []
  | stmt :: rest =>
    if stmt.isLoad then stmtsWithoutLoads rest else stmt.withoutLoads :: stmtsWithoutLoads rest

def ElseChain.withoutLoads : ElseChain → ElseChain
  | .done => .done
  | .elseIf cond body otherwise => .elseIf cond (stmtsWithoutLoads body) otherwise.withoutLoads
  | .final body => .final (stmtsWithoutLoads body)

end

def Function.withoutLoads (f : Function) : Function :=
  { f with body := f.body.map stmtsWithoutLoads }

/-- The statements outside functions without the imports among them and inside them. -/
def topLevelWithoutLoads (ts : List TopLevel) : List TopLevel :=
  (ts.filter fun t => !t.stmt.isLoad).map fun t => ⟨t.stmt.withoutLoads, t.file⟩

/-- The program without imports. -/
def Program.withoutLoads (p : Program) : Program :=
  { p with
    functions := p.functions.map Function.withoutLoads
    topLevel := topLevelWithoutLoads p.topLevel }

theorem topLevelWithoutLoads_load (span : Span) (module file : String) (rest : List TopLevel) :
    topLevelWithoutLoads (⟨.load span module, file⟩ :: rest) = topLevelWithoutLoads rest := rfl

/-- A statement that is no import stays, with the imports inside it taken out. -/
theorem topLevelWithoutLoads_cons {t : TopLevel} (some : t.stmt.isLoad = false)
    (rest : List TopLevel) :
    topLevelWithoutLoads (t :: rest) =
      ⟨t.stmt.withoutLoads, t.file⟩ :: topLevelWithoutLoads rest := by
  rw [topLevelWithoutLoads, List.filter_cons_of_pos (by rw [some]; rfl)]
  rfl

/-- Only lists of statements lose imports; a statement by itself stays what it is. -/
@[simp] theorem Stmt.isLoad_withoutLoads (stmt : Stmt) :
    stmt.withoutLoads.isLoad = stmt.isLoad := by
  cases stmt <;> rw [Stmt.withoutLoads] <;> rfl

/-! ## No import is left -/

mutual

/-- Inside a statement no import is left. -/
theorem Stmt.importWithin?_withoutLoads : ∀ stmt : Stmt,
    Project.importWithin? stmt.withoutLoads = none
  | .assign .. | .ret .. | .jump .. | .load .. | .expr .. => by
    rw [Stmt.withoutLoads, Project.importWithin?]
    all_goals
      intros
      contradiction
  | .branch _ _ body otherwise => by
    rw [Stmt.withoutLoads, Project.importWithin?, importAmong?_withoutLoads body,
      otherwise.importInElse?_withoutLoads]
    rfl
  | .loop _ _ _ _ body => by
    rw [Stmt.withoutLoads, Project.importWithin?, importAmong?_withoutLoads body]

theorem importAmong?_withoutLoads : ∀ stmts : List Stmt,
    Project.importAmong? (stmtsWithoutLoads stmts) = none
  | [] => by
    rw [stmtsWithoutLoads]
    rfl
  | stmt :: rest => by
    have inner := stmt.importWithin?_withoutLoads
    rw [stmtsWithoutLoads]
    split
    · exact importAmong?_withoutLoads rest
    case isFalse notLoad =>
      rw [← stmt.isLoad_withoutLoads] at notLoad
      revert inner notLoad
      generalize stmt.withoutLoads = stmt
      intro inner notLoad
      cases stmt with
      | load => exact absurd rfl notLoad
      | _ => simp only [Project.importAmong?, inner, importAmong?_withoutLoads rest]; rfl

theorem ElseChain.importInElse?_withoutLoads : ∀ chain : ElseChain,
    Project.importInElse? chain.withoutLoads = none
  | .done => by
    rw [ElseChain.withoutLoads]
    rfl
  | .elseIf _ body otherwise => by
    rw [ElseChain.withoutLoads, Project.importInElse?, importAmong?_withoutLoads body,
      otherwise.importInElse?_withoutLoads]
    rfl
  | .final body => by
    rw [ElseChain.withoutLoads, Project.importInElse?, importAmong?_withoutLoads body]

end

/-- Nor is one at the top of the file. -/
theorem importsOf_withoutLoads (ts : List TopLevel) :
    Project.importsOf (topLevelWithoutLoads ts) = [] := by
  induction ts with
  | nil => rfl
  | cons t rest ih =>
    obtain ⟨stmt, file⟩ := t
    cases stmt with
    | load => exact ih
    | _ =>
      rw [topLevelWithoutLoads_cons rfl, Stmt.withoutLoads]
      exact ih

/-- A program without imports has none, at the top level or inside a statement. -/
theorem Program.imports_withoutLoads (p : Program) :
    Project.importsOf p.withoutLoads.topLevel = [] ∧
    Project.nestedImport? p.withoutLoads = none := by
  refine ⟨importsOf_withoutLoads p.topLevel, ?_⟩
  have functions : (p.functions.map Function.withoutLoads).findSome?
      (fun f => f.body.bind Project.importAmong?) = none := by
    refine List.findSome?_eq_none_iff.mpr fun g mem => ?_
    obtain ⟨f, -, rfl⟩ := List.mem_map.mp mem
    show (f.body.map stmtsWithoutLoads).bind Project.importAmong? = none
    cases f.body with
    | none => rfl
    | some body => exact importAmong?_withoutLoads body
  have statements : (topLevelWithoutLoads p.topLevel).findSome?
      (fun t => Project.importWithin? t.stmt) = none := by
    refine List.findSome?_eq_none_iff.mpr fun u mem => ?_
    obtain ⟨t, -, rfl⟩ := List.mem_map.mp mem
    exact t.stmt.importWithin?_withoutLoads
  rw [Project.nestedImport?, Program.withoutLoads]
  dsimp only
  rw [functions, statements]
  rfl

end Shellwright.Surface

namespace Shellwright.Core

open Shellwright.Script

mutual

/-- The statement without the imports inside it. -/
def Stmt.withoutLoads : Stmt → Stmt
  | .assign v value => .assign v value
  | .branch cond body otherwise => .branch cond (stmtsWithoutLoads body) otherwise.withoutLoads
  | .loop v lower upper body => .loop v lower upper (stmtsWithoutLoads body)
  | .ret value => .ret value
  | .jump jump => .jump jump
  | .load module => .load module
  | .expr expr => .expr expr

/-- The statements without the imports among them and inside them. -/
def stmtsWithoutLoads : List Stmt → List Stmt
  | [] => []
  | stmt :: rest =>
    if stmt.isLoad then stmtsWithoutLoads rest else stmt.withoutLoads :: stmtsWithoutLoads rest

def ElseChain.withoutLoads : ElseChain → ElseChain
  | .done => .done
  | .elseIf cond body otherwise => .elseIf cond (stmtsWithoutLoads body) otherwise.withoutLoads
  | .final body => .final (stmtsWithoutLoads body)

end

def Function.withoutLoads (f : Function) : Function :=
  { f with body := f.body.map stmtsWithoutLoads }

/-- The resolved program without imports. -/
def Module.withoutLoads (m : Module) : Module :=
  { m with functions := m.functions.map Function.withoutLoads }

mutual

/-- The modules that a statement imports, at any depth. -/
def Stmt.loads : Stmt → List String
  | .load module => [module]
  | .branch _ body otherwise => stmtsLoads body ++ otherwise.loads
  | .loop _ _ _ body => stmtsLoads body
  | .assign _ _ | .ret _ | .jump _ | .expr _ => []

def stmtsLoads : List Stmt → List String
  | [] => []
  | stmt :: rest => stmt.loads ++ stmtsLoads rest

def ElseChain.loads : ElseChain → List String
  | .done => []
  | .elseIf _ body otherwise => stmtsLoads body ++ otherwise.loads
  | .final body => stmtsLoads body

end

/-- The modules that the functions of a program import, at any depth. -/
def Module.loads (m : Module) : List String :=
  m.functions.flatMap fun f => stmtsLoads (f.body.getD [])

mutual

theorem Stmt.loads_withoutLoads :
    ∀ {stmt : Stmt}, stmt.isLoad = false → stmt.withoutLoads.loads = []
  | .assign .., _ | .ret .., _ | .jump .., _ | .expr .., _ => by
    rw [Stmt.withoutLoads, Stmt.loads]
  | .branch _ body otherwise, _ => by
    rw [Stmt.withoutLoads, Stmt.loads, stmtsLoads_withoutLoads body,
      otherwise.loads_withoutLoads, List.append_nil]
  | .loop _ _ _ body, _ => by rw [Stmt.withoutLoads, Stmt.loads, stmtsLoads_withoutLoads body]

/-- So it is with resolved statements. -/
theorem stmtsLoads_withoutLoads : ∀ stmts : List Stmt, stmtsLoads (stmtsWithoutLoads stmts) = []
  | [] => by rw [stmtsWithoutLoads, stmtsLoads]
  | stmt :: rest => by
    rw [stmtsWithoutLoads]
    split
    · exact stmtsLoads_withoutLoads rest
    case isFalse notLoad =>
      rw [stmtsLoads, Stmt.loads_withoutLoads (Bool.not_eq_true _ ▸ notLoad),
        stmtsLoads_withoutLoads rest, List.append_nil]

theorem ElseChain.loads_withoutLoads : ∀ chain : ElseChain, chain.withoutLoads.loads = []
  | .done => by rw [ElseChain.withoutLoads, ElseChain.loads]
  | .elseIf _ body otherwise => by
    rw [ElseChain.withoutLoads, ElseChain.loads, stmtsLoads_withoutLoads body,
      otherwise.loads_withoutLoads, List.append_nil]
  | .final body => by rw [ElseChain.withoutLoads, ElseChain.loads, stmtsLoads_withoutLoads body]

end

@[simp] theorem Stmt.isLoad_withoutLoads (stmt : Stmt) :
    stmt.withoutLoads.isLoad = stmt.isLoad := by
  cases stmt <;> rw [Stmt.withoutLoads] <;> rfl

/-- No import is left in a resolved program. -/
theorem Module.loads_withoutLoads (m : Module) : m.withoutLoads.loads = [] := by
  refine List.flatMap_eq_nil_iff.mpr fun g mem => ?_
  obtain ⟨f, -, rfl⟩ := List.mem_map.mp mem
  show stmtsLoads ((f.body.map stmtsWithoutLoads).getD []) = []
  cases f.body with
  | none => rfl
  | some body => exact stmtsLoads_withoutLoads body

/-! ## Resolving -/

/-- The second result is the first one without imports, and the scopes after
them are the same. -/
def Drops {α : Type} (without : α → α) (x y : α × Scope) : Prop := y = (without x.1, x.2)

mutual

/-- A statement without its imports is resolved to the statement without its imports, in the same
scope, or is refused for the same reason. The statements inside it are taken out in the same
step, so the three rules are taken together. -/
theorem resolveStmt_withoutLoads (inLoop : Bool) : ∀ (stmt : Surface.Stmt) (s : Scope),
    Alike Eq (fun x y => Drops Stmt.withoutLoads x y ∧ x.1.isLoad = stmt.isLoad)
      (resolveStmt inLoop s stmt) (resolveStmt inLoop s stmt.withoutLoads)
  | .assign .., s => by
    rw [Surface.Stmt.withoutLoads, resolveStmt]
    refine (Alike.refl _).bind fun value _ same => ?_
    cases same
    exact .ok ⟨by rw [Drops, Stmt.withoutLoads], rfl⟩
  | .branch _ cond body otherwise, s => by
    rw [Surface.Stmt.withoutLoads, resolveStmt, resolveStmt]
    refine (Alike.refl _).bind fun cond _ same => ?_
    cases same
    refine (resolveStmts_withoutLoads inLoop body s).bind fun _ _ bodies => ?_
    cases bodies
    refine (resolveElse_withoutLoads inLoop otherwise _).bind fun _ _ chains => ?_
    cases chains
    exact .ok ⟨by rw [Drops, Stmt.withoutLoads], rfl⟩
  | .loop _ name lower upper body, s => by
    rw [Surface.Stmt.withoutLoads, resolveStmt, resolveStmt]
    refine (Alike.refl _).bind fun lower _ same => ?_
    cases same
    refine (Alike.refl _).bind fun upper _ same => ?_
    cases same
    refine (resolveStmts_withoutLoads true body _).bind fun _ _ bodies => ?_
    cases bodies
    exact .ok ⟨by rw [Drops, Stmt.withoutLoads], rfl⟩
  | .ret .., s => by
    rw [Surface.Stmt.withoutLoads, resolveStmt]
    refine (Alike.refl _).bind fun value _ same => ?_
    cases same
    exact .ok ⟨by rw [Drops, Stmt.withoutLoads], rfl⟩
  | .jump .., s => by
    rw [Surface.Stmt.withoutLoads, resolveStmt]
    split
    · exact .ok ⟨by rw [Drops, Stmt.withoutLoads], rfl⟩
    · exact .error rfl
  | .load .., s => .ok ⟨by rw [Drops, Stmt.withoutLoads], rfl⟩
  | .expr .., s => by
    rw [Surface.Stmt.withoutLoads, resolveStmt]
    split
    · refine (Alike.refl _).bind fun value _ same => ?_
      cases same
      exact .ok ⟨by rw [Drops, Stmt.withoutLoads], rfl⟩
    · exact .error rfl

theorem resolveStmts_withoutLoads (inLoop : Bool) : ∀ (stmts : List Surface.Stmt) (s : Scope),
    Alike Eq (Drops stmtsWithoutLoads) (resolveStmts inLoop s stmts)
      (resolveStmts inLoop s (Surface.stmtsWithoutLoads stmts))
  | [], s => .ok (by rw [Drops, stmtsWithoutLoads])
  | stmt :: rest, s => by
    rw [resolveStmts, Surface.stmtsWithoutLoads]
    split
    case isTrue isLoad =>
      cases stmt with
      | load span module =>
        -- an import leaves the scope as it is, so that the rest is resolved in the same one
        rw [← bind_pure (resolveStmts inLoop s (Surface.stmtsWithoutLoads rest))]
        refine (resolveStmts_withoutLoads inLoop rest s).bind fun _ _ rests => ?_
        cases rests
        exact .ok (by rw [Drops, stmtsWithoutLoads]; rfl)
      | _ => cases isLoad
    case isFalse notLoad =>
      rw [resolveStmts]
      refine (resolveStmt_withoutLoads inLoop stmt s).bind fun _ _ ⟨stmts, sameKind⟩ => ?_
      cases stmts
      refine (resolveStmts_withoutLoads inLoop rest _).bind fun _ _ rests => ?_
      cases rests
      exact .ok (by rw [Drops, stmtsWithoutLoads, if_neg (sameKind ▸ notLoad)])

theorem resolveElse_withoutLoads (inLoop : Bool) : ∀ (chain : Surface.ElseChain) (s : Scope),
    Alike Eq (Drops ElseChain.withoutLoads) (resolveElse inLoop s chain)
      (resolveElse inLoop s chain.withoutLoads)
  | .done, s => .ok (by rw [Drops, ElseChain.withoutLoads])
  | .elseIf cond body otherwise, s => by
    rw [Surface.ElseChain.withoutLoads, resolveElse, resolveElse]
    refine (Alike.refl _).bind fun cond _ same => ?_
    cases same
    refine (resolveStmts_withoutLoads inLoop body s).bind fun _ _ bodies => ?_
    cases bodies
    refine (resolveElse_withoutLoads inLoop otherwise _).bind fun _ _ chains => ?_
    cases chains
    exact .ok (by rw [Drops, ElseChain.withoutLoads])
  | .final body, s => by
    rw [Surface.ElseChain.withoutLoads, resolveElse, resolveElse]
    refine (resolveStmts_withoutLoads inLoop body s).bind fun _ _ bodies => ?_
    cases bodies
    exact .ok (by rw [Drops, ElseChain.withoutLoads])

end

/-- So it is with a function. -/
theorem resolveFunction_withoutLoads (f : Surface.Function) (s : Scope) :
    Alike Eq (Drops Function.withoutLoads) (resolveFunction s f)
      (resolveFunction s f.withoutLoads) := by
  obtain ⟨name, params, body, span, file⟩ := f
  cases body with
  | none => exact .ok rfl
  | some body =>
    refine (resolveStmts_withoutLoads false body _).bind fun _ _ bodies => ?_
    cases bodies
    exact .ok rfl

/-- So it is with functions, for each leaves the same scope. -/
theorem resolveFunctions_withoutLoads (fs : List Surface.Function) (s : Scope) :
    Alike Eq (Drops (List.map Function.withoutLoads)) (resolveFunctions s fs)
      (resolveFunctions s (fs.map Surface.Function.withoutLoads)) := by
  induction fs generalizing s with
  | nil => exact .ok rfl
  | cons f rest ih =>
    rw [List.map_cons, resolveFunctions, resolveFunctions]
    refine (resolveFunction_withoutLoads f s).bind fun _ _ functions => ?_
    cases functions
    refine (ih _).bind fun _ _ rests => ?_
    cases rests
    exact .ok rfl

/-- Statements outside functions name their own file, so that the file of an import before them
has no part in it. -/
theorem resolveEntry_withoutLoads (ts : List Surface.TopLevel) {s s' : Scope}
    (same : ∀ file, { s with file } = { s' with file }) :
    Alike Eq (fun x y => y.1 = stmtsWithoutLoads x.1) (resolveEntry s ts)
      (resolveEntry s' (Surface.topLevelWithoutLoads ts)) := by
  induction ts generalizing s s' with
  | nil => exact .ok (by rw [stmtsWithoutLoads])
  | cons t rest ih =>
    cases isLoad : t.stmt.isLoad with
    | true =>
      obtain ⟨stmt, file⟩ := t
      cases stmt with
      | load span module =>
        rw [Surface.topLevelWithoutLoads_load, resolveEntry,
          ← bind_pure (resolveEntry s' (Surface.topLevelWithoutLoads rest))]
        refine (ih (s := { s with file }) same).bind fun _ _ rests => ?_
        exact .ok (by rw [rests, stmtsWithoutLoads]; rfl)
      | _ => cases isLoad
    | false =>
      rw [Surface.topLevelWithoutLoads_cons isLoad, resolveEntry, resolveEntry, same]
      refine (resolveStmt_withoutLoads false t.stmt _).bind fun _ _ ⟨stmts, sameKind⟩ => ?_
      cases stmts
      refine (ih fun _ => rfl).bind fun _ _ rests => ?_
      refine .ok ?_
      rw [stmtsWithoutLoads, sameKind, isLoad, if_neg Bool.false_ne_true, ← rests]

/-! ## Programs -/

/-- From the first statement on that does not go on with the assignments, all runs in the entry
function. -/
theorem divide_of_not_leads {t : Surface.TopLevel} (stops : t.leads = false)
    (rest : List Surface.TopLevel) : divide true (t :: rest) = ([], t :: rest) := by
  have ends : ¬t.leads = true := Bool.eq_false_iff.mp stops
  rw [divide_true, List.takeWhile_cons_of_neg ends, List.dropWhile_cons_of_neg ends]
  rfl

/-- Imports among the assignments that come first do not matter for where they end. -/
theorem divide_withoutLoads (ts : List Surface.TopLevel) :
    divide true (Surface.topLevelWithoutLoads ts) =
      ((divide true ts).1, Surface.topLevelWithoutLoads (divide true ts).2) := by
  induction ts with
  | nil => rfl
  | cons t rest ih =>
    obtain ⟨stmt, file⟩ := t
    cases stmt with
    | load => exact ih
    | assign =>
      rw [Surface.topLevelWithoutLoads_cons rfl, Surface.Stmt.withoutLoads]
      simp only [divide, ih]
    | _ =>
      rw [divide_of_not_leads rfl, Surface.topLevelWithoutLoads_cons rfl,
        Surface.Stmt.withoutLoads, divide_of_not_leads rfl]

/-- Imports make no name global. -/
theorem globalNames_withoutLoads (ts : List Surface.TopLevel) (names : Names Ty) :
    globalNames (Surface.topLevelWithoutLoads ts) names = globalNames ts names := by
  induction ts generalizing names with
  | nil => rfl
  | cons t rest ih =>
    obtain ⟨stmt, file⟩ := t
    cases stmt with
    | load => exact ih names
    | _ =>
      rw [Surface.topLevelWithoutLoads_cons rfl, Surface.Stmt.withoutLoads]
      exact ih _

/-- Taking imports out of a body leaves its function's signature alone. -/
theorem collectSignatures_withoutLoads (fs : List Surface.Function) (known : Names Signature) :
    collectSignatures (fs.map Surface.Function.withoutLoads) known =
      collectSignatures fs known := by
  induction fs generalizing known with
  | nil => rfl
  | cons f rest ih =>
    rw [List.map_cons, collectSignatures, collectSignatures, ih]
    rfl

theorem any_isLoad_withoutLoads (ts : List Surface.TopLevel) :
    ((Surface.topLevelWithoutLoads ts).any fun t => !t.stmt.isLoad) =
      ts.any fun t => !t.stmt.isLoad := by
  simp [Surface.topLevelWithoutLoads, Function.comp_def]

/-- Where the one program has a main function beside loose statements, so has the other. -/
theorem mainBeside_withoutLoads {loose : Bool} {main : Option Surface.Function}
    {S : Module → Module → Prop} {x y : Except ScopeError Module} (otherwise : Alike Eq S x y) :
    Alike Eq S
      (match loose, main with
        | true, some f => .error ⟨.mainBesideStatements, f.span, f.file⟩
        | _, _ => x)
      (match loose, main.map Surface.Function.withoutLoads with
        | true, some f => .error ⟨.mainBesideStatements, f.span, f.file⟩
        | _, _ => y) := by
  cases loose with
  | false => exact otherwise
  | true =>
    cases main with
    | none => exact otherwise
    | some f => exact .error rfl

/-- A program without its imports is resolved to the same program without its imports. -/
theorem Module.ofProgram_withoutLoads (library : Bool) (p : Surface.Program) :
    Alike Eq (fun m m' => m' = m.withoutLoads) (Module.ofProgram library p)
      (Module.ofProgram library p.withoutLoads) := by
  have mains : (p.functions.map Surface.Function.withoutLoads).find? (·.name = entryName) =
      (p.functions.find? (·.name = entryName)).map Surface.Function.withoutLoads :=
    List.find?_map ..
  unfold Module.ofProgram
  rw [Surface.Program.withoutLoads, divide_withoutLoads, collectSignatures_withoutLoads, mains,
    globalNames_withoutLoads]
  dsimp only
  rw [any_isLoad_withoutLoads, Option.isNone_map]
  refine (Alike.refl _).bind fun signatures _ same => ?_
  cases same
  refine mainBeside_withoutLoads ?_
  refine (Alike.refl _).bind fun globals _ same => ?_
  cases same
  refine (resolveFunctions_withoutLoads p.functions _).bind fun _ _ functions => ?_
  cases functions
  split
  · refine (resolveEntry_withoutLoads _ fun _ => rfl).bind fun _ _ bodies => ?_
    refine .ok ?_
    simp [Module.withoutLoads, Function.withoutLoads, bodies]
  · refine .ok ?_
    cases p.functions.find? (·.name = entryName) with
    | none => rfl
    | some f => simp [Module.withoutLoads, Surface.Function.withoutLoads, Option.filter]

end Shellwright.Core

namespace Shellwright.Script

open Shellwright.Core

/-! ## Writing -/

/-- A block has nothing but imports before they are taken out just if it has
nothing but imports after. -/
theorem all_isLoad_withoutLoads (stmts : List Stmt) :
    (stmtsWithoutLoads stmts).all Stmt.isLoad = stmts.all Stmt.isLoad := by
  induction stmts with
  | nil => rw [stmtsWithoutLoads]
  | cons stmt rest ih =>
    rw [stmtsWithoutLoads]
    split
    case isTrue isLoad => rw [ih, List.all_cons, isLoad, Bool.true_and]
    case isFalse notLoad =>
      rw [List.all_cons, List.all_cons, Stmt.isLoad_withoutLoads, Bool.eq_false_iff.mpr notLoad,
        Bool.false_and, Bool.false_and]

/-- A block has a placeholder just if it had one with its imports. -/
theorem blockText_withoutLoads (m : Mode) (params : List String) (stmts : List Stmt)
    (lines : String) :
    blockText m params (stmtsWithoutLoads stmts) lines = blockText m params stmts lines := by
  simp only [blockText, placeholder, all_isLoad_withoutLoads]

mutual

/-- Imports leave no trace in the text of a statement. A block of nothing but imports has the
line of an empty block before and after. -/
theorem stmtText_withoutLoads : ∀ (stmt : Stmt) (m : Mode),
    stmtText m stmt.withoutLoads = stmtText m stmt
  | .assign .., m | .ret _, m | .jump _, m | .load _, m | .expr _, m => by rw [Stmt.withoutLoads]
  | .branch cond body otherwise, m => by
    simp only [Stmt.withoutLoads, stmtText, stmtsText_withoutLoads body,
      elseText_withoutLoads otherwise, blockText_withoutLoads]
  | .loop v lower upper body, m => by
    simp only [Stmt.withoutLoads, stmtText, stmtsText_withoutLoads body, blockText_withoutLoads]

theorem stmtsText_withoutLoads : ∀ (stmts : List Stmt) (m : Mode),
    stmtsText m (stmtsWithoutLoads stmts) = stmtsText m stmts
  | [], m => by rw [stmtsWithoutLoads]
  | stmt :: rest, m => by
    have more := stmtsText_withoutLoads rest m
    rw [stmtsWithoutLoads]
    split
    case isTrue isLoad =>
      cases stmt with
      | load module =>
        rw [stmtsText]
        exact more
      | _ => cases isLoad
    case isFalse notLoad =>
      have some := Bool.eq_false_iff.mpr notLoad
      rw [stmtsText_cons some, stmtsText_cons (stmt.isLoad_withoutLoads.trans some),
        stmtText_withoutLoads stmt m, more]

theorem elseText_withoutLoads : ∀ (chain : ElseChain) (m : Mode),
    elseText m chain.withoutLoads = elseText m chain
  | .done, m => by rw [ElseChain.withoutLoads]
  | .elseIf cond body otherwise, m => by
    simp only [ElseChain.withoutLoads, elseText, stmtsText_withoutLoads body,
      elseText_withoutLoads otherwise, blockText_withoutLoads]
  | .final body, m => by
    simp only [ElseChain.withoutLoads, elseText, stmtsText_withoutLoads body,
      blockText_withoutLoads]

end

/-- Nor do they in that of a function. -/
theorem functionText_withoutLoads (f : Function) (m : Mode) :
    functionText m f.withoutLoads = functionText m f := by
  rw [functionText, functionText, Function.withoutLoads]
  cases f.body with
  | none => rfl
  | some body => simp only [Option.map_some, stmtsText_withoutLoads, blockText_withoutLoads]

theorem functionsText_withoutLoads (fs : List Function) (m : Mode) :
    functionsText m (fs.map Function.withoutLoads) = functionsText m fs := by
  induction fs with
  | nil => rfl
  | cons f rest ih =>
    rw [List.map_cons, functionsText, functionsText, functionText_withoutLoads, ih]

theorem entryCall_withoutLoads (library : Bool) (m : Module) :
    entryCall library m.withoutLoads = entryCall library m := by
  have callable (name : String) :
      (m.functions.map Function.withoutLoads).any (fun f => f.name = name && f.body.isSome) =
        m.functions.any fun f => f.name = name && f.body.isSome := by
    rw [List.any_map]
    refine congrArg m.functions.any (funext fun f => ?_)
    show (decide (f.name = name) && (f.body.map stmtsWithoutLoads).isSome) = _
    rw [Option.isSome_map]
  simp only [entryCall, Module.withoutLoads, callable]

/-- Nor do they in the script of a program. -/
theorem moduleText_withoutLoads (mode : Mode) (library : Bool) (m : Module) :
    moduleText mode library m.withoutLoads = moduleText mode library m := by
  rw [moduleText, moduleText, entryCall_withoutLoads]
  simp only [Module.withoutLoads, functionsText_withoutLoads]

end Shellwright.Script

namespace Shellwright

/-- The script of a program, if there is one. -/
def Surface.Program.script (target : Target) (library : Bool) (p : Surface.Program) :
    Except Diagnostic (Except Script.Error String) := do
  let m ← resolve library p
  return Script.generate target library m

/-- So it is with what is told of a fault. -/
theorem resolve_withoutLoads (library : Bool) (p : Surface.Program) :
    Alike Eq (fun m m' => m' = m.withoutLoads) (resolve library p)
      (resolve library p.withoutLoads) := by
  refine (Core.Module.ofProgram_withoutLoads library p).mapError fun e _ same => ?_
  rw [← same]
  rfl

/-- A program without its imports has none left, and it has the same script as before or none for
the same reason. A resolved program without its imports has none left either, and every writer
hands over the same for it. -/
theorem script_withoutLoads :
    (∀ (target : Target) (library : Bool) (p : Surface.Program),
      p.withoutLoads.script target library = p.script target library ∧
        Project.importsOf p.withoutLoads.topLevel = [] ∧
        Project.nestedImport? p.withoutLoads = none) ∧
    ∀ (w : Script.Writer) (m : Core.Module),
      w.generate m.withoutLoads = w.generate m ∧ m.withoutLoads.loads = [] := by
  refine ⟨fun target library p => ⟨?_, p.imports_withoutLoads⟩, fun w m =>
    ⟨?_, m.loads_withoutLoads⟩⟩
  · refine (Alike.eq ?_).symm
    refine (resolve_withoutLoads library p).bind fun m _ same => ?_
    rw [same, Script.generate_eq, Script.generate_eq, Script.moduleText_withoutLoads]
    exact .ok rfl
  · rw [Script.Writer.generate_eq, Script.Writer.generate_eq, Script.moduleText_withoutLoads]

end Shellwright
