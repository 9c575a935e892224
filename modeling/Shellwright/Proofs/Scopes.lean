import Mathlib.Data.List.Basic
import Mathlib.Tactic.Tauto
import Shellwright.Core.Resolve
import Shellwright.Proofs.Outcome

/-!
# What a scope knows

A scope is passed on from statement to statement, into branches and loops and out of them again.
Which names it knows follows a rule that does not depend on the way taken. Functions and global
variables are those of the whole program from the beginning on. A function's own variables are
its parameters and, of the names bound so far, those that are not global.

* `Setting`: what stays the same throughout the body of a function.
* `Scope.Fits s c bound`: the scope knows what there is to know after the names `bound` were
  bound.
* `Scope.Fits.find?`, `Scope.Fits.bind`: the setting settles whether a name
  means a global variable.
* `Resolves`, `Resolves.fits`: what a step can do, and that it binds just what its source does.
* `ResolvesProgram`, `resolvesProgram_iff`: the stages of resolving a program.
-/

namespace Shellwright.Surface

/-! ## Names in source order -/

/-- What a program does with a name. -/
inductive Use where
  | reads (name : String)
  | calls (name : String) (args : Nat)
  | binds (name : String)
  deriving DecidableEq, Repr

mutual

/-- What an expression does with names, in source order. References inside interpolated text are
left out: they may be meant for the shell. -/
def Expr.uses : Expr → List Use
  | .int _ _ | .fraction _ _ | .bool _ _ | .text _ _ | .command _ _ => []
  | .var _ name => [.reads name]
  | .binary _ _ left right => left.uses ++ right.uses
  | .unary _ _ operand => operand.uses
  | .call _ name args => .calls name args.length :: argsUses args
  | .pipe _ left right => left.uses ++ right.uses

def argsUses : List Expr → List Use
  | [] => []
  | arg :: rest => arg.uses ++ argsUses rest

end

def upperUses : Option Expr → List Use
  | none => []
  | some upper => upper.uses

mutual

/-- What a statement does with names, in source order. A value is read before it is given to its
variable, and the bounds of a loop before the loop's variable is bound. -/
def Stmt.uses : Stmt → List Use
  | .assign _ name value => value.uses ++ [.binds name]
  | .branch _ cond body otherwise => cond.uses ++ (stmtsUses body ++ otherwise.uses)
  | .loop _ var lower upper body =>
    lower.uses ++ (upperUses upper ++ .binds var :: stmtsUses body)
  | .ret _ value => value.uses
  | .jump _ _ | .load _ _ => []
  | .expr _ expr => expr.uses

def stmtsUses : List Stmt → List Use
  | [] => []
  | stmt :: rest => stmt.uses ++ stmtsUses rest

def ElseChain.uses : ElseChain → List Use
  | .done => []
  | .elseIf cond body otherwise => cond.uses ++ (stmtsUses body ++ otherwise.uses)
  | .final body => stmtsUses body

end

/-- The name that is bound, if one is. -/
def Use.bound? : Use → Option String
  | .binds name => some name
  | _ => none

/-- The names that are bound, in source order. -/
def boundNames (uses : List Use) : List String := uses.filterMap Use.bound?

@[simp] theorem boundNames_nil : boundNames [] = [] := rfl

@[simp] theorem boundNames_append (us vs : List Use) :
    boundNames (us ++ vs) = boundNames us ++ boundNames vs :=
  List.filterMap_append

@[simp] theorem boundNames_binds (name : String) (uses : List Use) :
    boundNames (.binds name :: uses) = name :: boundNames uses := rfl

@[simp] theorem boundNames_reads (name : String) (uses : List Use) :
    boundNames (.reads name :: uses) = boundNames uses := rfl

@[simp] theorem boundNames_calls (name : String) (args : Nat) (uses : List Use) :
    boundNames (.calls name args :: uses) = boundNames uses := rfl

/-- A name is among the bound ones just if it is bound somewhere. -/
theorem mem_boundNames {name : String} {uses : List Use} :
    name ∈ boundNames uses ↔ .binds name ∈ uses := by
  rw [boundNames, List.mem_filterMap]
  constructor
  · rintro ⟨use, mem, bound⟩
    cases use with
    | binds => cases bound; exact mem
    | _ => cases bound
  · exact fun mem => ⟨_, mem, rfl⟩

mutual

/-- No expression binds a name. -/
@[simp] theorem Expr.boundNames_uses : ∀ e : Expr, boundNames e.uses = []
  | .int _ _ | .fraction _ _ | .bool _ _ | .text _ _ | .command _ _ => by
    simp only [Expr.uses, boundNames_nil]
  | .var _ _ => by simp only [Expr.uses, boundNames_reads, boundNames_nil]
  | .binary _ _ left right | .pipe _ left right => by
    simp only [Expr.uses, boundNames_append, left.boundNames_uses, right.boundNames_uses,
      List.append_nil]
  | .unary _ _ operand => by simp only [Expr.uses, operand.boundNames_uses]
  | .call _ _ args => by simp only [Expr.uses, boundNames_calls, boundNames_argsUses args]

theorem boundNames_argsUses : ∀ args : List Expr, boundNames (argsUses args) = []
  | [] => by simp only [argsUses, boundNames_nil]
  | arg :: rest => by
    simp only [argsUses, boundNames_append, arg.boundNames_uses, boundNames_argsUses rest,
      List.append_nil]

end

/-- Expressions bind no names. -/
@[simp] theorem boundNames_upperUses (upper : Option Expr) :
    boundNames (upperUses upper) = [] := by
  cases upper with
  | none => rfl
  | some upper => exact upper.boundNames_uses

/-! ## Whole programs -/

namespace Program

/-- Some function has this name and so many parameters. -/
def Declares (p : Program) (name : String) (n : Nat) : Prop :=
  ∃ f ∈ p.functions, f.name = name ∧ f.params.length = n

/-- Some statement outside functions assigns the variable. -/
def Assigns (p : Program) (name : String) : Prop :=
  ∃ t ∈ p.topLevel, ∃ span value, t.stmt = .assign span name value

end Program

/-- The statement goes on with the assignments that a program begins with. -/
def TopLevel.leads (t : TopLevel) : Bool :=
  match t.stmt with
  | .assign _ _ _ | .load _ _ => true
  | _ => false

/-- The assignments that a program begins with, and the imports among them. -/
def Program.leading (p : Program) : List TopLevel := p.topLevel.takeWhile TopLevel.leads

/-- The statements after the assignments that a program begins with. -/
def Program.remaining (p : Program) : List TopLevel := p.topLevel.dropWhile TopLevel.leads

end Shellwright.Surface

namespace Shellwright.Core

open Surface (Use boundNames)

/-! ## Names -/

namespace Names

variable {α : Type}

theorem get?_cons (key x : String) (a : α) (rest : Names α) :
    get? ((key, a) :: rest) x = if x = key then some a else rest.get? x := by
  rw [get?, List.lookup_cons]
  by_cases same : x = key
  · simp [same]
  · rw [if_neg same, beq_false_of_ne same]
    rfl

/-- The entry of a name after one was put in. -/
theorem get?_put (names : Names α) (x y : String) (a : α) :
    (names.put x a).get? y = if y = x then some a else names.get? y := by
  induction names with
  | nil => exact get?_cons x y a []
  | cons entry rest ih =>
    obtain ⟨key, b⟩ := entry
    rw [put]
    by_cases same : key = x
    · subst same
      rw [if_pos rfl, get?_cons, get?_cons]
      split <;> rfl
    · rw [if_neg same, get?_cons, get?_cons, ih]
      by_cases here : y = key
      · rw [if_pos here, if_pos here, if_neg (here ▸ same)]
      · rw [if_neg here, if_neg here]

/-- The names that are there after one was put in. -/
theorem has_put (names : Names α) (x y : String) (a : α) :
    (names.put x a).has y = true ↔ y = x ∨ names.has y = true := by
  rw [has, get?_put]
  by_cases same : y = x
  · simp [same]
  · simp [same, has]

/-- A name is there just if it has an entry. -/
theorem has_iff (names : Names α) (x : String) :
    names.has x = true ↔ ∃ a, names.get? x = some a :=
  Option.isSome_iff_exists

theorem has_map_undef (params : List String) (x : String) :
    Names.has (params.map fun name => (name, Ty.undef)) x = true ↔ x ∈ params := by
  induction params with
  | nil => simp [has, get?]
  | cons name rest ih =>
    rw [List.map_cons, has, get?_cons, List.mem_cons, ← ih]
    by_cases same : x = name
    · simp [same]
    · simp [same, has]

end Names

/-! ## Settings -/

/-- What stays the same throughout the body of a function. -/
structure Setting where
  /-- Some function has this name and so many parameters. -/
  declared : String → Nat → Prop
  /-- The variable is global. -/
  shared : String → Prop
  params : List String

namespace Setting

/-- The variable belongs to the function, after names were bound. -/
def Owns (c : Setting) (bound : List String) (x : String) : Prop :=
  x ∈ c.params ∨ x ∈ bound ∧ ¬c.shared x

/-- The variable can be read, after names were bound. -/
def Sees (c : Setting) (bound : List String) (x : String) : Prop :=
  c.shared x ∨ x ∈ c.params ∨ x ∈ bound

/-- The variable that a name means, wherever it means one. -/
def Means (c : Setting) (x : String) (v : Variable) : Prop :=
  v.name = x ∧ (v.isGlobal = true ↔ c.shared x ∧ x ∉ c.params)

/-- In one function a name means one variable. -/
theorem Means.eq {c : Setting} {x : String} {v w : Variable} (hv : c.Means x v)
    (hw : c.Means x w) :
    v = w := by
  obtain ⟨name, isGlobal⟩ := v
  obtain ⟨name', isGlobal'⟩ := w
  obtain ⟨rfl, flag⟩ := hv
  obtain ⟨same, flag'⟩ := hw
  cases same
  rw [Variable.mk.injEq, Bool.eq_iff_iff]
  exact ⟨rfl, flag.trans flag'.symm⟩

end Setting

namespace Scope

/-- The scope knows the functions and the global variables of a program. -/
structure Serves (s : Scope) (declared : String → Nat → Prop) (shared : String → Prop) :
    Prop where
  arity : ∀ name n, (∃ f, s.signatures.get? name = some f ∧ f.arity = n) ↔ declared name n
  global : ∀ x, s.globals.has x = true ↔ shared x

/-- Just these names are known as variables of the function at hand. -/
def Owns (s : Scope) (own : String → Prop) : Prop :=
  ∀ x, (∃ ty, s.locals.bind (·.get? x) = some ty) ↔ own x

/-- In this setting, the scope knows what there is to know after names were bound. -/
structure Fits (s : Scope) (c : Setting) (bound : List String) : Prop where
  serves : s.Serves c.declared c.shared
  inside : s.locals.isSome = true
  owns : s.Owns (c.Owns bound)

variable {s : Scope} {c : Setting} {bound : List String} {x : String}

/-- A name is looked up among the variables of the function first, then among the global ones. -/
theorem find?_of_owns {own : String → Prop} (owns : s.Owns own) (x : String) :
    (own x ∧ ∃ ty, s.find? x = some (⟨x, false⟩, ty)) ∨
      (¬own x ∧ s.find? x = (s.globals.get? x).map fun ty => (⟨x, true⟩, ty)) := by
  rw [find?, ← owns x]
  cases s.locals.bind (·.get? x) with
  | none => exact .inr ⟨nofun, rfl⟩
  | some ty => exact .inl ⟨⟨ty, rfl⟩, ty, rfl⟩

/-- A name means a variable just when it is known. -/
theorem exists_find? {declared : String → Nat → Prop} {shared own : String → Prop}
    (serves : s.Serves declared shared) (owns : s.Owns own) (x : String) :
    (∃ r, s.find? x = some r) ↔ own x ∨ shared x := by
  rcases find?_of_owns owns x with ⟨mine, ty, found⟩ | ⟨other, found⟩
  · exact iff_of_true ⟨_, found⟩ (.inl mine)
  · rw [found, ← serves.global x, Names.has_iff]
    cases s.globals.get? x with
    | none => simp [other]
    | some ty => simp

namespace Fits

/-- A name is found in a scope just if it is to be seen there. -/
theorem exists_find? (fits : s.Fits c bound) (x : String) :
    (∃ r, s.find? x = some r) ↔ c.Sees bound x := by
  rw [Scope.exists_find? fits.serves fits.owns, Setting.Owns, Setting.Sees]
  tauto

/-- The variable that is found for a name is the one that it means. -/
theorem find? (fits : s.Fits c bound) {v : Variable} {ty : Ty}
    (found : s.find? x = some (v, ty)) :
    c.Means x v ∧ c.Sees bound x := by
  refine ⟨?_, (fits.exists_find? x).mp ⟨_, found⟩⟩
  rcases find?_of_owns fits.owns x with ⟨mine, ty', found'⟩ | ⟨other, found'⟩
  · rw [found] at found'
    cases found'
    refine ⟨rfl, iff_of_false nofun ?_⟩
    rcases mine with param | ⟨-, notShared⟩
    · exact fun h => h.2 param
    · exact fun h => notShared h.1
  · rw [found] at found'
    obtain ⟨ty', known, same⟩ := Option.map_eq_some_iff.mp found'.symm
    cases same
    refine ⟨rfl, iff_of_true rfl ⟨(fits.serves.global x).mp ?_, fun param => other (.inl param)⟩⟩
    exact (Names.has_iff _ _).mpr ⟨_, known⟩

/-- Binding a name makes it known, as what the setting says. -/
theorem bind (fits : s.Fits c bound) (x : String) (ty : Ty) :
    c.Means x (s.bind x ty).1 ∧ (s.bind x ty).2.Fits c (bound ++ [x]) := by
  obtain ⟨locals, isSome⟩ := Option.isSome_iff_exists.mp fits.inside
  have owns : ∀ y, locals.has y = true ↔ c.Owns bound y := by
    intro y
    rw [Names.has_iff, ← fits.owns y, isSome]
    rfl
  rw [Scope.bind, isSome]
  dsimp only
  split
  case isTrue isOwn =>
    have mine : c.Owns bound x ∨ ¬c.shared x := by
      rw [← owns, ← fits.serves.global]
      simpa using isOwn
    refine ⟨⟨rfl, iff_of_false nofun ?_⟩, ⟨fits.serves.arity, fits.serves.global⟩, rfl, ?_⟩
    · rintro ⟨shared, notParam⟩
      rcases mine with (param | ⟨-, notShared⟩) | notShared
      · exact notParam param
      · exact notShared shared
      · exact notShared shared
    · intro y
      rw [Option.bind_some, ← Names.has_iff, Names.has_put, owns, Setting.Owns, Setting.Owns,
        List.mem_append, List.mem_singleton]
      rw [Setting.Owns] at mine
      by_cases same : y = x
      · subst same
        tauto
      · tauto
  case isFalse notOwn =>
    have others : ¬c.Owns bound x ∧ c.shared x := by
      rw [← owns, ← fits.serves.global]
      simpa using notOwn
    refine ⟨⟨rfl, iff_of_true rfl ⟨others.2, fun param => others.1 (.inl param)⟩⟩,
      ⟨fits.serves.arity, ?_⟩, rfl, ?_⟩
    · intro y
      rw [Names.has_put, fits.serves.global]
      constructor
      · rintro (rfl | shared)
        · exact others.2
        · exact shared
      · exact .inr
    · intro y
      have before := fits.owns y
      rw [isSome] at before
      refine before.trans ?_
      rw [Setting.Owns, Setting.Owns, List.mem_append, List.mem_singleton]
      by_cases same : y = x
      · subst same
        tauto
      · tauto

/-- The type of a result is no matter of names. -/
theorem noteResult (fits : s.Fits c bound) (ty : Ty) : (s.noteResult ty).Fits c bound := by
  rw [Scope.noteResult]
  split
  · exact ⟨⟨fits.serves.arity, fits.serves.global⟩, fits.inside, fits.owns⟩
  · exact ⟨⟨fits.serves.arity, fits.serves.global⟩, fits.inside, fits.owns⟩
  · exact fits

end Fits

end Scope

/-! ## Steps -/

/-- The kinds of syntax that a scope is passed through. -/
inductive Part where
  | stmt
  | stmts
  /-- The branches after the first one. -/
  | chain

namespace Part

abbrev Source : Part → Type
  | .stmt => Surface.Stmt
  | .stmts => List Surface.Stmt
  | .chain => Surface.ElseChain

abbrev Tree : Part → Type
  | .stmt => Stmt
  | .stmts => List Stmt
  | .chain => ElseChain

/-- What a part of a program does with names, in source order. -/
abbrev uses : (part : Part) → part.Source → List Use
  | .stmt, src => src.uses
  | .stmts, src => Surface.stmtsUses src
  | .chain, src => src.uses

end Part

/-- What resolving can do: from this scope, the source becomes the tree and leaves that scope. -/
inductive Resolves :
    (part : Part) → Bool → Scope → part.Source → part.Tree → Scope → Prop
  | assign {inLoop : Bool} {s : Scope} {span : Span} {name : String} {src : Surface.Expr}
      {e : Expr} :
    resolveExpr s src = .ok e →
      Resolves .stmt inLoop s (.assign span name src) (.assign (s.bind name e.ty).1 e)
        (s.bind name e.ty).2
  | branch {inLoop : Bool} {s s₁ s₂ : Scope} {span : Span} {src : Surface.Expr} {cond : Expr}
      {srcBody : List Surface.Stmt} {body : List Stmt} {srcChain : Surface.ElseChain}
      {chain : ElseChain} :
    resolveExpr s src = .ok cond → Resolves .stmts inLoop s srcBody body s₁ →
      Resolves .chain inLoop s₁ srcChain chain s₂ →
      Resolves .stmt inLoop s (.branch span src srcBody srcChain) (.branch cond body chain) s₂
  | loop {inLoop : Bool} {s s₁ : Scope} {span : Span} {name : String} {srcLower : Surface.Expr}
      {lower : Expr} {srcUpper : Option Surface.Expr} {upper : Option Expr}
      {srcBody : List Surface.Stmt} {body : List Stmt} {ty : Ty} :
    resolveExpr s srcLower = .ok lower → resolveUpper s srcUpper = .ok upper →
      Resolves .stmts true (s.bind name ty).2 srcBody body s₁ →
      Resolves .stmt inLoop s (.loop span name srcLower srcUpper srcBody)
        (.loop (s.bind name ty).1 lower upper body) s₁
  | ret {inLoop : Bool} {s : Scope} {span : Span} {src : Surface.Expr} {e : Expr} :
    resolveExpr s src = .ok e →
      Resolves .stmt inLoop s (.ret span src) (.ret e) (s.noteResult e.ty)
  | jump {s : Scope} {span : Span} {jump : Jump} :
    Resolves .stmt true s (.jump span jump) (.jump jump) s
  | load {inLoop : Bool} {s : Scope} {span : Span} {module : String} :
    Resolves .stmt inLoop s (.load span module) (.load module) s
  | expr {inLoop : Bool} {s : Scope} {span : Span} {src : Surface.Expr} {e : Expr} :
    src.hasEffect = true → resolveExpr s src = .ok e →
      Resolves .stmt inLoop s (.expr span src) (.expr e) s
  | nil {inLoop : Bool} {s : Scope} : Resolves .stmts inLoop s [] [] s
  | cons {inLoop : Bool} {s s₁ s₂ : Scope} {src : Surface.Stmt} {stmt : Stmt}
      {srcRest : List Surface.Stmt} {rest : List Stmt} :
    Resolves .stmt inLoop s src stmt s₁ → Resolves .stmts inLoop s₁ srcRest rest s₂ →
      Resolves .stmts inLoop s (src :: srcRest) (stmt :: rest) s₂
  | done {inLoop : Bool} {s : Scope} : Resolves .chain inLoop s .done .done s
  | elseIf {inLoop : Bool} {s s₁ s₂ : Scope} {src : Surface.Expr} {cond : Expr}
      {srcBody : List Surface.Stmt} {body : List Stmt} {srcChain : Surface.ElseChain}
      {chain : ElseChain} :
    resolveExpr s src = .ok cond → Resolves .stmts inLoop s srcBody body s₁ →
      Resolves .chain inLoop s₁ srcChain chain s₂ →
      Resolves .chain inLoop s (.elseIf src srcBody srcChain) (.elseIf cond body chain) s₂
  | final {inLoop : Bool} {s s₁ : Scope} {srcBody : List Surface.Stmt} {body : List Stmt} :
    Resolves .stmts inLoop s srcBody body s₁ →
      Resolves .chain inLoop s (.final srcBody) (.final body) s₁

mutual

/-- Resolving goes through a statement as the rules say. Statements, their lists and their
branches hold each other, so the three are taken together. -/
theorem resolves_stmt : ∀ {src : Surface.Stmt} {inLoop : Bool} {s : Scope} {r : Stmt × Scope},
    resolveStmt inLoop s src = .ok r → Resolves .stmt inLoop s src r.1 r.2
  | .assign _ name value, inLoop, s, r, h => by
    rw [resolveStmt] at h
    obtain ⟨e, value, h⟩ := bind_eq_ok.mp h
    cases h
    exact .assign value
  | .branch _ cond body otherwise, inLoop, s, r, h => by
    rw [resolveStmt] at h
    obtain ⟨e, cond, h⟩ := bind_eq_ok.mp h
    obtain ⟨first, body, h⟩ := bind_eq_ok.mp h
    obtain ⟨chain, otherwise, h⟩ := bind_eq_ok.mp h
    cases h
    exact .branch cond (resolves_stmts body) (resolves_chain otherwise)
  | .loop _ name lower upper body, inLoop, s, r, h => by
    rw [resolveStmt] at h
    obtain ⟨first, lower, h⟩ := bind_eq_ok.mp h
    obtain ⟨last, upper, h⟩ := bind_eq_ok.mp h
    obtain ⟨inner, body, h⟩ := bind_eq_ok.mp h
    cases h
    exact .loop lower upper (resolves_stmts body)
  | .ret _ value, inLoop, s, r, h => by
    rw [resolveStmt] at h
    obtain ⟨e, value, h⟩ := bind_eq_ok.mp h
    cases h
    exact .ret value
  | .jump _ jump, inLoop, s, r, h => by
    rw [resolveStmt] at h
    split at h
    case isTrue isIn =>
      cases h
      subst isIn
      exact .jump
    case isFalse => cases h
  | .load _ module, inLoop, s, r, h => by
    cases h
    exact .load
  | .expr _ expr, inLoop, s, r, h => by
    rw [resolveStmt] at h
    split at h
    case isTrue effect =>
      obtain ⟨e, expr, h⟩ := bind_eq_ok.mp h
      cases h
      exact .expr effect expr
    case isFalse => cases h

theorem resolves_stmts : ∀ {src : List Surface.Stmt} {inLoop : Bool} {s : Scope}
    {r : List Stmt × Scope}, resolveStmts inLoop s src = .ok r →
    Resolves .stmts inLoop s src r.1 r.2
  | [], inLoop, s, r, h => by
    cases h
    exact .nil
  | stmt :: rest, inLoop, s, r, h => by
    rw [resolveStmts] at h
    obtain ⟨first, stmt, h⟩ := bind_eq_ok.mp h
    obtain ⟨others, rest, h⟩ := bind_eq_ok.mp h
    cases h
    exact .cons (resolves_stmt stmt) (resolves_stmts rest)

theorem resolves_chain : ∀ {src : Surface.ElseChain} {inLoop : Bool} {s : Scope}
    {r : ElseChain × Scope}, resolveElse inLoop s src = .ok r →
    Resolves .chain inLoop s src r.1 r.2
  | .done, inLoop, s, r, h => by
    cases h
    exact .done
  | .elseIf cond body otherwise, inLoop, s, r, h => by
    rw [resolveElse] at h
    obtain ⟨e, cond, h⟩ := bind_eq_ok.mp h
    obtain ⟨first, body, h⟩ := bind_eq_ok.mp h
    obtain ⟨chain, otherwise, h⟩ := bind_eq_ok.mp h
    cases h
    exact .elseIf cond (resolves_stmts body) (resolves_chain otherwise)
  | .final body, inLoop, s, r, h => by
    rw [resolveElse] at h
    obtain ⟨inner, body, h⟩ := bind_eq_ok.mp h
    cases h
    exact .final (resolves_stmts body)

end

/-- Whatever the way through branches and loops, all names bound on it are known after it. -/
theorem Resolves.fits {part : Part} {inLoop : Bool} {s s' : Scope} {src : part.Source}
    {tree : part.Tree} (h : Resolves part inLoop s src tree s') {c : Setting}
    {bound : List String} (fits : s.Fits c bound) :
    s'.Fits c (bound ++ boundNames (part.uses src)) := by
  induction h generalizing bound with
  | assign value =>
    simpa [Part.uses, Surface.Stmt.uses] using (fits.bind _ _).2
  | branch cond body chain ihBody ihChain =>
    simpa [Part.uses, Surface.Stmt.uses] using ihChain (ihBody fits)
  | loop lower upper body ih =>
    simpa [Part.uses, Surface.Stmt.uses] using ih (fits.bind _ _).2
  | ret value => simpa [Part.uses, Surface.Stmt.uses] using fits.noteResult _
  | jump | load => simpa [Part.uses, Surface.Stmt.uses] using fits
  | expr effect value => simpa [Part.uses, Surface.Stmt.uses] using fits
  | nil => simpa [Part.uses, Surface.stmtsUses] using fits
  | cons stmt rest ihStmt ihRest =>
    simpa [Part.uses, Surface.stmtsUses] using ihRest (ihStmt fits)
  | done => simpa [Part.uses, Surface.ElseChain.uses] using fits
  | elseIf cond body chain ihBody ihChain =>
    simpa [Part.uses, Surface.ElseChain.uses] using ihChain (ihBody fits)
  | final body ih => simpa [Part.uses, Surface.ElseChain.uses] using ih fits

/-! ## Functions -/

namespace Scope

variable {s : Scope} {declared : String → Nat → Prop} {shared : String → Prop}

/-- At the start of a function's body, its parameters are known besides the program. -/
theorem Serves.enter (serves : s.Serves declared shared) (file : String) (params : List String) :
    (s.enter file params).Fits ⟨declared, shared, params⟩ [] := by
  refine ⟨⟨serves.arity, serves.global⟩, rfl, fun x => ?_⟩
  simp only [Scope.enter, Setting.Owns, Option.bind_some, ← Names.has_iff, Names.has_map_undef,
    List.not_mem_nil, false_and, or_false]

/-- What is learned of a function's value leaves the number of its parameters as it is. -/
theorem Serves.learn (serves : s.Serves declared shared) (name : String) :
    (s.learn name).Serves declared shared := by
  rw [Scope.learn]
  split
  case h_2 => exact serves
  case h_1 ty signature _ known =>
    refine ⟨fun other n => ?_, serves.global⟩
    rw [← serves.arity other n, Names.get?_put]
    by_cases same : other = name
    · rw [if_pos same, same, known]
      simp
    · rw [if_neg same]

end Scope

/-- A function leaves the scope of the program as it was, but for types. -/
theorem resolveFunction_serves {s : Scope} {f : Surface.Function} {r : Function × Scope}
    {declared : String → Nat → Prop} {shared : String → Prop} (serves : s.Serves declared shared)
    (h : resolveFunction s f = .ok r) : r.2.Serves declared shared := by
  rw [resolveFunction] at h
  split at h
  · cases h
    exact serves
  · obtain ⟨body, inner, h⟩ := bind_eq_ok.mp h
    cases h
    exact ((resolves_stmts inner).fits (serves.enter _ _)).serves.learn _

/-- So do functions, one after the other. -/
theorem resolveFunctions_serves {fs : List Surface.Function} {s : Scope}
    {r : List Function × Scope} {declared : String → Nat → Prop} {shared : String → Prop}
    (serves : s.Serves declared shared) (h : resolveFunctions s fs = .ok r) :
    r.2.Serves declared shared := by
  induction fs generalizing s r with
  | nil =>
    cases h
    exact serves
  | cons f fs ih =>
    obtain ⟨first, function, h⟩ := bind_eq_ok.mp h
    obtain ⟨others, rest, h⟩ := bind_eq_ok.mp h
    cases h
    exact ih (r := others) (resolveFunction_serves serves function) rest

/-! ## Programs -/

/-- The global names are those that are assigned outside functions. -/
theorem has_globalNames (ts : List Surface.TopLevel) (names : Names Ty) (x : String) :
    (globalNames ts names).has x = true ↔
      names.has x = true ∨ ∃ t ∈ ts, ∃ span value, t.stmt = .assign span x value := by
  fun_induction globalNames ts names with
  | case1 => simp
  | case2 span name value file rest names ih =>
    rw [ih, Names.has_put]
    simp only [List.exists_mem_cons_iff, Surface.Stmt.assign.injEq]
    constructor
    · rintro ((rfl | known) | later)
      · exact .inr (.inl ⟨span, value, rfl, rfl, rfl⟩)
      · exact .inl known
      · exact .inr (.inr later)
    · rintro (known | ⟨_, _, -, rfl, -⟩ | later)
      · exact .inl (.inr known)
      · exact .inl (.inl rfl)
      · exact .inr later
  | case3 t rest names other ih =>
    rw [ih, List.exists_mem_cons_iff]
    have no : ¬∃ span value, t.stmt = .assign span x value := by
      rintro ⟨span, value, same⟩
      exact other span x value t.file (by rw [← same])
    simp only [no, false_or]

/-- A function is declared with as many parameters as it has. -/
theorem collectSignatures_arity {fs : List Surface.Function} {known signatures : Names Signature}
    (h : collectSignatures fs known = .ok signatures) (name : String) (n : Nat) :
    (∃ g, signatures.get? name = some g ∧ g.arity = n) ↔
      (∃ g, known.get? name = some g ∧ g.arity = n) ∨
        ∃ f ∈ fs, f.name = name ∧ f.params.length = n := by
  fun_induction collectSignatures fs known with
  | case1 known =>
    cases h
    simp
  | case2 => cases h
  | case3 f rest known new ih =>
    rw [ih h, List.exists_mem_cons_iff, Names.get?_put]
    have unknown : known.get? f.name = none := by simpa [Names.has] using new
    by_cases same : name = f.name
    · subst same
      simp [unknown]
    · simp [same, Ne.symm same]

/-- Signatures can be collected just when no two functions have one name. -/
theorem exists_collectSignatures (fs : List Surface.Function) (known : Names Signature) :
    (∃ signatures, collectSignatures fs known = .ok signatures) ↔
      (fs.map (·.name)).Nodup ∧ ∀ f ∈ fs, known.has f.name = false := by
  fun_induction collectSignatures fs known with
  | case1 => simp
  | case2 f rest known there => simp [there]
  | case3 f rest known new ih =>
    rw [ih, List.map_cons, List.nodup_cons, List.forall_mem_cons]
    have put : ∀ g : Surface.Function,
        (known.put f.name ⟨f.params.length, .undef⟩).has g.name = false ↔
          g.name ≠ f.name ∧ known.has g.name = false := by
      intro g
      rw [← Bool.not_eq_true, Names.has_put, not_or, Bool.not_eq_true]
    have unknown : known.has f.name = false := by simpa using new
    simp only [put, unknown, true_and, List.mem_map, not_exists, not_and]
    constructor
    · rintro ⟨distinct, others⟩
      exact ⟨⟨fun g mem => (others g mem).1, distinct⟩, fun g mem => (others g mem).2⟩
    · rintro ⟨⟨apart, distinct⟩, others⟩
      exact ⟨distinct, fun g mem => ⟨apart g mem, others g mem⟩⟩

/-- The value that an assignment gives to a global variable. -/
def GlobalInit.of? : Surface.TopLevel → Option GlobalInit
  | ⟨.assign _ name value, file⟩ => some ⟨file, name, value⟩
  | _ => none

/-- Only an assignment gives a global variable its value. -/
theorem GlobalInit.of?_eq_some {t : Surface.TopLevel} {init : GlobalInit} :
    of? t = some init ↔ ∃ span, t = ⟨.assign span init.name init.value, init.file⟩ := by
  obtain ⟨stmt, file⟩ := t
  obtain ⟨file', name, value⟩ := init
  cases stmt with
  | assign span name' value' => simp [of?, and_comm]
  | _ => simp [of?]

theorem divide_false (ts : List Surface.TopLevel) : divide false ts = ([], ts) := by
  induction ts with
  | nil => rfl
  | cons t rest ih =>
    obtain ⟨stmt, file⟩ := t
    cases stmt <;> simp only [divide, ih]

/-- The statements that come first, up to one that is neither an assignment nor an import, are
divided into assignments and imports; the others follow the imports. -/
theorem divide_true (ts : List Surface.TopLevel) :
    divide true ts = ((ts.takeWhile Surface.TopLevel.leads).filterMap GlobalInit.of?,
      (ts.takeWhile Surface.TopLevel.leads).filter (·.stmt.isLoad) ++
        ts.dropWhile Surface.TopLevel.leads) := by
  induction ts with
  | nil => rfl
  | cons t rest ih =>
    obtain ⟨stmt, file⟩ := t
    cases stmt with
    | assign | load =>
      rw [divide, ih, List.takeWhile_cons_of_pos rfl, List.dropWhile_cons_of_pos rfl]
      rfl
    | _ => simp [divide, divide_false, Surface.TopLevel.leads]

/-- The values of global variables. -/
def globalInits (p : Surface.Program) : List GlobalInit := p.leading.filterMap GlobalInit.of?

/-- The statements that run in the entry function. -/
def entryStatements (p : Surface.Program) : List Surface.TopLevel :=
  p.leading.filter (·.stmt.isLoad) ++ p.remaining

/-- So are the statements of a program. -/
theorem divide_topLevel (p : Surface.Program) :
    divide true p.topLevel = (globalInits p, entryStatements p) :=
  divide_true p.topLevel

/-- The scope before anything is resolved. -/
def Scope.first (p : Surface.Program) (signatures : Names Signature) : Scope :=
  ⟨p.entryFile, signatures, globalNames p.topLevel [], none, none⟩

/-- Outside functions there are no variables but the global ones. -/
theorem Scope.first_owns (p : Surface.Program) (signatures : Names Signature) :
    (Scope.first p signatures).Owns fun _ => False := fun _ => iff_of_false nofun id

/-- The first scope of a program knows its functions and its global variables. -/
theorem Scope.first_serves {p : Surface.Program} {signatures : Names Signature}
    (h : collectSignatures p.functions [] = .ok signatures) :
    (Scope.first p signatures).Serves p.Declares p.Assigns := by
  refine ⟨fun name n => ?_, fun x => ?_⟩
  · rw [Scope.first, collectSignatures_arity h name n]
    simp [Names.get?, Surface.Program.Declares]
  · rw [Scope.first, has_globalNames]
    simp [Names.has, Names.get?, Surface.Program.Assigns]

/-- A global variable with a value is assigned outside functions. -/
theorem assigns_of_mem_globalInits {p : Surface.Program} {init : GlobalInit}
    (mem : init ∈ globalInits p) : p.Assigns init.name := by
  obtain ⟨t, leading, isInit⟩ := List.mem_filterMap.mp mem
  obtain ⟨span, rfl⟩ := GlobalInit.of?_eq_some.mp isInit
  exact ⟨_, List.takeWhile_subset _ leading, span, _, rfl⟩

/-- A known global variable can get a value. -/
theorem Scope.Serves.putGlobal {s : Scope} {declared : String → Nat → Prop}
    {shared : String → Prop} (serves : s.Serves declared shared) {name : String} (ty : Ty)
    (known : shared name) :
    { s with globals := s.globals.put name ty }.Serves declared shared := by
  refine ⟨serves.arity, fun x => ?_⟩
  rw [Names.has_put, serves.global]
  constructor
  · rintro (rfl | other)
    · exact known
    · exact other
  · exact .inr

/-- Giving values to global variables changes only their types. -/
theorem resolveGlobals_serves {inits : List GlobalInit} {s : Scope} {r : List Assignment × Scope}
    {declared : String → Nat → Prop} {shared : String → Prop} (serves : s.Serves declared shared)
    (known : ∀ init ∈ inits, shared init.name) (h : resolveGlobals s inits = .ok r) :
    r.2.Serves declared shared := by
  induction inits generalizing s r with
  | nil =>
    cases h
    exact serves
  | cons init rest ih =>
    obtain ⟨value, -, h⟩ := bind_eq_ok.mp h
    obtain ⟨others, resolved, h⟩ := bind_eq_ok.mp h
    cases h
    have first := serves.putGlobal value.ty (known init (.head _))
    exact ih (r := others) first (fun i mem => known i (.tail _ mem)) resolved

/-- The stages that every program goes through: its global variables have these values, its
functions become those, and the scope is the one after them. -/
inductive Stages (p : Surface.Program) : List Assignment → List Function → Scope → Prop
  | intro {signatures : Names Signature} {globals : List Assignment} {functions : List Function}
      {s s' : Scope} :
    collectSignatures p.functions [] = .ok signatures →
      resolveGlobals (.first p signatures) (globalInits p) = .ok (globals, s) →
      resolveFunctions s p.functions = .ok (functions, s') → Stages p globals functions s'

/-- After all stages the scope knows what it knew at first. -/
theorem Stages.serves {p : Surface.Program} {globals : List Assignment}
    {functions : List Function} {s : Scope} (h : Stages p globals functions s) :
    s.Serves p.Declares p.Assigns := by
  obtain ⟨collected, initial, defined⟩ := h
  have known := resolveGlobals_serves (Scope.first_serves collected)
    (fun _ => assigns_of_mem_globalInits) initial
  exact resolveFunctions_serves known defined

/-- The program has a statement that only an entry function can run. -/
def isLoose (p : Surface.Program) : Bool := (entryStatements p).any fun t => !t.stmt.isLoad

/-- What resolving a program can do. -/
inductive ResolvesProgram (library : Bool) (p : Surface.Program) : Module → Prop
  /-- An entry function is made of the statements outside functions. -/
  | made {globals : List Assignment} {functions : List Function} {s s' : Scope}
      {body : List Stmt} :
    Stages p globals functions s → (∀ f ∈ p.functions, f.name ≠ entryName) →
      isLoose p = true ∨ library = false →
      resolveEntry (s.enter p.entryFile []) (entryStatements p) = .ok (body, s') →
      ResolvesProgram library p
        ⟨functions ++ [⟨entryName, [], some body⟩], globals, some entryName⟩
  /-- There are no such statements. A function that the program calls its entry function is one,
  if it has a body. -/
  | kept {globals : List Assignment} {functions : List Function} {s : Scope} :
    Stages p globals functions s → isLoose p = false →
      (∃ f ∈ p.functions, f.name = entryName) ∨ library = true →
      ResolvesProgram library p
        ⟨functions, globals,
          ((p.functions.find? (·.name = entryName)).filter (·.body.isSome)).map (·.name)⟩

/-- There is no entry function just if no function has its name. -/
theorem find?_entry_eq_none {p : Surface.Program} :
    p.functions.find? (·.name = entryName) = none ↔ ∀ f ∈ p.functions, f.name ≠ entryName := by
  simp [List.find?_eq_none]

/-- A program is resolved just if its stages are, and then to what they give. -/
theorem resolvesProgram_iff {library : Bool} {p : Surface.Program} {m : Module} :
    Module.ofProgram library p = .ok m ↔ ResolvesProgram library p m := by
  constructor
  · intro h
    rw [Module.ofProgram, divide_topLevel] at h
    obtain ⟨signatures, collected, h⟩ := bind_eq_ok.mp h
    dsimp only at h
    split at h
    case h_1 => cases h
    case h_2 entry =>
      obtain ⟨⟨globals, s⟩, initial, h⟩ := bind_eq_ok.mp h
      obtain ⟨⟨functions, s'⟩, defined, h⟩ := bind_eq_ok.mp h
      have stages : Stages p globals functions s' := .intro collected initial defined
      have absent : isLoose p = true → p.functions.find? (·.name = entryName) = none := by
        intro loose
        cases user : p.functions.find? (·.name = entryName) with
        | none => rfl
        | some f => exact (entry f loose user).elim
      split at h
      case isTrue needed =>
        obtain ⟨⟨body, s''⟩, made, h⟩ := bind_eq_ok.mp h
        cases h
        rcases Bool.or_eq_true_iff.mp needed with loose | without
        · exact .made stages (find?_entry_eq_none.mp (absent loose)) (.inl loose) made
        · obtain ⟨none, executable⟩ := Bool.and_eq_true_iff.mp without
          exact .made stages (find?_entry_eq_none.mp (Option.isNone_iff_eq_none.mp none))
            (.inr (by simpa using executable)) made
      case isFalse notNeeded =>
        cases h
        obtain ⟨tidy, given⟩ := Bool.or_eq_false_iff.mp (Bool.not_eq_true _ ▸ notNeeded)
        refine .kept stages tidy ?_
        rcases Bool.and_eq_false_iff.mp given with some | isLibrary
        · refine .inl (Decidable.byContradiction fun none => ?_)
          rw [find?_entry_eq_none.mpr fun f mem same => none ⟨f, mem, same⟩] at some
          cases some
        · exact .inr (by simpa using isLibrary)
  · rintro (⟨⟨collected, initial, defined⟩, absent, needed, body⟩ |
      ⟨⟨collected, initial, defined⟩, tidy, entry⟩)
    · have none := find?_entry_eq_none.mpr absent
      have chosen : (isLoose p || (true && !library)) = true := by
        rcases needed with loose | executable
        · rw [loose, Bool.true_or]
        · rw [executable, Bool.not_false, Bool.and_self, Bool.or_true]
      rw [Module.ofProgram, divide_topLevel]
      refine bind_eq_ok.mpr ⟨_, collected, ?_⟩
      dsimp only
      rw [none]
      split
      case h_1 some => cases some
      case h_2 =>
        refine bind_eq_ok.mpr ⟨_, initial, bind_eq_ok.mpr ⟨_, defined, ?_⟩⟩
        exact (if_pos chosen).trans (bind_eq_ok.mpr ⟨_, body, rfl⟩)
    · have chosen : ¬(isLoose p ||
          ((p.functions.find? (·.name = entryName)).isNone && !library)) = true := by
        rw [tidy, Bool.false_or, Bool.and_eq_true_iff, not_and, Option.isNone_iff_eq_none,
          find?_entry_eq_none]
        intro absent
        rcases entry with ⟨f, mem, same⟩ | isLibrary
        · exact absurd same (absent f mem)
        · simp [isLibrary]
      rw [Module.ofProgram, divide_topLevel]
      refine bind_eq_ok.mpr ⟨_, collected, ?_⟩
      dsimp only
      split
      case h_1 loose _ => rw [← isLoose, tidy] at loose; cases loose
      case h_2 =>
        refine bind_eq_ok.mpr ⟨_, initial, bind_eq_ok.mpr ⟨_, defined, ?_⟩⟩
        exact if_neg chosen

end Shellwright.Core
