import Shellwright.Proofs.Scopes

/-!
# Which programs can be resolved

Scoping is said here without scopes. The names of a body stand in one sequence, in source order
and whatever the branches and loops they stand in, and a variable may be read if it was bound
earlier in that sequence, or is a parameter, or is assigned anywhere outside functions.

* `Sound declared visible uses`: every name of a sequence is allowed where it stands.
* `Program.WellScoped`: all names of a program are allowed, and its statements
  stand where they may.
* `resolveExpr_accepts`, `resolveStmts_accepts`: what is allowed is what resolving accepts.
* `ofProgram_accepts_iff`: a program can be resolved just when it is well scoped.
-/

namespace Shellwright.Surface

/-! ## Names where they stand -/

/-- The use of a name is allowed where these functions are declared and these variables
visible. -/
def Use.Allowed (declared : String → Nat → Prop) (visible : String → Prop) : Use → Prop
  | .reads name => visible name
  | .calls name args => declared name args
  | .binds _ => True

/-- Every use in a sequence is allowed; what was bound before it is visible too. -/
def Sound (declared : String → Nat → Prop) (visible : String → Prop) (uses : List Use) : Prop :=
  ∀ before use after, uses = before ++ use :: after →
    use.Allowed declared fun name => visible name ∨ .binds name ∈ before

variable {declared : String → Nat → Prop} {visible : String → Prop}

/-- Only which names can be seen matters, not how it is known. -/
theorem Sound.congr {visible' : String → Prop} (same : ∀ x, visible x ↔ visible' x)
    (uses : List Use) : Sound declared visible uses ↔ Sound declared visible' uses := by
  rw [funext fun x => propext (same x)]

@[simp] theorem sound_nil : Sound declared visible [] := by
  intro before use after split
  cases before <;> cases split

/-- The names are sound if the first use is allowed, and the others are where it may
have bound a name. -/
theorem sound_cons {use : Use} {uses : List Use} :
    Sound declared visible (use :: uses) ↔
      use.Allowed declared visible ∧
        Sound declared (fun name => visible name ∨ .binds name = use) uses := by
  constructor
  · intro sound
    refine ⟨?_, fun before next after split => ?_⟩
    · simpa using sound [] use uses rfl
    · have allowed := sound (use :: before) next after (by rw [split, List.cons_append])
      simpa only [List.mem_cons, or_assoc] using allowed
  · rintro ⟨first, rest⟩ before next after split
    cases before with
    | nil =>
      cases split
      simpa using first
    | cons head before =>
      cases split
      simpa only [List.mem_cons, or_assoc] using rest before next after rfl

/-- What stands later sees what was bound earlier. -/
theorem sound_append {us vs : List Use} :
    Sound declared visible (us ++ vs) ↔
      Sound declared visible us ∧
        Sound declared (fun name => visible name ∨ name ∈ boundNames us) vs := by
  induction us generalizing visible with
  | nil => simp
  | cons u us ih =>
    rw [List.cons_append, sound_cons, sound_cons, ih, and_assoc]
    refine and_congr_right fun _ => and_congr_right fun _ => Sound.congr (fun x => ?_) vs
    rw [mem_boundNames, mem_boundNames, List.mem_cons, or_assoc]

/-- What binds no names can be looked at by itself. -/
theorem sound_append_of_unbinding {us vs : List Use} (none : boundNames us = []) :
    Sound declared visible (us ++ vs) ↔ Sound declared visible us ∧
    Sound declared visible vs := by
  rw [sound_append, none]
  exact and_congr_right fun _ => Sound.congr (fun x => by simp) vs

/-! ## Statements where they stand -/

mutual

/-- A statement and all inside it, each with whether it stands in a loop. -/
def Stmt.nested (inLoop : Bool) : Stmt → List (Bool × Stmt)
  | .branch span cond body otherwise =>
    (inLoop, .branch span cond body otherwise) ::
      (stmtsNested inLoop body ++ otherwise.nested inLoop)
  | .loop span var lower upper body =>
    (inLoop, .loop span var lower upper body) :: stmtsNested true body
  | .assign span name value => [(inLoop, .assign span name value)]
  | .ret span value => [(inLoop, .ret span value)]
  | .jump span jump => [(inLoop, .jump span jump)]
  | .load span module => [(inLoop, .load span module)]
  | .expr span expr => [(inLoop, .expr span expr)]

def stmtsNested (inLoop : Bool) : List Stmt → List (Bool × Stmt)
  | [] => []
  | stmt :: rest => stmt.nested inLoop ++ stmtsNested inLoop rest

def ElseChain.nested (inLoop : Bool) : ElseChain → List (Bool × Stmt)
  | .done => []
  | .elseIf _ body otherwise => stmtsNested inLoop body ++ otherwise.nested inLoop
  | .final body => stmtsNested inLoop body

end

/-- The statement may stand where it does: a jump in a loop, and an expression only if it does
something. -/
def Stmt.isProper (inLoop : Bool) : Stmt → Bool
  | .jump _ _ => inLoop
  | .expr _ e => e.hasEffect
  | _ => true

/-- All of these statements may stand where they do. -/
def AllProper (stmts : List (Bool × Stmt)) : Prop := ∀ s ∈ stmts, s.2.isProper s.1 = true

@[simp] theorem allProper_nil : AllProper [] := nofun

@[simp] theorem allProper_cons {s : Bool × Stmt} {stmts : List (Bool × Stmt)} :
    AllProper (s :: stmts) ↔ s.2.isProper s.1 = true ∧ AllProper stmts :=
  List.forall_mem_cons

/-- Statements are proper together if they are by themselves. -/
@[simp] theorem allProper_append {as bs : List (Bool × Stmt)} :
    AllProper (as ++ bs) ↔ AllProper as ∧ AllProper bs :=
  List.forall_mem_append

/-! ## Programs -/

namespace Program

/-- The body of a function with these parameters is well scoped. -/
structure ScopesBody (p : Program) (params : List String) (body : List Stmt) : Prop where
  names : Sound p.Declares (fun x => p.Assigns x ∨ x ∈ params) (stmtsUses body)
  places : AllProper (stmtsNested false body)

/-- All names of a program mean something where they stand, and its statements stand where they
may. The statements after the leading assignments make up a body of their own. -/
structure WellScoped (p : Program) : Prop where
  distinct : (p.functions.map (·.name)).Nodup
  oneEntry : ¬((∃ f ∈ p.functions, f.name = "main") ∧ ∃ t ∈ p.remaining, t.stmt.isLoad = false)
  leading : ∀ t ∈ p.leading, ∀ span name value, t.stmt = .assign span name value →
    Sound p.Declares p.Assigns value.uses
  functions : ∀ f ∈ p.functions, ∀ body, f.body = some body →
    p.ScopesBody (f.params.map (·.name)) body
  remaining : p.ScopesBody [] (p.remaining.map (·.stmt))

end Program

end Shellwright.Surface

namespace Shellwright.Core

open Surface (Sound AllProper boundNames sound_nil sound_cons sound_append
  sound_append_of_unbinding)

/-! ## Expressions -/

section

variable {s : Scope} {declared : String → Nat → Prop} {shared own : String → Prop}

mutual

/-- An expression can be resolved just when its names are allowed. -/
theorem resolveExpr_accepts (serves : s.Serves declared shared) (owns : s.Owns own) :
    ∀ src : Surface.Expr, (∃ e, resolveExpr s src = .ok e) ↔
      Sound declared (fun x => own x ∨ shared x) src.uses
  | .int _ _ | .fraction _ _ | .bool _ _ | .text _ _ | .command _ _ => by
    rw [Surface.Expr.uses, resolveExpr]
    exact iff_of_true ⟨_, rfl⟩ sound_nil
  | .var _ name => by
    rw [Surface.Expr.uses, sound_cons, and_iff_left sound_nil, resolveExpr, Surface.Use.Allowed,
      ← Scope.exists_find? serves owns]
    cases s.find? name with
    | none => exact iff_of_false nofun nofun
    | some found => exact iff_of_true ⟨_, rfl⟩ ⟨_, rfl⟩
  | .binary _ _ left right => by
    rw [Surface.Expr.uses, sound_append_of_unbinding left.boundNames_uses,
      ← resolveExpr_accepts serves owns left, ← resolveExpr_accepts serves owns right,
      resolveExpr]
    exact exists_bind_eq_ok fun _ _ => exists_bind_eq_ok_iff fun _ => ⟨_, rfl⟩
  | .unary _ _ operand => by
    rw [Surface.Expr.uses, ← resolveExpr_accepts serves owns operand, resolveExpr]
    exact exists_bind_eq_ok_iff fun _ => ⟨_, rfl⟩
  | .call _ name args => by
    rw [Surface.Expr.uses, sound_cons, Surface.Use.Allowed, ← serves.arity, resolveExpr]
    have others : Sound declared
        (fun x => (own x ∨ shared x) ∨ Surface.Use.binds x = .calls name args.length)
        (Surface.argsUses args) ↔ ∃ es, resolveArgs s args = .ok es := by
      rw [resolveArgs_accepts serves owns args]
      exact Sound.congr (fun x => or_iff_left nofun) _
    rw [others]
    cases s.signatures.get? name with
    | none => exact iff_of_false nofun nofun
    | some signature =>
      dsimp only
      by_cases same : signature.arity = args.length
      · rw [if_pos same, and_iff_right ⟨_, rfl, same⟩]
        exact exists_bind_eq_ok_iff fun _ => ⟨_, rfl⟩
      · rw [if_neg same]
        refine iff_of_false nofun ?_
        rintro ⟨⟨_, ⟨⟩, arity⟩, -⟩
        exact same arity
  | .pipe _ left right => by
    rw [Surface.Expr.uses, sound_append_of_unbinding left.boundNames_uses,
      ← resolveExpr_accepts serves owns left, ← resolveExpr_accepts serves owns right,
      resolveExpr]
    exact exists_bind_eq_ok fun _ _ => exists_bind_eq_ok_iff fun _ => ⟨_, rfl⟩

/-- So can arguments. -/
theorem resolveArgs_accepts (serves : s.Serves declared shared) (owns : s.Owns own) :
    ∀ src : List Surface.Expr, (∃ es, resolveArgs s src = .ok es) ↔
      Sound declared (fun x => own x ∨ shared x) (Surface.argsUses src)
  | [] => by
    rw [Surface.argsUses, resolveArgs]
    exact iff_of_true ⟨_, rfl⟩ sound_nil
  | arg :: rest => by
    rw [Surface.argsUses, sound_append_of_unbinding arg.boundNames_uses,
      ← resolveExpr_accepts serves owns arg, ← resolveArgs_accepts serves owns rest, resolveArgs]
    exact exists_bind_eq_ok fun _ _ => exists_bind_eq_ok_iff fun _ => ⟨_, rfl⟩

end

end

/-! ## Statements -/

section

variable {s : Scope} {c : Setting} {bound : List String}

/-- Names that are bound on the way can be seen afterwards. -/
theorem Setting.sees_append (us : List Surface.Use) (x : String) :
    c.Sees bound x ∨ x ∈ boundNames us ↔ c.Sees (bound ++ boundNames us) x := by
  rw [Setting.Sees, Setting.Sees, List.mem_append]
  tauto

/-- Names bound by a first part are visible in a second one. -/
theorem Setting.sound_append (us vs : List Surface.Use) :
    Sound c.declared (c.Sees bound) (us ++ vs) ↔
      Sound c.declared (c.Sees bound) us ∧
        Sound c.declared (c.Sees (bound ++ boundNames us)) vs := by
  rw [Surface.sound_append]
  exact and_congr_right fun _ => Sound.congr (fun x => Setting.sees_append us x) vs

/-- A binding is always allowed, and its name can be seen from there on. -/
theorem Setting.sound_binds (name : String) (us : List Surface.Use) :
    Sound c.declared (c.Sees bound) (.binds name :: us) ↔
      Sound c.declared (c.Sees (bound ++ [name])) us :=
  (Setting.sound_append [.binds name] us).trans
    (and_iff_right (sound_cons.mpr ⟨trivial, sound_nil⟩))

/-- In a fitting scope an expression is resolved just if its names are sound. -/
theorem Scope.Fits.accepts (fits : s.Fits c bound) (src : Surface.Expr) :
    (∃ e, resolveExpr s src = .ok e) ↔ Sound c.declared (c.Sees bound) src.uses := by
  rw [resolveExpr_accepts fits.serves fits.owns src]
  refine Sound.congr (fun x => ?_) _
  rw [Setting.Owns, Setting.Sees]
  tauto

theorem Scope.Fits.accepts_upper (fits : s.Fits c bound) (src : Option Surface.Expr) :
    (∃ e, resolveUpper s src = .ok e) ↔
      Sound c.declared (c.Sees bound) (Surface.upperUses src) := by
  cases src with
  | none => exact iff_of_true ⟨_, rfl⟩ sound_nil
  | some upper =>
    rw [Surface.upperUses, ← fits.accepts upper, resolveUpper]
    exact exists_bind_eq_ok_iff fun _ => ⟨_, rfl⟩

mutual

/-- A statement can be resolved just when its names are allowed and it and all inside it may
stand where they do. -/
theorem resolveStmt_accepts : ∀ (src : Surface.Stmt) {inLoop : Bool} {s : Scope}
    {bound : List String}, s.Fits c bound →
    ((∃ r, resolveStmt inLoop s src = .ok r) ↔
      Sound c.declared (c.Sees bound) src.uses ∧ AllProper (src.nested inLoop))
  | .assign _ name value, inLoop, s, bound, fits => by
    simp only [Surface.Stmt.uses, Surface.Stmt.nested, Setting.sound_append, Setting.sound_binds,
      ← fits.accepts, Surface.allProper_cons, Surface.allProper_nil, Surface.Stmt.isProper,
      sound_nil, and_true]
    rw [resolveStmt]
    exact exists_bind_eq_ok_iff fun _ => ⟨_, rfl⟩
  | .branch span cond body otherwise, inLoop, s, bound, fits => by
    have steps : (∃ r, resolveStmt inLoop s (.branch span cond body otherwise) = .ok r) ↔
        (∃ e, resolveExpr s cond = .ok e) ∧ (∃ r, resolveStmts inLoop s body = .ok r) ∧
          Sound c.declared (c.Sees (bound ++ boundNames (Surface.stmtsUses body)))
            otherwise.uses ∧ AllProper (otherwise.nested inLoop) := by
      rw [resolveStmt]
      refine exists_bind_eq_ok fun e _ => exists_bind_eq_ok fun r resolved => ?_
      rw [← resolveElse_accepts otherwise ((resolves_stmts resolved).fits fits)]
      exact exists_bind_eq_ok_iff fun _ => ⟨_, rfl⟩
    rw [steps, fits.accepts, resolveStmts_accepts body fits, Surface.Stmt.uses,
      Surface.Stmt.nested, sound_append_of_unbinding cond.boundNames_uses, Setting.sound_append,
      Surface.allProper_cons, Surface.allProper_append]
    simp only [Surface.Stmt.isProper, true_and]
    tauto
  | .loop span name lower upper body, inLoop, s, bound, fits => by
    have steps : (∃ r, resolveStmt inLoop s (.loop span name lower upper body) = .ok r) ↔
        (∃ e, resolveExpr s lower = .ok e) ∧ (∃ e, resolveUpper s upper = .ok e) ∧
          Sound c.declared (c.Sees (bound ++ [name])) (Surface.stmtsUses body) ∧
            AllProper (Surface.stmtsNested true body) := by
      rw [resolveStmt]
      refine exists_bind_eq_ok fun _ _ => exists_bind_eq_ok fun last _ => ?_
      rw [← resolveStmts_accepts body (fits.bind name _).2]
      exact exists_bind_eq_ok_iff fun _ => ⟨_, rfl⟩
    rw [steps, fits.accepts, fits.accepts_upper, Surface.Stmt.uses, Surface.Stmt.nested,
      sound_append_of_unbinding lower.boundNames_uses,
      sound_append_of_unbinding (Surface.boundNames_upperUses upper), Setting.sound_binds,
      Surface.allProper_cons]
    simp only [Surface.Stmt.isProper, true_and]
    tauto
  | .ret _ value, inLoop, s, bound, fits => by
    rw [Surface.Stmt.uses, ← fits.accepts, resolveStmt,
      and_iff_left (by simp [Surface.Stmt.nested, Surface.Stmt.isProper])]
    exact exists_bind_eq_ok_iff fun _ => ⟨_, rfl⟩
  | .jump _ jump, inLoop, s, bound, fits => by
    rw [Surface.Stmt.uses, and_iff_right sound_nil, Surface.Stmt.nested, Surface.allProper_cons,
      and_iff_left Surface.allProper_nil, resolveStmt]
    cases inLoop with
    | true => exact iff_of_true ⟨_, rfl⟩ rfl
    | false => exact iff_of_false nofun nofun
  | .load _ module, inLoop, s, bound, fits => by
    rw [Surface.Stmt.uses, Surface.Stmt.nested, resolveStmt]
    exact iff_of_true ⟨_, rfl⟩ ⟨sound_nil, by simp [Surface.Stmt.isProper]⟩
  | .expr _ expr, inLoop, s, bound, fits => by
    rw [Surface.Stmt.uses, ← fits.accepts, Surface.Stmt.nested, Surface.allProper_cons,
      and_iff_left Surface.allProper_nil, Surface.Stmt.isProper, resolveStmt]
    by_cases effect : expr.hasEffect = true
    · rw [if_pos effect, and_iff_left effect]
      exact exists_bind_eq_ok_iff fun _ => ⟨_, rfl⟩
    · rw [if_neg effect]
      exact iff_of_false nofun fun h => effect h.2

/-- So can statements, one after the other. -/
theorem resolveStmts_accepts : ∀ (src : List Surface.Stmt) {inLoop : Bool} {s : Scope}
    {bound : List String}, s.Fits c bound →
    ((∃ r, resolveStmts inLoop s src = .ok r) ↔
      Sound c.declared (c.Sees bound) (Surface.stmtsUses src) ∧
        AllProper (Surface.stmtsNested inLoop src))
  | [], inLoop, s, bound, fits => by
    rw [Surface.stmtsUses, Surface.stmtsNested, resolveStmts]
    exact iff_of_true ⟨_, rfl⟩ ⟨sound_nil, Surface.allProper_nil⟩
  | stmt :: rest, inLoop, s, bound, fits => by
    have first : (∃ r, resolveStmts inLoop s (stmt :: rest) = .ok r) ↔
        (∃ r, resolveStmt inLoop s stmt = .ok r) ∧
          Sound c.declared (c.Sees (bound ++ boundNames stmt.uses)) (Surface.stmtsUses rest) ∧
            AllProper (Surface.stmtsNested inLoop rest) := by
      rw [resolveStmts]
      refine exists_bind_eq_ok fun r resolved => ?_
      rw [← resolveStmts_accepts rest ((resolves_stmt resolved).fits fits)]
      exact exists_bind_eq_ok_iff fun _ => ⟨_, rfl⟩
    rw [first, resolveStmt_accepts stmt fits, Surface.stmtsUses, Surface.stmtsNested,
      Setting.sound_append, Surface.allProper_append]
    tauto

/-- So can the branches after the first one. -/
theorem resolveElse_accepts : ∀ (src : Surface.ElseChain) {inLoop : Bool} {s : Scope}
    {bound : List String}, s.Fits c bound →
    ((∃ r, resolveElse inLoop s src = .ok r) ↔
      Sound c.declared (c.Sees bound) src.uses ∧ AllProper (src.nested inLoop))
  | .done, inLoop, s, bound, fits => by
    rw [Surface.ElseChain.uses, Surface.ElseChain.nested, resolveElse]
    exact iff_of_true ⟨_, rfl⟩ ⟨sound_nil, Surface.allProper_nil⟩
  | .elseIf cond body otherwise, inLoop, s, bound, fits => by
    have steps : (∃ r, resolveElse inLoop s (.elseIf cond body otherwise) = .ok r) ↔
        (∃ e, resolveExpr s cond = .ok e) ∧ (∃ r, resolveStmts inLoop s body = .ok r) ∧
          Sound c.declared (c.Sees (bound ++ boundNames (Surface.stmtsUses body)))
            otherwise.uses ∧ AllProper (otherwise.nested inLoop) := by
      rw [resolveElse]
      refine exists_bind_eq_ok fun e _ => exists_bind_eq_ok fun r resolved => ?_
      rw [← resolveElse_accepts otherwise ((resolves_stmts resolved).fits fits)]
      exact exists_bind_eq_ok_iff fun _ => ⟨_, rfl⟩
    rw [steps, fits.accepts, resolveStmts_accepts body fits, Surface.ElseChain.uses,
      Surface.ElseChain.nested, sound_append_of_unbinding cond.boundNames_uses,
      Setting.sound_append, Surface.allProper_append]
    tauto
  | .final body, inLoop, s, bound, fits => by
    rw [Surface.ElseChain.uses, Surface.ElseChain.nested, ← resolveStmts_accepts body fits,
      resolveElse]
    exact exists_bind_eq_ok_iff fun _ => ⟨_, rfl⟩

end

end

/-! ## Programs -/

section

variable {s : Scope} {declared : String → Nat → Prop} {shared : String → Prop}

/-- The values of global variables are resolved just if their names are sound. -/
theorem resolveGlobals_accepts {inits : List GlobalInit} (serves : s.Serves declared shared)
    (outside : s.Owns fun _ => False) (known : ∀ init ∈ inits, shared init.name) :
    (∃ r, resolveGlobals s inits = .ok r) ↔
      ∀ init ∈ inits, Sound declared shared init.value.uses := by
  induction inits generalizing s with
  | nil => exact iff_of_true ⟨_, rfl⟩ nofun
  | cons init rest ih =>
    have value : (∃ e, resolveExpr { s with file := init.file } init.value = .ok e) ↔
        Sound declared shared init.value.uses := by
      have here : { s with file := init.file }.Serves declared shared :=
        ⟨serves.arity, serves.global⟩
      have alone : { s with file := init.file }.Owns fun _ => False := outside
      rw [resolveExpr_accepts here alone]
      exact Sound.congr (fun x => by rw [false_or]) _
    rw [resolveGlobals, List.forall_mem_cons, ← value]
    refine exists_bind_eq_ok fun e _ => ?_
    have first := serves.putGlobal e.ty (known init (.head _))
    rw [← ih first outside fun i mem => known i (.tail _ mem)]
    exact exists_bind_eq_ok_iff fun _ => ⟨_, rfl⟩

/-- A function is resolved just if the names in its body are sound and its statements proper. -/
theorem resolveFunction_accepts (serves : s.Serves declared shared) (f : Surface.Function) :
    (∃ r, resolveFunction s f = .ok r) ↔ ∀ body, f.body = some body →
      Sound declared (fun x => shared x ∨ x ∈ f.params.map (·.name)) (Surface.stmtsUses body) ∧
        AllProper (Surface.stmtsNested false body) := by
  rw [resolveFunction]
  cases f.body with
  | none =>
    refine iff_of_true ⟨_, rfl⟩ fun body isBody => ?_
    cases isBody
  | some body =>
    have fits := serves.enter f.file (f.params.map (·.name))
    have accepts := @resolveStmts_accepts _ body false _ _ fits
    have visible : ∀ x, Setting.Sees ⟨declared, shared, f.params.map (·.name)⟩ [] x ↔
        shared x ∨ x ∈ f.params.map (·.name) := by
      intro x
      simp [Setting.Sees]
    rw [Sound.congr visible] at accepts
    simp only [Option.some.injEq, forall_eq']
    exact (exists_bind_eq_ok_iff fun _ => ⟨_, rfl⟩).trans accepts

/-- So are functions, each by itself. -/
theorem resolveFunctions_accepts (serves : s.Serves declared shared)
    (fs : List Surface.Function) :
    (∃ r, resolveFunctions s fs = .ok r) ↔ ∀ f ∈ fs, ∀ body, f.body = some body →
      Sound declared (fun x => shared x ∨ x ∈ f.params.map (·.name)) (Surface.stmtsUses body) ∧
        AllProper (Surface.stmtsNested false body) := by
  induction fs generalizing s with
  | nil => exact iff_of_true ⟨_, rfl⟩ nofun
  | cons f fs ih =>
    rw [resolveFunctions, List.forall_mem_cons, ← resolveFunction_accepts serves f]
    refine exists_bind_eq_ok fun r resolved => ?_
    rw [← ih (resolveFunction_serves serves resolved)]
    exact exists_bind_eq_ok_iff fun _ => ⟨_, rfl⟩

/-- So are the statements of the entry function, one after the other. -/
theorem resolveEntry_accepts {c : Setting} {bound : List String} (fits : s.Fits c bound)
    (ts : List Surface.TopLevel) :
    (∃ r, resolveEntry s ts = .ok r) ↔
      Sound c.declared (c.Sees bound) (Surface.stmtsUses (ts.map (·.stmt))) ∧
        AllProper (Surface.stmtsNested false (ts.map (·.stmt))) := by
  induction ts generalizing s bound with
  | nil => exact iff_of_true ⟨_, rfl⟩ ⟨sound_nil, Surface.allProper_nil⟩
  | cons t ts ih =>
    have here : { s with file := t.file }.Fits c bound :=
      ⟨⟨fits.serves.arity, fits.serves.global⟩, fits.inside, fits.owns⟩
    have steps : (∃ r, resolveEntry s (t :: ts) = .ok r) ↔
        (∃ r, resolveStmt false { s with file := t.file } t.stmt = .ok r) ∧
          Sound c.declared (c.Sees (bound ++ boundNames t.stmt.uses))
            (Surface.stmtsUses (ts.map (·.stmt))) ∧
            AllProper (Surface.stmtsNested false (ts.map (·.stmt))) := by
      rw [resolveEntry]
      refine exists_bind_eq_ok fun r resolved => ?_
      rw [← ih ((resolves_stmt resolved).fits here)]
      exact exists_bind_eq_ok_iff fun _ => ⟨_, rfl⟩
    rw [steps, resolveStmt_accepts t.stmt here, List.map_cons, Surface.stmtsUses,
      Surface.stmtsNested, Setting.sound_append, Surface.allProper_append]
    tauto

end

/-- Imports use no names, and may stand anywhere. -/
theorem uses_imports_append {ts : List Surface.TopLevel}
    (imports : ∀ t ∈ ts, t.stmt.isLoad = true) (rest : List Surface.Stmt) :
    Surface.stmtsUses (ts.map (·.stmt) ++ rest) = Surface.stmtsUses rest ∧
      (AllProper (Surface.stmtsNested false (ts.map (·.stmt) ++ rest)) ↔
        AllProper (Surface.stmtsNested false rest)) := by
  induction ts with
  | nil => exact ⟨rfl, .rfl⟩
  | cons t ts ih =>
    have isLoad := imports t (.head _)
    obtain ⟨uses, proper⟩ := ih fun t mem => imports t (.tail _ mem)
    obtain ⟨stmt, file⟩ := t
    cases stmt with
    | load span module =>
      rw [List.map_cons, List.cons_append, Surface.stmtsUses, Surface.stmtsNested,
        Surface.Stmt.uses, Surface.Stmt.nested, Surface.allProper_append, Surface.allProper_cons]
      simpa [Surface.Stmt.isProper] using ⟨uses, proper⟩
    | _ => cases isLoad

/-- There is something for an entry function to run just if some statement is neither an import
nor one of the assignments that come first. -/
theorem isLoose_iff (p : Surface.Program) :
    isLoose p = true ↔ ∃ t ∈ p.remaining, t.stmt.isLoad = false := by
  rw [isLoose, entryStatements, List.any_append, Bool.or_eq_true_iff]
  simp

theorem forall_globalInits (p : Surface.Program) (P : Surface.Expr → Prop) :
    (∀ init ∈ globalInits p, P init.value) ↔
      ∀ t ∈ p.leading, ∀ span name value, t.stmt = .assign span name value → P value := by
  constructor
  · intro all t mem span name value same
    exact all ⟨t.file, name, value⟩ (List.mem_filterMap.mpr
      ⟨t, mem, GlobalInit.of?_eq_some.mpr ⟨span, by rw [← same]⟩⟩)
  · intro all init mem
    obtain ⟨t, leading, isInit⟩ := List.mem_filterMap.mp mem
    obtain ⟨span, rfl⟩ := GlobalInit.of?_eq_some.mp isInit
    exact all _ leading span _ _ rfl

/-- The stages before the entry function succeed just when functions have different names, and
the values of global variables and the functions are well scoped. -/
theorem exists_stages (p : Surface.Program) :
    (∃ globals functions s, Stages p globals functions s) ↔
      (p.functions.map (·.name)).Nodup ∧
        (∀ t ∈ p.leading, ∀ span name value, t.stmt = .assign span name value →
          Sound p.Declares p.Assigns value.uses) ∧
        ∀ f ∈ p.functions, ∀ body, f.body = some body →
          p.ScopesBody (f.params.map (·.name)) body := by
  have known : ∀ init ∈ globalInits p, p.Assigns init.name := fun _ => assigns_of_mem_globalInits
  rw [← forall_globalInits p fun value => Sound p.Declares p.Assigns value.uses]
  constructor
  · rintro ⟨globals, functions, s, collected, initial, defined⟩
    have first := Scope.first_serves collected
    have second := resolveGlobals_serves first known initial
    have bodies := (resolveFunctions_accepts second p.functions).mp ⟨_, defined⟩
    refine ⟨((exists_collectSignatures _ _).mp ⟨_, collected⟩).1,
      (resolveGlobals_accepts first (Scope.first_owns p _) known).mp ⟨_, initial⟩,
      fun f mem body isBody => ?_⟩
    obtain ⟨names, places⟩ := bodies f mem body isBody
    exact ⟨names, places⟩
  · rintro ⟨distinct, leading, functions⟩
    obtain ⟨signatures, collected⟩ :=
      (exists_collectSignatures _ []).mpr ⟨distinct, fun _ _ => rfl⟩
    have first := Scope.first_serves collected
    have outside := Scope.first_owns p signatures
    obtain ⟨⟨globals, s⟩, initial⟩ := (resolveGlobals_accepts first outside known).mpr leading
    have second := resolveGlobals_serves first known initial
    obtain ⟨⟨functions, s'⟩, defined⟩ := (resolveFunctions_accepts second p.functions).mpr
      fun f mem body isBody =>
        ⟨(functions f mem body isBody).names, (functions f mem body isBody).places⟩
    exact ⟨globals, functions, s', .intro collected initial defined⟩

/-- The entry function can be made just when the statements after the leading
assignments are well scoped. -/
theorem resolveEntry_accepts_iff {p : Surface.Program} {s : Scope}
    (serves : s.Serves p.Declares p.Assigns) :
    (∃ r, resolveEntry (s.enter p.entryFile []) (entryStatements p) = .ok r) ↔
      p.ScopesBody [] (p.remaining.map (·.stmt)) := by
  have imports : ∀ t ∈ p.leading.filter (·.stmt.isLoad), t.stmt.isLoad = true :=
    fun t mem => (List.mem_filter.mp mem).2
  obtain ⟨uses, proper⟩ := uses_imports_append imports (p.remaining.map (·.stmt))
  have visible : ∀ x, Setting.Sees ⟨p.Declares, p.Assigns, []⟩ [] x ↔ p.Assigns x ∨ x ∈ [] := by
    intro x
    simp [Setting.Sees]
  rw [resolveEntry_accepts (serves.enter p.entryFile []), entryStatements, List.map_append, uses,
    proper, Sound.congr visible]
  exact ⟨fun h => ⟨h.1, h.2⟩, fun h => ⟨h.names, h.places⟩⟩

/-- Nothing is to be asked of a body of imports. -/
theorem scopesBody_imports {p : Surface.Program} {ts : List Surface.TopLevel}
    (imports : ∀ t ∈ ts, t.stmt.isLoad = true) : p.ScopesBody [] (ts.map (·.stmt)) := by
  obtain ⟨uses, proper⟩ := uses_imports_append imports []
  rw [List.append_nil] at uses proper
  exact ⟨uses ▸ sound_nil, proper.mpr Surface.allProper_nil⟩

/-- A program can be resolved, as a library or not, just when it is well scoped. -/
theorem ofProgram_accepts_iff (library : Bool) (p : Surface.Program) :
    (∃ m, Module.ofProgram library p = .ok m) ↔ p.WellScoped := by
  constructor
  · rintro ⟨m, resolved⟩
    rcases resolvesProgram_iff.mp resolved with ⟨stages, absent, -, body⟩ | ⟨stages, tidy, -⟩
    · obtain ⟨distinct, leading, functions⟩ := (exists_stages p).mp ⟨_, _, _, stages⟩
      exact {
        distinct, leading, functions
        oneEntry := fun ⟨⟨f, mem, isEntry⟩, _⟩ => absent f mem isEntry
        remaining := (resolveEntry_accepts_iff stages.serves).mp ⟨_, body⟩ }
    · obtain ⟨distinct, leading, functions⟩ := (exists_stages p).mp ⟨_, _, _, stages⟩
      have none : ¬∃ t ∈ p.remaining, t.stmt.isLoad = false := by
        rw [← isLoose_iff, tidy]
        nofun
      exact {
        distinct, leading, functions
        oneEntry := fun both => none both.2
        remaining := scopesBody_imports fun t mem => by
          by_contra other
          exact none ⟨t, mem, Bool.not_eq_true _ ▸ other⟩ }
  · intro well
    obtain ⟨globals, functions, s, stages⟩ :=
      (exists_stages p).mpr ⟨well.distinct, well.leading, well.functions⟩
    have made (absent : ∀ f ∈ p.functions, f.name ≠ entryName)
        (needed : isLoose p = true ∨ library = false) :
          ∃ m, Module.ofProgram library p = .ok m := by
      obtain ⟨⟨body, s'⟩, entry⟩ := (resolveEntry_accepts_iff stages.serves).mpr well.remaining
      exact ⟨_, resolvesProgram_iff.mpr (.made stages absent needed entry)⟩
    cases loose : isLoose p with
    | true =>
      refine made (fun f mem isEntry => ?_) (.inl loose)
      exact well.oneEntry ⟨⟨f, mem, isEntry⟩, (isLoose_iff p).mp loose⟩
    | false =>
      by_cases user : ∃ f ∈ p.functions, f.name = entryName
      · exact ⟨_, resolvesProgram_iff.mpr (.kept stages loose (.inl user))⟩
      · cases library with
        | true => exact ⟨_, resolvesProgram_iff.mpr (.kept stages loose (.inr rfl))⟩
        | false => exact made (fun f mem isEntry => user ⟨f, mem, isEntry⟩) (.inr rfl)

end Shellwright.Core
