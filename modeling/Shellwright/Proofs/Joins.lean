import Shellwright.Proofs.Mentions

/-!
# Where branches join

A path through a conditional takes one of its branches, or none. Resolving goes through all of
them, one after the other, so that a variable has afterwards the type of the last value in the
text. That is the type on one path, and the other paths do not count: where they leave a text and
that one leaves a number, the variable is tested as a number.

* `Leaves v part tree ty ty'`: the type of a variable at the end of a path through a
  part of a body.
* `leaves_typeAfter`: what resolving knows is right on some path.
* `equality_word_after_branch`: with which word a variable is tested after a conditional.
-/

namespace Shellwright.Core

open Shellwright.Script

/-! ## Paths -/

/-- The type of a variable at the end of a path through a part of a body, if it had some type
before. A path takes one branch of a conditional, and goes round a loop any number of times. None
goes on behind a return or a jump. -/
inductive Leaves (v : Variable) : (part : Part) → part.Tree → Ty → Ty → Prop
  | assign {w : Variable} {e : Expr} {ty : Ty} :
    Leaves v .stmt (.assign w e) ty (if w = v then e.ty else ty)
  | body {cond : Expr} {body : List Stmt} {chain : ElseChain} {ty ty' : Ty} :
    Leaves v .stmts body ty ty' → Leaves v .stmt (.branch cond body chain) ty ty'
  | chain {cond : Expr} {body : List Stmt} {chain : ElseChain} {ty ty' : Ty} :
    Leaves v .chain chain ty ty' → Leaves v .stmt (.branch cond body chain) ty ty'
  | leave {w : Variable} {lower : Expr} {upper : Option Expr} {body : List Stmt} {ty : Ty} :
    Leaves v .stmt (.loop w lower upper body) ty ty
  | again {w : Variable} {lower : Expr} {upper : Option Expr} {body : List Stmt}
      {ty ty₁ ty' : Ty} :
    Leaves v .stmts body (if w = v then itemTy upper else ty) ty₁ →
      Leaves v .stmt (.loop w lower upper body) ty₁ ty' →
      Leaves v .stmt (.loop w lower upper body) ty ty'
  | load {module : String} {ty : Ty} : Leaves v .stmt (.load module) ty ty
  | expr {e : Expr} {ty : Ty} : Leaves v .stmt (.expr e) ty ty
  | nil {ty : Ty} : Leaves v .stmts [] ty ty
  | cons {stmt : Stmt} {rest : List Stmt} {ty ty₁ ty' : Ty} :
    Leaves v .stmt stmt ty ty₁ → Leaves v .stmts rest ty₁ ty' →
    Leaves v .stmts (stmt :: rest) ty ty'
  | done {ty : Ty} : Leaves v .chain .done ty ty
  | elseIf {cond : Expr} {body : List Stmt} {chain : ElseChain} {ty ty' : Ty} :
    Leaves v .stmts body ty ty' → Leaves v .chain (.elseIf cond body chain) ty ty'
  | further {cond : Expr} {body : List Stmt} {chain : ElseChain} {ty ty' : Ty} :
    Leaves v .chain chain ty ty' → Leaves v .chain (.elseIf cond body chain) ty ty'
  | final {body : List Stmt} {ty ty' : Ty} :
    Leaves v .stmts body ty ty' → Leaves v .chain (.final body) ty ty'

mutual

/-- No return and no jump is inside. -/
def Stmt.goesOn : Stmt → Bool
  | .assign _ _ => true
  | .branch _ body otherwise => stmtsGoOn body && otherwise.goesOn
  | .loop _ _ _ body => stmtsGoOn body
  | .ret _ => false
  | .jump _ => false
  | .load _ => true
  | .expr _ => true

def stmtsGoOn : List Stmt → Bool
  | [] => true
  | stmt :: rest => stmt.goesOn && stmtsGoOn rest

def ElseChain.goesOn : ElseChain → Bool
  | .done => true
  | .elseIf _ body otherwise => stmtsGoOn body && otherwise.goesOn
  | .final body => stmtsGoOn body

end

/-- Of two branches the last one that gives a value decides. -/
theorem typeAfter_branches (v : Variable) (ty : Ty) (cond : Expr) (body chain : List Mention) :
    typeAfter v ty (cond.mentions ++ (body ++ chain)) = typeAfter v ty body ∨
      typeAfter v ty (cond.mentions ++ (body ++ chain)) = typeAfter v ty chain := by
  have idle : typeAfter v ty cond.mentions = ty := typeAfter_of_not_given (by simp) ty
  rw [typeAfter_append, idle, typeAfter_append]
  by_cases given : ∃ ty', (v, ty') ∈ given chain
  · exact .inr (typeAfter_of_given given _ _)
  · exact .inl (typeAfter_of_not_given (not_exists.mp given) _)

mutual

/-- The last value in the text is the last one on some path. -/
theorem leaves_typeAfter (v : Variable) : ∀ {stmt : Stmt}, stmt.goesOn = true → ∀ ty : Ty,
    Leaves v .stmt stmt ty (typeAfter v ty stmt.mentions)
  | .assign w e, _, ty => by
    have last : typeAfter v ty (Stmt.assign w e).mentions = if w = v then e.ty else ty := by
      rw [Stmt.mentions, typeAfter, given_append, e.given_mentions]
      rfl
    rw [last]
    exact .assign
  | .branch cond body otherwise, goes, ty => by
    rw [Stmt.goesOn] at goes
    obtain ⟨goesBody, goesChain⟩ := Bool.and_eq_true_iff.mp goes
    rw [Stmt.mentions]
    rcases typeAfter_branches v ty cond (stmtsMentions body) otherwise.mentions with last | last
    · rw [last]
      exact .body (leaves_typeAfter_stmts v goesBody ty)
    · rw [last]
      exact .chain (leaves_typeAfter_chain v goesChain ty)
  | .loop w lower upper body, goes, ty => by
    rw [Stmt.goesOn] at goes
    -- once round the loop
    have last : typeAfter v ty (Stmt.loop w lower upper body).mentions =
        typeAfter v (if w = v then itemTy upper else ty) (stmtsMentions body) := by
      rw [Stmt.mentions, typeAfter, given_append, given_append, lower.given_mentions,
        given_upperMentions, given_looped]
      rfl
    rw [last]
    exact .again (leaves_typeAfter_stmts v goes _) .leave
  | .load _, _, ty => by
    rw [Stmt.mentions]
    exact .load
  | .expr e, _, ty => by
    have idle : typeAfter v ty e.mentions = ty := typeAfter_of_not_given (by simp) ty
    rw [Stmt.mentions, idle]
    exact .expr

theorem leaves_typeAfter_stmts (v : Variable) : ∀ {stmts : List Stmt}, stmtsGoOn stmts = true →
    ∀ ty : Ty, Leaves v .stmts stmts ty (typeAfter v ty (stmtsMentions stmts))
  | [], _, ty => by
    rw [stmtsMentions]
    exact .nil
  | stmt :: rest, goes, ty => by
    rw [stmtsGoOn] at goes
    obtain ⟨goesFirst, goesRest⟩ := Bool.and_eq_true_iff.mp goes
    rw [stmtsMentions, typeAfter_append]
    exact .cons (leaves_typeAfter v goesFirst ty) (leaves_typeAfter_stmts v goesRest _)

theorem leaves_typeAfter_chain (v : Variable) : ∀ {chain : ElseChain}, chain.goesOn = true →
    ∀ ty : Ty, Leaves v .chain chain ty (typeAfter v ty chain.mentions)
  | .done, _, ty => by
    rw [ElseChain.mentions]
    exact .done
  | .elseIf cond body otherwise, goes, ty => by
    rw [ElseChain.goesOn] at goes
    obtain ⟨goesBody, goesChain⟩ := Bool.and_eq_true_iff.mp goes
    rw [ElseChain.mentions]
    rcases typeAfter_branches v ty cond (stmtsMentions body) otherwise.mentions with last | last
    · rw [last]
      exact .elseIf (leaves_typeAfter_stmts v goesBody ty)
    · rw [last]
      exact .further (leaves_typeAfter_chain v goesChain ty)
  | .final body, goes, ty => by
    rw [ElseChain.goesOn] at goes
    rw [ElseChain.mentions]
    exact .final (leaves_typeAfter_stmts v goes ty)

end

/-! ## Tests -/

/-- Nothing speaks against a text. -/
def Expr.mayBeText (e : Expr) : Bool := e.ty = .text || e.ty = .undef

theorem comparesText_equality {op : BinaryOp} (equality : op.isEquality = true)
    (left right : Expr) :
    comparesText op left right = (left.mayBeText || right.mayBeText) := by
  simp only [comparesText, Expr.mayBeText, equality, Bool.true_and]
  cases left.ty <;> cases right.ty <;> rfl

/-- The text of a test for equality, which becomes a value if one is wanted. -/
def testText (place : Place) (frames : List Frame) (e : Expr) (left word right : String) :
    String :=
  if (frames.findSome? Frame.decides).getD (place.decides (fill frames e))
    then decided (left ++ (" " ++ word ++ " ") ++ right)
  else left ++ (" " ++ word ++ " ") ++ right

/-- In a script a test for equality stands where it has its place, with a word between its
operands. -/
def IsTestedWith (script : String) (place : Place) (frames : List Frame) (ty : Ty)
    (op : BinaryOp) (left right : Expr) (word : String) : Prop :=
  ∃ m l r, exprText m left = .ok l ∧ exprText m right = .ok r ∧
    StandsFor script place frames (.binary ty op left right)
      (testText place frames (.binary ty op left right) l word r)

theorem exprText_test {ty : Ty} {op : BinaryOp} {left right : Expr} {m : Mode} {s : String}
    (equality : op.isEquality = true) (text : exprText m (.binary ty op left right) = .ok s) :
    ∃ m' l r, exprText m' left = .ok l ∧ exprText m' right = .ok r ∧ s = if m.decide
      then decided (l ++ (" " ++ operatorWord (comparesText op left right) op ++ " ") ++ r)
      else l ++ (" " ++ operatorWord (comparesText op left right) op ++ " ") ++ r := by
  rw [exprText] at text
  obtain ⟨l, isLeft, text⟩ := bind_eq_ok.mp text
  obtain ⟨r, isRight, text⟩ := bind_eq_ok.mp text
  cases text
  refine ⟨_, l, r, isLeft, isRight, ?_⟩
  generalize comparesText op left right = asText
  cases op with
  | eq | ne =>
    cases on : m.decide <;>
      simp [binaryOpen, binaryClose, operandOpen, operandClose, BinaryOp.isComparison,
        BinaryOp.isLogical, BinaryOp.isArithmetic, isOpposite, decided, on, String.append_assoc]
  | _ => cases equality

section

variable {library : Bool} {p : Surface.Program} {module : Module} {target : Target}
    {script : String}

theorem isTestedWith_of_root (resolved : Module.ofProgram library p = .ok module)
    (written : generate target library module = .ok script) {place : Place} {frames : List Frame}
    {ty : Ty} {op : BinaryOp} {left right : Expr} (equality : op.isEquality = true)
    (root : (place, fill frames (.binary ty op left right)) ∈ module.roots) :
    IsTestedWith script place frames ty op left right
      (operatorWord (left.mayBeText || right.mayBeText) op) := by
  -- a test by itself is no statement
  have inner : place ≠ .effect ∨ frames ≠ [] := by
    by_cases bare : frames = []
    · subst bare
      refine .inl fun effect => ?_
      subst effect
      cases ofProgram_effects resolved _ root
    · exact .inr bare
  obtain ⟨m, s, text, stands, decides, -⟩ := (generate_holds written root).stands rfl inner
  obtain ⟨m', l, r, isLeft, isRight, same⟩ := exprText_test equality text
  refine ⟨m', l, r, isLeft, isRight, ?_⟩
  rw [testText, ← decides, ← comparesText_equality equality, ← same]
  exact stands

/-- After a conditional a variable is tested for equality with the type of the last value that
the text gives to it: as a text if that one, or the other operand, may be a text, and as a number
otherwise. It is the type on some path through the conditional, if no path leaves it early: what
is a text on all paths is tested as a text, and what is one on some may be tested as a number. -/
theorem equality_word_after_branch (resolved : Module.ofProgram library p = .ok module)
    (written : generate target library module = .ok script) {before after : List Function}
    {f : Function} (isFunction : module.functions = before ++ f :: after)
    {first later : List Stmt} {cond : Expr} {body : List Stmt} {chain : ElseChain}
    (isBlock : first ++ .branch cond body chain :: later ∈ f.blocks) {mid post : List Mention}
    {ty tyv : Ty} {op : BinaryOp} {left right : Expr}
    (tested : stmtsMentions later = mid ++ .part (.binary ty op left right) :: post)
    (equality : op.isEquality = true) {v : Variable}
    (operand : left = .var tyv v ∨ right = .var tyv v) (kept : ∀ ty, (v, ty) ∉ given mid) :
    ∃ start pre rest,
      f.mentions = pre ++ stmtsMentions (first ++ .branch cond body chain :: later) ++ rest ∧
      start = typeAfter v
        (startTypes (valuesMentions module.globals ++ before.flatMap Function.mentions) v)
        (pre ++ stmtsMentions first) ∧
      tyv = typeAfter v start (Stmt.branch cond body chain).mentions ∧
      ((Stmt.branch cond body chain).goesOn = true →
        Leaves v .stmt (.branch cond body chain) start tyv ∧
        ((∀ ty, Leaves v .stmt (.branch cond body chain) start ty → ty = .text) →
          (left.mayBeText || right.mayBeText) = true)) ∧
      ∃ place frames, (place, fill frames (.binary ty op left right)) ∈ module.roots ∧
        IsTestedWith script place frames ty op left right
          (operatorWord (left.mayBeText || right.mayBeText) op) := by
  obtain ⟨pre, rest, together⟩ := Function.mentions_of_mem_blocks isBlock
  have whole : f.mentions = (pre ++ stmtsMentions first ++
      (Stmt.branch cond body chain).mentions ++ mid) ++ .part (.binary ty op left right) ::
        (post ++ rest) := by
    rw [← together, stmtsMentions_append, stmtsMentions, tested]
    simp only [List.append_assoc, List.cons_append]
  have isVar : .var tyv v ∈ (Expr.binary ty op left right).parts := by
    rw [Expr.parts]
    rcases operand with rfl | rfl
    · exact .tail _ (List.mem_append_left _ (by simp [Expr.parts]))
    · exact .tail _ (List.mem_append_right _ (by simp [Expr.parts]))
  have types : tyv = typeAfter v
      (startTypes (valuesMentions module.globals ++ before.flatMap Function.mentions) v)
      (pre ++ stmtsMentions first ++ (Stmt.branch cond body chain).mentions ++ mid) :=
    ofProgram_typed resolved before f after isFunction _ _ _ whole tyv v isVar
  rw [typeAfter_append, typeAfter_of_not_given kept, typeAfter_append] at types
  refine ⟨_, pre, rest, together.symm, rfl, types, fun goes => ?_, ?_⟩
  · have path := leaves_typeAfter v goes (typeAfter v
      (startTypes (valuesMentions module.globals ++ before.flatMap Function.mentions) v)
      (pre ++ stmtsMentions first))
    rw [← types] at path
    refine ⟨path, fun texts => ?_⟩
    have isText : (Expr.var tyv v).mayBeText = true := by
      simp [Expr.mayBeText, Expr.ty, texts tyv path]
    rcases operand with rfl | rfl
    · rw [isText, Bool.true_or]
    · rw [isText, Bool.or_true]
  · have isIn : f ∈ module.functions := by
      rw [isFunction]
      exact List.mem_append_right _ (.head _)
    have mentioned : .part (.binary ty op left right) ∈ f.mentions := by
      rw [whole]
      exact List.mem_append_right _ (.head _)
    obtain ⟨place, frames, root⟩ := module.exists_root_of_mem_mentions isIn mentioned
    exact ⟨place, frames, root, isTestedWith_of_root resolved written equality root⟩

end

/-- The entry function gives a variable a text in one branch and a number in the other, and tests
it for equality with a number. -/
def testsNumberAfterText (f : Function) : Bool :=
  match f.body with
  | some [.branch _ [.assign v first] (.final [.assign w second]),
      .branch (.binary _ .eq (.var _ u) other) _ .done] =>
    v = u && (w = u && (first.ty = .text && (second.ty = .integer && other.ty = .integer)))
  | _ => false

def branchSample : Source :=
  ⟨"c = 1; x = 0; if (c == 1) \x7b x = \"abc\"; \x7d else \x7b x = 2; \x7d\n" ++
    "if (x == 2) \x7b @(echo two); \x7d"⟩

/-- On one path the variable is a text, and it is tested as a number. -/
theorem equality_word_after_branch_number :
    ∃ p module script, readProgram "sample" branchSample = .ok p ∧
      Module.ofProgram true p = .ok module ∧ generate .bash true module = .ok script ∧
      ∃ f ∈ module.functions, ∃ cond body chain later v ty tyv right place frames start,
        .branch cond body chain :: later ∈ f.blocks ∧
        Leaves v .stmt (.branch cond body chain) start .text ∧
        Leaves v .stmt (.branch cond body chain) start tyv ∧
        (place, fill frames (.binary ty .eq (.var tyv v) right)) ∈ module.roots ∧
        IsTestedWith script place frames ty .eq (.var tyv v) right "-eq" := by
  obtain ⟨p, module, script, isRead, resolved, written, asked⟩ :=
    exists_written "sample" branchSample (fun module =>
      module.functions.any testsNumberAfterText)
      (by decide +kernel)
  refine ⟨p, module, script, isRead, resolved, written, ?_⟩
  obtain ⟨f, mem, shape⟩ := List.any_eq_true.mp asked
  unfold testsNumberAfterText at shape
  split at shape
  case h_1 cond v first w second ty tyv u other body isBody =>
    simp only [Bool.and_eq_true, decide_eq_true_eq] at shape
    obtain ⟨rfl, rfl, isText, isNumber, isOther⟩ := shape
    obtain ⟨before, after, isFunction⟩ := List.append_of_mem mem
    have isBlock : [] ++ .branch cond [.assign w first] (.final [.assign w second]) ::
        [.branch (.binary ty .eq (.var tyv w) other) body .done] ∈ f.blocks := by
      rw [Function.blocks, isBody]
      exact .head _
    obtain ⟨post, tested⟩ : ∃ post,
        stmtsMentions [.branch (.binary ty .eq (.var tyv w) other) body .done] =
          [] ++ .part (.binary ty .eq (.var tyv w) other) :: post := by
      rw [stmtsMentions, Stmt.mentions, Expr.mentions, Expr.parts]
      exact ⟨_, rfl⟩
    obtain ⟨start, -, -, -, -, types, leaves, place, frames, root, stands⟩ :=
      equality_word_after_branch resolved written isFunction isBlock tested rfl (.inl rfl)
        (by simp)
    have number : (Expr.var tyv w).ty = .integer := by
      rw [Expr.ty, types, ← isNumber]
      simp [Stmt.mentions, stmtsMentions, ElseChain.mentions, typeAfter, lastGiven]
    have word : operatorWord ((Expr.var tyv w).mayBeText || other.mayBeText) .eq = "-eq" := by
      simp [Expr.mayBeText, number, isOther, operatorWord]
    refine ⟨f, mem, cond, _, _, _, w, ty, tyv, other, place, frames, start, isBlock, ?_,
      (leaves ?_).1, root, word ▸ stands⟩
    · have path : Leaves w .stmts [.assign w first] start (if w = w then first.ty else start) :=
        .cons .assign .nil
      rw [if_pos rfl, isText] at path
      exact .body path
    · simp [Stmt.goesOn, stmtsGoOn, ElseChain.goesOn]
  case h_2 => cases shape

end Shellwright.Core
