import Shellwright.Proofs.Mirroring
import Shellwright.Proofs.Origins
import Shellwright.Proofs.WellFormed

/-!
# The order of a text

Resolving goes through a program once, in the order of its text, and keeps one type for each
variable: that of the last value it has seen. Here a body is the sequence of what it mentions,
and the type that resolving gives to a variable is read off that sequence alone.

* `Mention`, `Stmt.mentions`: the expressions of a body, and the variables that
  get values, in order.
* `Function.blocks`: the blocks of a body, at any depth.
* `typeAfter v ty ms`: the type that a variable has after mentions, in the order of the text.
* `resolveStmt_types`: a scope has these types, and variables are read with them.
* `ofProgram_typed`: so it is throughout a program, whose functions pass on the
  types of global variables.
-/

namespace Shellwright.Core

/-! ## Mentions -/

/-- What the text of a body mentions. -/
inductive Mention where
  /-- An expression, or one inside it. -/
  | part (e : Expr)
  /-- A variable is assigned a value of some type. -/
  | assigned (v : Variable) (ty : Ty)
  /-- A variable runs through items of some type. -/
  | looped (v : Variable) (ty : Ty)

def Expr.mentions (e : Expr) : List Mention := e.parts.map .part

def upperMentions : Option Expr → List Mention
  | none => []
  | some upper => upper.mentions

/-- The type of what a loop runs through: numbers of a range, or words. -/
def itemTy (upper : Option Expr) : Ty := if upper.isSome then .integer else .text

mutual

/-- What a statement mentions, in the order of its text. -/
def Stmt.mentions : Stmt → List Mention
  | .assign v value => value.mentions ++ [.assigned v value.ty]
  | .branch cond body otherwise => cond.mentions ++ (stmtsMentions body ++ otherwise.mentions)
  | .loop v lower upper body =>
    lower.mentions ++ (upperMentions upper ++ .looped v (itemTy upper) :: stmtsMentions body)
  | .ret value => value.mentions
  | .jump _ => []
  | .load _ => []
  | .expr e => e.mentions

def stmtsMentions : List Stmt → List Mention
  | [] => []
  | stmt :: rest => stmt.mentions ++ stmtsMentions rest

def ElseChain.mentions : ElseChain → List Mention
  | .done => []
  | .elseIf cond body otherwise => cond.mentions ++ (stmtsMentions body ++ otherwise.mentions)
  | .final body => stmtsMentions body

end

abbrev Part.mentions : (part : Part) → part.Tree → List Mention
  | .stmt, tree => tree.mentions
  | .stmts, tree => stmtsMentions tree
  | .chain, tree => tree.mentions

/-- What a function mentions. One that is only declared mentions nothing. -/
def Function.mentions (f : Function) : List Mention := stmtsMentions (f.body.getD [])

/-- The variable that gets a value, and the type of the value. -/
def Mention.given? : Mention → Option (Variable × Ty)
  | .part _ => none
  | .assigned v ty => some (v, ty)
  | .looped v ty => some (v, ty)

/-- The variables that get values, and the types of these. -/
def given (ms : List Mention) : List (Variable × Ty) := ms.filterMap Mention.given?

@[simp] theorem given_append (xs ys : List Mention) : given (xs ++ ys) = given xs ++ given ys :=
  List.filterMap_append

@[simp] theorem given_nil : given [] = [] := rfl

@[simp] theorem given_assigned (v : Variable) (ty : Ty) (ms : List Mention) :
    given (.assigned v ty :: ms) = (v, ty) :: given ms := rfl

@[simp] theorem given_looped (v : Variable) (ty : Ty) (ms : List Mention) :
    given (.looped v ty :: ms) = (v, ty) :: given ms := rfl

/-- An expression gives no variable a value. -/
@[simp] theorem Expr.given_mentions (e : Expr) : given e.mentions = [] := by
  simp [given, Expr.mentions, List.filterMap_map, Function.comp_def, Mention.given?]

@[simp] theorem given_upperMentions (upper : Option Expr) :
    given (upperMentions upper) = [] := by
  cases upper with
  | none => rfl
  | some upper => exact upper.given_mentions

/-! ## Types in the order of the text -/

/-- The type of a variable after values were given, the last one of which counts. -/
def lastGiven (v : Variable) (ty : Ty) (values : List (Variable × Ty)) : Ty :=
  values.foldl (fun ty g => if g.1 = v then g.2 else ty) ty

/-- The type of a variable after mentions, if it had some type before. -/
def typeAfter (v : Variable) (ty : Ty) (ms : List Mention) : Ty := lastGiven v ty (given ms)

@[simp] theorem typeAfter_nil (v : Variable) (ty : Ty) : typeAfter v ty [] = ty := rfl

/-- The types after a text are those after its second half, which starts from
those after the first. -/
@[simp] theorem typeAfter_append (v : Variable) (ty : Ty) (xs ys : List Mention) :
    typeAfter v ty (xs ++ ys) = typeAfter v (typeAfter v ty xs) ys := by
  rw [typeAfter, given_append, lastGiven, List.foldl_append]
  rfl

/-- What gives no value to a variable leaves its type. -/
theorem typeAfter_of_not_given {v : Variable} {ms : List Mention} (h : ∀ ty, (v, ty) ∉ given ms)
    (ty : Ty) : typeAfter v ty ms = ty := by
  unfold typeAfter lastGiven
  generalize given ms = values at h
  induction values generalizing ty with
  | nil => rfl
  | cons g values ih =>
    have other : g.1 ≠ v := fun same => h g.2 (same ▸ .head _)
    rw [List.foldl_cons, if_neg other]
    exact ih ty fun ty mem => h ty (.tail _ mem)

/-- What gives a value to a variable makes the type before it forgotten. -/
theorem typeAfter_of_given {v : Variable} {ms : List Mention} (h : ∃ ty, (v, ty) ∈ given ms)
    (ty ty' : Ty) : typeAfter v ty ms = typeAfter v ty' ms := by
  unfold typeAfter lastGiven
  generalize given ms = values at h
  induction values generalizing ty ty' with
  | nil =>
    obtain ⟨_, mem⟩ := h
    cases mem
  | cons g values ih =>
    rw [List.foldl_cons, List.foldl_cons]
    by_cases same : g.1 = v
    · rw [if_pos same, if_pos same]
    · rw [if_neg same, if_neg same]
      obtain ⟨new, mem⟩ := h
      rcases List.mem_cons.mp mem with rfl | mem
      · exact absurd rfl same
      · exact ih ty ty' ⟨new, mem⟩

/-- An expression has its variables with these types. -/
def Expr.HasTypes (tys : Variable → Ty) (e : Expr) : Prop :=
  ∀ ty v, .var ty v ∈ e.parts → ty = tys v

/-- All expressions that are mentioned have their variables with the types of the last values
given to them, or with those from before. -/
def Typed (tys : Variable → Ty) (ms : List Mention) : Prop :=
  ∀ before e after, ms = before ++ .part e :: after →
    e.HasTypes fun v => typeAfter v (tys v) before

/-- A text has the right types if its halves do, the second from the types after the first. -/
theorem Typed.append {tys : Variable → Ty} {xs ys : List Mention} (hx : Typed tys xs)
    (hy : Typed (fun v => typeAfter v (tys v) xs) ys) : Typed tys (xs ++ ys) := by
  intro before e after split
  rcases List.append_eq_append_iff.mp split with ⟨more, rfl, rest⟩ | ⟨more, rfl, rest⟩
  · have inner := hy more e after rest
    simpa using inner
  · cases more with
    | nil =>
      have inner := hy [] e after (by simpa using rest.symm)
      simpa using inner
    | cons m more =>
      rw [List.cons_append, List.cons.injEq] at rest
      obtain ⟨rfl, -⟩ := rest
      exact hx before e more rfl

/-- Within an expression no type changes. -/
theorem typed_of_parts {tys : Variable → Ty} {es : List Expr} (h : ∀ e ∈ es, e.HasTypes tys) :
    Typed tys (es.map .part) := by
  intro before e after split
  have whole : given (es.map .part) = [] := by
    simp [given, List.filterMap_map, Function.comp_def, Mention.given?]
  rw [split, given_append] at whole
  have isPart : .part e ∈ es.map Mention.part := by
    rw [split]
    exact List.mem_append_right _ (.head _)
  obtain ⟨e', mem, same⟩ := List.mem_map.mp isPart
  cases same
  intro ty v isVar
  show ty = typeAfter v (tys v) before
  rw [typeAfter, (List.append_eq_nil_iff.mp whole).1]
  exact h e mem ty v isVar

/-! ## Types in a scope -/

namespace Scope

/-- The type that a scope has for a variable. Nothing is known of variables that
have no value yet. -/
def typeOf (s : Scope) (v : Variable) : Ty :=
  if v.isGlobal then (s.globals.get? v.name).getD .undef
  else (s.locals.bind (·.get? v.name)).getD .undef

theorem typeOf_find? {s : Scope} {x : String} {v : Variable} {ty : Ty}
    (h : s.find? x = some (v, ty)) : ty = s.typeOf v := by
  rw [find?] at h
  split at h
  case h_1 ty' isLocal =>
    cases h
    simp [typeOf, isLocal]
  case h_2 =>
    obtain ⟨ty', isGlobal, same⟩ := Option.map_eq_some_iff.mp h
    cases same
    simp [typeOf, isGlobal]

/-- The type of a name after it was set for another one. -/
theorem getD_put (names : Names Ty) (x : String) (ty : Ty) (y : String) :
    ((names.put x ty).get? y).getD .undef =
      if x = y then ty else (names.get? y).getD .undef := by
  rw [Names.get?_put]
  by_cases same : y = x
  · simp [same]
  · rw [if_neg same, if_neg (Ne.symm same)]

theorem typeOf_putGlobal (s : Scope) (x : String) (ty : Ty) (v : Variable) :
    { s with globals := s.globals.put x ty }.typeOf v =
      if ⟨x, true⟩ = v then ty else s.typeOf v := by
  obtain ⟨name, isGlobal⟩ := v
  cases isGlobal <;> simp [typeOf, getD_put]

/-- Binding a name changes the type of the variable that it means, and no other. -/
theorem typeOf_bind (s : Scope) (x : String) (ty : Ty) (v : Variable) :
    (s.bind x ty).2.typeOf v = if (s.bind x ty).1 = v then ty else s.typeOf v := by
  unfold bind
  split
  case h_1 locals isSome =>
    split
    · obtain ⟨name, isGlobal⟩ := v
      cases isGlobal <;> simp [typeOf, isSome, getD_put]
    · exact s.typeOf_putGlobal x ty v
  case h_2 => exact s.typeOf_putGlobal x ty v

@[simp] theorem typeOf_noteResult (s : Scope) (ty : Ty) (v : Variable) :
    (s.noteResult ty).typeOf v = s.typeOf v := by
  unfold noteResult
  split <;> rfl

end Scope

/-- From one scope to another, mentions have the types of the first, and leave
those of the second. -/
structure Types (s s' : Scope) (ms : List Mention) : Prop where
  typed : Typed s.typeOf ms
  after : ∀ v, s'.typeOf v = typeAfter v (s.typeOf v) ms

namespace Types

variable {s s₁ s₂ : Scope} {xs ys : List Mention}

/-- One change of types after the other. -/
theorem append (hx : Types s s₁ xs) (hy : Types s₁ s₂ ys) : Types s s₂ (xs ++ ys) := by
  have types : s₁.typeOf = fun v => typeAfter v (s.typeOf v) xs := funext hx.after
  refine ⟨hx.typed.append (types ▸ hy.typed), fun v => ?_⟩
  rw [hy.after, hx.after, typeAfter_append]

theorem of_eq (same : ∀ v, s₁.typeOf v = s.typeOf v) : Types s s₁ [] := by
  refine ⟨fun before e after split => ?_, same⟩
  simp at split

/-- A mention that gives a value changes the type of one variable. -/
theorem of_given {m : Mention} {v : Variable} {ty : Ty} (gives : m.given? = some (v, ty))
    (set : ∀ w, s₁.typeOf w = if v = w then ty else s.typeOf w) : Types s s₁ [m] := by
  refine ⟨fun before e after split => ?_, fun w => ?_⟩
  · obtain ⟨rfl, same⟩ | ⟨rest, rfl, bad⟩ := List.cons_eq_append_iff.mp split
    · cases same
      cases gives
    · simp at bad
  · rw [set, typeAfter, given, List.filterMap_cons, gives]
    rfl

end Types

/-! ## Expressions -/

mutual

/-- Whatever is inside an expression has frames around it. -/
theorem exists_fill_of_mem_parts :
    ∀ {e part : Expr}, part ∈ e.parts → ∃ frames, e = fill frames part
  | .int _ _, part, mem | .fraction _ _, part, mem | .bool _ _, part, mem | .text _ _, part, mem
  | .command _ _, part, mem | .var _ _, part, mem => by
    rw [Expr.parts] at mem
    cases List.mem_singleton.mp mem
    exact ⟨[], rfl⟩
  | .binary ty op left right, part, mem => by
    rw [Expr.parts] at mem
    rcases List.mem_cons.mp mem with rfl | mem
    · exact ⟨[], rfl⟩
    · rcases List.mem_append.mp mem with mem | mem
      · obtain ⟨frames, rfl⟩ := exists_fill_of_mem_parts mem
        exact ⟨_, (fill_concat frames (.left ty op right) part).symm⟩
      · obtain ⟨frames, rfl⟩ := exists_fill_of_mem_parts mem
        exact ⟨_, (fill_concat frames (.right ty op left) part).symm⟩
  | .unary ty op operand, part, mem => by
    rw [Expr.parts] at mem
    rcases List.mem_cons.mp mem with rfl | mem
    · exact ⟨[], rfl⟩
    · obtain ⟨frames, rfl⟩ := exists_fill_of_mem_parts mem
      cases op with
      | negate => exact ⟨_, (fill_concat frames (.negated ty) part).symm⟩
      | not => exact ⟨_, (fill_concat frames (.inverted ty) part).symm⟩
  | .call ty name args, part, mem => by
    rw [Expr.parts] at mem
    rcases List.mem_cons.mp mem with rfl | mem
    · exact ⟨[], rfl⟩
    · obtain ⟨before, frames, after, rfl⟩ := exists_fill_of_mem_argsParts mem
      exact ⟨_, (fill_concat frames (.argument ty name before after) part).symm⟩
  | .stream ty op left right, part, mem => by
    rw [Expr.parts] at mem
    rcases List.mem_cons.mp mem with rfl | mem
    · exact ⟨[], rfl⟩
    · rcases List.mem_append.mp mem with mem | mem
      · obtain ⟨frames, rfl⟩ := exists_fill_of_mem_parts mem
        exact ⟨_, (fill_concat frames (.upstream ty op right) part).symm⟩
      · obtain ⟨frames, rfl⟩ := exists_fill_of_mem_parts mem
        exact ⟨_, (fill_concat frames (.downstream ty op left) part).symm⟩

/-- A part of one of the arguments stands in frames inside it. -/
theorem exists_fill_of_mem_argsParts :
    ∀ {args : List Expr} {part : Expr}, part ∈ argsParts args →
    ∃ before frames after, args = before ++ fill frames part :: after
  | arg :: rest, part, mem => by
    rw [argsParts] at mem
    rcases List.mem_append.mp mem with mem | mem
    · obtain ⟨frames, rfl⟩ := exists_fill_of_mem_parts mem
      exact ⟨[], frames, rest, rfl⟩
    · obtain ⟨before, frames, after, rfl⟩ := exists_fill_of_mem_argsParts mem
      exact ⟨arg :: before, frames, after, rfl⟩

end

/-- What is inside a resolved expression was resolved in the same scope. -/
theorem exists_source_of_fill {s : Scope} {src : Surface.Expr} {frames : List Frame} {e : Expr}
    (h : resolveExpr s src = .ok (fill frames e)) : ∃ src, resolveExpr s src = .ok e := by
  induction frames generalizing e with
  | nil => exact ⟨src, h⟩
  | cons f frames ih =>
    obtain ⟨outer, isOuter⟩ := ih (e := f.fill e) h
    obtain ⟨inner, -, isInner⟩ := exists_operand isOuter
    exact ⟨inner, isInner⟩

/-- Variables are read with the types that the scope has for them. -/
theorem resolveExpr_hasTypes {s : Scope} {src : Surface.Expr} {e : Expr}
    (h : resolveExpr s src = .ok e) : e.HasTypes s.typeOf := by
  intro ty v isVar
  obtain ⟨frames, rfl⟩ := exists_fill_of_mem_parts isVar
  obtain ⟨inner, isInner⟩ := exists_source_of_fill h
  cases resolveExpr_mirrors s isInner with
  | var =>
    rw [resolveExpr] at isInner
    split at isInner
    case h_1 found =>
      cases isInner
      exact Scope.typeOf_find? found
    case h_2 => cases isInner

/-- Resolving an expression gives its variables the types in scope, and changes none. -/
theorem resolveExpr_types {s : Scope} {src : Surface.Expr} {e : Expr}
    (h : resolveExpr s src = .ok e) : Types s s e.mentions := by
  refine ⟨typed_of_parts fun part mem => ?_, fun v => ?_⟩
  · obtain ⟨frames, rfl⟩ := exists_fill_of_mem_parts mem
    obtain ⟨inner, isInner⟩ := exists_source_of_fill h
    exact resolveExpr_hasTypes isInner
  · rw [typeAfter, e.given_mentions]
    rfl

theorem resolveUpper_types {s : Scope} {src : Option Surface.Expr} {upper : Option Expr}
    (h : resolveUpper s src = .ok upper) : Types s s (upperMentions upper) := by
  cases src with
  | none =>
    cases h
    exact .of_eq fun _ => rfl
  | some src =>
    obtain ⟨e, isUpper, h⟩ := bind_eq_ok.mp h
    cases h
    exact resolveExpr_types isUpper

/-! ## Statements -/

mutual

/-- Statements are resolved in the order of their text. -/
theorem resolveStmt_types :
    ∀ {src : Surface.Stmt} {inLoop : Bool} {s : Scope} {r : Stmt × Scope},
    resolveStmt inLoop s src = .ok r → Types s r.2 r.1.mentions
  | .assign _ name value, inLoop, s, r, h => by
    rw [resolveStmt] at h
    obtain ⟨e, isValue, h⟩ := bind_eq_ok.mp h
    cases h
    rw [Stmt.mentions]
    exact (resolveExpr_types isValue).append (.of_given rfl (s.typeOf_bind name e.ty))
  | .branch _ cond body otherwise, inLoop, s, r, h => by
    rw [resolveStmt] at h
    obtain ⟨e, isCond, h⟩ := bind_eq_ok.mp h
    obtain ⟨first, isBody, h⟩ := bind_eq_ok.mp h
    obtain ⟨chain, isChain, h⟩ := bind_eq_ok.mp h
    cases h
    rw [Stmt.mentions]
    -- the other branches start with the types that the first one leaves
    exact (resolveExpr_types isCond).append
      ((resolveStmts_types isBody).append (resolveElse_types isChain))
  | .loop _ name lower upper body, inLoop, s, r, h => by
    rw [resolveStmt] at h
    obtain ⟨e, isLower, h⟩ := bind_eq_ok.mp h
    obtain ⟨u, isUpper, h⟩ := bind_eq_ok.mp h
    obtain ⟨inner, isBody, h⟩ := bind_eq_ok.mp h
    cases h
    rw [Stmt.mentions]
    have bound : Types s _ [.looped _ (itemTy u)] :=
      .of_given rfl (s.typeOf_bind name (itemTy u))
    exact (resolveExpr_types isLower).append
      ((resolveUpper_types isUpper).append (bound.append (resolveStmts_types isBody)))
  | .ret _ value, inLoop, s, r, h => by
    rw [resolveStmt] at h
    obtain ⟨e, isValue, h⟩ := bind_eq_ok.mp h
    cases h
    rw [Stmt.mentions]
    have noted : Types s (s.noteResult e.ty) [] := .of_eq (s.typeOf_noteResult e.ty)
    simpa using (resolveExpr_types isValue).append noted
  | .jump _ jump, inLoop, s, r, h => by
    rw [resolveStmt] at h
    split at h
    case isTrue =>
      cases h
      rw [Stmt.mentions]
      exact .of_eq fun _ => rfl
    case isFalse => cases h
  | .load _ module, inLoop, s, r, h => by
    cases h
    rw [Stmt.mentions]
    exact .of_eq fun _ => rfl
  | .expr _ expr, inLoop, s, r, h => by
    rw [resolveStmt] at h
    split at h
    case isTrue =>
      obtain ⟨e, isExpr, h⟩ := bind_eq_ok.mp h
      cases h
      rw [Stmt.mentions]
      exact resolveExpr_types isExpr
    case isFalse => cases h

/-- After statements the types in scope are those that the text has given. -/
theorem resolveStmts_types : ∀ {src : List Surface.Stmt} {inLoop : Bool} {s : Scope}
    {r : List Stmt × Scope}, resolveStmts inLoop s src = .ok r → Types s r.2 (stmtsMentions r.1)
  | [], inLoop, s, r, h => by
    cases h
    rw [stmtsMentions]
    exact .of_eq fun _ => rfl
  | stmt :: rest, inLoop, s, r, h => by
    rw [resolveStmts] at h
    obtain ⟨first, isFirst, h⟩ := bind_eq_ok.mp h
    obtain ⟨others, areOthers, h⟩ := bind_eq_ok.mp h
    cases h
    rw [stmtsMentions]
    exact (resolveStmt_types isFirst).append (resolveStmts_types areOthers)

/-- So they are after the branches of a conditional, one of which may have run. -/
theorem resolveElse_types : ∀ {src : Surface.ElseChain} {inLoop : Bool} {s : Scope}
    {r : ElseChain × Scope}, resolveElse inLoop s src = .ok r → Types s r.2 r.1.mentions
  | .done, inLoop, s, r, h => by
    cases h
    rw [ElseChain.mentions]
    exact .of_eq fun _ => rfl
  | .elseIf cond body otherwise, inLoop, s, r, h => by
    rw [resolveElse] at h
    obtain ⟨e, isCond, h⟩ := bind_eq_ok.mp h
    obtain ⟨first, isBody, h⟩ := bind_eq_ok.mp h
    obtain ⟨chain, isChain, h⟩ := bind_eq_ok.mp h
    cases h
    rw [ElseChain.mentions]
    exact (resolveExpr_types isCond).append
      ((resolveStmts_types isBody).append (resolveElse_types isChain))
  | .final body, inLoop, s, r, h => by
    rw [resolveElse] at h
    obtain ⟨first, isBody, h⟩ := bind_eq_ok.mp h
    cases h
    rw [ElseChain.mentions]
    exact resolveStmts_types isBody

end

/-! ## Blocks -/

mutual

/-- The blocks inside a statement, at any depth. -/
def Stmt.blocks : Stmt → List (List Stmt)
  | .assign _ _ => []
  | .branch _ body otherwise => body :: (stmtsBlocks body ++ otherwise.blocks)
  | .loop _ _ _ body => body :: stmtsBlocks body
  | .ret _ => []
  | .jump _ => []
  | .load _ => []
  | .expr _ => []

def stmtsBlocks : List Stmt → List (List Stmt)
  | [] => []
  | stmt :: rest => stmt.blocks ++ stmtsBlocks rest

def ElseChain.blocks : ElseChain → List (List Stmt)
  | .done => []
  | .elseIf _ body otherwise => body :: (stmtsBlocks body ++ otherwise.blocks)
  | .final body => body :: stmtsBlocks body

end

/-- The body of a function, and the blocks inside it. -/
def Function.blocks (f : Function) : List (List Stmt) :=
  match f.body with
  | none => []
  | some body => body :: stmtsBlocks body

mutual

/-- What a block mentions stands together. -/
theorem Stmt.mentions_of_mem_blocks {block : List Stmt} : ∀ {stmt : Stmt}, block ∈ stmt.blocks →
    stmtsMentions block <:+: stmt.mentions
  | .branch cond body otherwise, mem => by
    rw [Stmt.blocks] at mem
    rw [Stmt.mentions]
    refine List.IsInfix.trans ?_ (List.suffix_append _ _).isInfix
    rcases List.mem_cons.mp mem with rfl | mem
    · exact (List.prefix_append _ _).isInfix
    rcases List.mem_append.mp mem with mem | mem
    · exact (stmtsMentions_of_mem_blocks mem).trans (List.prefix_append _ _).isInfix
    · exact (ElseChain.mentions_of_mem_blocks mem).trans (List.suffix_append _ _).isInfix
  | .loop v lower upper body, mem => by
    rw [Stmt.blocks] at mem
    have inside : stmtsMentions block <:+: stmtsMentions body := by
      rcases List.mem_cons.mp mem with rfl | mem
      · exact List.infix_refl _
      · exact stmtsMentions_of_mem_blocks mem
    rw [Stmt.mentions]
    exact (inside.trans (List.suffix_cons _ _).isInfix).trans
      ((List.suffix_append _ _).trans (List.suffix_append _ _)).isInfix

/-- What a block mentions is mentioned together, in the statements around it. -/
theorem stmtsMentions_of_mem_blocks {block : List Stmt} : ∀ {stmts : List Stmt},
    block ∈ stmtsBlocks stmts → stmtsMentions block <:+: stmtsMentions stmts
  | stmt :: rest, mem => by
    rw [stmtsBlocks] at mem
    rw [stmtsMentions]
    rcases List.mem_append.mp mem with mem | mem
    · exact (Stmt.mentions_of_mem_blocks mem).trans (List.prefix_append _ _).isInfix
    · exact (stmtsMentions_of_mem_blocks mem).trans (List.suffix_append _ _).isInfix

theorem ElseChain.mentions_of_mem_blocks {block : List Stmt} : ∀ {chain : ElseChain},
    block ∈ chain.blocks → stmtsMentions block <:+: chain.mentions
  | .elseIf cond body otherwise, mem => by
    rw [ElseChain.blocks] at mem
    rw [ElseChain.mentions]
    refine List.IsInfix.trans ?_ (List.suffix_append _ _).isInfix
    rcases List.mem_cons.mp mem with rfl | mem
    · exact (List.prefix_append _ _).isInfix
    rcases List.mem_append.mp mem with mem | mem
    · exact (stmtsMentions_of_mem_blocks mem).trans (List.prefix_append _ _).isInfix
    · exact (ElseChain.mentions_of_mem_blocks mem).trans (List.suffix_append _ _).isInfix
  | .final body, mem => by
    rw [ElseChain.blocks] at mem
    rw [ElseChain.mentions]
    rcases List.mem_cons.mp mem with rfl | mem
    · exact List.infix_refl _
    · exact stmtsMentions_of_mem_blocks mem

end

/-- So it is in the function that the block is in. -/
theorem Function.mentions_of_mem_blocks {f : Function} {block : List Stmt}
    (mem : block ∈ f.blocks) :
    stmtsMentions block <:+: f.mentions := by
  unfold Function.blocks at mem
  split at mem
  case h_1 => cases mem
  case h_2 body isBody =>
    rw [Function.mentions, isBody]
    rcases List.mem_cons.mp mem with rfl | mem
    · exact List.infix_refl _
    · exact stmtsMentions_of_mem_blocks mem

theorem stmtsMentions_append (xs ys : List Stmt) :
    stmtsMentions (xs ++ ys) = stmtsMentions xs ++ stmtsMentions ys := by
  induction xs with
  | nil => simp [stmtsMentions]
  | cons stmt xs ih => simp [stmtsMentions, ih, List.append_assoc]

/-! ## Outermost expressions -/

/-- What an expression mentions stands in it. -/
theorem Expr.exists_fill_of_mem_mentions {e part : Expr} (mem : .part part ∈ e.mentions) :
    ∃ frames, e = fill frames part := by
  obtain ⟨inner, inside, same⟩ := List.mem_map.mp mem
  cases same
  exact exists_fill_of_mem_parts inside

/-- What the bounds of a loop mention stands in one of them. -/
theorem exists_root_of_bounds {lower e : Expr} {upper : Option Expr}
    (mem : .part e ∈ lower.mentions ++ upperMentions upper) :
    ∃ place frames, (place, fill frames e) ∈ boundRoots lower upper := by
  rcases List.mem_append.mp mem with mem | mem
  · obtain ⟨frames, rfl⟩ := lower.exists_fill_of_mem_mentions mem
    cases upper with
    | none => exact ⟨_, frames, .head _⟩
    | some upper => exact ⟨_, frames, .head _⟩
  · cases upper with
    | none => cases mem
    | some upper =>
      obtain ⟨frames, rfl⟩ := upper.exists_fill_of_mem_mentions mem
      exact ⟨_, frames, .tail _ (.head _)⟩

mutual

/-- All that is mentioned is inside some outermost expression. -/
theorem Stmt.exists_root_of_mem_mentions {e : Expr} : ∀ {stmt : Stmt}, .part e ∈ stmt.mentions →
    ∃ place frames, (place, fill frames e) ∈ stmt.roots
  | .assign v value, mem => by
    simp only [Stmt.mentions, List.mem_append, List.mem_singleton, reduceCtorEq, or_false] at mem
    obtain ⟨frames, rfl⟩ := value.exists_fill_of_mem_mentions mem
    exact ⟨_, frames, by rw [Stmt.roots]; exact .head _⟩
  | .branch cond body otherwise, mem => by
    rw [Stmt.mentions] at mem
    rw [Stmt.roots]
    rcases List.mem_append.mp mem with mem | mem
    · obtain ⟨frames, rfl⟩ := cond.exists_fill_of_mem_mentions mem
      exact ⟨_, frames, .head _⟩
    rcases List.mem_append.mp mem with mem | mem
    · obtain ⟨place, frames, root⟩ := exists_root_of_mem_stmtsMentions mem
      exact ⟨place, frames, .tail _ (List.mem_append_left _ root)⟩
    · obtain ⟨place, frames, root⟩ := ElseChain.exists_root_of_mem_mentions mem
      exact ⟨place, frames, .tail _ (List.mem_append_right _ root)⟩
  | .loop v lower upper body, mem => by
    rw [Stmt.mentions, ← List.append_assoc] at mem
    rw [Stmt.roots]
    rcases List.mem_append.mp mem with mem | mem
    · obtain ⟨place, frames, root⟩ := exists_root_of_bounds mem
      exact ⟨place, frames, List.mem_append_left _ root⟩
    · rcases List.mem_cons.mp mem with same | mem
      · cases same
      · obtain ⟨place, frames, root⟩ := exists_root_of_mem_stmtsMentions mem
        exact ⟨place, frames, List.mem_append_right _ root⟩
  | .ret value, mem => by
    rw [Stmt.mentions] at mem
    obtain ⟨frames, rfl⟩ := value.exists_fill_of_mem_mentions mem
    exact ⟨_, frames, by rw [Stmt.roots]; exact .head _⟩
  | .expr value, mem => by
    rw [Stmt.mentions] at mem
    obtain ⟨frames, rfl⟩ := value.exists_fill_of_mem_mentions mem
    exact ⟨_, frames, by rw [Stmt.roots]; exact .head _⟩
  | .jump _, mem | .load _, mem => by
    rw [Stmt.mentions] at mem
    cases mem

/-- What statements mention stands in one of their outermost expressions. -/
theorem exists_root_of_mem_stmtsMentions {e : Expr} : ∀ {stmts : List Stmt},
    .part e ∈ stmtsMentions stmts → ∃ place frames, (place, fill frames e) ∈ stmtsRoots stmts
  | [], mem => by
    rw [stmtsMentions] at mem
    cases mem
  | stmt :: rest, mem => by
    rw [stmtsMentions] at mem
    rw [stmtsRoots]
    rcases List.mem_append.mp mem with mem | mem
    · obtain ⟨place, frames, root⟩ := Stmt.exists_root_of_mem_mentions mem
      exact ⟨place, frames, List.mem_append_left _ root⟩
    · obtain ⟨place, frames, root⟩ := exists_root_of_mem_stmtsMentions mem
      exact ⟨place, frames, List.mem_append_right _ root⟩

theorem ElseChain.exists_root_of_mem_mentions {e : Expr} : ∀ {chain : ElseChain},
    .part e ∈ chain.mentions → ∃ place frames, (place, fill frames e) ∈ chain.roots
  | .done, mem => by
    rw [ElseChain.mentions] at mem
    cases mem
  | .elseIf cond body otherwise, mem => by
    rw [ElseChain.mentions] at mem
    rw [ElseChain.roots]
    rcases List.mem_append.mp mem with mem | mem
    · obtain ⟨frames, rfl⟩ := cond.exists_fill_of_mem_mentions mem
      exact ⟨_, frames, .head _⟩
    rcases List.mem_append.mp mem with mem | mem
    · obtain ⟨place, frames, root⟩ := exists_root_of_mem_stmtsMentions mem
      exact ⟨place, frames, .tail _ (List.mem_append_left _ root)⟩
    · obtain ⟨place, frames, root⟩ := ElseChain.exists_root_of_mem_mentions mem
      exact ⟨place, frames, .tail _ (List.mem_append_right _ root)⟩
  | .final body, mem => by
    rw [ElseChain.mentions] at mem
    rw [ElseChain.roots]
    exact exists_root_of_mem_stmtsMentions mem

end

/-- What a function mentions stands in an outermost expression of the program. -/
theorem Module.exists_root_of_mem_mentions {module : Module} {f : Function}
    (isFunction : f ∈ module.functions) {e : Expr} (mem : .part e ∈ f.mentions) :
    ∃ place frames, (place, fill frames e) ∈ module.roots := by
  obtain ⟨place, frames, root⟩ := exists_root_of_mem_stmtsMentions mem
  exact ⟨place, frames, List.mem_append_left _ (List.mem_flatMap.mpr ⟨f, isFunction, root⟩)⟩

/-! ## Bound variables -/

@[simp] theorem Event.bound?_bind (v : Variable) : Event.bound? (.bind v) = some v := rfl

@[simp] theorem Event.bound?_jump (inLoop : Bool) : Event.bound? (.jump inLoop) = none := rfl

@[simp] theorem Expr.filterMap_bound?_events (e : Expr) :
    e.events.filterMap Event.bound? = [] := by
  simp [Expr.events, List.filterMap_map, Function.comp_def, Event.bound?]

@[simp] theorem filterMap_bound?_upperEvents (upper : Option Expr) :
    (upperEvents upper).filterMap Event.bound? = [] := by
  cases upper <;> simp [upperEvents]

mutual

/-- The variables that get values are those that are bound. -/
theorem Stmt.map_given_mentions (inLoop : Bool) : ∀ stmt : Stmt,
    (given stmt.mentions).map (·.1) = (stmt.events inLoop).filterMap Event.bound?
  | .assign v value | .ret value | .jump _ | .load _ => by simp [Stmt.mentions, Stmt.events]
  | .expr e => by
    rw [Stmt.mentions, Stmt.events, List.filterMap_cons_none rfl, e.filterMap_bound?_events,
      e.given_mentions]
    rfl
  | .branch cond body otherwise => by
    simp [Stmt.mentions, Stmt.events, stmtsMentions_map_given inLoop body,
      otherwise.map_given_mentions inLoop]
  | .loop v lower upper body => by
    simp [Stmt.mentions, Stmt.events, stmtsMentions_map_given true body]

/-- Variables get values just where names are bound. -/
theorem stmtsMentions_map_given (inLoop : Bool) : ∀ stmts : List Stmt,
    (given (stmtsMentions stmts)).map (·.1) = (stmtsEvents inLoop stmts).filterMap Event.bound?
  | [] => by simp [stmtsMentions, stmtsEvents]
  | stmt :: rest => by
    simp [stmtsMentions, stmtsEvents, stmt.map_given_mentions inLoop,
      stmtsMentions_map_given inLoop rest]

theorem ElseChain.map_given_mentions (inLoop : Bool) : ∀ chain : ElseChain,
    (given chain.mentions).map (·.1) = (chain.events inLoop).filterMap Event.bound?
  | .done => by simp [ElseChain.mentions, ElseChain.events]
  | .elseIf cond body otherwise => by
    simp [ElseChain.mentions, ElseChain.events, stmtsMentions_map_given inLoop body,
      otherwise.map_given_mentions inLoop]
  | .final body => by
    simp [ElseChain.mentions, ElseChain.events, stmtsMentions_map_given inLoop body]

end

/-- A function binds its parameters, and the variables that its body gives values to. -/
def Function.Binds (f : Function) (v : Variable) : Prop :=
  v ∈ f.params ∨ ∃ ty, (v, ty) ∈ given f.mentions

/-- A function binds the variables that it assigns. -/
theorem Function.Binds.of_assigned {f : Function} {v : Variable} {ty : Ty}
    (mem : .assigned v ty ∈ f.mentions) : f.Binds v :=
  .inr ⟨ty, List.mem_filterMap.mpr ⟨_, mem, rfl⟩⟩

/-- It binds the variables of its loops, too. -/
theorem Function.Binds.of_looped {f : Function} {v : Variable} {ty : Ty}
    (mem : .looped v ty ∈ f.mentions) : f.Binds v :=
  .inr ⟨ty, List.mem_filterMap.mpr ⟨_, mem, rfl⟩⟩

/-- A bound variable is one of the function. -/
theorem Function.Binds.mem_variables {f : Function} {v : Variable} (h : f.Binds v) :
    v ∈ f.variables := by
  rcases h with param | ⟨ty, mem⟩
  · exact List.mem_append_left _ param
  · have bound : v ∈ f.events.filterMap Event.bound? := by
      unfold Function.events
      split
      case h_1 none => simp [Function.mentions, none, stmtsMentions] at mem
      case h_2 body isBody =>
        rw [← stmtsMentions_map_given]
        rw [Function.mentions, isBody] at mem
        exact List.mem_map_of_mem mem
    obtain ⟨event, isEvent, isBind⟩ := List.mem_filterMap.mp bound
    refine List.mem_append_right _ (List.mem_flatMap.mpr ⟨event, isEvent, ?_⟩)
    cases event with
    | bind w =>
      cases isBind
      exact List.mem_singleton.mpr rfl
    | _ => cases isBind

/-- A name means one variable in a function. -/
theorem Function.InOrder.eq_of_name {p : Surface.Program} {f : Function} (h : f.InOrder p)
    {v w : Variable} (hv : v ∈ f.variables) (hw : w ∈ f.variables) (same : v.name = w.name) :
    v = w :=
  (same ▸ h.means hv : (f.setting p).Means w.name v).eq (h.means hw)

/-- All functions of a resolved program are in order, the entry function included. -/
theorem ofProgram_inOrder {library : Bool} {p : Surface.Program} {m : Module}
    (obtained : Obtained p) (resolved : Module.ofProgram library p = .ok m) :
    ∀ f ∈ m.functions, f.InOrder p := by
  have filled := obtained.filled
  cases resolvesProgram_iff.mp resolved with
  | made stages _ _ entry =>
    refine List.forall_mem_append.mpr ⟨(stages.inOrder filled).bodies,
      List.forall_mem_singleton.mpr ?_⟩
    exact ⟨by simp, resolveEntry_traced (stages.serves.enter p.entryFile [])
      (fun t mem => filled.topLevel t (entryStatements_subset p mem)) entry⟩
  | kept stages _ _ => exact (stages.inOrder filled).bodies

/-! ## Programs -/

/-- The types at the start of a body: those that the text before it gave to global variables,
while nothing is known of local ones. -/
def startTypes (past : List Mention) (v : Variable) : Ty :=
  typeAfter v .undef (if v.isGlobal then past else [])

/-- A scope has the types that past mentions gave to global variables. -/
def Scope.Follows (s : Scope) (past : List Mention) : Prop :=
  ∀ v : Variable, v.isGlobal = true → s.typeOf v = typeAfter v .undef past

namespace Scope.Follows

variable {s s' : Scope} {past ms : List Mention}

theorem append (h : s.Follows past) (types : Types s s' ms) : s'.Follows (past ++ ms) := by
  intro v isGlobal
  rw [types.after, h v isGlobal, typeAfter_append]

/-- Nothing is known of the parameters of a function. -/
theorem enter (h : s.Follows past) (file : String) (params : List String) :
    (s.enter file params).typeOf = startTypes past := by
  funext v
  cases isGlobal : v.isGlobal with
  | true =>
    rw [startTypes, if_pos isGlobal, ← h v isGlobal]
    simp [Scope.typeOf, Scope.enter, isGlobal]
  | false =>
    have unknown : (Names.get? (params.map fun name => (name, Ty.undef)) v.name).getD .undef =
        .undef := by
      induction params with
      | nil => rfl
      | cons name rest ih =>
        rw [List.map_cons, Names.get?, List.lookup_cons]
        split
        · rfl
        · exact ih
    simp [Scope.typeOf, Scope.enter, startTypes, isGlobal, unknown]

/-- A body that starts with the types of the text before it goes on with those of
the text after it. -/
theorem of_body {past : List Mention} (start : s.typeOf = startTypes past)
    (types : Types s s' ms) :
    Typed (startTypes past) ms ∧ s'.Follows (past ++ ms) := by
  refine ⟨start ▸ types.typed, fun v isGlobal => ?_⟩
  rw [types.after, start, startTypes, if_pos isGlobal, typeAfter_append]

theorem learn (h : s.Follows past) (name : String) : (s.learn name).Follows past := by
  have same : ∀ v, (s.learn name).typeOf v = s.typeOf v := by
    intro v
    unfold Scope.learn
    split <;> rfl
  intro v isGlobal
  rw [same, h v isGlobal]

end Scope.Follows

theorem Scope.first_follows (p : Surface.Program) (signatures : Names Signature) :
    (Scope.first p signatures).Follows [] := by
  have unknown : ∀ (ts : List Surface.TopLevel) (names : Names Ty) (x : String),
      (names.get? x).getD .undef = .undef →
        ((globalNames ts names).get? x).getD .undef = .undef := by
    intro ts
    induction ts with
    | nil => exact fun _ _ h => h
    | cons t ts ih =>
      intro names x h
      unfold globalNames
      split
      case h_1 bad => cases bad
      case h_2 name value file rest _ same =>
        cases same
        refine ih _ x ?_
        rw [Names.get?_put]
        split
        · rfl
        · exact h
      case h_3 same =>
        cases same
        exact ih _ x h
  intro v isGlobal
  simp [Scope.typeOf, Scope.first, isGlobal, unknown _ [] v.name rfl]

/-- The values of global variables, in their order. -/
def valuesMentions (globals : List Assignment) : List Mention :=
  globals.flatMap fun a => a.toStmt.mentions

/-- The values of global variables come first in the text. -/
theorem resolveGlobals_follows {inits : List GlobalInit} {s : Scope} {past : List Mention}
    {r : List Assignment × Scope} (follows : s.Follows past)
    (h : resolveGlobals s inits = .ok r) :
    r.2.Follows (past ++ valuesMentions r.1) := by
  induction inits generalizing s past r with
  | nil =>
    cases h
    simpa [valuesMentions] using follows
  | cons init rest ih =>
    obtain ⟨value, isValue, h⟩ := bind_eq_ok.mp h
    obtain ⟨others, areOthers, h⟩ := bind_eq_ok.mp h
    cases h
    have given : Types { s with file := init.file }
      { s with globals := s.globals.put init.name value.ty }
        [.assigned ⟨init.name, true⟩ value.ty] :=
      .of_given rfl (s.typeOf_putGlobal init.name value.ty)
    have first := follows.append (s := { s with file := init.file })
      ((resolveExpr_types isValue).append given)
    have all := ih (r := others) first areOthers
    rwa [List.append_assoc] at all

/-- The functions of a program read variables with the types that the text before gives them. -/
def TypedFunctions (past : List Mention) (fs : List Function) : Prop :=
  ∀ before f after, fs = before ++ f :: after →
    Typed (startTypes (past ++ before.flatMap Function.mentions)) f.mentions

/-- Functions have the right types if the first one has them, and the others after it. -/
theorem TypedFunctions.cons {past : List Mention} {f : Function} {fs : List Function}
    (h : TypedFunctions (past ++ f.mentions) fs) (first : Typed (startTypes past) f.mentions) :
    TypedFunctions past (f :: fs) := by
  intro before g after split
  obtain ⟨rfl, same⟩ | ⟨rest, rfl, same⟩ := List.cons_eq_append_iff.mp split
  · cases same
    simpa using first
  · rw [List.flatMap_cons, ← List.append_assoc]
    exact h rest g after same

theorem TypedFunctions.concat {past : List Mention} {f : Function} {fs : List Function}
    (h : TypedFunctions past fs)
    (last : Typed (startTypes (past ++ fs.flatMap Function.mentions)) f.mentions) :
    TypedFunctions past (fs ++ [f]) := by
  intro before g after split
  obtain ⟨rest, rfl, same⟩ | ⟨rest, rfl, same⟩ := List.append_eq_append_iff.mp split
  · obtain ⟨rfl, same⟩ | ⟨rest, rfl, bad⟩ := List.cons_eq_append_iff.mp same
    · cases same
      simpa using last
    · simp at bad
  · obtain ⟨rfl, same⟩ | ⟨rest, rfl, same⟩ := List.cons_eq_append_iff.mp same
    · cases same
      simpa using last
    · exact h before g rest rfl

/-- A function starts with the types that the text before it has given, and the scope follows
the text after it. -/
theorem resolveFunction_follows {s : Scope} {f : Surface.Function} {past : List Mention}
    {r : Function × Scope} (follows : s.Follows past) (h : resolveFunction s f = .ok r) :
    Typed (startTypes past) r.1.mentions ∧ r.2.Follows (past ++ r.1.mentions) := by
  rw [resolveFunction] at h
  split at h
  case h_1 =>
    cases h
    refine ⟨fun before e after split => ?_,
      by simpa [Function.mentions, stmtsMentions] using follows⟩
    simp [Function.mentions, stmtsMentions] at split
  case h_2 body _ =>
    obtain ⟨inner, isBody, h⟩ := bind_eq_ok.mp h
    cases h
    obtain ⟨typed, after⟩ :=
      Scope.Follows.of_body (follows.enter _ _) (resolveStmts_types isBody)
    exact ⟨typed, after.learn f.name⟩

/-- So it is with functions, one after the other. -/
theorem resolveFunctions_follows {fs : List Surface.Function} {s : Scope} {past : List Mention}
    {r : List Function × Scope} (follows : s.Follows past) (h : resolveFunctions s fs = .ok r) :
    TypedFunctions past r.1 ∧ r.2.Follows (past ++ r.1.flatMap Function.mentions) := by
  induction fs generalizing s past r with
  | nil =>
    cases h
    exact ⟨fun before f after split => by simp at split, by simpa using follows⟩
  | cons f rest ih =>
    obtain ⟨first, isFirst, h⟩ := bind_eq_ok.mp h
    obtain ⟨others, areOthers, h⟩ := bind_eq_ok.mp h
    cases h
    obtain ⟨typed, after⟩ := resolveFunction_follows follows isFirst
    obtain ⟨typedOthers, last⟩ := ih (r := others) after areOthers
    refine ⟨typedOthers.cons typed, ?_⟩
    rwa [List.flatMap_cons, ← List.append_assoc]

/-- The statements outside functions are resolved in their order, each after those before. -/
theorem resolveEntry_types {ts : List Surface.TopLevel} {s : Scope} {r : List Stmt × Scope}
    (h : resolveEntry s ts = .ok r) : Types s r.2 (stmtsMentions r.1) := by
  induction ts generalizing s r with
  | nil =>
    cases h
    rw [stmtsMentions]
    exact .of_eq fun _ => rfl
  | cons t ts ih =>
    obtain ⟨first, isFirst, h⟩ := bind_eq_ok.mp h
    obtain ⟨others, areOthers, h⟩ := bind_eq_ok.mp h
    cases h
    have moved : Types s { s with file := t.file } [] := .of_eq fun _ => rfl
    rw [stmtsMentions]
    exact moved.append ((resolveStmt_types isFirst).append (ih (r := others) areOthers))

/-- Every function of a resolved program reads each variable with the type of the value that the
text gave to it last: in its own body, or before it if the variable is global. -/
theorem ofProgram_typed {library : Bool} {p : Surface.Program} {m : Module}
    (resolved : Module.ofProgram library p = .ok m) :
    TypedFunctions (valuesMentions m.globals) m.functions := by
  have all {globals : List Assignment} {functions : List Function} {s : Scope}
      (stages : Stages p globals functions s) :
      TypedFunctions (valuesMentions globals) functions ∧
        s.Follows (valuesMentions globals ++ functions.flatMap Function.mentions) := by
    obtain ⟨-, initial, defined⟩ := stages
    exact resolveFunctions_follows
      (resolveGlobals_follows (Scope.first_follows p _) initial) defined
  cases resolvesProgram_iff.mp resolved with
  | made stages _ _ made =>
    obtain ⟨typed, follows⟩ := all stages
    refine typed.concat ?_
    exact (Scope.Follows.of_body (follows.enter _ _) (resolveEntry_types made)).1
  | kept stages _ _ => exact (all stages).1

end Shellwright.Core
