import Shellwright.Proofs.ParserSteps

/-!
# Reading finds what the grammar derives

If the grammar derives a tree from some tokens, the reader takes just these tokens and makes the
same tree of them, whatever follows, as long as it could not go on with what follows.
-/

namespace Shellwright.Surface

variable {eof : Span}

/-- What is left to do at a level after its first operand. -/
def goOn (eof : Span) (level : Option Level) (first : Expr) (rest : List Token) :
    Except ParseError (Expr × List Token) :=
  match level with
  | none => .ok (first, rest)
  | some l => outcome (parseJoints eof l first rest)

/-- The reader makes the tree of the tokens and leaves what follows them. At a level of operators
what follows may go on with operators of that level, so the tree is the first operand there. -/
def Readable (eof : Span) : (rule : Rule) → rule.Tree → List Token → Prop
  | .within tiers, e, us =>
    ∀ level, Level.tiersFrom level = tiers →
      ∃ e' : Expr, e'.placeless = e ∧ ∀ rest, Next (Level.Stops level) rest →
        outcome (parseLevel eof level (us ++ rest)) = goOn eof level e' rest
  | .signed, e, us =>
    ∃ e' : Expr, e'.placeless = e ∧ ∀ rest, Next (· ≠ .symbol .leftParen) rest →
      outcome (parseUnary eof (us ++ rest)) = .ok (e', rest)
  | .primary, e, us =>
    ∃ e' : Expr, e'.placeless = e ∧ ∀ rest, Next (· ≠ .symbol .leftParen) rest →
      outcome (parsePrimary eof (us ++ rest)) = .ok (e', rest)
  | .args, es, us =>
    ∃ es', Expr.placelessList es' = es ∧
      ∀ (close : Token) (rest : List Token), close.lexeme = .symbol .rightParen →
        outcome (parseArgList eof (us ++ close :: rest)) = .ok ((es', close.span), rest)
  | .stmt, s, us =>
    ∃ s' : Stmt, s'.placeless = s ∧ ∀ rest, Next (· ≠ .keyword .elseWord) rest →
      outcome (parseStmt eof (us ++ rest)) = .ok (s', rest)
  | .block, body, us =>
    ∃ body' close, Stmt.placelessList body' = body ∧
      ∀ rest, outcome (parseBlock eof (us ++ rest)) = .ok ((body', close), rest)
  | .stmts, body, us =>
    ∃ body', Stmt.placelessList body' = body ∧
      ∀ (close : Token) (rest : List Token), close.lexeme = .symbol .rightBrace →
        outcome (parseStmts eof (us ++ close :: rest)) = .ok ((body', close.span), rest)
  | .otherwise, chain, us =>
    ∀ last, ∃ (chain' : ElseChain) (stop : Span), chain'.placeless = chain ∧
      ∀ rest, Next (· ≠ .keyword .elseWord) rest →
        outcome (parseElse eof last (us ++ rest)) = .ok ((chain', stop), rest)
  | .body, body, us =>
    ∃ (body' : Option (List Stmt)) (stop : Span), body'.map Stmt.placelessList = body ∧
      ∀ rest, outcome (parseBody eof (us ++ rest)) = .ok ((body', stop), rest)
  | .function file, f, us =>
    ∃ f' : Function, f'.placeless = f ∧
      ∀ rest, outcome (parseFunction eof file (us ++ rest)) = .ok (f', rest)
  | .items file, items, us =>
    ∃ fs ss, (fs.map Function.placeless, ss.map fun t => { t with stmt := t.stmt.placeless }) =
      items ∧ parseItems eof file us = .ok (fs, ss)
  | .program _, _, _ => True

/-- The tokens begin with a lexeme that satisfies `p`. -/
def Begins (p : Lexeme → Bool) (us : List Token) : Prop :=
  ∃ t rest, us = t :: rest ∧ p t.lexeme = true

/-- Tokens that spell a tree begin as its rule does. -/
theorem Derives.begins_tokens {rule : Rule} {xs : List Lexeme} {us : List Token}
    {tree : rule.Tree} (h : Derives rule xs tree) (lexemes : us.map Token.lexeme = xs)
    (nonempty : rule.nonempty = true) : Begins rule.begins us := by
  obtain ⟨x, xs, rfl, begins⟩ := h.begins nonempty
  obtain ⟨t, rest, rfl, rfl, -⟩ := List.map_eq_cons_iff.mp lexemes
  exact ⟨t, rest, rfl, begins⟩

/-- What begins in one way does not begin with a token that does not. -/
theorem Begins.next {p : Lexeme → Bool} {x : Lexeme} {us : List Token} (h : Begins p us)
    (other : p x = false) (rest : List Token) : Next (· ≠ x) (us ++ rest) := by
  obtain ⟨t, us, rfl, begins⟩ := h
  apply Next.cons
  rintro rfl
  rw [other] at begins
  cases begins

/-! ## Expressions -/

/-- What ends a level leaves the tighter ones nothing to go on with. -/
theorem goOn_tighter {l : Level} {rest : List Token} (stops : Next (Level.Stops (some l)) rest)
    (first : Expr) : goOn eof l.tighter first rest = .ok (first, rest) := by
  cases same : l.tighter with
  | none => rfl
  | some l' =>
    have less : Level.weight (some l') < Level.weight (some l) :=
      same ▸ Level.weight_tighter_lt l
    exact outcome_parseJoints_stop (stops.imp fun _ h => h.2 l' less) first

/-- A list of levels that is not empty begins with a level. -/
theorem Level.exists_of_tiersFrom {level : Option Level} {tier : Tier} {tiers : List Tier}
    (h : tiersFrom level = tier :: tiers) :
    ∃ l, level = some l ∧ l.tier = tier ∧ tiersFrom l.tighter = tiers := by
  cases level with
  | none => cases h
  | some l =>
    rw [tiersFrom_some] at h
    exact ⟨l, rfl, List.head_eq_of_cons_eq h, List.tail_eq_of_cons_eq h⟩

theorem unaryOp?_of_beginsPrimary {x : Lexeme} (h : beginsPrimary x = true) :
    unaryOp? x = none := by
  cases x with
  | symbol symbol => cases symbol <;> first | rfl | cases h
  | _ => rfl

/-- The lexemes that come after whole expressions. -/
def endsExpr : Lexeme → Bool
  | .symbol .rightParen | .symbol .comma | .symbol .semicolon | .symbol .range => true
  | _ => false

theorem joint?_of_endsExpr {x : Lexeme} (h : endsExpr x = true) (l : Level) :
    l.joint? x = none := by
  unfold endsExpr at h
  split at h
  all_goals first | cases l <;> rfl | cases h

/-- What ends an expression ends every level of it. -/
theorem stops_of_endsExpr {x : Lexeme} (h : endsExpr x = true) (level : Option Level) :
    Level.Stops level x := by
  refine ⟨?_, fun l _ => joint?_of_endsExpr h l⟩
  rintro rfl
  cases h

namespace Readable

/-- An operand with its signs is an expression of no level. -/
theorem operand {e : Expr} {us : List Token} (h : Readable eof .signed e us) :
    Readable eof (.within []) e us := by
  intro level none
  cases level with
  | some l =>
    rw [Level.tiersFrom_some] at none
    cases none
  | none =>
    obtain ⟨e', placeless, reads⟩ := h
    refine ⟨e', placeless, fun rest stops => ?_⟩
    rw [parseLevel]
    exact reads rest (stops.imp fun _ h => h.1)

/-- An expression of the tighter levels is read on a looser one, if nothing goes on there. -/
theorem tighter {tier : Tier} {tiers : List Tier} {e : Expr} {us : List Token}
    (h : Readable eof (.within tiers) e us) : Readable eof (.within (tier :: tiers)) e us := by
  intro level same
  obtain ⟨l, rfl, rfl, others⟩ := Level.exists_of_tiersFrom same
  obtain ⟨e', placeless, reads⟩ := h l.tighter others
  refine ⟨e', placeless, fun rest stops => ?_⟩
  have first := reads rest (stops.imp fun _ h => h.tighter)
  rw [goOn_tighter stops] at first
  exact outcome_parseLevel_some first

/-- Two operands with an operator between are read as the grammar joins them. What is joined
first stands on the left, so the operator may be followed by another one of its level. -/
theorem joined {tier : Tier} {tiers : List Tier} {left right : Expr} {us vs : List Token}
    {t : Token} {op : Symbol} {join : Expr → Expr → Expr}
    (hl : Readable eof (.within (tier :: tiers)) left us)
    (hr : Readable eof (.within tiers) right vs) (mem : (op, join) ∈ tier)
    (spelled : t.lexeme = .symbol op) :
    Readable eof (.within (tier :: tiers)) (join left right) (us ++ t :: vs) := by
  intro level same
  obtain ⟨left', placelessLeft, readsLeft⟩ := hl level same
  obtain ⟨l, rfl, rfl, others⟩ := Level.exists_of_tiersFrom same
  obtain ⟨right', placelessRight, readsRight⟩ := hr l.tighter others
  obtain ⟨j, joint, rfl⟩ := Level.exists_joint? mem
  rw [← spelled] at joint
  refine ⟨j.join left' right', by rw [Joint.join_placeless, placelessLeft, placelessRight], ?_⟩
  intro rest stops
  -- The left operand goes up to this operator; the operator then takes the right operand whole.
  have first := readsLeft (t :: (vs ++ rest)) (.cons (.of_joint? joint))
  have second := readsRight rest (stops.imp fun _ h => h.tighter)
  rw [goOn_tighter stops] at second
  rw [List.append_assoc, List.cons_append, first]
  exact outcome_parseJoints_joint joint second left'

/-- An expression is read whole before a token that ends expressions. -/
theorem expr {e : Expr} {us : List Token} (h : Readable eof .expr e us) :
    ∃ e' : Expr, e'.placeless = e ∧ ∀ (t : Token) (rest : List Token), endsExpr t.lexeme = true →
      outcome (parseExpr eof (us ++ t :: rest)) = .ok (e', t :: rest) := by
  obtain ⟨e', placeless, reads⟩ := h (some .pipe) rfl
  refine ⟨e', placeless, fun t rest ends => ?_⟩
  have whole := reads (t :: rest) (.cons (stops_of_endsExpr ends _))
  have stop : outcome (parseJoints eof .pipe e' (t :: rest)) = .ok (e', t :: rest) :=
    outcome_parseJoints_stop (.cons (joint?_of_endsExpr ends .pipe)) e'
  exact whole.trans stop

/-- A primary expression is read as an operand without sign. -/
theorem plain {e : Expr} {us : List Token} (h : Readable eof .primary e us)
    (begins : Begins beginsPrimary us) : Readable eof .signed e us := by
  obtain ⟨e', placeless, reads⟩ := h
  obtain ⟨t, us, rfl, primary⟩ := begins
  refine ⟨e', placeless, fun rest next => ?_⟩
  exact (outcome_parseUnary_plain (unaryOp?_of_beginsPrimary primary)).trans (reads rest next)

/-- A sign before an operand is read as such. -/
theorem sign {e : Expr} {us : List Token} {t : Token} {symbol : Symbol} {op : UnaryOp}
    (h : Readable eof .signed e us) (mem : (symbol, op) ∈ signs)
    (spelled : t.lexeme = .symbol symbol) :
    Readable eof .signed (.unary .zero op e) (t :: us) := by
  obtain ⟨e', rfl, reads⟩ := h
  have isSign : unaryOp? t.lexeme = some op := by
    rw [spelled]
    simp only [signs, List.mem_cons, List.not_mem_nil, Prod.mk.injEq, or_false] at mem
    rcases mem with ⟨rfl, rfl⟩ | ⟨rfl, rfl⟩
    · rfl
    · rfl
  exact ⟨_, by rw [Expr.placeless],
    fun rest next => outcome_parseUnary_sign isSign (reads rest next)⟩

/-- A token that is an expression of its own, which `make` gives for each place of the token. -/
theorem literal {e : Expr} {x : Lexeme} {us : List Token} (make : Span → Nat → Expr)
    (placeless : ∀ span body, (make span body).placeless = e)
    (reads : ∀ span body rest,
      outcome (parsePrimary eof (⟨x, span, body⟩ :: rest)) = .ok (make span body, rest))
    (lexemes : us.map Token.lexeme = [x]) : Readable eof .primary e us := by
  obtain ⟨⟨lexeme, span, body⟩, rfl, rfl⟩ := List.map_eq_singleton_iff.mp lexemes
  exact ⟨make span body, placeless span body, fun rest _ => reads span body rest⟩

theorem var {t : Token} {name : String} (named : t.lexeme = .ident name) :
    Readable eof .primary (.var .zero name) [t] :=
  ⟨.var t.span name, by rw [Expr.placeless], fun _ next => outcome_parsePrimary_var named next⟩

/-- An expression in brackets is read as a primary one. -/
theorem brackets {e : Expr} {us : List Token} {t close : Token} (h : Readable eof .expr e us)
    (opens : t.lexeme = .symbol .leftParen) (closes : close.lexeme = .symbol .rightParen) :
    Readable eof .primary e (t :: (us ++ [close])) := by
  obtain ⟨e', rfl, reads⟩ := h.expr
  refine ⟨_, Expr.withSpan_placeless (t.span.merge close.span) e', fun rest _ => ?_⟩
  have inner := reads close rest (by rw [closes]; rfl)
  have regroup : t :: (us ++ [close]) ++ rest = t :: (us ++ close :: rest) := by simp
  rw [regroup]
  exact outcome_parsePrimary_brackets opens closes inner

/-- A name and arguments in brackets are read as a call. -/
theorem call {es : List Expr} {us : List Token} {t opened close : Token} {name : String}
    (h : Readable eof .args es us) (begins : Begins beginsExpr us)
    (named : t.lexeme = .ident name) (opens : opened.lexeme = .symbol .leftParen)
    (closes : close.lexeme = .symbol .rightParen) :
    Readable eof .primary (.call .zero name es) (t :: opened :: (us ++ [close])) := by
  obtain ⟨es', rfl, reads⟩ := h
  refine ⟨.call (t.span.merge close.span) name es', by rw [Expr.placeless], fun rest _ => ?_⟩
  have args : outcome (parseArgs eof (us ++ close :: rest)) = .ok ((es', close.span), rest) :=
    (outcome_parseArgs_list (begins.next rfl _)).trans (reads close rest closes)
  have regroup : t :: opened :: (us ++ [close]) ++ rest =
      t :: opened :: (us ++ close :: rest) := by
    simp
  rw [regroup]
  exact outcome_parsePrimary_call named opens args

theorem bareCall {t opened close : Token} {name : String} (named : t.lexeme = .ident name)
    (opens : opened.lexeme = .symbol .leftParen) (closes : close.lexeme = .symbol .rightParen) :
    Readable eof .primary (.call .zero name []) [t, opened, close] := by
  refine ⟨.call (t.span.merge close.span) name [],
    by simp [Expr.placeless, Expr.placelessList], ?_⟩
  intro rest _
  exact outcome_parsePrimary_call named opens (outcome_parseArgs_none closes rest)

theorem arg {e : Expr} {us : List Token} (h : Readable eof .expr e us) :
    Readable eof .args [e] us := by
  obtain ⟨e', rfl, reads⟩ := h.expr
  refine ⟨[e'], by simp [Expr.placelessList], fun close rest closes => ?_⟩
  exact outcome_parseArgList_last closes (reads close rest (by rw [closes]; rfl))

/-- An argument, a comma and more arguments are read as the list of all. -/
theorem argsMore {e : Expr} {es : List Expr} {us vs : List Token} {comma : Token}
    (first : Readable eof .expr e us) (others : Readable eof .args es vs)
    (separates : comma.lexeme = .symbol .comma) :
    Readable eof .args (e :: es) (us ++ comma :: vs) := by
  obtain ⟨e', rfl, readsFirst⟩ := first.expr
  obtain ⟨es', rfl, readsOthers⟩ := others
  refine ⟨e' :: es', by rw [Expr.placelessList], fun close rest closes => ?_⟩
  rw [List.append_assoc, List.cons_append]
  exact outcome_parseArgList_more separates (readsFirst comma _ (by rw [separates]; rfl))
    (readsOthers close rest closes)

/-! ## Statements -/

/-- An expression and the semicolon after it. -/
theorem exprEnd {e : Expr} {us : List Token} {stop : Token} (h : Readable eof .expr e us)
    (stops : stop.lexeme = .symbol .semicolon) :
    ∃ e' : Expr, e'.placeless = e ∧
      ∀ rest, outcome (parseExprEnd eof (us ++ stop :: rest)) = .ok ((e', stop.span), rest) := by
  obtain ⟨e', placeless, reads⟩ := h.expr
  exact ⟨e', placeless, fun rest =>
    outcome_parseExprEnd stops (reads stop rest (by rw [stops]; rfl))⟩

/-- An expression in brackets that decides about a branch. -/
theorem condition {e : Expr} {us : List Token} {opened close : Token}
    (h : Readable eof .expr e us) (opens : opened.lexeme = .symbol .leftParen)
    (closes : close.lexeme = .symbol .rightParen) :
    ∃ e' : Expr, e'.placeless = e ∧
      ∀ rest, outcome (parseCondition eof (opened :: (us ++ close :: rest))) =
        .ok (e', rest) := by
  obtain ⟨e', placeless, reads⟩ := h.expr
  exact ⟨e', placeless, fun rest =>
    outcome_parseCondition opens closes (reads close rest (by rw [closes]; rfl))⟩

/-- A condition in brackets, a block and the branches after it are read as a branch. -/
theorem branch {cond : Expr} {body : List Stmt} {chain : ElseChain} {us vs ws : List Token}
    {t opened close : Token} (hc : Readable eof .expr cond us) (hb : Readable eof .block body vs)
    (ho : Readable eof .otherwise chain ws) (word : t.lexeme = .keyword .ifWord)
    (opens : opened.lexeme = .symbol .leftParen) (closes : close.lexeme = .symbol .rightParen) :
    Readable eof .stmt (.branch .zero cond body chain)
      (t :: opened :: (us ++ close :: (vs ++ ws))) := by
  obtain ⟨cond', rfl, readsCond⟩ := hc.condition opens closes
  obtain ⟨body', last, rfl, readsBody⟩ := hb
  obtain ⟨chain', stop, rfl, readsChain⟩ := ho last
  refine ⟨.branch (t.span.merge stop) cond' body' chain', by rw [Stmt.placeless], ?_⟩
  intro rest next
  have regroup : t :: opened :: (us ++ close :: (vs ++ ws)) ++ rest =
      t :: opened :: (us ++ close :: (vs ++ (ws ++ rest))) := by simp
  rw [regroup]
  exact outcome_parseStmt_branch word (readsCond _) (readsBody _) (readsChain rest next)

/-- A loop over one expression is read as such. -/
theorem loopOver {e : Expr} {body : List Stmt} {us vs : List Token} {var : String}
    {t opened name word close : Token} (he : Readable eof .expr e us)
    (hb : Readable eof .block body vs) (forWord : t.lexeme = .keyword .forWord)
    (opens : opened.lexeme = .symbol .leftParen) (named : name.lexeme = .ident var)
    (inWord : word.lexeme = .keyword .inWord) (closes : close.lexeme = .symbol .rightParen) :
    Readable eof .stmt (.loop .zero var e none body)
      (t :: opened :: name :: word :: (us ++ close :: vs)) := by
  obtain ⟨e', rfl, readsExpr⟩ := he.expr
  obtain ⟨body', last, rfl, readsBody⟩ := hb
  refine ⟨.loop (t.span.merge last) var e' none body', by rw [Stmt.placeless]; rfl, ?_⟩
  intro rest _
  have regroup : t :: opened :: name :: word :: (us ++ close :: vs) ++ rest =
      t :: opened :: name :: word :: (us ++ close :: (vs ++ rest)) := by simp
  have bounds := outcome_parseBounds_over closes
    (readsExpr close (vs ++ rest) (by rw [closes]; rfl))
  rw [regroup]
  exact outcome_parseStmt_loop forWord (outcome_parseLoopHead opens named inWord bounds)
    (readsBody rest)

/-- A loop from a bound to another one is read as such. -/
theorem loopRange {lower upper : Expr} {body : List Stmt} {us vs ws : List Token} {var : String}
    {t opened name word dots close : Token} (hl : Readable eof .expr lower us)
    (hu : Readable eof .expr upper vs) (hb : Readable eof .block body ws)
    (forWord : t.lexeme = .keyword .forWord) (opens : opened.lexeme = .symbol .leftParen)
    (named : name.lexeme = .ident var) (inWord : word.lexeme = .keyword .inWord)
    (ranges : dots.lexeme = .symbol .range) (closes : close.lexeme = .symbol .rightParen) :
    Readable eof .stmt (.loop .zero var lower (some upper) body)
      (t :: opened :: name :: word :: (us ++ dots :: (vs ++ close :: ws))) := by
  obtain ⟨lower', rfl, readsLower⟩ := hl.expr
  obtain ⟨upper', rfl, readsUpper⟩ := hu.expr
  obtain ⟨body', last, rfl, readsBody⟩ := hb
  refine ⟨.loop (t.span.merge last) var lower' (some upper') body',
    by rw [Stmt.placeless]; rfl, ?_⟩
  intro rest _
  have regroup : t :: opened :: name :: word :: (us ++ dots :: (vs ++ close :: ws)) ++ rest =
      t :: opened :: name :: word :: (us ++ dots :: (vs ++ close :: (ws ++ rest))) := by simp
  have bounds := outcome_parseBounds_range ranges closes
    (readsLower dots _ (by rw [ranges]; rfl))
    (readsUpper close (ws ++ rest) (by rw [closes]; rfl))
  rw [regroup]
  exact outcome_parseStmt_loop forWord (outcome_parseLoopHead opens named inWord bounds)
    (readsBody rest)

/-- A statement that holds no other is read as such. -/
theorem ofSimple {s : Stmt} {us : List Token} (s' : Stmt) (placeless : s'.placeless = s)
    (begins : Begins (fun x => x ≠ .keyword .ifWord ∧ x ≠ .keyword .forWord) us)
    (reads : ∀ rest, outcome (parseSimple eof (us ++ rest)) = .ok (s', rest)) :
    Readable eof .stmt s us := by
  refine ⟨s', placeless, fun rest _ => ?_⟩
  have simple := reads rest
  obtain ⟨t, us, rfl, other⟩ := begins
  exact (outcome_parseStmt_simple (.cons (of_decide_eq_true other))).trans simple

theorem load {t name stop : Token} {module : String} (word : t.lexeme = .keyword .importWord)
    (named : name.lexeme = .ident module ∨ name.lexeme = .text module)
    (stops : stop.lexeme = .symbol .semicolon) :
    Readable eof .stmt (.load .zero module) [t, name, stop] := by
  refine .ofSimple (.load (t.span.merge stop.span) module) (by rw [Stmt.placeless])
    ⟨t, _, rfl, by rw [word]; rfl⟩ fun rest => ?_
  exact outcome_parseSimple_load word named stops

theorem ret {e : Expr} {us : List Token} {t stop : Token} (h : Readable eof .expr e us)
    (begins : Begins beginsExpr us) (word : t.lexeme = .keyword .returnWord)
    (stops : stop.lexeme = .symbol .semicolon) :
    Readable eof .stmt (.ret .zero e) (t :: (us ++ [stop])) := by
  obtain ⟨e', rfl, reads⟩ := h.exprEnd stops
  refine .ofSimple (.ret (t.span.merge stop.span) e') (by rw [Stmt.placeless])
    ⟨t, _, rfl, by rw [word]; rfl⟩ fun rest => ?_
  have regroup : t :: (us ++ [stop]) ++ rest = t :: (us ++ stop :: rest) := by simp
  rw [regroup]
  exact outcome_parseSimple_ret word (begins.next rfl _) (reads rest)

theorem jump {t stop : Token} {jump : Jump}
    (word : t.lexeme = .keyword
      (match jump with | .leave => .breakWord | .next => .continueWord))
    (stops : stop.lexeme = .symbol .semicolon) :
    Readable eof .stmt (.jump .zero jump) [t, stop] := by
  refine .ofSimple (.jump (t.span.merge stop.span) jump) (by rw [Stmt.placeless])
    ⟨t, _, rfl, by rw [word]; cases jump <;> rfl⟩ fun rest => ?_
  exact outcome_parseSimple_jump word stops

/-- A name, the sign of assignment and an expression are read as an assignment. -/
theorem assign {e : Expr} {us : List Token} {t sign stop : Token} {name : String}
    (h : Readable eof .expr e us) (named : t.lexeme = .ident name)
    (assigns : sign.lexeme = .symbol .assign) (stops : stop.lexeme = .symbol .semicolon) :
    Readable eof .stmt (.assign .zero name e) (t :: sign :: (us ++ [stop])) := by
  obtain ⟨e', rfl, reads⟩ := h.exprEnd stops
  refine .ofSimple (.assign (t.span.merge stop.span) name e') (by rw [Stmt.placeless])
    ⟨t, _, rfl, by rw [named]; rfl⟩ fun rest => ?_
  have regroup : t :: sign :: (us ++ [stop]) ++ rest = t :: sign :: (us ++ stop :: rest) := by
    simp
  rw [regroup]
  exact outcome_parseSimple_assign named assigns (reads rest)

/-- An expression is no assignment, as it holds no assignment sign and a semicolon follows it. -/
theorem exprStmt {e : Expr} {us : List Token} {stop : Token} (h : Readable eof .expr e us)
    (begins : Begins beginsExpr us) (noAssign : .symbol .assign ∉ us.map Token.lexeme)
    (stops : stop.lexeme = .symbol .semicolon) :
    Readable eof .stmt (.expr .zero e) (us ++ [stop]) := by
  obtain ⟨e', rfl, reads⟩ := h.exprEnd stops
  obtain ⟨t, us, rfl, expr⟩ := begins
  have other : decide (t.lexeme ≠ .keyword .ifWord ∧ t.lexeme ≠ .keyword .forWord) = true := by
    apply decide_eq_true
    constructor
    · intro same
      rw [same] at expr
      cases expr
    · intro same
      rw [same] at expr
      cases expr
  refine .ofSimple (.expr (t.span.merge stop.span) e') (by rw [Stmt.placeless])
    ⟨t, us ++ [stop], rfl, other⟩ fun rest => ?_
  have next : Next (· ≠ .symbol .assign) (us ++ stop :: rest) := by
    cases us with
    | nil => exact .cons (by rw [stops]; nofun)
    | cons t' us =>
      refine .cons fun same => noAssign ?_
      simp [same]
  have regroup : t :: us ++ [stop] ++ rest = t :: (us ++ stop :: rest) := by simp
  rw [regroup]
  exact outcome_parseSimple_expr expr next (reads rest)

/-- Statements in braces are read as a block. -/
theorem block {body : List Stmt} {us : List Token} {t close : Token}
    (h : Readable eof .stmts body us) (opens : t.lexeme = .symbol .leftBrace)
    (closes : close.lexeme = .symbol .rightBrace) :
    Readable eof .block body (t :: (us ++ [close])) := by
  obtain ⟨body', rfl, reads⟩ := h
  refine ⟨body', close.span, rfl, fun rest => ?_⟩
  have regroup : t :: (us ++ [close]) ++ rest = t :: (us ++ close :: rest) := by simp
  rw [regroup]
  exact outcome_parseBlock opens (reads close rest closes)

/-- After a statement there is another one or the closing brace, so never an `else`. -/
theorem stmtsMore {s : Stmt} {ss : List Stmt} {us vs : List Token} (hs : Readable eof .stmt s us)
    (hss : Readable eof .stmts ss vs) (begins : Begins beginsStmt us)
    (follows : Next (· ≠ .keyword .elseWord) vs) : Readable eof .stmts (s :: ss) (us ++ vs) := by
  obtain ⟨s', rfl, readsFirst⟩ := hs
  obtain ⟨ss', rfl, readsOthers⟩ := hss
  refine ⟨s' :: ss', by rw [Stmt.placelessList], fun close rest closes => ?_⟩
  have next : Next (· ≠ .keyword .elseWord) (vs ++ close :: rest) :=
    follows.append (.cons (by rw [closes]; nofun))
  have first := readsFirst _ next
  have others := readsOthers close rest closes
  have notClosed : Next (· ≠ .symbol .rightBrace) (us ++ (vs ++ close :: rest)) :=
    begins.next rfl _
  rw [List.append_assoc]
  obtain ⟨t, us, rfl, -⟩ := begins
  exact outcome_parseStmts_more (notClosed t rfl) first others

/-- The words `else` and `if` are read as the beginning of a further branch. -/
theorem elseIf {cond : Expr} {body : List Stmt} {chain : ElseChain} {us vs ws : List Token}
    {t t' opened close : Token} (hc : Readable eof .expr cond us)
    (hb : Readable eof .block body vs) (ho : Readable eof .otherwise chain ws)
    (word : t.lexeme = .keyword .elseWord) (word' : t'.lexeme = .keyword .ifWord)
    (opens : opened.lexeme = .symbol .leftParen) (closes : close.lexeme = .symbol .rightParen) :
    Readable eof .otherwise (.elseIf cond body chain)
      (t :: t' :: opened :: (us ++ close :: (vs ++ ws))) := by
  intro last
  obtain ⟨cond', rfl, readsCond⟩ := hc.condition opens closes
  obtain ⟨body', close', rfl, readsBody⟩ := hb
  obtain ⟨chain', stop, rfl, readsChain⟩ := ho close'
  refine ⟨.elseIf cond' body' chain', stop, by rw [ElseChain.placeless], fun rest next => ?_⟩
  have regroup : t :: t' :: opened :: (us ++ close :: (vs ++ ws)) ++ rest =
      t :: t' :: opened :: (us ++ close :: (vs ++ (ws ++ rest))) := by simp
  rw [regroup]
  exact outcome_parseElse_elseIf word word' (readsCond _) (readsBody _)
    (readsChain rest next) last

/-- The word `else` and a block are read as the last branch. -/
theorem final {body : List Stmt} {us : List Token} {t : Token} (h : Readable eof .block body us)
    (begins : Begins (· = .symbol .leftBrace) us) (word : t.lexeme = .keyword .elseWord) :
    Readable eof .otherwise (.final body) (t :: us) := by
  intro last
  obtain ⟨body', close, rfl, reads⟩ := h
  refine ⟨.final body', close, by rw [ElseChain.placeless], fun rest _ => ?_⟩
  exact outcome_parseElse_final word (begins.next rfl _) (reads rest) last

/-! ## Functions and programs -/

theorem declared {stop : Token} (stops : stop.lexeme = .symbol .semicolon) :
    Readable eof .body none [stop] :=
  ⟨none, stop.span, rfl, fun rest => outcome_parseBody_none stops rest⟩

theorem defined {body : List Stmt} {us : List Token} (h : Readable eof .block body us)
    (begins : Begins (· = .symbol .leftBrace) us) : Readable eof .body (some body) us := by
  obtain ⟨body', close, rfl, reads⟩ := h
  exact ⟨some body', close, rfl, fun rest =>
    outcome_parseBody_some (begins.next rfl _) (reads rest)⟩

/-- Parameters are read one by one; those already read are in `seen`. -/
theorem params (eof : Span) (seen : List Param) {first : String} {others : List String}
    {us : List Token} {close : Token} (lexemes : us.map Token.lexeme = commas (first :: others))
    (distinct : (seen.map (·.name) ++ first :: others).Nodup)
    (closes : close.lexeme = .symbol .rightParen) :
    ∃ new : List Param, new.map (·.name) = first :: others ∧
      ∀ rest, outcome (parseParams eof seen (us ++ close :: rest)) =
        .ok (seen ++ new, rest) := by
  have fresh : first ∉ seen.map (·.name) := by
    intro mem
    exact (List.nodup_append.mp distinct).2.2 first mem first List.mem_cons_self rfl
  induction others generalizing first seen us with
  | nil =>
    obtain ⟨t, us, rfl, named, none⟩ := List.map_eq_cons_iff.mp lexemes
    obtain rfl := List.map_eq_nil_iff.mp none
    exact ⟨[⟨first, t.span⟩], rfl, fun rest => outcome_parseParams_last named fresh closes rest⟩
  | cons second others ih =>
    rw [commas_cons_cons] at lexemes
    obtain ⟨t, us, rfl, named, lexemes⟩ := List.map_eq_cons_iff.mp lexemes
    obtain ⟨comma, us, rfl, separates, lexemes⟩ := List.map_eq_cons_iff.mp lexemes
    let param : Param := ⟨first, t.span⟩
    have distinct' : ((seen ++ [param]).map (·.name) ++ second :: others).Nodup := by
      simpa [param] using distinct
    have fresh' : second ∉ (seen ++ [param]).map (·.name) := by
      intro mem
      exact (List.nodup_append.mp distinct').2.2 second mem second List.mem_cons_self rfl
    obtain ⟨new, names, reads⟩ := ih (seen ++ [param]) lexemes distinct' fresh'
    refine ⟨param :: new, by rw [List.map_cons, names], fun rest => ?_⟩
    have more := reads rest
    rw [List.append_assoc] at more
    exact (outcome_parseParams_more named fresh separates _).trans more

/-- Names with commas between, no two the same, are read as parameters. -/
theorem paramList (eof : Span) {names : List String} {us : List Token} {close : Token}
    (lexemes : us.map Token.lexeme = commas names) (distinct : names.Nodup)
    (closes : close.lexeme = .symbol .rightParen) :
    ∃ params : List Param, params.map (·.name) = names ∧
      ∀ rest, outcome (parseParamList eof (us ++ close :: rest)) = .ok (params, rest) := by
  cases names with
  | nil =>
    obtain rfl := List.map_eq_nil_iff.mp lexemes
    exact ⟨[], rfl, fun rest => outcome_parseParamList_none closes rest⟩
  | cons first others =>
    obtain ⟨params, names, reads⟩ := params eof [] lexemes distinct closes
    refine ⟨params, names, fun rest => ?_⟩
    have begins : Begins (· = .ident first) us := by
      have head : us.map Token.lexeme = .ident first :: (commas (first :: others)).tail := by
        rw [lexemes]
        cases others <;> rfl
      obtain ⟨t, us, rfl, named, -⟩ := List.map_eq_cons_iff.mp head
      exact ⟨t, us, rfl, decide_eq_true named⟩
    exact (outcome_parseParamList_some (begins.next rfl _)).trans (reads rest)

/-- A function of the grammar is read as that function. -/
theorem function {file name : String} {names : List String} {us vs : List Token}
    {body : Option (List Stmt)} {t t' opened close : Token}
    (lexemes : us.map Token.lexeme = commas names) (distinct : names.Nodup)
    (h : Readable eof .body body vs) (word : t.lexeme = .keyword .define)
    (named : t'.lexeme = .ident name) (opens : opened.lexeme = .symbol .leftParen)
    (closes : close.lexeme = .symbol .rightParen) :
    Readable eof (.function file) ⟨name, names.map (⟨·, .zero⟩), body, .zero, file⟩
      (t :: t' :: opened :: (us ++ close :: vs)) := by
  obtain ⟨params, rfl, readsParams⟩ := paramList eof lexemes distinct closes
  obtain ⟨body', stop, rfl, readsBody⟩ := h
  refine ⟨⟨name, params, body', t.span.merge stop, file⟩, ?_, fun rest => ?_⟩
  · simp [Function.placeless]
  have regroup : t :: t' :: opened :: (us ++ close :: vs) ++ rest =
      t :: t' :: opened :: (us ++ close :: (vs ++ rest)) := by simp
  rw [regroup]
  exact outcome_parseFunction word named opens (readsParams _) (readsBody rest)

/-- A function and the rest of a file are read as the file. -/
theorem itemFunction {file : String} {f : Function} {fs : List Function} {ss : List TopLevel}
    {us vs : List Token} (hf : Readable eof (.function file) f us)
    (hi : Readable eof (.items file) (fs, ss) vs) (begins : Begins (· = .keyword .define) us) :
    Readable eof (.items file) (f :: fs, ss) (us ++ vs) := by
  obtain ⟨f', rfl, readsFunction⟩ := hf
  obtain ⟨fs', ss', same, readsItems⟩ := hi
  cases same
  refine ⟨f' :: fs', ss', rfl, ?_⟩
  have first := readsFunction vs
  obtain ⟨t, us, rfl, word⟩ := begins
  exact parseItems_function (of_decide_eq_true word) first readsItems

/-- So are a statement and the rest of a file. -/
theorem itemStmt {file : String} {s : Stmt} {fs : List Function} {ss : List TopLevel}
    {us vs : List Token} (hs : Readable eof .stmt s us)
    (hi : Readable eof (.items file) (fs, ss) vs) (begins : Begins beginsStmt us)
    (follows : Next (· ≠ .keyword .elseWord) vs) :
    Readable eof (.items file) (fs, ⟨s, file⟩ :: ss) (us ++ vs) := by
  obtain ⟨s', rfl, readsStmt⟩ := hs
  obtain ⟨fs', ss', same, readsItems⟩ := hi
  cases same
  refine ⟨fs', ⟨s', file⟩ :: ss', rfl, ?_⟩
  have first := readsStmt vs follows
  have notDefine : Next (· ≠ .keyword .define) (us ++ vs) := begins.next rfl _
  obtain ⟨t, us, rfl, -⟩ := begins
  exact parseItems_stmt (notDefine t rfl) first readsItems

end Readable

/-! ## All rules together -/

/-- Tokens around a token. -/
theorem map_lexeme_eq_append_cons {us : List Token} {xs ys : List Lexeme} {x : Lexeme}
    (h : us.map Token.lexeme = xs ++ x :: ys) :
    ∃ vs t ws, us = vs ++ t :: ws ∧ vs.map Token.lexeme = xs ∧ t.lexeme = x ∧
      ws.map Token.lexeme = ys := by
  obtain ⟨vs, ws, rfl, first, second⟩ := List.map_eq_append_iff.mp h
  obtain ⟨t, ws, rfl, spelled, second⟩ := List.map_eq_cons_iff.mp second
  exact ⟨vs, t, ws, rfl, first, spelled, second⟩

/-- Tokens before a last token. -/
theorem map_lexeme_eq_concat {us : List Token} {xs : List Lexeme} {x : Lexeme}
    (h : us.map Token.lexeme = xs ++ [x]) :
    ∃ vs t, us = vs ++ [t] ∧ vs.map Token.lexeme = xs ∧ t.lexeme = x := by
  obtain ⟨vs, t, ws, rfl, first, spelled, none⟩ := map_lexeme_eq_append_cons h
  obtain rfl := List.map_eq_nil_iff.mp none
  exact ⟨vs, t, rfl, first, spelled⟩

/-- Whatever the grammar derives is read, by induction on the derivation. -/
theorem Derives.readable {rule : Rule} {xs : List Lexeme} {tree : rule.Tree}
    (h : Derives rule xs tree) (eof : Span) {us : List Token}
    (lexemes : us.map Token.lexeme = xs) :
    Readable eof rule tree us := by
  -- A rule cuts its lexemes, and each case cuts the tokens at the same points.
  induction h generalizing us with
  | operand _ ih => exact (ih lexemes).operand
  | tighter _ ih => exact (ih lexemes).tighter
  | joined mem _ _ ihLeft ihRight =>
    obtain ⟨us, t, vs, rfl, left, spelled, right⟩ := map_lexeme_eq_append_cons lexemes
    exact (ihLeft left).joined (ihRight right) mem spelled
  | plain derived ih => exact (ih lexemes).plain (derived.begins_tokens lexemes rfl)
  | sign mem _ ih =>
    obtain ⟨t, us, rfl, spelled, lexemes⟩ := List.map_eq_cons_iff.mp lexemes
    exact (ih lexemes).sign mem spelled
  | int value =>
    refine .literal (fun span _ => .int span value) (fun _ _ => ?_) (fun _ _ _ => ?_) lexemes
    · rw [Expr.placeless]
    · rw [parsePrimary.eq_def]
      rfl
  | fraction value =>
    refine .literal (fun span _ => .fraction span value) (fun _ _ => ?_) (fun _ _ _ =>
      ?_) lexemes
    · rw [Expr.placeless]
    · rw [parsePrimary.eq_def]
      rfl
  | trueWord =>
    refine .literal (fun span _ => .bool span true) (fun _ _ => ?_) (fun _ _ _ => ?_) lexemes
    · rw [Expr.placeless]
    · rw [parsePrimary.eq_def]
      rfl
  | falseWord =>
    refine .literal (fun span _ => .bool span false) (fun _ _ => ?_) (fun _ _ _ => ?_) lexemes
    · rw [Expr.placeless]
    · rw [parsePrimary.eq_def]
      rfl
  | text raw =>
    refine .literal (fun span body => .text span (Segment.split body raw)) (fun _ _ => ?_)
      (fun _ _ _ => ?_) lexemes
    · rw [Expr.placeless, Segment.map_placeless_split]
    · rw [parsePrimary.eq_def]
      rfl
  | command raw =>
    refine .literal (fun span body => .command span (Segment.split body raw)) (fun _ _ => ?_)
      (fun _ _ _ => ?_) lexemes
    · rw [Expr.placeless, Segment.map_placeless_split]
    · rw [parsePrimary.eq_def]
      rfl
  | var name =>
    obtain ⟨t, rfl, named⟩ := List.map_eq_singleton_iff.mp lexemes
    exact .var named
  | brackets _ ih =>
    obtain ⟨t, us, rfl, opens, lexemes⟩ := List.map_eq_cons_iff.mp lexemes
    obtain ⟨us, close, rfl, lexemes, closes⟩ := map_lexeme_eq_concat lexemes
    exact (ih lexemes).brackets opens closes
  | bareCall name =>
    obtain ⟨t, us, rfl, named, lexemes⟩ := List.map_eq_cons_iff.mp lexemes
    obtain ⟨opened, us, rfl, opens, lexemes⟩ := List.map_eq_cons_iff.mp lexemes
    obtain ⟨close, rfl, closes⟩ := List.map_eq_singleton_iff.mp lexemes
    exact .bareCall named opens closes
  | call name derived ih =>
    obtain ⟨t, us, rfl, named, lexemes⟩ := List.map_eq_cons_iff.mp lexemes
    obtain ⟨opened, us, rfl, opens, lexemes⟩ := List.map_eq_cons_iff.mp lexemes
    obtain ⟨us, close, rfl, lexemes, closes⟩ := map_lexeme_eq_concat lexemes
    exact (ih lexemes).call (derived.begins_tokens lexemes rfl) named opens closes
  | arg _ ih => exact (ih lexemes).arg
  | argsMore _ _ ihFirst ihRest =>
    obtain ⟨us, comma, vs, rfl, first, separates, rest⟩ := map_lexeme_eq_append_cons lexemes
    exact (ihFirst first).argsMore (ihRest rest) separates
  | branch _ _ _ ihCond ihBody ihChain =>
    obtain ⟨t, us, rfl, word, lexemes⟩ := List.map_eq_cons_iff.mp lexemes
    obtain ⟨opened, us, rfl, opens, lexemes⟩ := List.map_eq_cons_iff.mp lexemes
    obtain ⟨us, close, vs, rfl, cond, closes, lexemes⟩ := map_lexeme_eq_append_cons lexemes
    obtain ⟨vs, ws, rfl, body, chain⟩ := List.map_eq_append_iff.mp lexemes
    exact (ihCond cond).branch (ihBody body) (ihChain chain) word opens closes
  | loopOver var _ _ ihExpr ihBody =>
    obtain ⟨t, us, rfl, word, lexemes⟩ := List.map_eq_cons_iff.mp lexemes
    obtain ⟨opened, us, rfl, opens, lexemes⟩ := List.map_eq_cons_iff.mp lexemes
    obtain ⟨name, us, rfl, named, lexemes⟩ := List.map_eq_cons_iff.mp lexemes
    obtain ⟨word', us, rfl, inWord, lexemes⟩ := List.map_eq_cons_iff.mp lexemes
    obtain ⟨us, close, vs, rfl, expr, closes, body⟩ := map_lexeme_eq_append_cons lexemes
    exact (ihExpr expr).loopOver (ihBody body) word opens named inWord closes
  | loopRange var _ _ _ ihLower ihUpper ihBody =>
    obtain ⟨t, us, rfl, word, lexemes⟩ := List.map_eq_cons_iff.mp lexemes
    obtain ⟨opened, us, rfl, opens, lexemes⟩ := List.map_eq_cons_iff.mp lexemes
    obtain ⟨name, us, rfl, named, lexemes⟩ := List.map_eq_cons_iff.mp lexemes
    obtain ⟨word', us, rfl, inWord, lexemes⟩ := List.map_eq_cons_iff.mp lexemes
    obtain ⟨us, dots, vs, rfl, lower, ranges, lexemes⟩ := map_lexeme_eq_append_cons lexemes
    obtain ⟨vs, close, ws, rfl, upper, closes, body⟩ := map_lexeme_eq_append_cons lexemes
    exact (ihLower lower).loopRange (ihUpper upper) (ihBody body) word opens named inWord ranges
      closes
  | loadName module =>
    obtain ⟨t, us, rfl, word, lexemes⟩ := List.map_eq_cons_iff.mp lexemes
    obtain ⟨name, us, rfl, named, lexemes⟩ := List.map_eq_cons_iff.mp lexemes
    obtain ⟨stop, rfl, stops⟩ := List.map_eq_singleton_iff.mp lexemes
    exact .load word (.inl named) stops
  | loadText module =>
    obtain ⟨t, us, rfl, word, lexemes⟩ := List.map_eq_cons_iff.mp lexemes
    obtain ⟨name, us, rfl, named, lexemes⟩ := List.map_eq_cons_iff.mp lexemes
    obtain ⟨stop, rfl, stops⟩ := List.map_eq_singleton_iff.mp lexemes
    exact .load word (.inr named) stops
  | ret derived ih =>
    obtain ⟨t, us, rfl, word, lexemes⟩ := List.map_eq_cons_iff.mp lexemes
    obtain ⟨us, stop, rfl, lexemes, stops⟩ := map_lexeme_eq_concat lexemes
    exact (ih lexemes).ret (derived.begins_tokens lexemes rfl) word stops
  | leave | next =>
    obtain ⟨t, us, rfl, word, lexemes⟩ := List.map_eq_cons_iff.mp lexemes
    obtain ⟨stop, rfl, stops⟩ := List.map_eq_singleton_iff.mp lexemes
    exact .jump word stops
  | assign name _ ih =>
    obtain ⟨t, us, rfl, named, lexemes⟩ := List.map_eq_cons_iff.mp lexemes
    obtain ⟨sign, us, rfl, assigns, lexemes⟩ := List.map_eq_cons_iff.mp lexemes
    obtain ⟨us, stop, rfl, lexemes, stops⟩ := map_lexeme_eq_concat lexemes
    exact (ih lexemes).assign named assigns stops
  | expr derived ih =>
    obtain ⟨us, stop, rfl, lexemes, stops⟩ := map_lexeme_eq_concat lexemes
    have noAssign : .symbol .assign ∉ us.map Token.lexeme := lexemes ▸ derived.no_assign rfl
    exact (ih lexemes).exprStmt (derived.begins_tokens lexemes rfl) noAssign stops
  | block _ ih =>
    obtain ⟨t, us, rfl, opens, lexemes⟩ := List.map_eq_cons_iff.mp lexemes
    obtain ⟨us, close, rfl, lexemes, closes⟩ := map_lexeme_eq_concat lexemes
    exact (ih lexemes).block opens closes
  | noStmts =>
    obtain rfl := List.map_eq_nil_iff.mp lexemes
    exact ⟨[], rfl, fun close rest closes => outcome_parseStmts_end closes rest⟩
  | stmtsMore derived others ihFirst ihOthers =>
    obtain ⟨us, vs, rfl, first, rest⟩ := List.map_eq_append_iff.mp lexemes
    have follows : Next (· ≠ .keyword .elseWord) vs := .of_head? (rest ▸ others.stmts_no_else)
    exact (ihFirst first).stmtsMore (ihOthers rest) (derived.begins_tokens first rfl) follows
  | done =>
    obtain rfl := List.map_eq_nil_iff.mp lexemes
    exact fun last => ⟨.done, last, rfl, fun rest next => outcome_parseElse_done next last⟩
  | elseIf _ _ _ ihCond ihBody ihChain =>
    obtain ⟨t, us, rfl, word, lexemes⟩ := List.map_eq_cons_iff.mp lexemes
    obtain ⟨t', us, rfl, word', lexemes⟩ := List.map_eq_cons_iff.mp lexemes
    obtain ⟨opened, us, rfl, opens, lexemes⟩ := List.map_eq_cons_iff.mp lexemes
    obtain ⟨us, close, vs, rfl, cond, closes, lexemes⟩ := map_lexeme_eq_append_cons lexemes
    obtain ⟨vs, ws, rfl, body, chain⟩ := List.map_eq_append_iff.mp lexemes
    exact (ihCond cond).elseIf (ihBody body) (ihChain chain) word word' opens closes
  | final derived ih =>
    obtain ⟨t, us, rfl, word, lexemes⟩ := List.map_eq_cons_iff.mp lexemes
    exact (ih lexemes).final (derived.begins_tokens lexemes rfl) word
  | declared =>
    obtain ⟨stop, rfl, stops⟩ := List.map_eq_singleton_iff.mp lexemes
    exact .declared stops
  | defined derived ih => exact (ih lexemes).defined (derived.begins_tokens lexemes rfl)
  | function name distinct _ ih =>
    obtain ⟨t, us, rfl, word, lexemes⟩ := List.map_eq_cons_iff.mp lexemes
    obtain ⟨t', us, rfl, named, lexemes⟩ := List.map_eq_cons_iff.mp lexemes
    obtain ⟨opened, us, rfl, opens, lexemes⟩ := List.map_eq_cons_iff.mp lexemes
    obtain ⟨us, close, vs, rfl, params, closes, body⟩ := map_lexeme_eq_append_cons lexemes
    exact .function params distinct (ih body) word named opens closes
  | noItems =>
    obtain rfl := List.map_eq_nil_iff.mp lexemes
    exact ⟨[], [], rfl, by rw [parseItems]⟩
  | itemFunction derived _ ihFirst ihRest =>
    obtain ⟨us, vs, rfl, first, rest⟩ := List.map_eq_append_iff.mp lexemes
    exact (ihFirst first).itemFunction (ihRest rest) (derived.begins_tokens first rfl)
  | itemStmt derived others ihFirst ihRest =>
    obtain ⟨us, vs, rfl, first, rest⟩ := List.map_eq_append_iff.mp lexemes
    have follows : Next (· ≠ .keyword .elseWord) vs := .of_head? (rest ▸ others.items_no_else)
    exact (ihFirst first).itemStmt (ihRest rest) (derived.begins_tokens first rfl) follows
  | program => trivial

/-- The tree that the grammar derives from all the tokens is the one that is read. -/
theorem Derives.parse {file : String} {ts : List Token} {tree : Program}
    (h : Derives (.program file) (ts.map Token.lexeme) tree) :
    ∃ p, Program.parse file ts = .ok p ∧ p.placeless = tree := by
  cases h with
  | program items =>
    obtain ⟨fs, ss, same, reads⟩ := items.readable (eofSpan ts) rfl
    cases same
    refine ⟨⟨fs, ss, wholeSpan ts, [], file⟩, ?_, rfl⟩
    rw [Program.parse, reads]
    rfl

/-- A sequence of tokens is accepted just when the grammar derives a tree from all of it, and the
program that is read is that tree, apart from places; there is only one such tree. -/
theorem parse_iff_derives (file : String) (ts : List Token) :
    (∀ tree, Derives (.program file) (ts.map Token.lexeme) tree ↔
      ∃ p, Program.parse file ts = .ok p ∧ p.placeless = tree) ∧
    ∀ tree tree', Derives (.program file) (ts.map Token.lexeme) tree →
      Derives (.program file) (ts.map Token.lexeme) tree' → tree = tree' := by
  refine ⟨fun tree => ⟨Derives.parse, ?_⟩, ?_⟩
  · rintro ⟨p, parsed, rfl⟩
    exact Program.parse_sound parsed
  · intro tree tree' derived derived'
    obtain ⟨p, parsed, rfl⟩ := derived.parse
    obtain ⟨p', parsed', rfl⟩ := derived'.parse
    cases parsed.symm.trans parsed'
    rfl

/-- A difference of three is read as the difference of a difference. -/
theorem parse_iff_derives_differences :
    ∃ p, Program.parse "main"
        [⟨.ident "a", .zero, 0⟩, ⟨.symbol .minus, .zero, 0⟩, ⟨.ident "b", .zero, 0⟩,
         ⟨.symbol .minus, .zero, 0⟩, ⟨.ident "c", .zero, 0⟩, ⟨.symbol .semicolon, .zero, 0⟩] =
           .ok p ∧
      p.placeless =
        ⟨[], [⟨.expr .zero (.binary .zero .sub
          (.binary .zero .sub (.var .zero "a") (.var .zero "b")) (.var .zero "c")), "main"⟩],
          .zero, [], "main"⟩ := by
  have name (n : String) : Derives (.within (tiers.drop 6)) [.ident n] (.var .zero n) :=
    .tighter (.operand (.plain (.var n)))
  have minus : (Symbol.minus, Expr.binary .zero .sub) ∈
      [(Symbol.plus, Expr.binary .zero .add), (.minus, .binary .zero .sub)] :=
    .tail _ (.head _)
  have inner : Derives (.within (tiers.drop 5)) ([.ident "a"] ++ .symbol .minus :: [.ident "b"])
      (.binary .zero .sub (.var .zero "a") (.var .zero "b")) :=
    .joined minus (.tighter (name "a")) (name "b")
  have expr : Derives .expr
      ([.ident "a"] ++ .symbol .minus :: [.ident "b"] ++ .symbol .minus :: [.ident "c"])
      (.binary .zero .sub (.binary .zero .sub (.var .zero "a") (.var .zero "b"))
        (.var .zero "c")) :=
    .tighter (.tighter (.tighter (.tighter (.tighter (.joined minus inner (name "c"))))))
  exact ((parse_iff_derives "main" _).1 _).mp (.program (.itemStmt (.expr expr) .noItems))

end Shellwright.Surface
