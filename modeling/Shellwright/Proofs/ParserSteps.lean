import Shellwright.Proofs.ParserSound

/-!
# The steps of reading

What each rule of the reader does when the tokens before it have the form of one of its cases and
the rules that it calls give what they should. A result is looked at without its bound on the
tokens that are left, so that the results of different rules can be compared.
-/

namespace Shellwright.Surface

variable {eof : Span}

/-- What a rule gives and leaves, without the bound on what is left. -/
def outcome {bound : Nat} {α : Type} (r : Except ParseError (Taken bound α)) :
    Except ParseError (α × List Token) :=
  r.map fun t => (t.value, t.rest)

/-- An outcome forgets only the proof that the rest is shorter. -/
theorem outcome_eq_ok {bound : Nat} {α : Type} {r : Except ParseError (Taken bound α)} {a : α}
    {rest : List Token} :
    outcome r = .ok (a, rest) ↔ ∃ less, r = .ok ⟨a, rest, less⟩ := by
  constructor
  · intro h
    obtain ⟨⟨a, rest, less⟩, rfl, same⟩ := map_eq_ok.mp h
    cases same
    exact ⟨less, rfl⟩
  · rintro ⟨less, rfl⟩
    rfl

/-- Seeing a result from before other tokens were taken does not change its outcome. -/
theorem outcome_within {bound bound' : Nat} {α : Type} (r : Except ParseError (Taken bound α))
    (h : bound ≤ bound') : outcome (r >>= fun t => pure (t.within h)) = outcome r := by
  cases r with
  | error e => rfl
  | ok t => rfl

/-- The next token, if there is one, satisfies `p`. -/
def Next (p : Lexeme → Prop) (ts : List Token) : Prop := ∀ t ∈ ts.head?, p t.lexeme

theorem Next.cons {p : Lexeme → Prop} {t : Token} {ts : List Token} (h : p t.lexeme) :
    Next p (t :: ts) := by
  intro t' mem
  cases mem
  exact h

theorem Next.imp {p q : Lexeme → Prop} {ts : List Token} (h : Next p ts) (imp : ∀ x, p x → q x) :
    Next q ts :=
  fun t mem => imp _ (h t mem)

/-- A condition on the next token holds of two texts put together if it holds of each. -/
theorem Next.append {p : Lexeme → Prop} {us ts : List Token} (first : Next p us)
    (second : Next p ts) : Next p (us ++ ts) := by
  cases us with
  | nil => exact second
  | cons t us => exact .cons (first t rfl)

theorem Next.of_head? {x : Lexeme} {us : List Token} (h : (us.map Token.lexeme).head? ≠ some x) :
    Next (· ≠ x) us := by
  intro t mem same
  rw [List.head?_map, mem, ← same] at h
  exact h rfl

/-! ## Single tokens -/

theorem take?_cons_self {wanted : Lexeme} {t : Token} (h : t.lexeme = wanted) (ts : List Token) :
    take? wanted (t :: ts) = some ⟨t.span, ts, Nat.lt_succ_self _⟩ :=
  if_pos h

/-- Nothing is taken where another token comes next. -/
theorem take?_eq_none {wanted : Lexeme} {ts : List Token} (h : Next (· ≠ wanted) ts) :
    take? wanted ts = none := by
  cases ts with
  | nil => rfl
  | cons t ts => exact if_neg (h t rfl)

theorem expect_cons_self {wanted : Lexeme} {t : Token} (h : t.lexeme = wanted)
    (ts : List Token) :
    expect eof wanted (t :: ts) = .ok ⟨t.span, ts, Nat.lt_succ_self _⟩ := by
  rw [expect, take?_cons_self h]

theorem expectName_cons {t : Token} {name : String} (h : t.lexeme = .ident name)
    (role : NameRole) (ts : List Token) :
    expectName eof role (t :: ts) = .ok ⟨⟨name, t.span⟩, ts, Nat.lt_succ_self _⟩ := by
  obtain ⟨lexeme, span, body⟩ := t
  cases h
  rfl

/-! ## Operators -/

/-- The operators of a level are those that the grammar joins operands with there. -/
theorem Level.exists_joint? {l : Level} {op : Symbol} {join : Expr → Expr → Expr}
    (mem : (op, join) ∈ l.tier) : ∃ j, l.joint? (.symbol op) = some j ∧ j.tree = join := by
  cases l
  all_goals
    repeat (rcases mem with _ | ⟨_, mem⟩; exact ⟨_, rfl, rfl⟩)
    cases mem

/-- An operator is of one level only. -/
theorem Level.joint?_eq_none {l l' : Level} {x : Lexeme} {j : Joint} (h : l.joint? x = some j)
    (other : l' ≠ l) : l'.joint? x = none := by
  unfold joint? at h
  split at h
  all_goals cases h
  all_goals cases l' <;> first | rfl | exact absurd rfl other

/-- The lexeme does not continue an expression that was read down to the given level. -/
def Level.Stops (level : Option Level) (x : Lexeme) : Prop :=
  x ≠ .symbol .leftParen ∧ ∀ l : Level, weight (some l) < weight level → l.joint? x = none

/-- What ends a level ends the tighter ones too. -/
theorem Level.Stops.tighter {l : Level} {x : Lexeme} (h : Stops (some l) x) :
    Stops l.tighter x :=
  ⟨h.1, fun l' less => h.2 l' (Nat.lt_trans less (weight_tighter_lt l))⟩

/-- An operator of a level ends the operands of that level. -/
theorem Level.Stops.of_joint? {l : Level} {x : Lexeme} {j : Joint} (h : l.joint? x = some j) :
    Stops (some l) x := by
  refine ⟨?_, fun l' less => joint?_eq_none h ?_⟩
  · rintro rfl
    cases l <;> cases h
  · rintro rfl
    exact absurd less (Nat.lt_irrefl _)

/-! ## The steps of reading an expression -/

/-- A level reads an operand of the next tighter one, and goes on from there. -/
theorem outcome_parseLevel_some {l : Level} {ts mid : List Token} {first : Expr}
    (h : outcome (parseLevel eof l.tighter ts) = .ok (first, mid)) :
    outcome (parseLevel eof (some l) ts) = outcome (parseJoints eof l first mid) := by
  obtain ⟨less, h⟩ := outcome_eq_ok.mp h
  rw [parseLevel, h]
  exact outcome_within ..

/-- Without an operator of the level there is nothing to join. -/
theorem outcome_parseJoints_stop {l : Level} {ts : List Token}
    (h : Next (fun x => l.joint? x = none) ts) (left : Expr) :
    outcome (parseJoints eof l left ts) = .ok (left, ts) := by
  cases ts with
  | nil =>
    rw [parseJoints]
    rfl
  | cons t ts =>
    have none := h t rfl
    rw [parseJoints]
    simp only [none]
    rfl

/-- An operator of the level is joined with what stands left of it and with the operand after it,
and the result is the left operand of the next one. -/
theorem outcome_parseJoints_joint {l : Level} {t : Token} {ts mid : List Token} {j : Joint}
    {right : Expr} (joint : l.joint? t.lexeme = some j)
    (h : outcome (parseLevel eof l.tighter ts) = .ok (right, mid)) (left : Expr) :
    outcome (parseJoints eof l left (t :: ts)) =
      outcome (parseJoints eof l (j.join left right) mid) := by
  obtain ⟨less, h⟩ := outcome_eq_ok.mp h
  rw [parseJoints]
  simp only [joint, h]
  exact outcome_within ..

/-- Without a sign an operand is read as a primary one. -/
theorem outcome_parseUnary_plain {t : Token} {ts : List Token} (h : unaryOp? t.lexeme = none) :
    outcome (parseUnary eof (t :: ts)) = outcome (parsePrimary eof (t :: ts)) := by
  rw [parseUnary]
  simp only [h]

/-- A sign takes the operand after it, signs included. -/
theorem outcome_parseUnary_sign {t : Token} {ts rest : List Token} {op : UnaryOp}
    {operand : Expr} (sign : unaryOp? t.lexeme = some op)
    (h : outcome (parseUnary eof ts) = .ok (operand, rest)) :
    outcome (parseUnary eof (t :: ts)) =
      .ok (.unary (t.span.merge operand.span) op operand, rest) := by
  obtain ⟨less, h⟩ := outcome_eq_ok.mp h
  rw [parseUnary]
  simp only [sign, h]
  rfl

/-- The place of an expression in brackets includes the brackets. -/
theorem outcome_parsePrimary_brackets {t close : Token} {ts rest : List Token} {inner : Expr}
    (opens : t.lexeme = .symbol .leftParen) (closes : close.lexeme = .symbol .rightParen)
    (h : outcome (parseExpr eof ts) = .ok (inner, close :: rest)) :
    outcome (parsePrimary eof (t :: ts)) =
      .ok (inner.withSpan (t.span.merge close.span), rest) := by
  obtain ⟨less, h⟩ := outcome_eq_ok.mp h
  obtain ⟨lexeme, span, body⟩ := t
  cases opens
  rw [parsePrimary.eq_def]
  simp only [if_true]
  unfold parseExpr at h
  rw [h]
  simp only [bind, Except.bind, expect_cons_self closes]
  rfl

/-- A name is a variable unless a bracket follows. -/
theorem outcome_parsePrimary_var {t : Token} {ts : List Token} {name : String}
    (named : t.lexeme = .ident name) (h : Next (· ≠ .symbol .leftParen) ts) :
    outcome (parsePrimary eof (t :: ts)) = .ok (.var t.span name, ts) := by
  obtain ⟨lexeme, span, body⟩ := t
  cases named
  rw [parsePrimary.eq_def]
  simp only [take?_eq_none h]
  rfl

/-- A name and a bracket are a call, up to where its arguments end. -/
theorem outcome_parsePrimary_call {t opened : Token} {ts rest : List Token} {name : String}
    {args : List Expr} {close : Span} (named : t.lexeme = .ident name)
    (opens : opened.lexeme = .symbol .leftParen)
    (h : outcome (parseArgs eof ts) = .ok ((args, close), rest)) :
    outcome (parsePrimary eof (t :: opened :: ts)) =
      .ok (.call (t.span.merge close) name args, rest) := by
  obtain ⟨less, h⟩ := outcome_eq_ok.mp h
  obtain ⟨lexeme, span, body⟩ := t
  cases named
  rw [parsePrimary.eq_def]
  simp only [take?_cons_self opens, h]
  rfl

theorem outcome_parseArgs_none {close : Token} (closes : close.lexeme = .symbol .rightParen)
    (rest : List Token) :
    outcome (parseArgs eof (close :: rest)) = .ok (([], close.span), rest) := by
  rw [parseArgs]
  simp only [take?_cons_self closes]
  rfl

/-- Where the brackets are not closed at once, there is a list of arguments. -/
theorem outcome_parseArgs_list {ts : List Token} (h : Next (· ≠ .symbol .rightParen) ts) :
    outcome (parseArgs eof ts) = outcome (parseArgList eof ts) := by
  rw [parseArgs]
  simp only [take?_eq_none h]

/-- A closing bracket after an argument ends the list. -/
theorem outcome_parseArgList_last {ts rest : List Token} {close : Token} {e : Expr}
    (closes : close.lexeme = .symbol .rightParen)
    (h : outcome (parseExpr eof ts) = .ok (e, close :: rest)) :
    outcome (parseArgList eof ts) = .ok (([e], close.span), rest) := by
  obtain ⟨less, h⟩ := outcome_eq_ok.mp h
  have noComma : take? (.symbol .comma) (close :: rest) = none :=
    take?_eq_none (.cons (by rw [closes]; nofun))
  unfold parseExpr at h
  rw [parseArgList, h]
  simp only [bind, Except.bind, noComma, expect_cons_self closes]
  rfl

/-- A comma after an argument asks for more of them. -/
theorem outcome_parseArgList_more {ts mid rest : List Token} {comma : Token} {e : Expr}
    {args : List Expr} {close : Span} (separates : comma.lexeme = .symbol .comma)
    (h : outcome (parseExpr eof ts) = .ok (e, comma :: mid))
    (more : outcome (parseArgList eof mid) = .ok ((args, close), rest)) :
    outcome (parseArgList eof ts) = .ok ((e :: args, close), rest) := by
  obtain ⟨less, h⟩ := outcome_eq_ok.mp h
  obtain ⟨less', more⟩ := outcome_eq_ok.mp more
  unfold parseExpr at h
  rw [parseArgList, h]
  simp only [bind, Except.bind, take?_cons_self separates, more]
  rfl

/-! ## The steps of reading a statement -/

/-- A condition stands in brackets. -/
theorem outcome_parseCondition {t close : Token} {ts rest : List Token} {e : Expr}
    (opens : t.lexeme = .symbol .leftParen) (closes : close.lexeme = .symbol .rightParen)
    (h : outcome (parseExpr eof ts) = .ok (e, close :: rest)) :
    outcome (parseCondition eof (t :: ts)) = .ok (e, rest) := by
  obtain ⟨less, h⟩ := outcome_eq_ok.mp h
  simp only [parseCondition, bind, Except.bind, expect_cons_self opens, h,
    expect_cons_self closes]
  rfl

/-- An expression that is a statement ends with a semicolon. -/
theorem outcome_parseExprEnd {ts rest : List Token} {stop : Token} {e : Expr}
    (stops : stop.lexeme = .symbol .semicolon)
    (h : outcome (parseExpr eof ts) = .ok (e, stop :: rest)) :
    outcome (parseExprEnd eof ts) = .ok ((e, stop.span), rest) := by
  obtain ⟨less, h⟩ := outcome_eq_ok.mp h
  simp only [parseExprEnd, bind, Except.bind, h, expect_cons_self stops]
  rfl

/-- A loop over one expression has its brackets closed after it. -/
theorem outcome_parseBounds_over {ts rest : List Token} {close : Token} {e : Expr}
    (closes : close.lexeme = .symbol .rightParen)
    (h : outcome (parseExpr eof ts) = .ok (e, close :: rest)) :
    outcome (parseBounds eof ts) = .ok ((e, none), rest) := by
  obtain ⟨less, h⟩ := outcome_eq_ok.mp h
  have noRange : take? (.symbol .range) (close :: rest) = none :=
    take?_eq_none (.cons (by rw [closes]; nofun))
  simp only [parseBounds, bind, Except.bind, h, noRange, expect_cons_self closes]
  rfl

/-- Two dots after the first bound ask for a second one. -/
theorem outcome_parseBounds_range {ts mid rest : List Token} {dots close : Token}
    {lower upper : Expr} (ranges : dots.lexeme = .symbol .range)
    (closes : close.lexeme = .symbol .rightParen)
    (first : outcome (parseExpr eof ts) = .ok (lower, dots :: mid))
    (second : outcome (parseExpr eof mid) = .ok (upper, close :: rest)) :
    outcome (parseBounds eof ts) = .ok ((lower, some upper), rest) := by
  obtain ⟨less, first⟩ := outcome_eq_ok.mp first
  obtain ⟨less', second⟩ := outcome_eq_ok.mp second
  simp only [parseBounds, bind, Except.bind, first, take?_cons_self ranges, second,
    expect_cons_self closes]
  rfl

/-- A loop begins with a bracket, its variable and the word `in`. -/
theorem outcome_parseLoopHead {t name word : Token} {ts rest : List Token} {var : String}
    {bounds : Expr × Option Expr} (opens : t.lexeme = .symbol .leftParen)
    (named : name.lexeme = .ident var) (inWord : word.lexeme = .keyword .inWord)
    (h : outcome (parseBounds eof ts) = .ok (bounds, rest)) :
    outcome (parseLoopHead eof (t :: name :: word :: ts)) = .ok ((var, bounds), rest) := by
  obtain ⟨less, h⟩ := outcome_eq_ok.mp h
  simp only [parseLoopHead, bind, Except.bind, expect_cons_self opens, expectName_cons named,
    expect_cons_self inWord, h]
  rfl

/-- An import names its module by a word or by a text. -/
theorem outcome_parseSimple_load {t name stop : Token} {rest : List Token} {module : String}
    (word : t.lexeme = .keyword .importWord)
    (named : name.lexeme = .ident module ∨ name.lexeme = .text module)
    (stops : stop.lexeme = .symbol .semicolon) :
    outcome (parseSimple eof (t :: name :: stop :: rest)) =
      .ok (.load (t.span.merge stop.span) module, rest) := by
  have module_eq : expectModule eof (name :: stop :: rest) =
      .ok ⟨module, stop :: rest, Nat.lt_succ_self _⟩ := by
    obtain ⟨lexeme, span, body⟩ := name
    rcases named with named | named
    · cases named
      rfl
    · cases named
      rfl
  simp only [parseSimple, word, parseImport, bind, Except.bind, module_eq,
    expect_cons_self stops]
  rfl

/-- A return has a value unless a semicolon follows at once. -/
theorem outcome_parseSimple_ret {t : Token} {ts rest : List Token} {e : Expr} {stop : Span}
    (word : t.lexeme = .keyword .returnWord) (next : Next (· ≠ .symbol .semicolon) ts)
    (h : outcome (parseExprEnd eof ts) = .ok ((e, stop), rest)) :
    outcome (parseSimple eof (t :: ts)) = .ok (.ret (t.span.merge stop) e, rest) := by
  obtain ⟨less, h⟩ := outcome_eq_ok.mp h
  simp only [parseSimple, word, parseReturn, take?_eq_none next, bind, Except.bind, h]
  rfl

theorem outcome_parseSimple_jump {t stop : Token} {rest : List Token} {jump : Jump}
    (word : t.lexeme = .keyword
      (match jump with | .leave => .breakWord | .next => .continueWord))
    (stops : stop.lexeme = .symbol .semicolon) :
    outcome (parseSimple eof (t :: stop :: rest)) =
      .ok (.jump (t.span.merge stop.span) jump, rest) := by
  cases jump with
  | leave =>
    simp only [parseSimple, word, parseJump, bind, Except.bind, expect_cons_self stops]
    rfl
  | next =>
    simp only [parseSimple, word, parseJump, bind, Except.bind, expect_cons_self stops]
    rfl

/-- A name and a sign of assignment are an assignment. -/
theorem outcome_parseSimple_assign {t sign : Token} {ts rest : List Token} {name : String}
    {e : Expr} {stop : Span} (named : t.lexeme = .ident name)
    (assigns : sign.lexeme = .symbol .assign)
    (h : outcome (parseExprEnd eof ts) = .ok ((e, stop), rest)) :
    outcome (parseSimple eof (t :: sign :: ts)) =
      .ok (.assign (t.span.merge stop) name e, rest) := by
  obtain ⟨less, h⟩ := outcome_eq_ok.mp h
  simp only [parseSimple, named, take?_cons_self assigns, bind, Except.bind, h]
  rfl

/-- What begins like an expression is read as one, unless it is a name before an assignment
sign. -/
theorem parseSimple_eq_parseExprStmt {t : Token} {ts : List Token}
    (begins : beginsExpr t.lexeme = true) (next : Next (· ≠ .symbol .assign) ts) :
    parseSimple eof (t :: ts) = parseExprStmt eof (t :: ts) := by
  obtain ⟨lexeme, span, body⟩ := t
  cases lexeme with
  | keyword word => cases word <;> first | rfl | cases begins
  | ident name => simp only [parseSimple, take?_eq_none next]
  | _ => rfl

/-- What begins as an expression, and is no assignment, is one up to the semicolon. -/
theorem outcome_parseSimple_expr {t : Token} {ts rest : List Token} {e : Expr} {stop : Span}
    (begins : beginsExpr t.lexeme = true) (next : Next (· ≠ .symbol .assign) ts)
    (h : outcome (parseExprEnd eof (t :: ts)) = .ok ((e, stop), rest)) :
    outcome (parseSimple eof (t :: ts)) = .ok (.expr (t.span.merge stop) e, rest) := by
  obtain ⟨less, h⟩ := outcome_eq_ok.mp h
  rw [parseSimple_eq_parseExprStmt begins next]
  simp only [parseExprStmt, bind, Except.bind, h]
  rfl

/-- A statement that is neither a branch nor a loop is a simple one. -/
theorem outcome_parseStmt_simple {ts : List Token}
    (next : Next (fun x => x ≠ .keyword .ifWord ∧ x ≠ .keyword .forWord) ts) :
    outcome (parseStmt eof ts) = outcome (parseSimple eof ts) := by
  have noIf : take? (.keyword .ifWord) ts = none := take?_eq_none (next.imp fun _ h => h.1)
  have noFor : take? (.keyword .forWord) ts = none := take?_eq_none (next.imp fun _ h => h.2)
  rw [parseStmt]
  simp only [noIf, noFor]

/-- A branch is its condition, its block, and the branches after it. -/
theorem outcome_parseStmt_branch {t : Token} {ts mid mid' rest : List Token} {cond : Expr}
    {body : List Stmt} {chain : ElseChain} {close stop : Span}
    (word : t.lexeme = .keyword .ifWord)
    (readCond : outcome (parseCondition eof ts) = .ok (cond, mid))
    (readBody : outcome (parseBlock eof mid) = .ok ((body, close), mid'))
    (readChain : outcome (parseElse eof close mid') = .ok ((chain, stop), rest)) :
    outcome (parseStmt eof (t :: ts)) =
      .ok (.branch (t.span.merge stop) cond body chain, rest) := by
  obtain ⟨less, readCond⟩ := outcome_eq_ok.mp readCond
  obtain ⟨less', readBody⟩ := outcome_eq_ok.mp readBody
  obtain ⟨less'', readChain⟩ := outcome_eq_ok.mp readChain
  rw [parseStmt]
  simp only [take?_cons_self word, bind, Except.bind, readCond, readBody, readChain]
  rfl

/-- A loop is its head and its block, and ends where the block is closed. -/
theorem outcome_parseStmt_loop {t : Token} {ts mid rest : List Token} {var : String}
    {lower : Expr} {upper : Option Expr} {body : List Stmt} {close : Span}
    (word : t.lexeme = .keyword .forWord)
    (readHead : outcome (parseLoopHead eof ts) = .ok ((var, lower, upper), mid))
    (readBody : outcome (parseBlock eof mid) = .ok ((body, close), rest)) :
    outcome (parseStmt eof (t :: ts)) =
      .ok (.loop (t.span.merge close) var lower upper body, rest) := by
  obtain ⟨less, readHead⟩ := outcome_eq_ok.mp readHead
  obtain ⟨less', readBody⟩ := outcome_eq_ok.mp readBody
  have noIf : take? (.keyword .ifWord) (t :: ts) = none :=
    take?_eq_none (.cons (by rw [word]; nofun))
  rw [parseStmt]
  simp only [noIf, take?_cons_self word, bind, Except.bind, readHead, readBody]
  rfl

theorem outcome_parseBlock {t : Token} {ts rest : List Token} {body : List Stmt} {close : Span}
    (opens : t.lexeme = .symbol .leftBrace)
    (h : outcome (parseStmts eof ts) = .ok ((body, close), rest)) :
    outcome (parseBlock eof (t :: ts)) = .ok ((body, close), rest) := by
  obtain ⟨less, h⟩ := outcome_eq_ok.mp h
  rw [parseBlock]
  simp only [bind, Except.bind, expect_cons_self opens, h]
  rfl

/-- A closing brace ends the statements of a block. -/
theorem outcome_parseStmts_end {close : Token} (closes : close.lexeme = .symbol .rightBrace)
    (rest : List Token) :
    outcome (parseStmts eof (close :: rest)) = .ok (([], close.span), rest) := by
  rw [parseStmts]
  simp only [take?_cons_self closes]
  rfl

/-- Before a closing brace come statements, one after the other. -/
theorem outcome_parseStmts_more {t : Token} {ts mid rest : List Token} {first : Stmt}
    {others : List Stmt} {close : Span} (next : t.lexeme ≠ .symbol .rightBrace)
    (readFirst : outcome (parseStmt eof (t :: ts)) = .ok (first, mid))
    (readOthers : outcome (parseStmts eof mid) = .ok ((others, close), rest)) :
    outcome (parseStmts eof (t :: ts)) = .ok ((first :: others, close), rest) := by
  obtain ⟨less, readFirst⟩ := outcome_eq_ok.mp readFirst
  obtain ⟨less', readOthers⟩ := outcome_eq_ok.mp readOthers
  have notClosed : take? (.symbol .rightBrace) (t :: ts) = none := take?_eq_none (.cons next)
  rw [parseStmts]
  simp only [notClosed, List.isEmpty_cons, bind, Except.bind, readFirst, readOthers]
  rfl

/-- Without the word `else` a branch has ended where the last block did. -/
theorem outcome_parseElse_done {ts : List Token} (next : Next (· ≠ .keyword .elseWord) ts)
    (last : Span) : outcome (parseElse eof last ts) = .ok ((.done, last), ts) := by
  rw [parseElse]
  simp only [take?_eq_none next]
  rfl

/-- The words `else` and `if` begin a further branch. -/
theorem outcome_parseElse_elseIf {t t' : Token} {ts mid mid' rest : List Token} {cond : Expr}
    {body : List Stmt} {chain : ElseChain} {close stop : Span}
    (word : t.lexeme = .keyword .elseWord) (word' : t'.lexeme = .keyword .ifWord)
    (readCond : outcome (parseCondition eof ts) = .ok (cond, mid))
    (readBody : outcome (parseBlock eof mid) = .ok ((body, close), mid'))
    (readChain : outcome (parseElse eof close mid') = .ok ((chain, stop), rest)) (last : Span) :
    outcome (parseElse eof last (t :: t' :: ts)) =
      .ok ((.elseIf cond body chain, stop), rest) := by
  obtain ⟨less, readCond⟩ := outcome_eq_ok.mp readCond
  obtain ⟨less', readBody⟩ := outcome_eq_ok.mp readBody
  obtain ⟨less'', readChain⟩ := outcome_eq_ok.mp readChain
  rw [parseElse]
  simp only [take?_cons_self word, take?_cons_self word', bind, Except.bind, readCond, readBody,
    readChain]
  rfl

/-- The word `else` alone begins the last block. -/
theorem outcome_parseElse_final {t : Token} {ts rest : List Token} {body : List Stmt}
    {close : Span} (word : t.lexeme = .keyword .elseWord)
    (next : Next (· ≠ .keyword .ifWord) ts)
    (readBody : outcome (parseBlock eof ts) = .ok ((body, close), rest)) (last : Span) :
    outcome (parseElse eof last (t :: ts)) = .ok ((.final body, close), rest) := by
  obtain ⟨less, readBody⟩ := outcome_eq_ok.mp readBody
  rw [parseElse]
  simp only [take?_cons_self word, take?_eq_none next, bind, Except.bind, readBody]
  rfl

/-! ## The steps of reading a function and a program -/

theorem any_name_eq_false {seen : List Param} {name : String} (h : name ∉ seen.map (·.name)) :
    seen.any (·.name = name) = false := by
  rw [List.any_eq_false]
  intro p mem same
  exact h (List.mem_map.mpr ⟨p, mem, of_decide_eq_true same⟩)

theorem outcome_parseParams_last {t close : Token} {seen : List Param} {name : String}
    (named : t.lexeme = .ident name) (fresh : name ∉ seen.map (·.name))
    (closes : close.lexeme = .symbol .rightParen) (rest : List Token) :
    outcome (parseParams eof seen (t :: close :: rest)) =
      .ok (seen ++ [⟨name, t.span⟩], rest) := by
  have noComma : take? (.symbol .comma) (close :: rest) = none :=
    take?_eq_none (.cons (by rw [closes]; nofun))
  rw [parseParams, expectName_cons named]
  simp only [bind, Except.bind, any_name_eq_false fresh, noComma, expect_cons_self closes]
  rfl

/-- A comma after a parameter asks for more, none of which may be one of those before. -/
theorem outcome_parseParams_more {t comma : Token} {seen : List Param} {name : String}
    (named : t.lexeme = .ident name) (fresh : name ∉ seen.map (·.name))
    (separates : comma.lexeme = .symbol .comma) (ts : List Token) :
    outcome (parseParams eof seen (t :: comma :: ts)) =
      outcome (parseParams eof (seen ++ [⟨name, t.span⟩]) ts) := by
  rw [parseParams, expectName_cons named]
  simp only [bind, Except.bind, any_name_eq_false fresh, take?_cons_self separates]
  exact outcome_within ..

theorem outcome_parseParamList_none {close : Token} (closes : close.lexeme = .symbol .rightParen)
    (rest : List Token) : outcome (parseParamList eof (close :: rest)) = .ok ([], rest) := by
  rw [parseParamList]
  simp only [take?_cons_self closes]
  rfl

theorem outcome_parseParamList_some {ts : List Token}
    (next : Next (· ≠ .symbol .rightParen) ts) :
    outcome (parseParamList eof ts) = outcome (parseParams eof [] ts) := by
  rw [parseParamList]
  simp only [take?_eq_none next]

/-- A semicolon in place of a body makes a function without one. -/
theorem outcome_parseBody_none {stop : Token} (stops : stop.lexeme = .symbol .semicolon)
    (rest : List Token) :
    outcome (parseBody eof (stop :: rest)) = .ok ((none, stop.span), rest) := by
  rw [parseBody]
  simp only [take?_cons_self stops]
  rfl

/-- Any other body is a block. -/
theorem outcome_parseBody_some {ts rest : List Token} {body : List Stmt} {close : Span}
    (next : Next (· ≠ .symbol .semicolon) ts)
    (h : outcome (parseBlock eof ts) = .ok ((body, close), rest)) :
    outcome (parseBody eof ts) = .ok ((some body, close), rest) := by
  obtain ⟨less, h⟩ := outcome_eq_ok.mp h
  rw [parseBody]
  simp only [take?_eq_none next, bind, Except.bind, h]
  rfl

/-- A function is its name, its parameters and its body, and ends where that does. -/
theorem outcome_parseFunction {file name : String} {t t' opened : Token}
    {ts mid rest : List Token} {params : List Param} {body : Option (List Stmt)} {stop : Span}
    (word : t.lexeme = .keyword .define) (named : t'.lexeme = .ident name)
    (opens : opened.lexeme = .symbol .leftParen)
    (readParams : outcome (parseParamList eof ts) = .ok (params, mid))
    (readBody : outcome (parseBody eof mid) = .ok ((body, stop), rest)) :
    outcome (parseFunction eof file (t :: t' :: opened :: ts)) =
      .ok (⟨name, params, body, t.span.merge stop, file⟩, rest) := by
  obtain ⟨less, readParams⟩ := outcome_eq_ok.mp readParams
  obtain ⟨less', readBody⟩ := outcome_eq_ok.mp readBody
  simp only [parseFunction, bind, Except.bind, expect_cons_self word, expectName_cons named,
    expect_cons_self opens, readParams, readBody]
  rfl

/-- The word that defines functions begins a function at the top of a file. -/
theorem parseItems_function {file : String} {t : Token} {ts rest : List Token} {f : Function}
    {fs : List Function} {ss : List TopLevel} (word : t.lexeme = .keyword .define)
    (readFunction : outcome (parseFunction eof file (t :: ts)) = .ok (f, rest))
    (readItems : parseItems eof file rest = .ok (fs, ss)) :
    parseItems eof file (t :: ts) = .ok (f :: fs, ss) := by
  obtain ⟨less, readFunction⟩ := outcome_eq_ok.mp readFunction
  rw [parseItems, if_pos word, readFunction]
  simp only [bind, Except.bind, readItems]
  rfl

/-- Anything else at the top of a file is a statement. -/
theorem parseItems_stmt {file : String} {t : Token} {ts rest : List Token} {s : Stmt}
    {fs : List Function} {ss : List TopLevel} (word : t.lexeme ≠ .keyword .define)
    (readStmt : outcome (parseStmt eof (t :: ts)) = .ok (s, rest))
    (readItems : parseItems eof file rest = .ok (fs, ss)) :
    parseItems eof file (t :: ts) = .ok (fs, ⟨s, file⟩ :: ss) := by
  obtain ⟨less, readStmt⟩ := outcome_eq_ok.mp readStmt
  rw [parseItems, if_neg word, readStmt]
  simp only [bind, Except.bind, readItems]
  rfl

end Shellwright.Surface
