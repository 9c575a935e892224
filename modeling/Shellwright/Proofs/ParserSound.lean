import Shellwright.Proofs.Grammar
import Shellwright.Proofs.Outcome
import Shellwright.Proofs.Segments
import Shellwright.Surface.Parser

/-!
# Reading keeps to the grammar

Whatever a rule of the reader takes, the grammar's rule derives, and to the same tree. The
theorems recurse as the reader does and with its measures; the tokens that a step takes
are put together again only when all its parts have been read, for the bounds of what is
left speak of them.
-/

namespace Shellwright.Surface

/-- By this rule the tokens before `rest` are the tree. -/
def Reads (rule : Rule) (ts rest : List Token) (tree : rule.Tree) : Prop :=
  ∃ used, ts = used ++ rest ∧ Derives rule (used.map Token.lexeme) tree

/-! ## Operators -/

/-- The tree that a joint makes of its operands. -/
def Joint.tree : Joint → Expr → Expr → Expr
  | .binary op => .binary .zero op
  | .pipe => .pipe .zero

/-- Without places, an operator joins its operands as the grammar says. -/
theorem Joint.join_placeless (j : Joint) (left right : Expr) :
    (j.join left right).placeless = j.tree left.placeless right.placeless := by
  cases j <;> simp only [Joint.join, Joint.tree, Expr.placeless]

/-- Without places, brackets leave nothing behind. -/
theorem Expr.withSpan_placeless (span : Span) (e : Expr) :
    (e.withSpan span).placeless = e.placeless := by
  cases e <;> simp only [Expr.withSpan, Expr.placeless]

namespace Level

/-- The tier of a level. -/
def tier (l : Level) : Tier := tiers.getD (6 - l.height) []

/-- The tiers from a level on. -/
def tiersFrom : Option Level → List Tier
  | none => []
  | some l => tiers.drop (6 - l.height)

/-- The levels from one on are that one and those from the next tighter one on. -/
theorem tiersFrom_some (l : Level) : tiersFrom (some l) = l.tier :: tiersFrom l.tighter := by
  cases l <;> rfl

/-- The operators that are read on a level are those the grammar has there. -/
theorem mem_tier_of_joint? {l : Level} {x : Lexeme} {j : Joint} (h : l.joint? x = some j) :
    ∃ op, x = .symbol op ∧ (op, j.tree) ∈ l.tier := by
  unfold joint? at h
  split at h
  all_goals cases h
  all_goals exact ⟨_, rfl, by simp [tier, tiers, height, Joint.tree]⟩

end Level

/-- The signs that are read are those the grammar has. -/
theorem mem_signs_of_unaryOp? {x : Lexeme} {op : UnaryOp} (h : unaryOp? x = some op) :
    ∃ symbol, x = .symbol symbol ∧ (symbol, op) ∈ signs := by
  unfold unaryOp? at h
  split at h
  all_goals cases h
  all_goals exact ⟨_, rfl, by simp [signs]⟩

/-! ## Single tokens -/

/-- A token that is taken was the first one. -/
theorem take?_eq_some {wanted : Lexeme} (ts : List Token) {span : Span} {rest : List Token}
    {less : rest.length < ts.length} (h : take? wanted ts = some ⟨span, rest, less⟩) :
    ∃ t, ts = t :: rest ∧ t.lexeme = wanted := by
  cases ts with
  | nil => cases h
  | cons t rest =>
    simp only [take?] at h
    split at h
    · cases h
      exact ⟨t, rfl, ‹_›⟩
    · cases h

theorem expect_eq_ok {eof : Span} {wanted : Lexeme} (ts : List Token) {span : Span}
    {rest : List Token} {less : rest.length < ts.length}
    (h : expect eof wanted ts = .ok ⟨span, rest, less⟩) :
    ∃ t, ts = t :: rest ∧ t.lexeme = wanted := by
  unfold expect at h
  split at h
  · next found =>
    cases h
    exact take?_eq_some ts found
  · cases h

theorem expectName_eq_ok {eof : Span} {role : NameRole} (ts : List Token) {param : Param}
    {rest : List Token} {less : rest.length < ts.length}
    (h : expectName eof role ts = .ok ⟨param, rest, less⟩) :
    ∃ t, ts = t :: rest ∧ t.lexeme = .ident param.name := by
  unfold expectName at h
  split at h
  · cases h
    exact ⟨_, rfl, rfl⟩
  · cases h

/-! ## Expressions -/

mutual

/-- What a rule for expressions reads is derived by the grammar, with the tokens that it took.
The rules call each other, so all of them are taken together. -/
theorem parseLevel_sound (eof : Span) (level : Option Level) (ts : List Token) {e : Expr}
    {rest : List Token} {less : rest.length < ts.length}
    (h : parseLevel eof level ts = .ok ⟨e, rest, less⟩) :
    Reads (.within (Level.tiersFrom level)) ts rest e.placeless := by
  match level with
  | none =>
    rw [parseLevel] at h
    obtain ⟨used, split, derived⟩ := parseUnary_sound eof ts h
    exact ⟨used, split, .operand derived⟩
  | some l =>
    rw [parseLevel] at h
    obtain ⟨⟨first, mid, shorter⟩, readFirst, h⟩ := bind_eq_ok.mp h
    obtain ⟨⟨whole, last, shorter'⟩, readWhole, h⟩ := bind_eq_ok.mp h
    cases h
    obtain ⟨used, split, derived⟩ := parseLevel_sound eof l.tighter ts readFirst
    obtain ⟨more, splitMid, derivedAll⟩ :=
      parseJoints_sound eof l first mid readWhole (.tighter derived)
    subst splitMid split
    refine ⟨used ++ more, (List.append_assoc ..).symm, ?_⟩
    rw [Level.tiersFrom_some, List.map_append]
    exact derivedAll
termination_by 16 * ts.length + Level.weight level
decreasing_by
  · simp only [Level.weight]
    omega
  · have := Level.weight_tighter_lt l
    omega
  · simp only [Level.weight]
    omega

/-- The left operand grows while operators are read, and stays derived. -/
theorem parseJoints_sound (eof : Span) (l : Level) (left : Expr) (ts : List Token) {e : Expr}
    {rest : List Token} {less : rest.length < ts.length + 1}
    (h : parseJoints eof l left ts = .ok ⟨e, rest, less⟩) {xs : List Lexeme}
    (derived : Derives (.within (l.tier :: Level.tiersFrom l.tighter)) xs left.placeless) :
    ∃ used, ts = used ++ rest ∧
      Derives (.within (l.tier :: Level.tiersFrom l.tighter)) (xs ++ used.map Token.lexeme)
        e.placeless := by
  match ts with
  | [] =>
    rw [parseJoints] at h
    cases h
    exact ⟨[], rfl, by simpa using derived⟩
  | t :: ts =>
    rw [parseJoints] at h
    split at h
    · cases h
      exact ⟨[], rfl, by simpa using derived⟩
    · next j joint =>
      obtain ⟨⟨right, mid, shorter⟩, readRight, h⟩ := bind_eq_ok.mp h
      obtain ⟨⟨whole, last, shorter'⟩, readWhole, h⟩ := bind_eq_ok.mp h
      cases h
      obtain ⟨op, spelled, mem⟩ := Level.mem_tier_of_joint? joint
      obtain ⟨used, split, derivedRight⟩ := parseLevel_sound eof l.tighter ts readRight
      have joined := Derives.joined mem derived derivedRight
      rw [← Joint.join_placeless] at joined
      obtain ⟨more, splitMid, derivedAll⟩ := parseJoints_sound eof l _ mid readWhole joined
      subst splitMid split
      refine ⟨t :: used ++ more, by simp, ?_⟩
      simpa [spelled] using derivedAll
termination_by 16 * ts.length
decreasing_by
  · have := Level.weight_tighter_lt l
    have : Level.weight (some l) ≤ 10 := by cases l <;> decide
    simp only [List.length_cons]
    omega
  · simp only [List.length_cons]
    omega

/-- An operand with signs is one of the grammar. -/
theorem parseUnary_sound (eof : Span) (ts : List Token) {e : Expr} {rest : List Token}
    {less : rest.length < ts.length} (h : parseUnary eof ts = .ok ⟨e, rest, less⟩) :
    Reads .signed ts rest e.placeless := by
  match ts with
  | [] => exact absurd less (Nat.not_lt_zero _)
  | t :: ts =>
    rw [parseUnary] at h
    split at h
    · obtain ⟨used, split, derived⟩ := parsePrimary_sound eof (t :: ts) h
      exact ⟨used, split, .plain derived⟩
    · next op sign =>
      obtain ⟨⟨operand, mid, shorter⟩, readOperand, h⟩ := bind_eq_ok.mp h
      cases h
      obtain ⟨symbol, spelled, mem⟩ := mem_signs_of_unaryOp? sign
      obtain ⟨used, split, derived⟩ := parseUnary_sound eof ts readOperand
      subst split
      refine ⟨t :: used, rfl, ?_⟩
      rw [List.map_cons, spelled, Expr.placeless]
      exact .sign mem derived
termination_by 16 * ts.length + 2
decreasing_by
  all_goals simp only [List.length_cons]; omega

/-- A literal, a name, a call or an expression in brackets is a primary one. -/
theorem parsePrimary_sound (eof : Span) (ts : List Token) {e : Expr} {rest : List Token}
    {less : rest.length < ts.length} (h : parsePrimary eof ts = .ok ⟨e, rest, less⟩) :
    Reads .primary ts rest e.placeless := by
  match ts with
  | [] => exact absurd less (Nat.not_lt_zero _)
  | ⟨lexeme, span, body⟩ :: ts =>
    rw [parsePrimary.eq_def] at h
    cases lexeme with
    | int value =>
      cases h
      exact ⟨[_], rfl, .int value⟩
    | fraction value =>
      cases h
      exact ⟨[_], rfl, .fraction value⟩
    | text raw =>
      cases h
      refine ⟨[_], rfl, ?_⟩
      rw [Expr.placeless, Segment.map_placeless_split]
      exact .text raw
    | command raw =>
      cases h
      refine ⟨[_], rfl, ?_⟩
      rw [Expr.placeless, Segment.map_placeless_split]
      exact .command raw
    | keyword word =>
      cases word with
      | trueWord =>
        cases h
        exact ⟨[_], rfl, .trueWord⟩
      | falseWord =>
        cases h
        exact ⟨[_], rfl, .falseWord⟩
      | _ => cases h
    | symbol symbol =>
      dsimp only at h
      split at h
      · next paren =>
        obtain ⟨⟨inner, mid, shorter⟩, readInner, h⟩ := bind_eq_ok.mp h
        obtain ⟨⟨close, last, shorter'⟩, readClose, h⟩ := bind_eq_ok.mp h
        cases h
        obtain ⟨used, split, derived⟩ := parseLevel_sound eof (some .pipe) ts readInner
        obtain ⟨t, splitMid, spelled⟩ := expect_eq_ok mid readClose
        subst paren splitMid split
        refine ⟨⟨.symbol .leftParen, span, body⟩ :: (used ++ [t]), by simp, ?_⟩
        rw [Expr.withSpan_placeless]
        simpa [spelled] using Derives.brackets derived
      · cases h
    | ident name =>
      dsimp only at h
      split at h
      · next inner shorter opened =>
        obtain ⟨⟨⟨args, close⟩, last, shorter'⟩, readArgs, h⟩ := bind_eq_ok.mp h
        cases h
        obtain ⟨t, split, spelled⟩ := take?_eq_some ts opened
        obtain ⟨used, close, splitInner, spelledClose, derived⟩ :=
          parseArgs_sound eof inner readArgs
        subst splitInner split
        refine ⟨⟨.ident name, span, body⟩ :: t :: (used ++ [close]), by simp, ?_⟩
        rw [Expr.placeless]
        simpa [spelled, spelledClose] using derived name
      · cases h
        exact ⟨[_], rfl, .var name⟩
termination_by 16 * ts.length + 1
decreasing_by
  all_goals simp only [List.length_cons, Level.weight, Level.height]; omega

/-- Arguments are read up to the closing bracket, which is the last token taken. -/
theorem parseArgs_sound (eof : Span) (ts : List Token) {args : List Expr} {close : Span}
    {rest : List Token} {less : rest.length < ts.length}
    (h : parseArgs eof ts = .ok ⟨(args, close), rest, less⟩) :
    ∃ used t, ts = used ++ t :: rest ∧ t.lexeme = .symbol .rightParen ∧
      ∀ name, Derives .primary
        (.ident name :: .symbol .leftParen :: (used.map Token.lexeme ++ [.symbol .rightParen]))
        (.call .zero name (Expr.placelessList args)) := by
  rw [parseArgs] at h
  split at h
  · next close mid shorter closed =>
    cases h
    obtain ⟨t, split, spelled⟩ := take?_eq_some ts closed
    exact ⟨[], t, split, spelled, fun name => .bareCall name⟩
  · obtain ⟨used, t, split, spelled, derived⟩ := parseArgList_sound eof ts h
    exact ⟨used, t, split, spelled, fun name => .call name derived⟩
termination_by 16 * ts.length + 12
decreasing_by
  omega

theorem parseArgList_sound (eof : Span) (ts : List Token) {args : List Expr} {close : Span}
    {rest : List Token} {less : rest.length < ts.length}
    (h : parseArgList eof ts = .ok ⟨(args, close), rest, less⟩) :
    ∃ used t, ts = used ++ t :: rest ∧ t.lexeme = .symbol .rightParen ∧
      Derives .args (used.map Token.lexeme) (Expr.placelessList args) := by
  rw [parseArgList] at h
  obtain ⟨⟨first, mid, shorter⟩, readFirst, h⟩ := bind_eq_ok.mp h
  obtain ⟨used, split, derived⟩ := parseLevel_sound eof (some .pipe) ts readFirst
  dsimp only at h
  split at h
  · next comma more shorter' taken =>
    obtain ⟨⟨⟨others, close⟩, last, shorter''⟩, readOthers, h⟩ := bind_eq_ok.mp h
    cases h
    obtain ⟨t, splitMid, spelled⟩ := take?_eq_some mid taken
    obtain ⟨used', t', splitMore, spelled', derivedOthers⟩ :=
      parseArgList_sound eof more readOthers
    subst splitMore splitMid split
    refine ⟨used ++ t :: used', t', by simp, spelled', ?_⟩
    rw [Expr.placelessList]
    simpa [spelled] using Derives.argsMore derived derivedOthers
  · obtain ⟨⟨close, last, shorter'⟩, readClose, h⟩ := bind_eq_ok.mp h
    cases h
    obtain ⟨t, splitMid, spelled⟩ := expect_eq_ok mid readClose
    subst splitMid split
    exact ⟨used, t, rfl, spelled, .arg derived⟩
termination_by 16 * ts.length + 11
decreasing_by
  · simp only [Level.weight, Level.height]
    omega
  · omega

end

theorem parseExpr_sound {eof : Span} (ts : List Token) {e : Expr} {rest : List Token}
    {less : rest.length < ts.length} (h : parseExpr eof ts = .ok ⟨e, rest, less⟩) :
    Reads .expr ts rest e.placeless :=
  parseLevel_sound eof (some .pipe) ts h

/-! ## Statements without statements inside -/

/-- A condition is an expression in brackets. -/
theorem parseCondition_sound {eof : Span} (ts : List Token) {e : Expr} {rest : List Token}
    {less : rest.length < ts.length} (h : parseCondition eof ts = .ok ⟨e, rest, less⟩) :
    ∃ used xs, ts = used ++ rest ∧
      used.map Token.lexeme = .symbol .leftParen :: (xs ++ [.symbol .rightParen]) ∧
      Derives .expr xs e.placeless := by
  unfold parseCondition at h
  obtain ⟨⟨opened, inner, shorter⟩, readOpen, h⟩ := bind_eq_ok.mp h
  obtain ⟨⟨cond, mid, shorter'⟩, readCond, h⟩ := bind_eq_ok.mp h
  obtain ⟨⟨close, last, shorter''⟩, readClose, h⟩ := bind_eq_ok.mp h
  cases h
  obtain ⟨t, split, spelled⟩ := expect_eq_ok ts readOpen
  obtain ⟨used, splitInner, derived⟩ := parseExpr_sound inner readCond
  obtain ⟨t', splitMid, spelled'⟩ := expect_eq_ok mid readClose
  subst splitMid splitInner split
  exact ⟨t :: (used ++ [t']), used.map Token.lexeme,
    by simp, by simp [spelled, spelled'], derived⟩

/-- An expression is read up to the semicolon. -/
theorem parseExprEnd_sound {eof : Span} (ts : List Token) {e : Expr} {stop : Span}
    {rest : List Token} {less : rest.length < ts.length}
    (h : parseExprEnd eof ts = .ok ⟨(e, stop), rest, less⟩) :
    ∃ used xs, ts = used ++ rest ∧ used.map Token.lexeme = xs ++ [.symbol .semicolon] ∧
      Derives .expr xs e.placeless := by
  unfold parseExprEnd at h
  obtain ⟨⟨value, mid, shorter⟩, readValue, h⟩ := bind_eq_ok.mp h
  obtain ⟨⟨stop, last, shorter'⟩, readStop, h⟩ := bind_eq_ok.mp h
  cases h
  obtain ⟨used, split, derived⟩ := parseExpr_sound ts readValue
  obtain ⟨t, splitMid, spelled⟩ := expect_eq_ok mid readStop
  subst splitMid split
  exact ⟨used ++ [t], used.map Token.lexeme, by simp, by simp [spelled], derived⟩

/-- What a loop runs over: the words of one expression, or the range between two. -/
inductive Bounds : List Lexeme → Expr → Option Expr → Prop
  | words {xs : List Lexeme} {e : Expr} : Derives .expr xs e → Bounds xs e none
  | range {xs ys : List Lexeme} {lower upper : Expr} :
    Derives .expr xs lower → Derives .expr ys upper →
      Bounds (xs ++ .symbol .range :: ys) lower (some upper)

/-- Bounds and a block make a loop of the grammar. -/
theorem Bounds.loop {xs ys : List Lexeme} {lower : Expr} {upper : Option Expr} {body : List Stmt}
    (h : Bounds xs lower upper) (derived : Derives .block ys body) (var : String) :
    Derives .stmt
      (.keyword .forWord :: .symbol .leftParen :: .ident var :: .keyword .inWord ::
        (xs ++ .symbol .rightParen :: ys))
      (.loop .zero var lower upper body) := by
  cases h with
  | words single => exact .loopOver var single derived
  | range first second => simpa using Derives.loopRange var first second derived

/-- Bounds are one expression, or two with dots between. -/
theorem parseBounds_sound {eof : Span} (ts : List Token) {lower : Expr} {upper : Option Expr}
    {rest : List Token} {less : rest.length < ts.length}
    (h : parseBounds eof ts = .ok ⟨(lower, upper), rest, less⟩) :
    ∃ used xs, ts = used ++ rest ∧ used.map Token.lexeme = xs ++ [.symbol .rightParen] ∧
      Bounds xs lower.placeless (upper.map Expr.placeless) := by
  unfold parseBounds at h
  obtain ⟨⟨first, mid, shorter⟩, readFirst, h⟩ := bind_eq_ok.mp h
  obtain ⟨used, split, derived⟩ := parseExpr_sound ts readFirst
  dsimp only at h
  split at h
  · next dots more shorter' taken =>
    obtain ⟨⟨second, mid', shorter''⟩, readSecond, h⟩ := bind_eq_ok.mp h
    obtain ⟨⟨close, last, shorter'''⟩, readClose, h⟩ := bind_eq_ok.mp h
    cases h
    obtain ⟨t, splitMid, spelled⟩ := take?_eq_some mid taken
    obtain ⟨used', splitMore, derived'⟩ := parseExpr_sound more readSecond
    obtain ⟨t', splitMid', spelled'⟩ := expect_eq_ok mid' readClose
    subst splitMid' splitMore splitMid split
    refine ⟨used ++ t :: (used' ++ [t']), _, by simp, ?_, .range derived derived'⟩
    simp [spelled, spelled']
  · obtain ⟨⟨close, last, shorter'⟩, readClose, h⟩ := bind_eq_ok.mp h
    cases h
    obtain ⟨t, splitMid, spelled⟩ := expect_eq_ok mid readClose
    subst splitMid split
    exact ⟨used ++ [t], _, by simp, by simp [spelled], .words derived⟩

/-- The head of a loop has its variable and its bounds. -/
theorem parseLoopHead_sound {eof : Span} (ts : List Token) {var : String} {lower : Expr}
    {upper : Option Expr} {rest : List Token} {less : rest.length < ts.length}
    (h : parseLoopHead eof ts = .ok ⟨(var, lower, upper), rest, less⟩) :
    ∃ used xs, ts = used ++ rest ∧
      used.map Token.lexeme = .symbol .leftParen :: .ident var :: .keyword .inWord ::
        (xs ++ [.symbol .rightParen]) ∧
      Bounds xs lower.placeless (upper.map Expr.placeless) := by
  unfold parseLoopHead at h
  obtain ⟨⟨opened, inner, shorter⟩, readOpen, h⟩ := bind_eq_ok.mp h
  obtain ⟨⟨name, mid, shorter'⟩, readName, h⟩ := bind_eq_ok.mp h
  obtain ⟨⟨word, mid', shorter''⟩, readWord, h⟩ := bind_eq_ok.mp h
  obtain ⟨⟨⟨lower, upper⟩, last, shorter'''⟩, readBounds, h⟩ := bind_eq_ok.mp h
  cases h
  obtain ⟨t, split, spelled⟩ := expect_eq_ok ts readOpen
  obtain ⟨t', splitInner, spelled'⟩ := expectName_eq_ok inner readName
  obtain ⟨t'', splitMid, spelled''⟩ := expect_eq_ok mid readWord
  obtain ⟨used, xs, splitMid', lexemes, bounds⟩ := parseBounds_sound mid' readBounds
  subst splitMid' splitMid splitInner split
  exact ⟨t :: t' :: t'' :: used, xs,
    by simp, by simp [spelled, spelled', spelled'', lexemes], bounds⟩

theorem expectModule_eq_ok {eof : Span} (ts : List Token) {module : String} {rest : List Token}
    {less : rest.length < ts.length} (h : expectModule eof ts = .ok ⟨module, rest, less⟩) :
    ∃ t, ts = t :: rest ∧ (t.lexeme = .ident module ∨ t.lexeme = .text module) := by
  unfold expectModule at h
  split at h
  · cases h
    exact ⟨_, rfl, .inl rfl⟩
  · cases h
    exact ⟨_, rfl, .inr rfl⟩
  · cases h

/-- An expression or an assignment that is read as a statement is one. -/
theorem parseExprStmt_sound {eof : Span} (ts : List Token) {s : Stmt} {rest : List Token}
    {less : rest.length < ts.length} (h : parseExprStmt eof ts = .ok ⟨s, rest, less⟩) :
    Reads .stmt ts rest s.placeless := by
  unfold parseExprStmt at h
  obtain ⟨⟨⟨e, stop⟩, last, shorter⟩, readExpr, h⟩ := bind_eq_ok.mp h
  cases h
  obtain ⟨used, xs, split, lexemes, derived⟩ := parseExprEnd_sound ts readExpr
  refine ⟨used, split, ?_⟩
  rw [lexemes, Stmt.placeless]
  exact .expr derived

/-- The word for imports, a module and a semicolon are an import. -/
theorem parseImport_sound {eof start : Span} {t : Token} (ts : List Token) {s : Stmt}
    {rest : List Token} {less : rest.length < ts.length}
    (spelled : t.lexeme = .keyword .importWord)
    (h : parseImport eof start ts = .ok ⟨s, rest, less⟩) :
    Reads .stmt (t :: ts) rest s.placeless := by
  unfold parseImport at h
  obtain ⟨⟨module, mid, shorter⟩, readModule, h⟩ := bind_eq_ok.mp h
  obtain ⟨⟨stop, last, shorter'⟩, readStop, h⟩ := bind_eq_ok.mp h
  cases h
  obtain ⟨t', split, named⟩ := expectModule_eq_ok ts readModule
  obtain ⟨t'', splitMid, spelled''⟩ := expect_eq_ok mid readStop
  subst splitMid split
  refine ⟨[t, t', t''], rfl, ?_⟩
  rw [Stmt.placeless]
  rcases named with named | named
  · simpa [spelled, spelled'', named] using Derives.loadName module
  · simpa [spelled, spelled'', named] using Derives.loadText module

/-- The word for returns, a value and a semicolon are a return. -/
theorem parseReturn_sound {eof start : Span} {t : Token} (ts : List Token) {s : Stmt}
    {rest : List Token} {less : rest.length < ts.length}
    (spelled : t.lexeme = .keyword .returnWord)
    (h : parseReturn eof start ts = .ok ⟨s, rest, less⟩) :
    Reads .stmt (t :: ts) rest s.placeless := by
  unfold parseReturn at h
  split at h
  · cases h
  · obtain ⟨⟨⟨value, stop⟩, last, shorter⟩, readValue, h⟩ := bind_eq_ok.mp h
    cases h
    obtain ⟨used, xs, split, lexemes, derived⟩ := parseExprEnd_sound ts readValue
    subst split
    refine ⟨t :: used, rfl, ?_⟩
    rw [List.map_cons, spelled, lexemes, Stmt.placeless]
    exact .ret derived

theorem parseJump_sound {eof start : Span} {jump : Jump} {t : Token} (ts : List Token) {s : Stmt}
    {rest : List Token} {less : rest.length < ts.length}
    (derived : Derives .stmt [t.lexeme, .symbol .semicolon] (.jump .zero jump))
    (h : parseJump eof start jump ts = .ok ⟨s, rest, less⟩) :
    Reads .stmt (t :: ts) rest s.placeless := by
  unfold parseJump at h
  obtain ⟨⟨stop, last, shorter⟩, readStop, h⟩ := bind_eq_ok.mp h
  cases h
  obtain ⟨t', split, spelled'⟩ := expect_eq_ok ts readStop
  subst split
  refine ⟨[t, t'], rfl, ?_⟩
  rw [Stmt.placeless, List.map_cons, List.map_cons, spelled']
  exact derived

/-- The statements that are known by their first word. -/
theorem parseSimple_keyword_sound {eof : Span} {word : Keyword} {t : Token} (ts : List Token)
    {s : Stmt} {rest : List Token} {less : rest.length < (t :: ts).length}
    (spelled : t.lexeme = .keyword word) (h : parseSimple eof (t :: ts) = .ok ⟨s, rest, less⟩) :
    Reads .stmt (t :: ts) rest s.placeless := by
  unfold parseSimple at h
  simp only [spelled] at h
  cases word with
  | define => cases h
  | importWord =>
    obtain ⟨⟨s, last, shorter⟩, readImport, h⟩ := bind_eq_ok.mp h
    cases h
    exact parseImport_sound ts spelled readImport
  | returnWord =>
    obtain ⟨⟨s, last, shorter⟩, readReturn, h⟩ := bind_eq_ok.mp h
    cases h
    exact parseReturn_sound ts spelled readReturn
  | breakWord =>
    obtain ⟨⟨s, last, shorter⟩, readJump, h⟩ := bind_eq_ok.mp h
    cases h
    exact parseJump_sound ts (spelled ▸ .leave) readJump
  | continueWord =>
    obtain ⟨⟨s, last, shorter⟩, readJump, h⟩ := bind_eq_ok.mp h
    cases h
    exact parseJump_sound ts (spelled ▸ .next) readJump
  | _ => exact parseExprStmt_sound (t :: ts) h

/-- A simple statement is one of the grammar. -/
theorem parseSimple_sound {eof : Span} (ts : List Token) {s : Stmt} {rest : List Token}
    {less : rest.length < ts.length} (h : parseSimple eof ts = .ok ⟨s, rest, less⟩) :
    Reads .stmt ts rest s.placeless := by
  match ts with
  | [] => exact absurd less (Nat.not_lt_zero _)
  | t :: ts =>
    cases spelled : t.lexeme with
    | keyword word => exact parseSimple_keyword_sound ts spelled h
    | ident name =>
      unfold parseSimple at h
      simp only [spelled] at h
      split at h
      · next sign mid shorter taken =>
        obtain ⟨⟨⟨value, stop⟩, last, shorter'⟩, readValue, h⟩ := bind_eq_ok.mp h
        cases h
        obtain ⟨t', split, spelled'⟩ := take?_eq_some ts taken
        obtain ⟨used, xs, splitMid, lexemes, derived⟩ := parseExprEnd_sound mid readValue
        subst splitMid split
        refine ⟨t :: t' :: used, rfl, ?_⟩
        rw [Stmt.placeless, List.map_cons, spelled, List.map_cons, spelled', lexemes]
        exact .assign name derived
      · exact parseExprStmt_sound (t :: ts) h
    | _ =>
      unfold parseSimple at h
      simp only [spelled] at h
      exact parseExprStmt_sound (t :: ts) h

/-! ## Statements -/

mutual

/-- What a rule for statements reads is derived by the grammar, with the tokens that it took. -/
theorem parseStmt_sound (eof : Span) (ts : List Token) {s : Stmt} {rest : List Token}
    {less : rest.length < ts.length} (h : parseStmt eof ts = .ok ⟨s, rest, less⟩) :
    Reads .stmt ts rest s.placeless := by
  rw [parseStmt] at h
  split at h
  · next _ start inner shorter word =>
    obtain ⟨⟨cond, mid, shorter'⟩, readCond, h⟩ := bind_eq_ok.mp h
    obtain ⟨⟨⟨body, close⟩, mid', shorter''⟩, readBody, h⟩ := bind_eq_ok.mp h
    obtain ⟨⟨⟨chain, stop⟩, last, shorter'''⟩, readChain, h⟩ := bind_eq_ok.mp h
    cases h
    obtain ⟨t, split, spelled⟩ := take?_eq_some ts word
    obtain ⟨used, xs, splitInner, lexemes, derived⟩ := parseCondition_sound inner readCond
    obtain ⟨used', splitMid, derivedBody⟩ := parseBlock_sound eof mid readBody
    obtain ⟨used'', splitMid', derivedChain⟩ := parseElse_sound eof close mid' readChain
    subst splitMid' splitMid splitInner split
    refine ⟨t :: (used ++ used' ++ used''), by simp, ?_⟩
    rw [Stmt.placeless]
    simpa [spelled, lexemes] using Derives.branch derived derivedBody derivedChain
  · next start inner shorter _ word =>
    obtain ⟨⟨⟨var, lower, upper⟩, mid, shorter'⟩, readHead, h⟩ := bind_eq_ok.mp h
    obtain ⟨⟨⟨body, close⟩, last, shorter''⟩, readBody, h⟩ := bind_eq_ok.mp h
    cases h
    obtain ⟨t, split, spelled⟩ := take?_eq_some ts word
    obtain ⟨used, xs, splitInner, lexemes, bounds⟩ := parseLoopHead_sound inner readHead
    obtain ⟨used', splitMid, derivedBody⟩ := parseBlock_sound eof mid readBody
    subst splitMid splitInner split
    refine ⟨t :: (used ++ used'), by simp, ?_⟩
    rw [Stmt.placeless]
    simpa [spelled, lexemes] using bounds.loop derivedBody var
  · exact parseSimple_sound ts h
termination_by 4 * ts.length
decreasing_by
  all_goals omega

/-- A block is statements in braces. -/
theorem parseBlock_sound (eof : Span) (ts : List Token) {body : List Stmt} {close : Span}
    {rest : List Token} {less : rest.length < ts.length}
    (h : parseBlock eof ts = .ok ⟨(body, close), rest, less⟩) :
    Reads .block ts rest (Stmt.placelessList body) := by
  rw [parseBlock] at h
  obtain ⟨⟨opened, inner, shorter⟩, readOpen, h⟩ := bind_eq_ok.mp h
  obtain ⟨⟨⟨body, close⟩, last, shorter'⟩, readBody, h⟩ := bind_eq_ok.mp h
  cases h
  obtain ⟨t, split, spelled⟩ := expect_eq_ok ts readOpen
  obtain ⟨used, t', splitInner, spelled', derived⟩ := parseStmts_sound eof inner readBody
  subst splitInner split
  refine ⟨t :: (used ++ [t']), by simp, ?_⟩
  simpa [spelled, spelled'] using Derives.block derived
termination_by 4 * ts.length
decreasing_by
  omega

theorem parseStmts_sound (eof : Span) (ts : List Token) {body : List Stmt} {close : Span}
    {rest : List Token} {less : rest.length < ts.length}
    (h : parseStmts eof ts = .ok ⟨(body, close), rest, less⟩) :
    ∃ used t, ts = used ++ t :: rest ∧ t.lexeme = .symbol .rightBrace ∧
      Derives .stmts (used.map Token.lexeme) (Stmt.placelessList body) := by
  rw [parseStmts] at h
  split at h
  · next close mid shorter closed =>
    cases h
    obtain ⟨t, split, spelled⟩ := take?_eq_some ts closed
    exact ⟨[], t, split, spelled, .noStmts⟩
  · split at h
    · cases h
    · obtain ⟨⟨first, mid, shorter⟩, readFirst, h⟩ := bind_eq_ok.mp h
      obtain ⟨⟨⟨others, close⟩, last, shorter'⟩, readOthers, h⟩ := bind_eq_ok.mp h
      cases h
      obtain ⟨used, split, derived⟩ := parseStmt_sound eof ts readFirst
      obtain ⟨used', t, splitMid, spelled, derivedOthers⟩ := parseStmts_sound eof mid readOthers
      subst splitMid split
      refine ⟨used ++ used', t, by simp, spelled, ?_⟩
      rw [Stmt.placelessList, List.map_append]
      exact .stmtsMore derived derivedOthers
termination_by 4 * ts.length + 1
decreasing_by
  all_goals omega

/-- The branches after the first one are those of the grammar, down to none. -/
theorem parseElse_sound (eof last : Span) (ts : List Token) {chain : ElseChain} {stop : Span}
    {rest : List Token} {less : rest.length < ts.length + 1}
    (h : parseElse eof last ts = .ok ⟨(chain, stop), rest, less⟩) :
    Reads .otherwise ts rest chain.placeless := by
  rw [parseElse] at h
  split at h
  · cases h
    exact ⟨[], rfl, .done⟩
  · next word inner shorter taken =>
    obtain ⟨t, split, spelled⟩ := take?_eq_some ts taken
    split at h
    · next word' inner' shorter' taken' =>
      obtain ⟨⟨cond, mid, shorter''⟩, readCond, h⟩ := bind_eq_ok.mp h
      obtain ⟨⟨⟨body, close⟩, mid', shorter'''⟩, readBody, h⟩ := bind_eq_ok.mp h
      obtain ⟨⟨⟨others, stop⟩, final, shorter''''⟩, readOthers, h⟩ := bind_eq_ok.mp h
      cases h
      obtain ⟨t', splitInner, spelled'⟩ := take?_eq_some inner taken'
      obtain ⟨used, xs, splitInner', lexemes, derived⟩ := parseCondition_sound inner' readCond
      obtain ⟨used', splitMid, derivedBody⟩ := parseBlock_sound eof mid readBody
      obtain ⟨used'', splitMid', derivedOthers⟩ := parseElse_sound eof close mid' readOthers
      subst splitMid' splitMid splitInner' splitInner split
      refine ⟨t :: t' :: (used ++ used' ++ used''), by simp, ?_⟩
      rw [ElseChain.placeless]
      simpa [spelled, spelled', lexemes] using Derives.elseIf derived derivedBody derivedOthers
    · obtain ⟨⟨⟨body, close⟩, final, shorter'⟩, readBody, h⟩ := bind_eq_ok.mp h
      cases h
      obtain ⟨used, splitInner, derived⟩ := parseBlock_sound eof inner readBody
      subst splitInner split
      refine ⟨t :: used, rfl, ?_⟩
      rw [ElseChain.placeless, List.map_cons, spelled]
      exact .final derived
termination_by 4 * ts.length
decreasing_by
  all_goals omega

end

/-! ## Functions and programs -/

theorem commas_cons_cons (name name' : String) (names : List String) :
    commas (name :: name' :: names) =
      .ident name :: .symbol .comma :: commas (name' :: names) := rfl

/-- A name that was not seen keeps the names distinct. -/
theorem nodup_names_append {seen : List Param} {param : Param}
    (distinct : (seen.map (·.name)).Nodup) (fresh : ¬seen.any (·.name = param.name) = true) :
    ((seen ++ [param]).map (·.name)).Nodup := by
  rw [List.map_append, List.nodup_append]
  refine ⟨distinct, by simp, ?_⟩
  intro name mem name' mem' same
  obtain ⟨p, known, rfl⟩ := List.mem_map.mp mem
  obtain rfl := List.mem_singleton.mp mem'
  exact fresh (List.any_eq_true.mpr ⟨p, known, decide_eq_true same⟩)

/-- Parameters are names with commas between, and no two are the same. -/
theorem parseParams_sound (eof : Span) (seen : List Param) (ts : List Token)
    {params : List Param} {rest : List Token} {less : rest.length < ts.length}
    (h : parseParams eof seen ts = .ok ⟨params, rest, less⟩)
    (distinct : (seen.map (·.name)).Nodup) :
    ∃ used first others, ts = used ++ rest ∧ params = seen ++ first :: others ∧
      (params.map (·.name)).Nodup ∧
      used.map Token.lexeme =
        commas ((first :: others).map (·.name)) ++ [.symbol .rightParen] := by
  rw [parseParams] at h
  obtain ⟨⟨param, mid, shorter⟩, readName, h⟩ := bind_eq_ok.mp h
  obtain ⟨t, split, spelled⟩ := expectName_eq_ok ts readName
  dsimp only at h
  split at h
  · cases h
  · next fresh =>
    have distinct' := nodup_names_append distinct fresh
    split at h
    · next comma more shorter' taken =>
      obtain ⟨⟨params, last, shorter''⟩, readMore, h⟩ := bind_eq_ok.mp h
      cases h
      obtain ⟨t', splitMid, spelled'⟩ := take?_eq_some mid taken
      obtain ⟨used, second, others, splitMore, together, allDistinct, lexemes⟩ :=
        parseParams_sound eof (seen ++ [param]) more readMore distinct'
      subst splitMore splitMid split
      refine ⟨t :: t' :: used, param, second :: others, rfl, by simp [together], allDistinct, ?_⟩
      simp only [List.map_cons, spelled, spelled', lexemes, commas_cons_cons, List.cons_append]
    · obtain ⟨⟨close, last, shorter'⟩, readClose, h⟩ := bind_eq_ok.mp h
      cases h
      obtain ⟨t', splitMid, spelled'⟩ := expect_eq_ok mid readClose
      subst splitMid split
      exact ⟨[t, t'], param, [], rfl, rfl, distinct', by simp [spelled, spelled', commas]⟩
termination_by ts.length
decreasing_by
  omega

/-- A list of parameters ends with the closing bracket. -/
theorem parseParamList_sound {eof : Span} (ts : List Token) {params : List Param}
    {rest : List Token} {less : rest.length < ts.length}
    (h : parseParamList eof ts = .ok ⟨params, rest, less⟩) :
    ∃ used, ts = used ++ rest ∧ (params.map (·.name)).Nodup ∧
      used.map Token.lexeme = commas (params.map (·.name)) ++ [.symbol .rightParen] := by
  unfold parseParamList at h
  split at h
  · next close mid shorter closed =>
    cases h
    obtain ⟨t, split, spelled⟩ := take?_eq_some ts closed
    exact ⟨[t], split, .nil, by simp [spelled, commas]⟩
  · obtain ⟨used, first, others, split, rfl, distinct, lexemes⟩ :=
      parseParams_sound eof [] ts h .nil
    exact ⟨used, split, distinct, lexemes⟩

/-- A body is a block, or a semicolon for none. -/
theorem parseBody_sound {eof : Span} (ts : List Token) {body : Option (List Stmt)} {stop : Span}
    {rest : List Token} {less : rest.length < ts.length}
    (h : parseBody eof ts = .ok ⟨(body, stop), rest, less⟩) :
    Reads .body ts rest (body.map Stmt.placelessList) := by
  unfold parseBody at h
  split at h
  · next stop mid shorter taken =>
    cases h
    obtain ⟨t, split, spelled⟩ := take?_eq_some ts taken
    refine ⟨[t], split, ?_⟩
    rw [List.map_cons, spelled]
    exact .declared
  · obtain ⟨⟨⟨body, close⟩, last, shorter⟩, readBody, h⟩ := bind_eq_ok.mp h
    cases h
    obtain ⟨used, split, derived⟩ := parseBlock_sound eof ts readBody
    exact ⟨used, split, .defined derived⟩

/-- A function that is read is one of the grammar. -/
theorem parseFunction_sound {eof : Span} {file : String} (ts : List Token) {f : Function}
    {rest : List Token} {less : rest.length < ts.length}
    (h : parseFunction eof file ts = .ok ⟨f, rest, less⟩) :
    Reads (.function file) ts rest f.placeless := by
  unfold parseFunction at h
  obtain ⟨⟨start, inner, shorter⟩, readStart, h⟩ := bind_eq_ok.mp h
  obtain ⟨⟨name, mid, shorter'⟩, readName, h⟩ := bind_eq_ok.mp h
  obtain ⟨⟨opened, inner', shorter''⟩, readOpen, h⟩ := bind_eq_ok.mp h
  obtain ⟨⟨params, mid', shorter'''⟩, readParams, h⟩ := bind_eq_ok.mp h
  obtain ⟨⟨⟨body, stop⟩, last, shorter''''⟩, readBody, h⟩ := bind_eq_ok.mp h
  cases h
  obtain ⟨t, split, spelled⟩ := expect_eq_ok ts readStart
  obtain ⟨t', splitInner, spelled'⟩ := expectName_eq_ok inner readName
  obtain ⟨t'', splitMid, spelled''⟩ := expect_eq_ok mid readOpen
  obtain ⟨used, splitInner', distinct, lexemes⟩ := parseParamList_sound inner' readParams
  obtain ⟨used', splitMid', derived⟩ := parseBody_sound mid' readBody
  subst splitMid' splitInner' splitMid splitInner split
  refine ⟨t :: t' :: t'' :: (used ++ used'), by simp, ?_⟩
  simpa [spelled, spelled', spelled'', lexemes, Function.placeless, Function.comp_def] using
    Derives.function name.name distinct derived

/-- A file that is read is derived by the grammar as a whole. -/
theorem parseItems_sound (eof : Span) (file : String) (ts : List Token) {fs : List Function}
    {ss : List TopLevel} (h : parseItems eof file ts = .ok (fs, ss)) :
    Derives (.items file) (ts.map Token.lexeme)
      (fs.map Function.placeless, ss.map fun t => { t with stmt := t.stmt.placeless }) := by
  match ts with
  | [] =>
    rw [parseItems] at h
    cases h
    exact .noItems
  | t :: ts =>
    rw [parseItems] at h
    split at h
    · obtain ⟨⟨f, rest, shorter⟩, readFunction, h⟩ := bind_eq_ok.mp h
      obtain ⟨⟨fs, ss⟩, readItems, h⟩ := bind_eq_ok.mp h
      cases h
      obtain ⟨used, split, derived⟩ := parseFunction_sound (t :: ts) readFunction
      have items := parseItems_sound eof file rest readItems
      rw [split, List.map_append]
      exact .itemFunction derived items
    · obtain ⟨⟨s, rest, shorter⟩, readStmt, h⟩ := bind_eq_ok.mp h
      obtain ⟨⟨fs, ss⟩, readItems, h⟩ := bind_eq_ok.mp h
      cases h
      obtain ⟨used, split, derived⟩ := parseStmt_sound eof (t :: ts) readStmt
      have items := parseItems_sound eof file rest readItems
      rw [split, List.map_append]
      exact .itemStmt derived items
termination_by ts.length
decreasing_by
  all_goals exact shorter

/-- The program that is read is one that the grammar derives from all the tokens. -/
theorem Program.parse_sound {file : String} {ts : List Token} {p : Program}
    (h : Program.parse file ts = .ok p) :
    Derives (.program file) (ts.map Token.lexeme) p.placeless := by
  unfold Program.parse at h
  obtain ⟨⟨fs, ss⟩, readItems, h⟩ := bind_eq_ok.mp h
  cases h
  exact .program (parseItems_sound (eofSpan ts) file ts readItems)

end Shellwright.Surface
