import Shellwright.Proofs.ParserSound

/-!
# How far a rule reaches

A rule that has taken tokens can look back at the last one of them. So the place of a call, a
statement or a function is given by two tokens that are there: the first one, and the last
one that was taken.

* `EndsAt`: the last token before what is left.
* `parsePrimary_reaches`, `parseStmt_reaches`, `parseFunction_reaches`: from the first
  token to the last.
-/

namespace Shellwright.Surface

/-- The last token before `rest` stands at the place `stop`. -/
def EndsAt (ts rest : List Token) (stop : Span) : Prop :=
  ∃ before last, ts = before ++ last :: rest ∧ last.span = stop

/-- The place reaches from the first of the tokens to the last one before `rest`. -/
def Reaches (ts rest : List Token) (span : Span) : Prop :=
  ∃ first stop, ts.head? = some first ∧ EndsAt ts rest stop ∧ span = first.span.merge stop

/-- After a token at the place `start`, the place reaches from there to the last token before
`rest`. -/
def ReachesFrom (start : Span) (ts rest : List Token) (span : Span) : Prop :=
  ∃ stop, EndsAt ts rest stop ∧ span = start.merge stop

variable {eof : Span}

/-- More tokens before do not change where the last one ends. -/
theorem EndsAt.prepend {ts rest : List Token} {stop : Span} (h : EndsAt ts rest stop)
    (used : List Token) : EndsAt (used ++ ts) rest stop := by
  obtain ⟨before, last, rfl, same⟩ := h
  exact ⟨used ++ before, last, (List.append_assoc ..).symm, same⟩

theorem EndsAt.cons {ts rest : List Token} {stop : Span} (h : EndsAt ts rest stop) (t : Token) :
    EndsAt (t :: ts) rest stop :=
  h.prepend [t]

/-- What ends somewhere and then does not go on, or goes on to another end. -/
theorem EndsAt.further {ts mid rest : List Token} {close stop : Span} (h : EndsAt ts mid close)
    (next : rest = mid ∧ stop = close ∨ EndsAt mid rest stop) : EndsAt ts rest stop := by
  rcases next with ⟨rfl, rfl⟩ | further
  · exact h
  · obtain ⟨before, last, rfl, -⟩ := h
    exact (further.cons last).prepend before

/-- A span from the first token to the last one reaches over all of them. -/
theorem EndsAt.reaches {t : Token} {ts rest : List Token} {stop : Span}
    (h : EndsAt ts rest stop) :
    Reaches (t :: ts) rest (t.span.merge stop) :=
  ⟨t, stop, rfl, h.cons t, rfl⟩

theorem ReachesFrom.reaches {t : Token} {ts rest : List Token} {span : Span}
    (h : ReachesFrom t.span ts rest span) : Reaches (t :: ts) rest span := by
  obtain ⟨stop, ends, rfl⟩ := h
  exact ends.reaches

theorem reaches_one (t : Token) (rest : List Token) : Reaches (t :: rest) rest t.span := by
  refine ⟨t, t.span, rfl, ⟨[], t, rfl, rfl⟩, ?_⟩
  rw [Span.merge, Nat.min_self, Nat.max_self]

/-! ## Single tokens -/

theorem take?_takes {wanted : Lexeme} (ts : List Token) {span : Span} {rest : List Token}
    {less : rest.length < ts.length} (h : take? wanted ts = some ⟨span, rest, less⟩) :
    ∃ t, ts = t :: rest ∧ t.span = span := by
  cases ts with
  | nil => cases h
  | cons t rest =>
    simp only [take?] at h
    split at h
    · cases h
      exact ⟨t, rfl, rfl⟩
    · cases h

theorem expect_takes {wanted : Lexeme} (ts : List Token) {span : Span} {rest : List Token}
    {less : rest.length < ts.length} (h : expect eof wanted ts = .ok ⟨span, rest, less⟩) :
    ∃ t, ts = t :: rest ∧ t.span = span := by
  unfold expect at h
  split at h
  · next found =>
    cases h
    exact take?_takes ts found
  · cases h

/-! ## Expressions -/

/-- A list of arguments ends at its closing bracket. -/
theorem parseArgList_endsAt (ts : List Token) {args : List Expr} {close : Span}
    {rest : List Token} {less : rest.length < ts.length}
    (h : parseArgList eof ts = .ok ⟨(args, close), rest, less⟩) : EndsAt ts rest close := by
  rw [parseArgList] at h
  obtain ⟨⟨first, mid, shorter⟩, readFirst, h⟩ := bind_eq_ok.mp h
  obtain ⟨used, split, -⟩ := parseLevel_sound eof (some .pipe) ts readFirst
  dsimp only at h
  split at h
  · next comma more shorter' taken =>
    obtain ⟨⟨⟨others, close⟩, last, shorter''⟩, readOthers, h⟩ := bind_eq_ok.mp h
    cases h
    obtain ⟨t, splitMid, -⟩ := take?_takes mid taken
    have ends := parseArgList_endsAt more readOthers
    subst splitMid split
    exact (ends.cons t).prepend used
  · obtain ⟨⟨close, last, shorter'⟩, readClose, h⟩ := bind_eq_ok.mp h
    cases h
    obtain ⟨t, splitMid, same⟩ := expect_takes mid readClose
    subst splitMid split
    exact ⟨used, t, rfl, same⟩
termination_by ts.length

theorem parseArgs_endsAt (ts : List Token) {args : List Expr} {close : Span} {rest : List Token}
    {less : rest.length < ts.length}
    (h : parseArgs eof ts = .ok ⟨(args, close), rest, less⟩) : EndsAt ts rest close := by
  rw [parseArgs] at h
  split at h
  · next close mid shorter closed =>
    cases h
    obtain ⟨t, split, same⟩ := take?_takes ts closed
    exact ⟨[], t, split, same⟩
  · exact parseArgList_endsAt ts h

theorem Expr.withSpan_span (e : Expr) (span : Span) : (e.withSpan span).span = span := by
  cases e <;> rfl

/-- A primary expression reaches over the tokens that were taken for it, brackets included. -/
theorem parsePrimary_reaches (ts : List Token) {e : Expr} {rest : List Token}
    {less : rest.length < ts.length} (h : parsePrimary eof ts = .ok ⟨e, rest, less⟩) :
    Reaches ts rest e.span := by
  cases ts with
  | nil => exact absurd less (Nat.not_lt_zero _)
  | cons t ts =>
    obtain ⟨lexeme, span, body⟩ := t
    rw [parsePrimary.eq_def] at h
    cases lexeme with
    | int value =>
      cases h
      exact reaches_one _ _
    | fraction value =>
      cases h
      exact reaches_one _ _
    | text raw =>
      cases h
      exact reaches_one _ _
    | command raw =>
      cases h
      exact reaches_one _ _
    | keyword word =>
      dsimp only at h
      split at h
      · cases h
        exact reaches_one _ _
      · cases h
    | symbol symbol =>
      dsimp only at h
      split at h
      · obtain ⟨⟨inner, mid, shorter⟩, readInner, h⟩ := bind_eq_ok.mp h
        obtain ⟨⟨close, last, shorter'⟩, readClose, h⟩ := bind_eq_ok.mp h
        cases h
        obtain ⟨used, split, -⟩ := parseLevel_sound eof (some .pipe) ts readInner
        obtain ⟨t, splitMid, same⟩ := expect_takes mid readClose
        subst splitMid split
        rw [Expr.withSpan_span]
        exact EndsAt.reaches ⟨used, t, rfl, same⟩
      · cases h
    | ident name =>
      dsimp only at h
      split at h
      · next inner shorter opened =>
        obtain ⟨⟨⟨args, close⟩, last, shorter'⟩, readArgs, h⟩ := bind_eq_ok.mp h
        cases h
        obtain ⟨t, split, -⟩ := take?_takes ts opened
        have ends := parseArgs_endsAt inner readArgs
        subst split
        exact (ends.cons t).reaches
      · cases h
        exact reaches_one _ _

/-! ## Statements -/

/-- An expression with a semicolon ends there. -/
theorem parseExprEnd_endsAt (ts : List Token) {e : Expr} {stop : Span} {rest : List Token}
    {less : rest.length < ts.length}
    (h : parseExprEnd eof ts = .ok ⟨(e, stop), rest, less⟩) : EndsAt ts rest stop := by
  unfold parseExprEnd at h
  obtain ⟨⟨value, mid, shorter⟩, readValue, h⟩ := bind_eq_ok.mp h
  obtain ⟨⟨stop, last, shorter'⟩, readStop, h⟩ := bind_eq_ok.mp h
  cases h
  obtain ⟨used, split, -⟩ := parseExpr_sound ts readValue
  obtain ⟨t, splitMid, same⟩ := expect_takes mid readStop
  subst splitMid split
  exact ⟨used, t, rfl, same⟩

/-- A statement that is an expression or an assignment reaches up to its semicolon. -/
theorem parseExprStmt_reaches (ts : List Token) {s : Stmt} {rest : List Token}
    {less : rest.length < ts.length} (h : parseExprStmt eof ts = .ok ⟨s, rest, less⟩) :
    Reaches ts rest s.span := by
  unfold parseExprStmt at h
  obtain ⟨⟨⟨e, stop⟩, last, shorter⟩, readExpr, h⟩ := bind_eq_ok.mp h
  cases h
  have ends := parseExprEnd_endsAt ts readExpr
  match ts with
  | [] => exact absurd less (Nat.not_lt_zero _)
  | t :: ts => exact ⟨t, stop, rfl, ends, rfl⟩

theorem parseImport_reachesFrom {start : Span} (ts : List Token) {s : Stmt} {rest : List Token}
    {less : rest.length < ts.length} (h : parseImport eof start ts = .ok ⟨s, rest, less⟩) :
    ReachesFrom start ts rest s.span := by
  unfold parseImport at h
  obtain ⟨⟨module, mid, shorter⟩, readModule, h⟩ := bind_eq_ok.mp h
  obtain ⟨⟨stop, last, shorter'⟩, readStop, h⟩ := bind_eq_ok.mp h
  cases h
  obtain ⟨t, split, -⟩ := expectModule_eq_ok ts readModule
  obtain ⟨t', splitMid, same⟩ := expect_takes mid readStop
  subst splitMid split
  exact ⟨stop, ⟨[t], t', rfl, same⟩, rfl⟩

/-- A return reaches from its word to its semicolon. -/
theorem parseReturn_reachesFrom {start : Span} (ts : List Token) {s : Stmt} {rest : List Token}
    {less : rest.length < ts.length} (h : parseReturn eof start ts = .ok ⟨s, rest, less⟩) :
    ReachesFrom start ts rest s.span := by
  unfold parseReturn at h
  split at h
  · cases h
  · obtain ⟨⟨⟨value, stop⟩, last, shorter⟩, readValue, h⟩ := bind_eq_ok.mp h
    cases h
    exact ⟨stop, parseExprEnd_endsAt ts readValue, rfl⟩

theorem parseJump_reachesFrom {start : Span} {jump : Jump} (ts : List Token) {s : Stmt}
    {rest : List Token} {less : rest.length < ts.length}
    (h : parseJump eof start jump ts = .ok ⟨s, rest, less⟩) :
    ReachesFrom start ts rest s.span := by
  unfold parseJump at h
  obtain ⟨⟨stop, last, shorter⟩, readStop, h⟩ := bind_eq_ok.mp h
  cases h
  obtain ⟨t, split, same⟩ := expect_takes ts readStop
  exact ⟨stop, ⟨[], t, split, same⟩, rfl⟩

/-- So does every simple statement. -/
theorem parseSimple_reaches (ts : List Token) {s : Stmt} {rest : List Token}
    {less : rest.length < ts.length} (h : parseSimple eof ts = .ok ⟨s, rest, less⟩) :
    Reaches ts rest s.span := by
  match ts with
  | [] => exact absurd less (Nat.not_lt_zero _)
  | t :: ts =>
    unfold parseSimple at h
    dsimp only at h
    split at h
    · cases h
    · obtain ⟨⟨stmt, last, shorter⟩, readStmt, h⟩ := bind_eq_ok.mp h
      cases h
      exact (parseImport_reachesFrom ts readStmt).reaches
    · obtain ⟨⟨stmt, last, shorter⟩, readStmt, h⟩ := bind_eq_ok.mp h
      cases h
      exact (parseReturn_reachesFrom ts readStmt).reaches
    · obtain ⟨⟨stmt, last, shorter⟩, readStmt, h⟩ := bind_eq_ok.mp h
      cases h
      exact (parseJump_reachesFrom ts readStmt).reaches
    · obtain ⟨⟨stmt, last, shorter⟩, readStmt, h⟩ := bind_eq_ok.mp h
      cases h
      exact (parseJump_reachesFrom ts readStmt).reaches
    · split at h
      · next more shorter sign =>
        obtain ⟨⟨⟨value, stop⟩, last, shorter'⟩, readValue, h⟩ := bind_eq_ok.mp h
        cases h
        obtain ⟨t', split, -⟩ := take?_takes ts sign
        have ends := parseExprEnd_endsAt more readValue
        subst split
        exact (ends.cons t').reaches
      · exact parseExprStmt_reaches (t :: ts) h
    · exact parseExprStmt_reaches (t :: ts) h

theorem parseStmts_endsAt (ts : List Token) {body : List Stmt} {close : Span} {rest : List Token}
    {less : rest.length < ts.length}
    (h : parseStmts eof ts = .ok ⟨(body, close), rest, less⟩) : EndsAt ts rest close := by
  rw [parseStmts] at h
  split at h
  · next close mid shorter closed =>
    cases h
    obtain ⟨t, split, same⟩ := take?_takes ts closed
    exact ⟨[], t, split, same⟩
  · split at h
    · cases h
    · obtain ⟨⟨first, mid, shorter⟩, readFirst, h⟩ := bind_eq_ok.mp h
      obtain ⟨⟨⟨others, close⟩, last, shorter'⟩, readOthers, h⟩ := bind_eq_ok.mp h
      cases h
      obtain ⟨used, split, -⟩ := parseStmt_sound eof ts readFirst
      have ends := parseStmts_endsAt mid readOthers
      subst split
      exact ends.prepend used
termination_by ts.length

/-- A block ends at its closing brace. -/
theorem parseBlock_endsAt (ts : List Token) {body : List Stmt} {close : Span} {rest : List Token}
    {less : rest.length < ts.length}
    (h : parseBlock eof ts = .ok ⟨(body, close), rest, less⟩) : EndsAt ts rest close := by
  rw [parseBlock] at h
  obtain ⟨⟨opened, inner, shorter⟩, readOpen, h⟩ := bind_eq_ok.mp h
  obtain ⟨⟨⟨body, close⟩, last, shorter'⟩, readBody, h⟩ := bind_eq_ok.mp h
  cases h
  obtain ⟨t, split, -⟩ := expect_takes ts readOpen
  have ends := parseStmts_endsAt inner readBody
  subst split
  exact ends.cons t

/-- Without a further branch the place stays where the branch before it ends. -/
theorem parseElse_endsAt {last : Span} (ts : List Token) {chain : ElseChain} {stop : Span}
    {rest : List Token} {less : rest.length < ts.length + 1}
    (h : parseElse eof last ts = .ok ⟨(chain, stop), rest, less⟩) :
    rest = ts ∧ stop = last ∨ EndsAt ts rest stop := by
  rw [parseElse] at h
  split at h
  · cases h
    exact .inl ⟨rfl, rfl⟩
  · next word inner shorter taken =>
    obtain ⟨t, split, -⟩ := take?_takes ts taken
    split at h
    · next again more shorter' taken' =>
      obtain ⟨⟨cond, mid, shorter''⟩, readCond, h⟩ := bind_eq_ok.mp h
      obtain ⟨⟨⟨body, close⟩, mid', shorter'''⟩, readBody, h⟩ := bind_eq_ok.mp h
      obtain ⟨⟨⟨otherwise, stop⟩, last, shorter''''⟩, readElse, h⟩ := bind_eq_ok.mp h
      cases h
      obtain ⟨t', splitInner, -⟩ := take?_takes inner taken'
      obtain ⟨used, _, splitMore, -, -⟩ := parseCondition_sound more readCond
      have ends := (parseBlock_endsAt mid readBody).further (parseElse_endsAt mid' readElse)
      subst splitMore splitInner split
      exact .inr (((ends.prepend used).cons t').cons t)
    · obtain ⟨⟨⟨body, close⟩, last, shorter'⟩, readBody, h⟩ := bind_eq_ok.mp h
      cases h
      have ends := parseBlock_endsAt inner readBody
      subst split
      exact .inr (ends.cons t)
termination_by ts.length

/-- A statement reaches over the tokens that were taken for it. -/
theorem parseStmt_reaches (ts : List Token) {s : Stmt} {rest : List Token}
    {less : rest.length < ts.length} (h : parseStmt eof ts = .ok ⟨s, rest, less⟩) :
    Reaches ts rest s.span := by
  rw [parseStmt] at h
  split at h
  · next _ start inner shorter word =>
    obtain ⟨⟨cond, mid, shorter'⟩, readCond, h⟩ := bind_eq_ok.mp h
    obtain ⟨⟨⟨body, close⟩, mid', shorter''⟩, readBody, h⟩ := bind_eq_ok.mp h
    obtain ⟨⟨⟨chain, stop⟩, last, shorter'''⟩, readChain, h⟩ := bind_eq_ok.mp h
    cases h
    obtain ⟨t, split, same⟩ := take?_takes ts word
    obtain ⟨used, _, splitInner, -, -⟩ := parseCondition_sound inner readCond
    have ends := (parseBlock_endsAt mid readBody).further (parseElse_endsAt mid' readChain)
    subst same splitInner split
    exact (ends.prepend used).reaches
  · next start inner shorter _ word =>
    obtain ⟨⟨⟨var, lower, upper⟩, mid, shorter'⟩, readHead, h⟩ := bind_eq_ok.mp h
    obtain ⟨⟨⟨body, close⟩, last, shorter''⟩, readBody, h⟩ := bind_eq_ok.mp h
    cases h
    obtain ⟨t, split, same⟩ := take?_takes ts word
    obtain ⟨used, _, splitInner, -, -⟩ := parseLoopHead_sound inner readHead
    have ends := parseBlock_endsAt mid readBody
    subst same splitInner split
    exact (ends.prepend used).reaches
  · exact parseSimple_reaches ts h

/-! ## Functions -/

/-- A body ends at its brace, or at the semicolon that stands for it. -/
theorem parseBody_endsAt (ts : List Token) {body : Option (List Stmt)} {stop : Span}
    {rest : List Token} {less : rest.length < ts.length}
    (h : parseBody eof ts = .ok ⟨(body, stop), rest, less⟩) : EndsAt ts rest stop := by
  unfold parseBody at h
  split at h
  · next stop mid shorter taken =>
    cases h
    obtain ⟨t, split, same⟩ := take?_takes ts taken
    exact ⟨[], t, split, same⟩
  · obtain ⟨⟨⟨body, close⟩, last, shorter⟩, readBody, h⟩ := bind_eq_ok.mp h
    cases h
    exact parseBlock_endsAt ts readBody

/-- A function reaches from the word that defines it to the end of its body. -/
theorem parseFunction_reaches {file : String} (ts : List Token) {f : Function}
    {rest : List Token} {less : rest.length < ts.length}
    (h : parseFunction eof file ts = .ok ⟨f, rest, less⟩) :
    Reaches ts rest f.span := by
  unfold parseFunction at h
  obtain ⟨⟨start, mid, shorter⟩, readStart, h⟩ := bind_eq_ok.mp h
  obtain ⟨⟨name, mid', shorter'⟩, readName, h⟩ := bind_eq_ok.mp h
  obtain ⟨⟨opened, mid'', shorter''⟩, readOpen, h⟩ := bind_eq_ok.mp h
  obtain ⟨⟨params, mid''', shorter'''⟩, readParams, h⟩ := bind_eq_ok.mp h
  obtain ⟨⟨⟨body, stop⟩, last, shorter''''⟩, readBody, h⟩ := bind_eq_ok.mp h
  cases h
  obtain ⟨t, split, same⟩ := expect_takes ts readStart
  obtain ⟨t', splitMid, -⟩ := expectName_eq_ok mid readName
  obtain ⟨t'', splitMid', -⟩ := expect_takes mid' readOpen
  obtain ⟨used, splitMid'', -, -⟩ := parseParamList_sound mid'' readParams
  have ends := parseBody_endsAt mid''' readBody
  subst same splitMid'' splitMid' splitMid split
  exact (((ends.prepend used).cons t'').cons t').reaches

end Shellwright.Surface
