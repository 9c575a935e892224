import Shellwright.Proofs.Placement

/-!
# Literals and their tokens

Every literal of a program was made of one token: its value is the token's, and the pieces of a
text or a command are those of the token's raw text, from where the token says that it begins.
Brackets around a literal widen its place, so the token stands somewhere within that place.

* `Expr.MadeOf`, `Expr.Made`: a literal is what a token says, among these tokens.
* `ReadsMade`: whatever a rule reads, all literals in it were made of tokens.
* `Program.Part.made`: so were all literals of a program.
-/

namespace Shellwright.Surface

variable {eof : Span}

/-! ## What a token makes -/

def Expr.isLiteral : Expr → Bool
  | .int .. => true
  | .fraction .. => true
  | .bool .. => true
  | .text .. => true
  | .command .. => true
  | _ => false

/-- The literal is what the token says. -/
inductive Expr.MadeOf (t : Token) : Expr → Prop
  | int {span : Span} {value : Int64} : t.lexeme = .int value → MadeOf t (.int span value)
  | fraction {span : Span} {value : Binary64} :
    t.lexeme = .fraction value → MadeOf t (.fraction span value)
  | bool {span : Span} {word : Keyword} {value : Bool} :
    t.lexeme = .keyword word → truth? word = some value → MadeOf t (.bool span value)
  | text {span : Span} {raw : String} :
    t.lexeme = .text raw → MadeOf t (.text span (Segment.split t.body raw))
  | command {span : Span} {raw : String} :
    t.lexeme = .command raw → MadeOf t (.command span (Segment.split t.body raw))

/-- If the expression is a literal, then one of the tokens makes it and stands within its
place. -/
def Expr.Made (ts : List Token) (e : Expr) : Prop :=
  e.isLiteral = true →
    ∃ t ∈ ts, e.MadeOf t ∧ e.span.start ≤ t.span.start ∧ t.span.stop ≤ e.span.stop

/-- The token that made a literal made it with brackets around it, too. -/
theorem Expr.MadeOf.withSpan {t : Token} {e : Expr} (h : e.MadeOf t) (span : Span) :
    (e.withSpan span).MadeOf t := by
  cases h with
  | int same => exact .int same
  | fraction same => exact .fraction same
  | bool same truth => exact .bool same truth
  | text same => exact .text same
  | command same => exact .command same

theorem Expr.isLiteral_withSpan (e : Expr) (span : Span) :
    (e.withSpan span).isLiteral = e.isLiteral := by
  cases e <;> rfl

/-- A wider span still has the token in it. -/
theorem Expr.Made.withSpan {ts : List Token} {e : Expr} (h : e.Made ts) {span : Span}
    (starts : span.start ≤ e.span.start) (stops : e.span.stop ≤ span.stop) :
    (e.withSpan span).Made ts := by
  intro literal
  rw [Expr.isLiteral_withSpan] at literal
  obtain ⟨t, mem, made, start, stop⟩ := h literal
  rw [Expr.withSpan_span]
  exact ⟨t, mem, made.withSpan span, Nat.le_trans starts start, Nat.le_trans stop stops⟩

/-- What is no literal needs no token of its own. -/
theorem Expr.made_of_not_isLiteral {e : Expr} (h : e.isLiteral = false) (ts : List Token) :
    e.Made ts := by
  intro literal
  rw [h] at literal
  cases literal

/-- What a single token makes has the place of the token. -/
theorem Expr.MadeOf.made {ts : List Token} {t : Token} {e : Expr} (h : e.MadeOf t) (mem : t ∈ ts)
    (place : e.span = t.span) : e.Made ts := by
  intro _
  rw [place]
  exact ⟨t, mem, h, Nat.le_refl _, Nat.le_refl _⟩

/-! ## Parts and the parts below them -/

/-- All literals in the part, at whatever depth, were made of these tokens. -/
inductive Node.Made (ts : List Token) : Node → Prop
  | intro {n : Node} : (∀ e, n = .expr e → e.Made ts) → (∀ c ∈ n.children, Made ts c) → Made ts n

/-- All literals in the parts were made of these tokens. -/
def AllMade (ts : List Token) (ns : List Node) : Prop := ∀ n ∈ ns, n.Made ts

section

variable {ts : List Token} {ns ms : List Node} {e : Expr} {s : Stmt}

theorem allMade_nil (ts : List Token) : AllMade ts [] := by
  intro n mem
  cases mem

/-- Two lists of parts are made of the tokens if both are. -/
theorem AllMade.append (h : AllMade ts ns) (h' : AllMade ts ms) : AllMade ts (ns ++ ms) := by
  intro n mem
  rcases List.mem_append.mp mem with left | right
  · exact h n left
  · exact h' n right

theorem AllMade.cons {n : Node} (h : n.Made ts) (h' : AllMade ts ns) : AllMade ts (n :: ns) := by
  intro m mem
  rcases List.mem_cons.mp mem with rfl | later
  · exact h
  · exact h' m later

/-- What is made with all below it is made. -/
theorem AllMade.single {n : Node} (h : AllMade ts [n]) : n.Made ts := h n List.mem_cons_self

/-- An expression is made with all below it if it is made and its operands are. -/
theorem AllMade.expr (h : AllMade ts (e.operands.map .expr)) (self : e.Made ts) :
    AllMade ts [.expr e] :=
  .cons (.intro (fun _ same => by cases same; exact self) h) (allMade_nil ts)

/-- A statement is no literal, so only its parts count. -/
theorem AllMade.stmt (h : AllMade ts s.children) : AllMade ts [.stmt s] :=
  .cons (.intro (fun _ same => by cases same) h) (allMade_nil ts)

/-- A literal has nothing below it. -/
theorem allMade_leaf (self : e.Made ts) (leaf : e.operands = []) : AllMade ts [.expr e] := by
  refine .expr ?_ self
  rw [leaf]
  exact allMade_nil ts

/-- Brackets change neither a literal nor what stands below it. -/
theorem AllMade.withSpan (h : AllMade ts [.expr e]) {span : Span}
    (starts : span.start ≤ e.span.start) (stops : e.span.stop ≤ span.stop) :
    AllMade ts [.expr (e.withSpan span)] := by
  cases h.single with
  | intro self below =>
    refine .expr ?_ ((self e rfl).withSpan starts stops)
    rw [Expr.withSpan_operands]
    exact below

end

/-! ## Rules -/

/-- Whatever the rule reads, the parts of it that `parts` gives have all their literals from
`ts`, and what it leaves is an end of `ts`. -/
def ReadsMade (ts : List Token) {α : Type} (parts : α → List Node) {bound : Nat}
    (x : Except ParseError (Taken bound α)) : Prop :=
  ∀ a rest less, x = .ok ⟨a, rest, less⟩ → AllMade ts (parts a) ∧ rest <:+ ts

namespace ReadsMade

variable {ts : List Token} {α β : Type} {parts : α → List Node} {parts' : β → List Node}
  {bound bound' : Nat}

/-- A rule that succeeds gives parts that are made, and leaves tokens of the same text. -/
theorem ok {a : α} {rest : List Token} {less : rest.length < bound} (made : AllMade ts (parts a))
    (sub : rest <:+ ts) : ReadsMade ts parts (.ok ⟨a, rest, less⟩) := by
  rintro _ _ _ ⟨⟩
  exact ⟨made, sub⟩

theorem error {e : ParseError} :
    ReadsMade ts parts (.error e : Except ParseError (Taken bound α)) := by
  rintro _ _ _ ⟨⟩

/-- Rules in sequence: the second one may count on what the first one made. -/
theorem bind {x : Except ParseError (Taken bound α)} (h : ReadsMade ts parts x)
    {f : Taken bound α → Except ParseError (Taken bound' β)}
    (next : ∀ {a rest less}, AllMade ts (parts a) → rest <:+ ts →
      ReadsMade ts parts' (f ⟨a, rest, less⟩)) : ReadsMade ts parts' (x >>= f) := by
  intro b rest less read
  obtain ⟨⟨a, mid, shorter⟩, first, read⟩ := bind_eq_ok.mp read
  obtain ⟨made, sub⟩ := h a mid shorter first
  exact next made sub b rest less read

theorem within {x : Except ParseError (Taken bound α)} (h : ReadsMade ts parts x)
    (le : bound ≤ bound') : ReadsMade ts parts (x >>= fun t => pure (t.within le)) :=
  h.bind fun made sub => .ok made sub

end ReadsMade

section

variable {ts us : List Token}

theorem take?_suffix {wanted : Lexeme} {span : Span} {rest : List Token}
    {less : rest.length < us.length} (h : take? wanted us = some ⟨span, rest, less⟩)
    (sub : us <:+ ts) : rest <:+ ts := by
  obtain ⟨t, rfl, -⟩ := take?_takes us h
  exact (List.suffix_cons t rest).trans sub

/-- A token that is only expected makes no part. -/
theorem expect_made (wanted : Lexeme) (sub : us <:+ ts) :
    ReadsMade ts (fun _ => []) (expect eof wanted us) := by
  intro span rest less read
  obtain ⟨t, rfl, -⟩ := expect_takes us read
  exact ⟨allMade_nil ts, (List.suffix_cons t rest).trans sub⟩

theorem expectName_made (role : NameRole) (sub : us <:+ ts) :
    ReadsMade ts (fun _ => []) (expectName eof role us) := by
  intro param rest less read
  obtain ⟨t, rfl, -⟩ := expectName_eq_ok us read
  exact ⟨allMade_nil ts, (List.suffix_cons t rest).trans sub⟩

theorem expectModule_made (sub : us <:+ ts) :
    ReadsMade ts (fun _ => []) (expectModule eof us) := by
  intro name rest less read
  obtain ⟨t, rfl, -⟩ := expectModule_eq_ok us read
  exact ⟨allMade_nil ts, (List.suffix_cons t rest).trans sub⟩

/-- An expression in brackets stands between them. -/
theorem within_brackets {t : Token} {inner : Expr} {mid rest : List Token} {close : Span}
    {wanted : Lexeme} {less : mid.length < us.length} {less' : rest.length < mid.length}
    (ordered : Ordered (t :: us))
    (readInner : parseLevel eof (some .pipe) us = .ok ⟨inner, mid, less⟩)
    (readClose : expect eof wanted mid = .ok ⟨close, rest, less'⟩) :
    (t.span.merge close).start ≤ inner.span.start ∧
    inner.span.stop ≤ (t.span.merge close).stop := by
  have later : Ordered us := ordered.sublist (List.sublist_cons_self t us)
  obtain ⟨used, rfl, stands, -⟩ := parseLevel_placed eof (some .pipe) us readInner later
  obtain ⟨last, rfl, rfl⟩ := expect_takes mid readClose
  have orderedUsed : Ordered used := later.sublist (List.sublist_append_left _ _)
  obtain ⟨head, final, isHead, isFinal, place⟩ := stands.exists_ends orderedUsed
  have place' : inner.span = ⟨head.span.start, final.span.stop⟩ := place
  have starts := ordered.start_le rfl
    (List.mem_cons_of_mem t (List.mem_append_left _ (List.mem_of_head? isHead)))
  have closing : Ordered (used ++ [last]) :=
    later.sublist (List.Sublist.append_left (List.singleton_sublist.mpr List.mem_cons_self) used)
  have stops := closing.le_stop List.getLast?_concat
    (List.mem_append_left _ (List.mem_of_getLast? isFinal))
  rw [place']
  exact ⟨Nat.le_trans (Nat.min_le_left _ _) starts, Nat.le_trans stops (Nat.le_max_right _ _)⟩

end

/-! ## Expressions -/

/-- An operator is no literal, and its operands are made. -/
theorem Joint.join_made {ts : List Token} (j : Joint) {left right : Expr}
    (first : AllMade ts [.expr left]) (second : AllMade ts [.expr right]) :
    AllMade ts [.expr (j.join left right)] := by
  have below : AllMade ts [.expr left, .expr right] := first.append second
  cases j with
  | binary op => exact .expr below (Expr.made_of_not_isLiteral rfl ts)
  | pipe => exact .expr below (Expr.made_of_not_isLiteral rfl ts)

section

variable {ts : List Token}

mutual

/-- Whatever an expression rule reads is made of the tokens, with all below it. The rules for
expressions call each other, so all of them are taken together. -/
theorem parseLevel_made (ordered : Ordered ts) (level : Option Level) {us : List Token}
    (sub : us <:+ ts) :
    ReadsMade ts (fun e => [.expr e]) (parseLevel eof level us) := by
  match level with
  | none =>
    unfold parseLevel
    exact parseUnary_made ordered sub
  | some l =>
    unfold parseLevel
    refine (parseLevel_made ordered l.tighter sub).bind fun made sub => ?_
    exact (parseJoints_made ordered l made sub).within _
termination_by 16 * us.length + Level.weight level
decreasing_by
  · simp only [Level.weight]
    omega
  · have := Level.weight_tighter_lt l
    omega
  · simp only [Level.weight]
    omega

/-- What has been read on the left stays made while operands are added. -/
theorem parseJoints_made (ordered : Ordered ts) (l : Level) {left : Expr}
    (first : AllMade ts [.expr left]) {us : List Token} (sub : us <:+ ts) :
    ReadsMade ts (fun e => [.expr e]) (parseJoints eof l left us) := by
  unfold parseJoints
  match us with
  | [] => exact .ok first sub
  | t :: us =>
    dsimp only
    cases l.joint? t.lexeme with
    | none => exact .ok first sub
    | some j =>
      have later : us <:+ ts := (List.suffix_cons t us).trans sub
      refine (parseLevel_made ordered l.tighter later).bind fun made sub => ?_
      exact (parseJoints_made ordered l (j.join_made first made) sub).within _
termination_by 16 * us.length
decreasing_by
  · have := Level.weight_tighter_lt l
    have : Level.weight (some l) ≤ 10 := by cases l <;> decide
    simp only [List.length_cons]
    omega
  · simp only [List.length_cons]
    omega

theorem parseUnary_made (ordered : Ordered ts) {us : List Token} (sub : us <:+ ts) :
    ReadsMade ts (fun e => [.expr e]) (parseUnary eof us) := by
  unfold parseUnary
  match us with
  | [] => exact parsePrimary_made ordered sub
  | t :: us =>
    dsimp only
    cases unaryOp? t.lexeme with
    | none => exact parsePrimary_made ordered sub
    | some op =>
      have later : us <:+ ts := (List.suffix_cons t us).trans sub
      refine (parseUnary_made ordered later).bind fun made sub => ?_
      exact .ok (.expr made (Expr.made_of_not_isLiteral rfl ts)) sub
termination_by 16 * us.length + 2
decreasing_by
  all_goals simp only [List.length_cons, List.length_nil]; omega

/-- Here literals are read, and each is made of the token just taken. -/
theorem parsePrimary_made (ordered : Ordered ts) {us : List Token} (sub : us <:+ ts) :
    ReadsMade ts (fun e => [.expr e]) (parsePrimary eof us) := by
  unfold parsePrimary
  match us with
  | [] => exact .error
  | t :: us =>
    have mem : t ∈ ts := sub.subset List.mem_cons_self
    have later : us <:+ ts := (List.suffix_cons t us).trans sub
    have orderedHere : Ordered (t :: us) := ordered.sublist sub.sublist
    obtain ⟨lexeme, span, body⟩ := t
    dsimp only
    cases lexeme with
    | int value => exact .ok (allMade_leaf ((Expr.MadeOf.int rfl).made mem rfl) rfl) later
    | fraction value =>
      exact .ok (allMade_leaf ((Expr.MadeOf.fraction rfl).made mem rfl) rfl) later
    | text raw => exact .ok (allMade_leaf ((Expr.MadeOf.text rfl).made mem rfl) rfl) later
    | command raw => exact .ok (allMade_leaf ((Expr.MadeOf.command rfl).made mem rfl) rfl) later
    | keyword word =>
      dsimp only
      cases truth : truth? word with
      | none => exact .error
      | some value =>
        exact .ok (allMade_leaf ((Expr.MadeOf.bool rfl truth).made mem rfl) rfl) later
    | symbol symbol =>
      dsimp only
      split
      · intro e rest less read
        obtain ⟨⟨inner, mid, shorter⟩, readInner, read⟩ := bind_eq_ok.mp read
        obtain ⟨⟨close, last, shorter'⟩, readClose, read⟩ := bind_eq_ok.mp read
        cases read
        obtain ⟨made, subMid⟩ := parseLevel_made ordered (some .pipe) later _ _ _ readInner
        obtain ⟨starts, stops⟩ := within_brackets orderedHere readInner readClose
        exact ⟨made.withSpan starts stops, (expect_made _ subMid _ _ _ readClose).2⟩
      · exact .error
    | ident name =>
      dsimp only
      cases opened : take? (.symbol .leftParen) us with
      | none => exact .ok (allMade_leaf (Expr.made_of_not_isLiteral rfl ts) rfl) later
      | some taken =>
        obtain ⟨_, inner, shorter⟩ := taken
        refine (parseArgs_made ordered (take?_suffix opened later)).bind fun made sub => ?_
        exact .ok (.expr made (Expr.made_of_not_isLiteral rfl ts)) sub
termination_by 16 * us.length + 1
decreasing_by
  all_goals simp only [List.length_cons, Level.weight, Level.height]; omega

/-- Arguments are made of the tokens between the brackets. -/
theorem parseArgs_made (ordered : Ordered ts) {us : List Token} (sub : us <:+ ts) :
    ReadsMade ts (fun x => x.1.map .expr) (parseArgs eof us) := by
  unfold parseArgs
  cases closed : take? (.symbol .rightParen) us with
  | none => exact parseArgList_made ordered sub
  | some taken => exact .ok (allMade_nil ts) (take?_suffix closed sub)
termination_by 16 * us.length + 12
decreasing_by
  omega

theorem parseArgList_made (ordered : Ordered ts) {us : List Token} (sub : us <:+ ts) :
    ReadsMade ts (fun x => x.1.map .expr) (parseArgList eof us) := by
  unfold parseArgList
  refine (parseLevel_made ordered (some .pipe) sub).bind @fun _ rest _ made sub => ?_
  dsimp only
  cases comma : take? (.symbol .comma) rest with
  | none =>
    refine (expect_made _ sub).bind fun _ sub => ?_
    exact .ok made sub
  | some taken =>
    obtain ⟨_, more, shorter⟩ := taken
    refine (parseArgList_made ordered (take?_suffix comma sub)).bind fun others sub => ?_
    exact .ok (made.append others) sub
termination_by 16 * us.length + 11
decreasing_by
  · simp only [Level.weight, Level.height]
    omega
  · omega

end

theorem parseExpr_made (ordered : Ordered ts) {us : List Token} (sub : us <:+ ts) :
    ReadsMade ts (fun e => [.expr e]) (parseExpr eof us) :=
  parseLevel_made ordered (some .pipe) sub

/-! ## Statements -/

section

variable {us : List Token}

theorem parseCondition_made (ordered : Ordered ts) (sub : us <:+ ts) :
    ReadsMade ts (fun e => [.expr e]) (parseCondition eof us) := by
  unfold parseCondition
  refine (expect_made _ sub).bind fun _ sub => ?_
  refine (parseExpr_made ordered sub).bind fun made sub => ?_
  refine (expect_made _ sub).bind fun _ sub => ?_
  exact .ok made sub

theorem parseExprEnd_made (ordered : Ordered ts) (sub : us <:+ ts) :
    ReadsMade ts (fun x => [.expr x.1]) (parseExprEnd eof us) := by
  unfold parseExprEnd
  refine (parseExpr_made ordered sub).bind fun made sub => ?_
  refine (expect_made _ sub).bind fun _ sub => ?_
  exact .ok made sub

/-- So are the bounds of a loop. -/
theorem parseBounds_made (ordered : Ordered ts) (sub : us <:+ ts) :
    ReadsMade ts (fun x => .expr x.1 :: x.2.toList.map .expr) (parseBounds eof us) := by
  unfold parseBounds
  refine (parseExpr_made ordered sub).bind @fun _ rest _ first sub => ?_
  dsimp only
  cases dots : take? (.symbol .range) rest with
  | none =>
    refine (expect_made _ sub).bind fun _ sub => ?_
    exact .ok first sub
  | some taken =>
    obtain ⟨_, more, shorter⟩ := taken
    refine (parseExpr_made ordered (take?_suffix dots sub)).bind fun second sub => ?_
    refine (expect_made _ sub).bind fun _ sub => ?_
    exact .ok (first.append second) sub

theorem parseLoopHead_made (ordered : Ordered ts) (sub : us <:+ ts) :
    ReadsMade ts (fun x => .expr x.2.1 :: x.2.2.toList.map .expr) (parseLoopHead eof us) := by
  unfold parseLoopHead
  refine (expect_made _ sub).bind fun _ sub => ?_
  refine (expectName_made _ sub).bind fun _ sub => ?_
  refine (expect_made _ sub).bind fun _ sub => ?_
  refine (parseBounds_made ordered sub).bind fun made sub => ?_
  exact .ok made sub

theorem parseImport_made (start : Span) (sub : us <:+ ts) :
    ReadsMade ts (fun s => [.stmt s]) (parseImport eof start us) := by
  unfold parseImport
  refine (expectModule_made sub).bind fun _ sub => ?_
  refine (expect_made _ sub).bind fun _ sub => ?_
  exact .ok (.stmt (allMade_nil ts)) sub

/-- The value of a return is made of the tokens after the word. -/
theorem parseReturn_made (ordered : Ordered ts) (start : Span) (sub : us <:+ ts) :
    ReadsMade ts (fun s => [.stmt s]) (parseReturn eof start us) := by
  unfold parseReturn
  split
  · exact .error
  · refine (parseExprEnd_made ordered sub).bind fun made sub => ?_
    exact .ok (.stmt made) sub

theorem parseJump_made (start : Span) (jump : Jump) (sub : us <:+ ts) :
    ReadsMade ts (fun s => [.stmt s]) (parseJump eof start jump us) := by
  unfold parseJump
  refine (expect_made _ sub).bind fun _ sub => ?_
  exact .ok (.stmt (allMade_nil ts)) sub

theorem parseExprStmt_made (ordered : Ordered ts) (sub : us <:+ ts) :
    ReadsMade ts (fun s => [.stmt s]) (parseExprStmt eof us) := by
  unfold parseExprStmt
  refine (parseExprEnd_made ordered sub).bind fun made sub => ?_
  exact .ok (.stmt made) sub

/-- A simple statement is made with all in it. -/
theorem parseSimple_made (ordered : Ordered ts) (sub : us <:+ ts) :
    ReadsMade ts (fun s => [.stmt s]) (parseSimple eof us) := by
  unfold parseSimple
  cases us with
  | nil => exact .error
  | cons t us =>
    have later : us <:+ ts := (List.suffix_cons t us).trans sub
    dsimp only
    split
    · exact .error
    · exact (parseImport_made t.span later).within _
    · exact (parseReturn_made ordered t.span later).within _
    · exact (parseJump_made t.span .leave later).within _
    · exact (parseJump_made t.span .next later).within _
    · cases sign : take? (.symbol .assign) us with
      | none => exact parseExprStmt_made ordered sub
      | some taken =>
        obtain ⟨_, more, shorter⟩ := taken
        refine (parseExprEnd_made ordered (take?_suffix sign later)).bind fun made sub => ?_
        exact .ok (.stmt made) sub
    · exact parseExprStmt_made ordered sub

end

mutual

/-- Any statement is made with all in it. The rules for statements are taken together. -/
theorem parseStmt_made (ordered : Ordered ts) {us : List Token} (sub : us <:+ ts) :
    ReadsMade ts (fun s => [.stmt s]) (parseStmt eof us) := by
  unfold parseStmt
  cases word : take? (.keyword .ifWord) us with
  | some taken =>
    obtain ⟨start, inner, shorter⟩ := taken
    refine (parseCondition_made ordered (take?_suffix word sub)).bind fun cond sub => ?_
    refine (parseBlock_made ordered sub).bind fun body sub => ?_
    refine (parseElse_made ordered _ sub).bind fun chain sub => ?_
    exact .ok (.stmt (cond.append (body.append chain))) sub
  | none =>
    cases word' : take? (.keyword .forWord) us with
    | some taken =>
      obtain ⟨start, inner, shorter⟩ := taken
      refine (parseLoopHead_made ordered (take?_suffix word' sub)).bind fun head sub => ?_
      refine (parseBlock_made ordered sub).bind fun body sub => ?_
      exact .ok (.stmt (head.append body)) sub
    | none => exact parseSimple_made ordered sub
termination_by 4 * us.length
decreasing_by
  all_goals omega

/-- All statements of a block are made. -/
theorem parseBlock_made (ordered : Ordered ts) {us : List Token} (sub : us <:+ ts) :
    ReadsMade ts (fun x => x.1.map .stmt) (parseBlock eof us) := by
  unfold parseBlock
  refine (expect_made _ sub).bind fun _ sub => ?_
  refine (parseStmts_made ordered sub).bind fun body sub => ?_
  exact .ok body sub
termination_by 4 * us.length

theorem parseStmts_made (ordered : Ordered ts) {us : List Token} (sub : us <:+ ts) :
    ReadsMade ts (fun x => x.1.map .stmt) (parseStmts eof us) := by
  unfold parseStmts
  cases closed : take? (.symbol .rightBrace) us with
  | some taken => exact .ok (allMade_nil ts) (take?_suffix closed sub)
  | none =>
    dsimp only
    split
    · exact .error
    · refine (parseStmt_made ordered sub).bind fun first sub => ?_
      refine (parseStmts_made ordered sub).bind fun others sub => ?_
      exact .ok (first.append others) sub
termination_by 4 * us.length + 1

/-- So is all that stands in the branches after the first one. -/
theorem parseElse_made (ordered : Ordered ts) (last : Span) {us : List Token} (sub : us <:+ ts) :
    ReadsMade ts (fun x => x.1.children) (parseElse eof last us) := by
  unfold parseElse
  cases word : take? (.keyword .elseWord) us with
  | none => exact .ok (allMade_nil ts) sub
  | some taken =>
    obtain ⟨_, inner, shorter⟩ := taken
    have subInner := take?_suffix word sub
    dsimp only
    cases again : take? (.keyword .ifWord) inner with
    | some taken =>
      obtain ⟨_, inner', shorter'⟩ := taken
      refine (parseCondition_made ordered (take?_suffix again subInner)).bind fun cond sub => ?_
      refine (parseBlock_made ordered sub).bind fun body sub => ?_
      refine (parseElse_made ordered _ sub).bind fun chain sub => ?_
      exact .ok (cond.append (body.append chain)) sub
    | none =>
      refine (parseBlock_made ordered subInner).bind fun body sub => ?_
      exact .ok body sub
termination_by 4 * us.length
decreasing_by
  all_goals omega

end

/-! ## Functions and programs -/

/-- Parameters are no literals. -/
theorem allMade_params (ts : List Token) (params : List Param) :
    AllMade ts (params.map .param) := by
  intro n mem
  obtain ⟨param, -, rfl⟩ := List.mem_map.mp mem
  exact .intro (fun _ same => by cases same) (allMade_nil ts)

theorem parseParams_made (seen : List Param) {us : List Token} (sub : us <:+ ts) :
    ReadsMade ts (fun params => params.map .param) (parseParams eof seen us) := by
  unfold parseParams
  refine (expectName_made _ sub).bind @fun param rest _ _ sub => ?_
  dsimp only
  split
  · exact .error
  · cases comma : take? (.symbol .comma) rest with
    | none =>
      refine (expect_made _ sub).bind fun _ sub => ?_
      exact .ok (allMade_params ts _) sub
    | some taken =>
      obtain ⟨_, more, shorter⟩ := taken
      exact (parseParams_made (seen ++ [param]) (take?_suffix comma sub)).within _
termination_by us.length

section

variable {us : List Token}

theorem parseParamList_made (sub : us <:+ ts) :
    ReadsMade ts (fun params => params.map .param) (parseParamList eof us) := by
  unfold parseParamList
  cases closed : take? (.symbol .rightParen) us with
  | none => exact parseParams_made [] sub
  | some taken => exact .ok (allMade_nil ts) (take?_suffix closed sub)

/-- A body that is missing has nothing that would need a token. -/
theorem parseBody_made (ordered : Ordered ts) (sub : us <:+ ts) :
    ReadsMade ts (fun x => (x.1.getD []).map .stmt) (parseBody eof us) := by
  unfold parseBody
  cases closed : take? (.symbol .semicolon) us with
  | none =>
    refine (parseBlock_made ordered sub).bind fun body sub => ?_
    exact .ok body sub
  | some taken => exact .ok (allMade_nil ts) (take?_suffix closed sub)

/-- A function is made with all in it. -/
theorem parseFunction_made (ordered : Ordered ts) (file : String) (sub : us <:+ ts) :
    ReadsMade ts (fun f => [.function f]) (parseFunction eof file us) := by
  unfold parseFunction
  refine (expect_made _ sub).bind fun _ sub => ?_
  refine (expectName_made _ sub).bind fun _ sub => ?_
  refine (expect_made _ sub).bind fun _ sub => ?_
  refine (parseParamList_made sub).bind fun params sub => ?_
  refine (parseBody_made ordered sub).bind fun body sub => ?_
  exact .ok
    (.cons (.intro (fun _ same => by cases same) (params.append body)) (allMade_nil ts)) sub

end

/-- All that stands in a file is made of its tokens. -/
theorem parseItems_made (ordered : Ordered ts) (file : String) {us : List Token}
    (sub : us <:+ ts) {fs : List Function} {ss : List TopLevel}
    (h : parseItems eof file us = .ok (fs, ss)) :
    AllMade ts (fs.map .function) ∧ AllMade ts (ss.map (.stmt ·.stmt)) := by
  match us with
  | [] =>
    rw [parseItems] at h
    cases h
    exact ⟨allMade_nil ts, allMade_nil ts⟩
  | t :: us =>
    rw [parseItems] at h
    split at h
    · obtain ⟨⟨f, rest, shorter⟩, readFunction, h⟩ := bind_eq_ok.mp h
      obtain ⟨⟨fs, ss⟩, readItems, h⟩ := bind_eq_ok.mp h
      cases h
      obtain ⟨made, subRest⟩ := parseFunction_made ordered file sub _ _ _ readFunction
      obtain ⟨functions, stmts⟩ := parseItems_made ordered file subRest readItems
      exact ⟨made.append functions, stmts⟩
    · obtain ⟨⟨s, rest, shorter⟩, readStmt, h⟩ := bind_eq_ok.mp h
      obtain ⟨⟨fs, ss⟩, readItems, h⟩ := bind_eq_ok.mp h
      cases h
      obtain ⟨made, subRest⟩ := parseStmt_made ordered sub _ _ _ readStmt
      obtain ⟨functions, stmts⟩ := parseItems_made ordered file subRest readItems
      exact ⟨functions, made.append stmts⟩
termination_by us.length
decreasing_by
  all_goals exact shorter

/-- Every literal of a program was made of one of its tokens. -/
theorem Program.Part.made {file : String} {p : Program} {n : Node} (part : p.Part n)
    (h : Program.parse file ts = .ok p) (ordered : Ordered ts) : n.Made ts := by
  unfold Program.parse at h
  obtain ⟨⟨fs, ss⟩, readItems, h⟩ := bind_eq_ok.mp h
  cases h
  obtain ⟨functions, stmts⟩ := parseItems_made ordered file (List.suffix_refl ts) readItems
  induction part with
  | function mem => exact functions _ (List.mem_map_of_mem mem)
  | stmt mem => exact stmts _ (List.mem_map.mpr ⟨_, mem, rfl⟩)
  | child _ mem ih =>
    cases ih with
    | intro _ below => exact below _ mem

end

end Shellwright.Surface
