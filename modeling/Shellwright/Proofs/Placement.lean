import Shellwright.Proofs.Extents
import Shellwright.Proofs.Nodes

/-!
# Where the parts of a program stand

Whatever a rule makes of its tokens, each part of it, at any depth, was made of a run of these
tokens: the run derives the part, the part's place reaches from the first token of the run to the
last, and the parts below it have runs of their own within that run, one behind the other.

* `Ordered`, `wholeSpan_merge`: in tokens that stand in order, the places of two runs merge to
  the place of all that lies between.
* `Node.Stands`, `Placed`: a part is its run of tokens, and so are all parts below it.
* `parseLevel_placed`, `parseStmt_placed`, `parseFunction_placed`: what the rules read is placed.
* `Program.Part.exists_run`: so every part of a program has its run.
-/

namespace Shellwright.Surface

variable {eof : Span}

/-! ## Tokens in order -/

/-- The tokens stand one behind the other, and none is empty. -/
structure Ordered (ts : List Token) : Prop where
  proper : ∀ t ∈ ts, t.span.start < t.span.stop
  apart : ts.Pairwise fun t u => t.span.stop ≤ u.span.start

section

variable {ts us vs mid : List Token} {t first last : Token}

/-- Some of the tokens in order are in order too. -/
theorem Ordered.sublist (h : Ordered ts) (sub : us.Sublist ts) : Ordered us :=
  ⟨fun t mem => h.proper t (sub.subset mem), h.apart.sublist sub⟩

theorem Ordered.right (h : Ordered (us ++ vs)) : Ordered vs :=
  h.sublist (List.sublist_append_right us vs)

/-- Tokens in order begin where the first one does. -/
theorem Ordered.start_le (h : Ordered us) (head : us.head? = some first) (mem : t ∈ us) :
    first.span.start ≤ t.span.start := by
  obtain ⟨rest, rfl⟩ := List.head?_eq_some_iff.mp head
  rcases List.mem_cons.mp mem with rfl | later
  · exact Nat.le_refl _
  · have less := h.proper first List.mem_cons_self
    have apart := List.rel_of_pairwise_cons h.apart later
    omega

/-- Tokens in order end where the last one does. -/
theorem Ordered.le_stop (h : Ordered us) (final : us.getLast? = some last) (mem : t ∈ us) :
    t.span.stop ≤ last.span.stop := by
  obtain ⟨rest, rfl⟩ := List.getLast?_eq_some_iff.mp final
  rcases List.mem_append.mp mem with earlier | same
  · have less := h.proper last (List.mem_append_right _ List.mem_cons_self)
    have apart := (List.pairwise_append.mp h.apart).2.2 t earlier last List.mem_cons_self
    omega
  · obtain rfl := List.mem_singleton.mp same
    exact Nat.le_refl _

/-- The span of tokens in order goes from the start of the first to the end of the last. -/
theorem Ordered.wholeSpan_eq (h : Ordered us) (head : us.head? = some first)
    (final : us.getLast? = some last) : wholeSpan us = ⟨first.span.start, last.span.stop⟩ := by
  have starts := h.start_le head (List.mem_of_getLast? final)
  have stops := h.le_stop final (List.mem_of_head? head)
  simp only [wholeSpan, head, final, Span.merge, Nat.min_eq_left starts, Nat.max_eq_right stops]

theorem exists_ends (h : us ≠ []) :
    ∃ first last, us.head? = some first ∧ us.getLast? = some last :=
  ⟨us.head h, us.getLast h, List.head?_eq_some_head h, List.getLast?_eq_some_getLast h⟩

theorem wholeSpan_singleton (t : Token) : wholeSpan [t] = t.span := by
  show t.span.merge t.span = t.span
  rw [Span.merge, Nat.min_self, Nat.max_self]

/-- The places of two runs merge to the place of both and what stands between them. -/
theorem wholeSpan_merge (h : Ordered (us ++ (mid ++ vs))) (left : us ≠ []) (right : vs ≠ []) :
    (wholeSpan us).merge (wholeSpan vs) = wholeSpan (us ++ (mid ++ vs)) := by
  obtain ⟨first, last, head, final⟩ := exists_ends left
  obtain ⟨first', last', head', final'⟩ := exists_ends right
  have wholeHead : (us ++ (mid ++ vs)).head? = some first := by simp [head]
  have wholeFinal : (us ++ (mid ++ vs)).getLast? = some last' := by simp [final']
  have starts := h.start_le wholeHead (by simp [List.mem_of_head? head'] : first' ∈ _)
  have stops := h.le_stop wholeFinal (by simp [List.mem_of_getLast? final] : last ∈ _)
  have orderedLeft : Ordered us := h.sublist (List.sublist_append_left _ _)
  rw [h.wholeSpan_eq wholeHead wholeFinal, orderedLeft.wholeSpan_eq head final,
    h.right.right.wholeSpan_eq head' final', Span.merge]
  simp only [Nat.min_eq_left starts, Nat.max_eq_right stops]

end

/-! ## Parts and their tokens -/

/-- The lexemes, all of them, are the part. -/
def Node.Spells (xs : List Lexeme) : Node → Prop
  | .expr e => Derives .expr xs e.placeless
  | .stmt s => Derives .stmt xs s.placeless
  | .param p => xs = [.ident p.name]
  | .function f => Derives (.function f.file) xs f.placeless

/-- The tokens are the part, and its place reaches from the first of them to the last. -/
structure Node.Stands (us : List Token) (n : Node) : Prop where
  nonempty : us ≠ []
  span : n.span = wholeSpan us
  spells : n.Spells (us.map Token.lexeme)

/-- Among the tokens the parts have runs of their own, one behind the other, and so have the
parts below each of them within its run. -/
inductive Placed : List Token → List Node → Prop
  | nil (us : List Token) : Placed us []
  | cons {before own after : List Token} {n : Node} {ns : List Node} :
    n.Stands own → Placed own n.children → Placed after ns →
      Placed (before ++ (own ++ after)) (n :: ns)

/-- The parts are placed among the tokens before `rest`. -/
def Among (ts rest : List Token) (ns : List Node) : Prop :=
  ∃ used, ts = used ++ rest ∧ Placed used ns

/-- The part is the tokens before `rest`, all of them. -/
def ReadAt (ts rest : List Token) (n : Node) : Prop :=
  ∃ used, ts = used ++ rest ∧ n.Stands used ∧ Placed used n.children

section

variable {ts mid rest us vs : List Token} {t : Token} {n : Node} {ns ms : List Node}

/-- Parts keep their places if more tokens stand before. -/
theorem Placed.prepend (h : Placed us ns) (before : List Token) : Placed (before ++ us) ns := by
  cases h with
  | nil => exact .nil _
  | cons stands below others =>
    rw [← List.append_assoc]
    exact .cons stands below others

/-- Parts that are placed in two runs of tokens are placed in both together. -/
theorem Placed.append (h : Placed us ns) (next : Placed vs ms) :
    Placed (us ++ vs) (ns ++ ms) := by
  induction h with
  | nil us => exact next.prepend us
  | cons stands below _ _ ih =>
    rw [List.append_assoc, List.append_assoc]
    exact .cons stands below ih

/-- What two rules read one after the other stands among the tokens of both. -/
theorem Among.trans (h : Among ts mid ns) (next : Among mid rest ms) :
    Among ts rest (ns ++ ms) := by
  obtain ⟨used, rfl, placed⟩ := h
  obtain ⟨used', rfl, placed'⟩ := next
  exact ⟨used ++ used', by simp, placed.append placed'⟩

/-- A token that belongs to no part. -/
theorem among_token (t : Token) (rest : List Token) : Among (t :: rest) rest [] :=
  ⟨[t], rfl, .nil _⟩

theorem Among.ordered (h : Among ts rest ns) (ordered : Ordered ts) : Ordered rest := by
  obtain ⟨used, rfl, -⟩ := h
  exact ordered.right

/-- A node that is read stands among the tokens that were taken for it. -/
theorem ReadAt.among (h : ReadAt ts rest n) : Among ts rest [n] := by
  obtain ⟨used, rfl, stands, below⟩ := h
  have placed : Placed ([] ++ (used ++ [])) [n] := .cons stands below (.nil [])
  exact ⟨used, rfl, by simpa using placed⟩

/-- A span that reaches over the tokens taken is the span of all of them. -/
theorem Reaches.eq_wholeSpan {span : Span} (h : Reaches (us ++ rest) rest span) :
    us ≠ [] ∧ span = wholeSpan us := by
  obtain ⟨first, stop, head, ⟨before, last, split, rfl⟩, rfl⟩ := h
  have regroup : us ++ rest = (before ++ [last]) ++ rest := by simpa using split
  obtain rfl := List.append_cancel_right regroup
  refine ⟨by simp, ?_⟩
  have head' : (before ++ [last]).head? = some first := by
    cases before <;> simpa using head
  simp only [wholeSpan, head', List.getLast?_concat]

/-- The tokens that a rule takes are words that the grammar has for its tree. -/
theorem Reads.derives {rule : Rule} {tree : rule.Tree} (h : Reads rule (us ++ rest) rest tree) :
    Derives rule (us.map Token.lexeme) tree := by
  obtain ⟨used, split, derived⟩ := h
  obtain rfl := List.append_cancel_right split
  exact derived

/-- A part of which only the parts below it have been placed. -/
theorem Among.readAt (below : Among ts rest n.children) (reaches : Reaches ts rest n.span)
    (spells : ∀ used, ts = used ++ rest → n.Spells (used.map Token.lexeme)) :
    ReadAt ts rest n := by
  obtain ⟨used, rfl, placed⟩ := below
  obtain ⟨nonempty, span⟩ := reaches.eq_wholeSpan
  exact ⟨used, rfl, ⟨nonempty, span, spells used rfl⟩, placed⟩

/-- A single token taken by itself is a place for no part. -/
theorem among_take? {wanted : Lexeme} {span : Span} {less : rest.length < ts.length}
    (h : take? wanted ts = some ⟨span, rest, less⟩) : Among ts rest [] := by
  obtain ⟨t, rfl, -⟩ := take?_takes ts h
  exact among_token t rest

theorem among_expect {wanted : Lexeme} {span : Span} {less : rest.length < ts.length}
    (h : expect eof wanted ts = .ok ⟨span, rest, less⟩) : Among ts rest [] := by
  obtain ⟨t, rfl, -⟩ := expect_takes ts h
  exact among_token t rest

theorem among_expectName {role : NameRole} {param : Param} {less : rest.length < ts.length}
    (h : expectName eof role ts = .ok ⟨param, rest, less⟩) : Among ts rest [] := by
  obtain ⟨t, rfl, -⟩ := expectName_eq_ok ts h
  exact among_token t rest

end

/-! ## Expressions -/

/-- An expression of tight operators is one of all the looser levels. -/
theorem Derives.widen (more : List Tier) {tiers : List Tier} {xs : List Lexeme} {e : Expr}
    (h : Derives (.within tiers) xs e) : Derives (.within (more ++ tiers)) xs e := by
  induction more with
  | nil => exact h
  | cons tier more ih => exact .tighter ih

/-- What a tighter level derives is an expression. -/
theorem Derives.loosen (level : Option Level) {xs : List Lexeme} {e : Expr}
    (h : Derives (.within (Level.tiersFrom level)) xs e) : Derives .expr xs e := by
  cases level with
  | none =>
    have wide := h.widen tiers
    rwa [Level.tiersFrom, List.append_nil] at wide
  | some l =>
    have wide := h.widen (tiers.take (6 - l.height))
    rwa [Level.tiersFrom, List.take_append_drop] at wide

theorem Joint.join_span (j : Joint) (left right : Expr) :
    (j.join left right).span = left.span.merge right.span := by
  cases j <;> rfl

theorem Joint.join_children (j : Joint) (left right : Expr) :
    (Node.expr (j.join left right)).children = [.expr left, .expr right] := by
  cases j <;> rfl

/-- Brackets do not change what stands inside. -/
theorem Expr.withSpan_operands (e : Expr) (span : Span) :
    (e.withSpan span).operands = e.operands := by
  cases e <;> rfl

/-- A primary expression is read at its tokens, if its parts are among them. -/
theorem readAt_primary {ts rest : List Token} {e : Expr} {less : rest.length < ts.length}
    (h : parsePrimary eof ts = .ok ⟨e, rest, less⟩)
    (below : Among ts rest (Node.expr e).children) :
    ReadAt ts rest (.expr e) := by
  refine below.readAt (parsePrimary_reaches ts h) fun used split => ?_
  have derived := (split ▸ parsePrimary_sound eof ts h : Reads _ (used ++ rest) rest _).derives
  exact Derives.loosen none (.operand (.plain derived))

mutual

/-- An expression of any level is read at the tokens that were taken for it. The five statements
that follow go through the rules for expressions together. -/
theorem parseLevel_placed (eof : Span) (level : Option Level) (ts : List Token) {e : Expr}
    {rest : List Token} {less : rest.length < ts.length}
    (h : parseLevel eof level ts = .ok ⟨e, rest, less⟩) (ordered : Ordered ts) :
    ReadAt ts rest (.expr e) := by
  match level with
  | none =>
    rw [parseLevel] at h
    exact parseUnary_placed eof ts h ordered
  | some l =>
    rw [parseLevel] at h
    obtain ⟨⟨first, mid, shorter⟩, readFirst, h⟩ := bind_eq_ok.mp h
    obtain ⟨⟨whole, last, shorter'⟩, readWhole, h⟩ := bind_eq_ok.mp h
    cases h
    obtain ⟨used, split, stands, below⟩ := parseLevel_placed eof l.tighter ts readFirst ordered
    have derived := (split ▸ parseLevel_sound eof l.tighter ts readFirst :
      Reads _ (used ++ mid) mid _).derives
    obtain ⟨more, splitMid, standsAll, belowAll⟩ := parseJoints_placed eof l first mid readWhole
      (split ▸ ordered) (.tighter derived) stands below
    subst splitMid split
    exact ⟨used ++ more, (List.append_assoc ..).symm, standsAll, belowAll⟩
termination_by 16 * ts.length + Level.weight level
decreasing_by
  · simp only [Level.weight]
    omega
  · have := Level.weight_tighter_lt l
    omega
  · simp only [Level.weight]
    omega

/-- The left operand stands on `us`, which the operators that follow extend. -/
theorem parseJoints_placed (eof : Span) (l : Level) (left : Expr) (ts : List Token) {e : Expr}
    {rest : List Token} {less : rest.length < ts.length + 1}
    (h : parseJoints eof l left ts = .ok ⟨e, rest, less⟩) {us : List Token}
    (ordered : Ordered (us ++ ts))
    (derived : Derives (.within (l.tier :: Level.tiersFrom l.tighter)) (us.map Token.lexeme)
      left.placeless)
    (stands : (Node.expr left).Stands us) (below : Placed us (Node.expr left).children) :
    ∃ more, ts = more ++ rest ∧ (Node.expr e).Stands (us ++ more) ∧
      Placed (us ++ more) (Node.expr e).children := by
  match ts with
  | [] =>
    rw [parseJoints] at h
    cases h
    exact ⟨[], rfl, by rwa [List.append_nil], by rwa [List.append_nil]⟩
  | t :: ts =>
    rw [parseJoints] at h
    split at h
    · cases h
      exact ⟨[], rfl, by rwa [List.append_nil], by rwa [List.append_nil]⟩
    · next j joint =>
      obtain ⟨⟨right, mid, shorter⟩, readRight, h⟩ := bind_eq_ok.mp h
      obtain ⟨⟨whole, last, shorter'⟩, readWhole, h⟩ := bind_eq_ok.mp h
      cases h
      obtain ⟨op, spelled, mem⟩ := Level.mem_tier_of_joint? joint
      have later : Ordered ts := ordered.right.sublist (List.sublist_cons_self t ts)
      obtain ⟨used, split, standsRight, belowRight⟩ :=
        parseLevel_placed eof l.tighter ts readRight later
      have derivedRight := (split ▸ parseLevel_sound eof l.tighter ts readRight :
        Reads _ (used ++ mid) mid _).derives
      have joined := Derives.joined mem derived derivedRight
      rw [← Joint.join_placeless, ← spelled, ← List.map_cons, ← List.map_append] at joined
      have regroup : us ++ t :: ts = us ++ ([t] ++ used) ++ mid := by simp [split]
      have orderedJoin : Ordered (us ++ ([t] ++ used) ++ mid) := regroup ▸ ordered
      have standsJoin : (Node.expr (j.join left right)).Stands (us ++ ([t] ++ used)) := by
        refine ⟨by simp, ?_, Derives.loosen (some l) ?_⟩
        · have merged := wholeSpan_merge (orderedJoin.sublist (List.sublist_append_left _ _))
            stands.nonempty standsRight.nonempty
          rw [← stands.span, ← standsRight.span] at merged
          rw [← merged]
          exact j.join_span left right
        · rw [Level.tiersFrom_some]
          exact joined
      have belowJoin : Placed (us ++ ([t] ++ used))
          (Node.expr (j.join left right)).children := by
        rw [j.join_children]
        have placed : Placed ([] ++ (us ++ ([t] ++ (used ++ [])))) [.expr left, .expr right] :=
          .cons stands below (.cons standsRight belowRight (.nil []))
        simpa using placed
      obtain ⟨more, splitMid, standsAll, belowAll⟩ := parseJoints_placed eof l _ mid readWhole
        orderedJoin joined standsJoin belowJoin
      subst splitMid split
      refine ⟨t :: used ++ more, by simp, ?_, ?_⟩
      · simpa using standsAll
      · simpa using belowAll
termination_by 16 * ts.length
decreasing_by
  · have := Level.weight_tighter_lt l
    have : Level.weight (some l) ≤ 10 := by cases l <;> decide
    simp only [List.length_cons]
    omega
  · simp only [List.length_cons]
    omega

/-- The same holds of an operand with its signs. -/
theorem parseUnary_placed (eof : Span) (ts : List Token) {e : Expr} {rest : List Token}
    {less : rest.length < ts.length} (h : parseUnary eof ts = .ok ⟨e, rest, less⟩)
    (ordered : Ordered ts) : ReadAt ts rest (.expr e) := by
  have derived := parseUnary_sound eof ts h
  match ts with
  | [] => exact absurd less (Nat.not_lt_zero _)
  | t :: ts =>
    rw [parseUnary] at h
    split at h
    · exact readAt_primary h (parsePrimary_placed eof (t :: ts) h ordered)
    · next op sign =>
      obtain ⟨⟨operand, mid, shorter⟩, readOperand, h⟩ := bind_eq_ok.mp h
      cases h
      obtain ⟨used, split, stands, below⟩ := parseUnary_placed eof ts readOperand
        (ordered.sublist (List.sublist_cons_self t ts))
      subst split
      refine ⟨t :: used, rfl, ⟨by simp, ?_, ?_⟩, ?_⟩
      · have orderedUsed : Ordered ([t] ++ ([] ++ used)) :=
          ordered.sublist (List.sublist_append_left (t :: used) rest)
        have merged := wholeSpan_merge orderedUsed (by simp) stands.nonempty
        rw [wholeSpan_singleton, ← stands.span] at merged
        exact merged
      · have whole : Reads .signed ((t :: used) ++ rest) rest _ := derived
        have signed := whole.derives
        exact Derives.loosen none (.operand signed)
      · have placed : Placed ([t] ++ (used ++ [])) [.expr operand] :=
          .cons stands below (.nil [])
        rwa [List.append_nil] at placed
termination_by 16 * ts.length + 2
decreasing_by
  all_goals simp only [List.length_cons]; omega

/-- The parts of a primary expression stand among its tokens. -/
theorem parsePrimary_placed (eof : Span) (ts : List Token) {e : Expr} {rest : List Token}
    {less : rest.length < ts.length} (h : parsePrimary eof ts = .ok ⟨e, rest, less⟩)
    (ordered : Ordered ts) : Among ts rest (Node.expr e).children := by
  match ts with
  | [] => exact absurd less (Nat.not_lt_zero _)
  | t :: ts =>
    have first := among_token t ts
    have later := first.ordered ordered
    obtain ⟨lexeme, span, body⟩ := t
    rw [parsePrimary.eq_def] at h
    cases lexeme with
    | int value =>
      cases h
      exact first
    | fraction value =>
      cases h
      exact first
    | text raw =>
      cases h
      exact first
    | command raw =>
      cases h
      exact first
    | keyword word =>
      dsimp only at h
      split at h
      · cases h
        exact first
      · cases h
    | symbol symbol =>
      dsimp only at h
      split at h
      · obtain ⟨⟨inner, mid, shorter⟩, readInner, h⟩ := bind_eq_ok.mp h
        obtain ⟨⟨close, last, shorter'⟩, readClose, h⟩ := bind_eq_ok.mp h
        cases h
        obtain ⟨used, split, stands, below⟩ :=
          parseLevel_placed eof (some .pipe) ts readInner later
        have among : Among ts mid (Node.expr inner).children := ⟨used, split, below⟩
        have whole := (first.trans among).trans (among_expect readClose)
        rw [Node.children, Expr.withSpan_operands]
        rwa [List.append_nil] at whole
      · cases h
    | ident name =>
      dsimp only at h
      split at h
      · next inner shorter opened =>
        obtain ⟨⟨⟨args, close⟩, last, shorter'⟩, readArgs, h⟩ := bind_eq_ok.mp h
        cases h
        have open' := among_take? opened
        have among := parseArgs_placed eof inner readArgs (open'.ordered later)
        exact first.trans (open'.trans among)
      · cases h
        exact first
termination_by 16 * ts.length + 1
decreasing_by
  all_goals simp only [List.length_cons, Level.weight, Level.height]; omega

/-- Arguments stand among the tokens up to the closing bracket. -/
theorem parseArgs_placed (eof : Span) (ts : List Token) {args : List Expr} {close : Span}
    {rest : List Token} {less : rest.length < ts.length}
    (h : parseArgs eof ts = .ok ⟨(args, close), rest, less⟩) (ordered : Ordered ts) :
    Among ts rest (args.map .expr) := by
  rw [parseArgs] at h
  split at h
  · next close mid shorter closed =>
    cases h
    exact among_take? closed
  · exact parseArgList_placed eof ts h ordered
termination_by 16 * ts.length + 12
decreasing_by
  omega

theorem parseArgList_placed (eof : Span) (ts : List Token) {args : List Expr} {close : Span}
    {rest : List Token} {less : rest.length < ts.length}
    (h : parseArgList eof ts = .ok ⟨(args, close), rest, less⟩) (ordered : Ordered ts) :
    Among ts rest (args.map .expr) := by
  rw [parseArgList] at h
  obtain ⟨⟨first, mid, shorter⟩, readFirst, h⟩ := bind_eq_ok.mp h
  have among := (parseLevel_placed eof (some .pipe) ts readFirst ordered).among
  dsimp only at h
  split at h
  · next comma more shorter' taken =>
    obtain ⟨⟨⟨others, close⟩, last, shorter''⟩, readOthers, h⟩ := bind_eq_ok.mp h
    cases h
    have upTo := among.trans (among_take? taken)
    exact upTo.trans (parseArgList_placed eof more readOthers (upTo.ordered ordered))
  · obtain ⟨⟨close, last, shorter'⟩, readClose, h⟩ := bind_eq_ok.mp h
    cases h
    exact among.trans (among_expect readClose)
termination_by 16 * ts.length + 11
decreasing_by
  · simp only [Level.weight, Level.height]
    omega
  · omega

end

theorem parseExpr_placed (ts : List Token) {e : Expr} {rest : List Token}
    {less : rest.length < ts.length} (h : parseExpr eof ts = .ok ⟨e, rest, less⟩)
    (ordered : Ordered ts) : Among ts rest [.expr e] :=
  (parseLevel_placed eof (some .pipe) ts h ordered).among

/-! ## Statements -/

section

variable {ts rest : List Token}

/-- A condition stands among its tokens, brackets included. -/
theorem parseCondition_placed {e : Expr} {less : rest.length < ts.length}
    (h : parseCondition eof ts = .ok ⟨e, rest, less⟩) (ordered : Ordered ts) :
    Among ts rest [.expr e] := by
  unfold parseCondition at h
  obtain ⟨⟨opened, inner, shorter⟩, readOpen, h⟩ := bind_eq_ok.mp h
  obtain ⟨⟨cond, mid, shorter'⟩, readCond, h⟩ := bind_eq_ok.mp h
  obtain ⟨⟨close, last, shorter''⟩, readClose, h⟩ := bind_eq_ok.mp h
  cases h
  have before := among_expect readOpen
  have among := parseExpr_placed inner readCond (before.ordered ordered)
  exact (before.trans among).trans (among_expect readClose)

theorem parseExprEnd_placed {e : Expr} {stop : Span} {less : rest.length < ts.length}
    (h : parseExprEnd eof ts = .ok ⟨(e, stop), rest, less⟩) (ordered : Ordered ts) :
    Among ts rest [.expr e] := by
  unfold parseExprEnd at h
  obtain ⟨⟨value, mid, shorter⟩, readValue, h⟩ := bind_eq_ok.mp h
  obtain ⟨⟨stop, last, shorter'⟩, readStop, h⟩ := bind_eq_ok.mp h
  cases h
  exact (parseExpr_placed ts readValue ordered).trans (among_expect readStop)

/-- The bounds of a loop stand among their tokens, the lower one first. -/
theorem parseBounds_placed {lower : Expr} {upper : Option Expr} {less : rest.length < ts.length}
    (h : parseBounds eof ts = .ok ⟨(lower, upper), rest, less⟩) (ordered : Ordered ts) :
    Among ts rest (.expr lower :: upper.toList.map .expr) := by
  unfold parseBounds at h
  obtain ⟨⟨first, mid, shorter⟩, readFirst, h⟩ := bind_eq_ok.mp h
  have among := parseExpr_placed ts readFirst ordered
  dsimp only at h
  split at h
  · next dots more shorter' taken =>
    obtain ⟨⟨second, mid', shorter''⟩, readSecond, h⟩ := bind_eq_ok.mp h
    obtain ⟨⟨close, last, shorter'''⟩, readClose, h⟩ := bind_eq_ok.mp h
    cases h
    have upTo := among.trans (among_take? taken)
    have second := parseExpr_placed more readSecond (upTo.ordered ordered)
    exact (upTo.trans second).trans (among_expect readClose)
  · obtain ⟨⟨close, last, shorter'⟩, readClose, h⟩ := bind_eq_ok.mp h
    cases h
    exact among.trans (among_expect readClose)

/-- So they do among the tokens of the head of the loop. -/
theorem parseLoopHead_placed {var : String} {lower : Expr} {upper : Option Expr}
    {less : rest.length < ts.length}
    (h : parseLoopHead eof ts = .ok ⟨(var, lower, upper), rest, less⟩) (ordered : Ordered ts) :
    Among ts rest (.expr lower :: upper.toList.map .expr) := by
  unfold parseLoopHead at h
  obtain ⟨⟨opened, inner, shorter⟩, readOpen, h⟩ := bind_eq_ok.mp h
  obtain ⟨⟨name, mid, shorter'⟩, readName, h⟩ := bind_eq_ok.mp h
  obtain ⟨⟨word, mid', shorter''⟩, readWord, h⟩ := bind_eq_ok.mp h
  obtain ⟨⟨⟨lower, upper⟩, last, shorter'''⟩, readBounds, h⟩ := bind_eq_ok.mp h
  cases h
  have before := ((among_expect readOpen).trans (among_expectName readName)).trans
    (among_expect readWord)
  exact before.trans (parseBounds_placed readBounds (before.ordered ordered))

theorem parseImport_placed {start : Span} {s : Stmt} {less : rest.length < ts.length}
    (h : parseImport eof start ts = .ok ⟨s, rest, less⟩) : Among ts rest s.children := by
  unfold parseImport at h
  obtain ⟨⟨module, mid, shorter⟩, readModule, h⟩ := bind_eq_ok.mp h
  obtain ⟨⟨stop, last, shorter'⟩, readStop, h⟩ := bind_eq_ok.mp h
  cases h
  obtain ⟨t, rfl, -⟩ := expectModule_eq_ok ts readModule
  exact (among_token t mid).trans (among_expect readStop)

/-- The value of a return stands among the tokens of the return. -/
theorem parseReturn_placed {start : Span} {s : Stmt} {less : rest.length < ts.length}
    (h : parseReturn eof start ts = .ok ⟨s, rest, less⟩) (ordered : Ordered ts) :
    Among ts rest s.children := by
  unfold parseReturn at h
  split at h
  · cases h
  · obtain ⟨⟨⟨value, stop⟩, last, shorter⟩, readValue, h⟩ := bind_eq_ok.mp h
    cases h
    exact parseExprEnd_placed readValue ordered

theorem parseJump_placed {start : Span} {jump : Jump} {s : Stmt} {less : rest.length < ts.length}
    (h : parseJump eof start jump ts = .ok ⟨s, rest, less⟩) : Among ts rest s.children := by
  unfold parseJump at h
  obtain ⟨⟨stop, last, shorter⟩, readStop, h⟩ := bind_eq_ok.mp h
  cases h
  exact among_expect readStop

theorem parseExprStmt_placed {s : Stmt} {less : rest.length < ts.length}
    (h : parseExprStmt eof ts = .ok ⟨s, rest, less⟩) (ordered : Ordered ts) :
    Among ts rest s.children := by
  unfold parseExprStmt at h
  obtain ⟨⟨⟨e, stop⟩, last, shorter⟩, readExpr, h⟩ := bind_eq_ok.mp h
  cases h
  exact parseExprEnd_placed readExpr ordered

/-- The parts of a simple statement stand among its tokens. -/
theorem parseSimple_placed {s : Stmt} {less : rest.length < ts.length}
    (h : parseSimple eof ts = .ok ⟨s, rest, less⟩) (ordered : Ordered ts) :
    Among ts rest s.children := by
  cases ts with
  | nil => exact absurd less (Nat.not_lt_zero _)
  | cons t ts =>
    have word := among_token t ts
    have later := word.ordered ordered
    unfold parseSimple at h
    dsimp only at h
    split at h
    · cases h
    · obtain ⟨⟨stmt, last, shorter⟩, readStmt, h⟩ := bind_eq_ok.mp h
      cases h
      exact word.trans (parseImport_placed readStmt)
    · obtain ⟨⟨stmt, last, shorter⟩, readStmt, h⟩ := bind_eq_ok.mp h
      cases h
      exact word.trans (parseReturn_placed readStmt later)
    · obtain ⟨⟨stmt, last, shorter⟩, readStmt, h⟩ := bind_eq_ok.mp h
      cases h
      exact word.trans (parseJump_placed readStmt)
    · obtain ⟨⟨stmt, last, shorter⟩, readStmt, h⟩ := bind_eq_ok.mp h
      cases h
      exact word.trans (parseJump_placed readStmt)
    · split at h
      · next more shorter sign =>
        obtain ⟨⟨⟨value, stop⟩, last, shorter'⟩, readValue, h⟩ := bind_eq_ok.mp h
        cases h
        have upTo := word.trans (among_take? sign)
        exact upTo.trans (parseExprEnd_placed readValue (upTo.ordered ordered))
      · exact parseExprStmt_placed h ordered
    · exact parseExprStmt_placed h ordered

end

/-- A statement is read at its tokens, if its parts are among them. -/
theorem readAt_stmt {ts rest : List Token} {s : Stmt} {less : rest.length < ts.length}
    (h : parseStmt eof ts = .ok ⟨s, rest, less⟩) (below : Among ts rest s.children) :
    ReadAt ts rest (.stmt s) := by
  refine Among.readAt below (parseStmt_reaches ts h) fun used split => ?_
  exact (split ▸ parseStmt_sound eof ts h : Reads _ (used ++ rest) rest _).derives

mutual

/-- The parts of any statement stand among its tokens. -/
theorem parseStmt_placed (eof : Span) (ts : List Token) {s : Stmt} {rest : List Token}
    {less : rest.length < ts.length} (h : parseStmt eof ts = .ok ⟨s, rest, less⟩)
    (ordered : Ordered ts) : Among ts rest s.children := by
  rw [parseStmt] at h
  split at h
  · next _ start inner shorter word =>
    obtain ⟨⟨cond, mid, shorter'⟩, readCond, h⟩ := bind_eq_ok.mp h
    obtain ⟨⟨⟨body, close⟩, mid', shorter''⟩, readBody, h⟩ := bind_eq_ok.mp h
    obtain ⟨⟨⟨chain, stop⟩, last, shorter'''⟩, readChain, h⟩ := bind_eq_ok.mp h
    cases h
    have first := among_take? word
    have upToCond := first.trans (parseCondition_placed readCond (first.ordered ordered))
    have upToBody :=
      upToCond.trans (parseBlock_placed eof mid readBody (upToCond.ordered ordered))
    exact upToBody.trans (parseElse_placed eof close mid' readChain (upToBody.ordered ordered))
  · next start inner shorter _ word =>
    obtain ⟨⟨⟨var, lower, upper⟩, mid, shorter'⟩, readHead, h⟩ := bind_eq_ok.mp h
    obtain ⟨⟨⟨body, close⟩, last, shorter''⟩, readBody, h⟩ := bind_eq_ok.mp h
    cases h
    have first := among_take? word
    have upToHead := first.trans (parseLoopHead_placed readHead (first.ordered ordered))
    exact upToHead.trans (parseBlock_placed eof mid readBody (upToHead.ordered ordered))
  · exact parseSimple_placed h ordered
termination_by 4 * ts.length
decreasing_by
  all_goals omega

/-- The statements of a block stand among its tokens, in their order. -/
theorem parseBlock_placed (eof : Span) (ts : List Token) {body : List Stmt} {close : Span}
    {rest : List Token} {less : rest.length < ts.length}
    (h : parseBlock eof ts = .ok ⟨(body, close), rest, less⟩) (ordered : Ordered ts) :
    Among ts rest (body.map .stmt) := by
  rw [parseBlock] at h
  obtain ⟨⟨opened, inner, shorter⟩, readOpen, h⟩ := bind_eq_ok.mp h
  obtain ⟨⟨⟨body, close⟩, last, shorter'⟩, readBody, h⟩ := bind_eq_ok.mp h
  cases h
  have first := among_expect readOpen
  exact first.trans (parseStmts_placed eof inner readBody (first.ordered ordered))
termination_by 4 * ts.length
decreasing_by
  omega

theorem parseStmts_placed (eof : Span) (ts : List Token) {body : List Stmt} {close : Span}
    {rest : List Token} {less : rest.length < ts.length}
    (h : parseStmts eof ts = .ok ⟨(body, close), rest, less⟩) (ordered : Ordered ts) :
    Among ts rest (body.map .stmt) := by
  rw [parseStmts] at h
  split at h
  · next close mid shorter closed =>
    cases h
    exact among_take? closed
  · split at h
    · cases h
    · obtain ⟨⟨first, mid, shorter⟩, readFirst, h⟩ := bind_eq_ok.mp h
      obtain ⟨⟨⟨others, close⟩, last, shorter'⟩, readOthers, h⟩ := bind_eq_ok.mp h
      cases h
      have among := (readAt_stmt readFirst (parseStmt_placed eof ts readFirst ordered)).among
      exact among.trans (parseStmts_placed eof mid readOthers (among.ordered ordered))
termination_by 4 * ts.length + 1
decreasing_by
  all_goals omega

/-- The parts of the branches after the first one stand among their tokens. -/
theorem parseElse_placed (eof last : Span) (ts : List Token) {chain : ElseChain} {stop : Span}
    {rest : List Token} {less : rest.length < ts.length + 1}
    (h : parseElse eof last ts = .ok ⟨(chain, stop), rest, less⟩) (ordered : Ordered ts) :
    Among ts rest chain.children := by
  rw [parseElse] at h
  split at h
  · cases h
    exact ⟨[], rfl, .nil []⟩
  · next word inner shorter taken =>
    have first := among_take? taken
    split at h
    · next word' inner' shorter' taken' =>
      obtain ⟨⟨cond, mid, shorter''⟩, readCond, h⟩ := bind_eq_ok.mp h
      obtain ⟨⟨⟨body, close⟩, mid', shorter'''⟩, readBody, h⟩ := bind_eq_ok.mp h
      obtain ⟨⟨⟨others, stop⟩, final, shorter''''⟩, readOthers, h⟩ := bind_eq_ok.mp h
      cases h
      have second := first.trans (among_take? taken')
      have upToCond := second.trans (parseCondition_placed readCond (second.ordered ordered))
      have upToBody :=
        upToCond.trans (parseBlock_placed eof mid readBody (upToCond.ordered ordered))
      exact upToBody.trans (parseElse_placed eof close mid' readOthers
        (upToBody.ordered ordered))
    · obtain ⟨⟨⟨body, close⟩, final, shorter'⟩, readBody, h⟩ := bind_eq_ok.mp h
      cases h
      exact first.trans (parseBlock_placed eof inner readBody (first.ordered ordered))
termination_by 4 * ts.length
decreasing_by
  all_goals omega

end

/-! ## Functions and programs -/

theorem expectName_placed {role : NameRole} {ts rest : List Token} {param : Param}
    {less : rest.length < ts.length} (h : expectName eof role ts = .ok ⟨param, rest, less⟩) :
    Among ts rest [.param param] := by
  unfold expectName at h
  split at h
  · next name span body rest =>
    cases h
    have place := wholeSpan_singleton ⟨.ident name, span, body⟩
    have stands : (Node.param ⟨name, span⟩).Stands [⟨.ident name, span, body⟩] :=
      ⟨by simp, place.symm, rfl⟩
    exact ReadAt.among ⟨[_], rfl, stands, .nil _⟩
  · cases h

/-- The parameters that are added stand among the tokens taken for them. -/
theorem parseParams_placed (eof : Span) (seen : List Param) (ts : List Token)
    {params : List Param} {rest : List Token} {less : rest.length < ts.length}
    (h : parseParams eof seen ts = .ok ⟨params, rest, less⟩) :
    ∃ new, params = seen ++ new ∧ Among ts rest (new.map .param) := by
  rw [parseParams] at h
  obtain ⟨⟨param, mid, shorter⟩, readName, h⟩ := bind_eq_ok.mp h
  have among := expectName_placed readName
  dsimp only at h
  split at h
  · cases h
  · split at h
    · next comma more shorter' taken =>
      obtain ⟨⟨params, last, shorter''⟩, readMore, h⟩ := bind_eq_ok.mp h
      cases h
      obtain ⟨new, rfl, others⟩ := parseParams_placed eof (seen ++ [param]) more readMore
      exact ⟨param :: new, by simp, (among.trans (among_take? taken)).trans others⟩
    · obtain ⟨⟨close, last, shorter'⟩, readClose, h⟩ := bind_eq_ok.mp h
      cases h
      exact ⟨[param], rfl, among.trans (among_expect readClose)⟩
termination_by ts.length
decreasing_by
  omega

theorem parseParamList_placed {ts rest : List Token} {params : List Param}
    {less : rest.length < ts.length} (h : parseParamList eof ts = .ok ⟨params, rest, less⟩) :
    Among ts rest (params.map .param) := by
  unfold parseParamList at h
  split at h
  · next close mid shorter closed =>
    cases h
    exact among_take? closed
  · obtain ⟨new, rfl, among⟩ := parseParams_placed eof [] ts h
    exact among

/-- The statements of a body stand among its tokens. -/
theorem parseBody_placed {ts rest : List Token} {body : Option (List Stmt)} {stop : Span}
    {less : rest.length < ts.length} (h : parseBody eof ts = .ok ⟨(body, stop), rest, less⟩)
    (ordered : Ordered ts) : Among ts rest ((body.getD []).map .stmt) := by
  unfold parseBody at h
  split at h
  · next stop mid shorter taken =>
    cases h
    exact among_take? taken
  · obtain ⟨⟨⟨body, close⟩, last, shorter⟩, readBody, h⟩ := bind_eq_ok.mp h
    cases h
    exact parseBlock_placed eof ts readBody ordered

/-- A function is of the file that is being read. -/
theorem parseFunction_file {file : String} {ts rest : List Token} {f : Function}
    {less : rest.length < ts.length} (h : parseFunction eof file ts = .ok ⟨f, rest, less⟩) :
    f.file = file := by
  unfold parseFunction at h
  obtain ⟨_, _, h⟩ := bind_eq_ok.mp h
  obtain ⟨_, _, h⟩ := bind_eq_ok.mp h
  obtain ⟨_, _, h⟩ := bind_eq_ok.mp h
  obtain ⟨_, _, h⟩ := bind_eq_ok.mp h
  obtain ⟨_, _, h⟩ := bind_eq_ok.mp h
  cases h
  rfl

/-- A function is read at the tokens that were taken for it. -/
theorem parseFunction_placed {file : String} {ts rest : List Token} {f : Function}
    {less : rest.length < ts.length} (h : parseFunction eof file ts = .ok ⟨f, rest, less⟩)
    (ordered : Ordered ts) : ReadAt ts rest (.function f) := by
  suffices below : Among ts rest f.children by
    refine Among.readAt below (parseFunction_reaches ts h) fun used split => ?_
    have derived := (split ▸ parseFunction_sound ts h : Reads _ (used ++ rest) rest _).derives
    rw [← parseFunction_file h] at derived
    exact derived
  unfold parseFunction at h
  obtain ⟨⟨start, inner, shorter⟩, readStart, h⟩ := bind_eq_ok.mp h
  obtain ⟨⟨name, mid, shorter'⟩, readName, h⟩ := bind_eq_ok.mp h
  obtain ⟨⟨opened, inner', shorter''⟩, readOpen, h⟩ := bind_eq_ok.mp h
  obtain ⟨⟨params, mid', shorter'''⟩, readParams, h⟩ := bind_eq_ok.mp h
  obtain ⟨⟨⟨body, stop⟩, last, shorter''''⟩, readBody, h⟩ := bind_eq_ok.mp h
  cases h
  have head := ((among_expect readStart).trans (among_expectName readName)).trans
    (among_expect readOpen)
  have upToParams := head.trans (parseParamList_placed readParams)
  exact upToParams.trans (parseBody_placed readBody (upToParams.ordered ordered))

/-- Functions and statements, as they follow each other in a file. -/
theorem parseItems_placed (eof : Span) (file : String) (ts : List Token) {fs : List Function}
    {ss : List TopLevel} (h : parseItems eof file ts = .ok (fs, ss)) (ordered : Ordered ts) :
    ∃ items, Placed ts items ∧ items.Perm (fs.map .function ++ ss.map (.stmt ·.stmt)) ∧
      (fs.map Node.function).Sublist items ∧ (ss.map (Node.stmt ·.stmt)).Sublist items := by
  match ts with
  | [] =>
    rw [parseItems] at h
    cases h
    exact ⟨[], .nil [], .nil, .slnil, .slnil⟩
  | t :: ts =>
    rw [parseItems] at h
    split at h
    · obtain ⟨⟨f, rest, shorter⟩, readFunction, h⟩ := bind_eq_ok.mp h
      obtain ⟨⟨fs, ss⟩, readItems, h⟩ := bind_eq_ok.mp h
      cases h
      have among := (parseFunction_placed readFunction ordered).among
      obtain ⟨items, placed, perm, functions, stmts⟩ :=
        parseItems_placed eof file rest readItems (among.ordered ordered)
      obtain ⟨used, split, placed'⟩ := among
      rw [split]
      exact ⟨.function f :: items, placed'.append placed, perm.cons _, functions.cons_cons _,
        stmts.cons _⟩
    · obtain ⟨⟨s, rest, shorter⟩, readStmt, h⟩ := bind_eq_ok.mp h
      obtain ⟨⟨fs, ss⟩, readItems, h⟩ := bind_eq_ok.mp h
      cases h
      have among :=
        (readAt_stmt readStmt (parseStmt_placed eof (t :: ts) readStmt ordered)).among
      obtain ⟨items, placed, perm, functions, stmts⟩ :=
        parseItems_placed eof file rest readItems (among.ordered ordered)
      obtain ⟨used, split, placed'⟩ := among
      rw [split]
      exact ⟨.stmt s :: items, placed'.append placed, (perm.cons _).trans List.perm_middle.symm,
        functions.cons _, stmts.cons_cons _⟩
termination_by ts.length
decreasing_by
  all_goals exact shorter

/-! ## What follows for places -/

section

variable {ts us own own' : List Token} {n m : Node} {ns : List Node}

/-- Each part has a run of tokens of its own, and its parts have theirs in it. -/
theorem Placed.exists_run (h : Placed us ns) (mem : n ∈ ns) :
    ∃ own, own <:+: us ∧ n.Stands own ∧ Placed own n.children := by
  induction h with
  | nil => cases mem
  | @cons before own after first ns stands below _ _ ih =>
    rcases List.mem_cons.mp mem with rfl | later
    · exact ⟨own, ⟨before, after, by simp⟩, stands, below⟩
    · obtain ⟨own', ⟨before', after', rfl⟩, stands', below'⟩ := ih later
      exact ⟨own', ⟨before ++ own ++ before', after', by simp⟩, stands', below'⟩

/-- A part stands within the tokens of its run. -/
theorem Node.Stands.exists_ends (h : n.Stands own) (ordered : Ordered own) :
    ∃ first last, own.head? = some first ∧ own.getLast? = some last ∧
      n.span = ⟨first.span.start, last.span.stop⟩ := by
  obtain ⟨first, last, head, final⟩ := Surface.exists_ends h.nonempty
  exact ⟨first, last, head, final, h.span.trans (ordered.wholeSpan_eq head final)⟩

/-- A node whose tokens are among those of another one lies within its span. -/
theorem Node.Stands.within (h : n.Stands own) (h' : m.Stands own') (sub : own' <:+: own)
    (ordered : Ordered own) : n.span.start ≤ m.span.start ∧ m.span.stop ≤ n.span.stop := by
  obtain ⟨first, last, head, final, place⟩ := h.exists_ends ordered
  obtain ⟨first', last', head', final', place'⟩ := h'.exists_ends (ordered.sublist sub.sublist)
  rw [place, place']
  exact ⟨ordered.start_le head (sub.subset (List.mem_of_head? head')),
    ordered.le_stop final (sub.subset (List.mem_of_getLast? final'))⟩

/-- Parts that are placed one behind the other do not overlap. -/
theorem Placed.apart (h : Placed us ns) (ordered : Ordered us) :
    ns.Pairwise fun n m => n.span.stop ≤ m.span.start := by
  induction h with
  | nil => exact .nil
  | @cons before own after first ns stands below others _ ih =>
    have orderedOwn := ordered.right
    refine .cons (fun m mem => ?_) (ih orderedOwn.right)
    obtain ⟨own', sub, stands', -⟩ := others.exists_run mem
    obtain ⟨_, last, -, final, place⟩ :=
      stands.exists_ends (orderedOwn.sublist (List.sublist_append_left _ _))
    obtain ⟨first', _, head', -, place'⟩ :=
      stands'.exists_ends (orderedOwn.right.sublist sub.sublist)
    rw [place, place']
    exact (List.pairwise_append.mp orderedOwn.apart).2.2 last (List.mem_of_getLast? final) first'
      (sub.subset (List.mem_of_head? head'))

/-- Every part of a program has a run of its tokens. -/
theorem Program.Part.exists_run {file : String} {p : Program} (part : p.Part n)
    (h : Program.parse file ts = .ok p) (ordered : Ordered ts) :
    ∃ own, own <:+: ts ∧ n.Stands own ∧ Placed own n.children := by
  unfold Program.parse at h
  obtain ⟨⟨fs, ss⟩, readItems, h⟩ := bind_eq_ok.mp h
  cases h
  obtain ⟨items, placed, -, functions, stmts⟩ := parseItems_placed _ file ts readItems ordered
  induction part with
  | function mem => exact placed.exists_run (functions.subset (List.mem_map_of_mem mem))
  | stmt mem => exact placed.exists_run (stmts.subset (List.mem_map.mpr ⟨_, mem, rfl⟩))
  | child _ mem ih =>
    obtain ⟨own, sub, -, below⟩ := ih
    obtain ⟨own', sub', stands, below'⟩ := below.exists_run mem
    exact ⟨own', sub'.trans sub, stands, below'⟩

end

end Shellwright.Surface
