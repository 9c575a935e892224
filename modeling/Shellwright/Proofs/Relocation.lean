import Mathlib.Data.List.Forall2
import Shellwright.Proofs.ParserSteps

/-!
# Programs at other places

Reading never decides anything by the place of a token. If the same lexemes stand at other
places, then the same rules apply, and what they give differs in its places only: the places of
the one tree are related to those of the other as the places of the tokens are.

* `Alike`: two computations that succeed together, or fail together.
* `Expr.Moved`, `Stmt.Moved`, `Program.Moved`: two trees that differ in their places only.
* `Program.parse_moved`: moved tokens are read as a moved program, or give the same fault.
-/

namespace Shellwright

/-! ## Two computations -/

/-- Both computations succeed with values that `S` relates, or both fail with errors that `E`
relates. -/
inductive Alike {ε α β : Type} (E : ε → ε → Prop) (S : α → β → Prop) :
    Except ε α → Except ε β → Prop
  | ok {a : α} {b : β} : S a b → Alike E S (.ok a) (.ok b)
  | error {e e' : ε} : E e e' → Alike E S (.error e) (.error e')

namespace Alike

variable {ε ε' α β γ δ : Type} {E : ε → ε → Prop} {E' : ε' → ε' → Prop} {S : α → β → Prop}
  {T : γ → δ → Prop} {x : Except ε α} {y : Except ε β}

/-- A computation is like itself. -/
theorem refl (x : Except ε α) : Alike Eq Eq x x := by
  cases x with
  | ok a => exact .ok rfl
  | error e => exact .error rfl

theorem eq {x y : Except ε α} (h : Alike Eq Eq x y) : x = y := by
  cases h with
  | ok same => rw [same]
  | error same => rw [same]

/-- Of two computations that are alike both succeed or none does. -/
theorem exists_ok_iff (h : Alike E S x y) : (∃ a, x = .ok a) ↔ ∃ b, y = .ok b := by
  cases h with
  | ok => exact iff_of_true ⟨_, rfl⟩ ⟨_, rfl⟩
  | error => exact iff_of_false nofun nofun

/-- Where faults are the same, both fail with the same one. -/
theorem eq_error_iff (h : Alike Eq S x y) {e : ε} : x = .error e ↔ y = .error e := by
  cases h with
  | ok => exact iff_of_false nofun nofun
  | error same => rw [same, Except.error.injEq, Except.error.injEq]

/-- Computations in sequence are alike if the first ones are, and the second
ones for related results. -/
theorem bind (h : Alike E S x y) {f : α → Except ε γ} {g : β → Except ε δ}
    (next : ∀ a b, S a b → Alike E T (f a) (g b)) : Alike E T (x >>= f) (y >>= g) := by
  cases h with
  | ok related => exact next _ _ related
  | error related => exact .error related

/-- Results may be compared less closely. -/
theorem imp {S' : α → β → Prop} (h : Alike E S x y) (weaker : ∀ a b, S a b → S' a b) :
    Alike E S' x y := by
  cases h with
  | ok related => exact .ok (weaker _ _ related)
  | error related => exact .error related

theorem map (h : Alike E S x y) {f : α → γ} {g : β → δ} (next : ∀ a b, S a b → T (f a) (g b)) :
    Alike E T (x.map f) (y.map g) := by
  cases h with
  | ok related => exact .ok (next _ _ related)
  | error related => exact .error related

/-- Faults may be changed on both sides. -/
theorem mapError (h : Alike E S x y) {f g : ε → ε'} (next : ∀ e e', E e e' → E' (f e) (g e')) :
    Alike E' S (x.mapError f) (y.mapError g) := by
  cases h with
  | ok related => exact .ok related
  | error related => exact .error (next _ _ related)

end Alike

/-- The relation holds of the ends of two files, and what is put together of related places is
related. -/
structure Relates (R : Span → Span → Prop) (eof eof' : Span) : Prop where
  atEnd : R eof eof'
  merge : ∀ {a a' b b' : Span}, R a a' → R b b' → R (a.merge b) (a'.merge b')

/-- The token stands at another place. -/
structure Token.Moved (R : Span → Span → Prop) (t t' : Token) : Prop where
  lexeme : t.lexeme = t'.lexeme
  span : R t.span t'.span

/-- All tokens of a row stand at other places. -/
abbrev Token.Row (R : Span → Span → Prop) : List Token → List Token → Prop :=
  List.Forall₂ (Token.Moved R)

/-- What is read, and all tokens that are left, stand at other places. -/
structure Taken.Moved (R : Span → Span → Prop) {α β : Type} (S : α → β → Prop)
    {bound bound' : Nat} (t : Taken bound α) (t' : Taken bound' β) : Prop where
  value : S t.value t'.value
  rest : Token.Row R t.rest t'.rest

namespace Surface

/-! ## Moved trees -/

variable (R : Span → Span → Prop)

/-- The expressions differ in their places only, and these are related. -/
inductive Expr.Moved : Expr → Expr → Prop
  | int {a b : Span} (value : Int64) : R a b → Moved (.int a value) (.int b value)
  | fraction {a b : Span} (value : Binary64) : R a b →
      Moved (.fraction a value) (.fraction b value)
  | bool {a b : Span} (value : Bool) : R a b → Moved (.bool a value) (.bool b value)
  | text {a b : Span} {segments segments' : List Segment} :
    R a b → segments.map Segment.placeless = segments'.map Segment.placeless →
      Moved (.text a segments) (.text b segments')
  | command {a b : Span} {segments segments' : List Segment} :
    R a b → segments.map Segment.placeless = segments'.map Segment.placeless →
      Moved (.command a segments) (.command b segments')
  | var {a b : Span} (name : String) : R a b → Moved (.var a name) (.var b name)
  | binary {a b : Span} (op : BinaryOp) {left left' right right' : Expr} :
    R a b → Moved left left' → Moved right right' →
      Moved (.binary a op left right) (.binary b op left' right')
  | unary {a b : Span} (op : UnaryOp) {operand operand' : Expr} :
    R a b → Moved operand operand' → Moved (.unary a op operand) (.unary b op operand')
  | call {a b : Span} (name : String) {args args' : List Expr} :
    R a b → List.Forall₂ Moved args args' → Moved (.call a name args) (.call b name args')
  | pipe {a b : Span} {left left' right right' : Expr} :
    R a b → Moved left left' → Moved right right' →
    Moved (.pipe a left right) (.pipe b left' right')

mutual

/-- The statements differ in their places only, and these are related. -/
inductive Stmt.Moved : Stmt → Stmt → Prop
  | assign {a b : Span} (name : String) {value value' : Expr} :
    R a b → Expr.Moved R value value' → Stmt.Moved (.assign a name value) (.assign b name value')
  | branch {a b : Span} {cond cond' : Expr} {body body' : List Stmt}
      {otherwise otherwise' : ElseChain} :
    R a b → Expr.Moved R cond cond' → List.Forall₂ Stmt.Moved body body' →
      ElseChain.Moved otherwise otherwise' →
      Stmt.Moved (.branch a cond body otherwise) (.branch b cond' body' otherwise')
  | loop {a b : Span} (var : String) {lower lower' : Expr} {upper upper' : Option Expr}
      {body body' : List Stmt} :
    R a b → Expr.Moved R lower lower' → Option.Rel (Expr.Moved R) upper upper' →
      List.Forall₂ Stmt.Moved body body' →
      Stmt.Moved (.loop a var lower upper body) (.loop b var lower' upper' body')
  | ret {a b : Span} {value value' : Expr} :
    R a b → Expr.Moved R value value' → Stmt.Moved (.ret a value) (.ret b value')
  | jump {a b : Span} (jump : Jump) : R a b → Stmt.Moved (.jump a jump) (.jump b jump)
  | load {a b : Span} (module : String) : R a b → Stmt.Moved (.load a module) (.load b module)
  | expr {a b : Span} {expr expr' : Expr} :
    R a b → Expr.Moved R expr expr' → Stmt.Moved (.expr a expr) (.expr b expr')

/-- The branches differ in their places only, and these are related. -/
inductive ElseChain.Moved : ElseChain → ElseChain → Prop
  | done : ElseChain.Moved .done .done
  | elseIf {cond cond' : Expr} {body body' : List Stmt} {otherwise otherwise' : ElseChain} :
    Expr.Moved R cond cond' → List.Forall₂ Stmt.Moved body body' →
      ElseChain.Moved otherwise otherwise' →
      ElseChain.Moved (.elseIf cond body otherwise) (.elseIf cond' body' otherwise')
  | final {body body' : List Stmt} :
    List.Forall₂ Stmt.Moved body body' → ElseChain.Moved (.final body) (.final body')

end

/-- The parameters differ in their places only. -/
structure Param.Moved (p p' : Param) : Prop where
  name : p.name = p'.name
  span : R p.span p'.span

/-- The functions are of one file and differ in their places only. -/
structure Function.Moved (file : String) (f f' : Function) : Prop where
  name : f.name = f'.name
  params : List.Forall₂ (Param.Moved R) f.params f'.params
  body : Option.Rel (List.Forall₂ (Stmt.Moved R)) f.body f'.body
  span : R f.span f'.span
  files : f.file = file ∧ f'.file = file

/-- The statements are of one file and differ in their places only. -/
structure TopLevel.Moved (file : String) (t t' : TopLevel) : Prop where
  stmt : Stmt.Moved R t.stmt t'.stmt
  files : t.file = file ∧ t'.file = file

/-- The programs are of one file and differ in their places and texts only. -/
structure Program.Moved (file : String) (p p' : Program) : Prop where
  functions : List.Forall₂ (Function.Moved R file) p.functions p'.functions
  topLevel : List.Forall₂ (TopLevel.Moved R file) p.topLevel p'.topLevel
  files : p.entryFile = file ∧ p'.entryFile = file

/-- Values that `S` relates, each with the place where it ends. -/
def WithEnd {α β : Type} (S : α → β → Prop) (x : α × Span) (y : β × Span) : Prop :=
  S x.1 y.1 ∧ R x.2 y.2

/-- The faults are the same, at related places. -/
structure ParseError.Moved (e e' : ParseError) : Prop where
  fault : e.fault = e'.fault
  span : R e.span e'.span

/-- A rule reads values that `S` relates and leaves moved tokens, or fails with the same
fault. -/
def ReadsAlike {α β : Type} (S : α → β → Prop) {bound bound' : Nat}
    (x : Except ParseError (Taken bound α)) (y : Except ParseError (Taken bound' β)) : Prop :=
  Alike (ParseError.Moved R) (Taken.Moved R S) x y

variable {R}

/-- Rules in sequence read alike; what is left after the first one is alike, too. -/
theorem ReadsAlike.bind {α β γ δ : Type} {S : α → β → Prop} {T : γ → δ → Prop}
    {bound bound' bound₂ bound₂' : Nat} {x : Except ParseError (Taken bound α)}
    {y : Except ParseError (Taken bound' β)} (h : ReadsAlike R S x y)
    {f : Taken bound α → Except ParseError (Taken bound₂ γ)}
    {g : Taken bound' β → Except ParseError (Taken bound₂' δ)}
    (next : ∀ {a b rest rest' less less'}, S a b → Token.Row R rest rest' →
      ReadsAlike R T (f ⟨a, rest, less⟩) (g ⟨b, rest', less'⟩)) :
    ReadsAlike R T (x >>= f) (y >>= g) :=
  Alike.bind h fun _ _ moved => next moved.value moved.rest

theorem ReadsAlike.within {α β : Type} {S : α → β → Prop} {bound bound' bound₂ bound₂' : Nat}
    {x : Except ParseError (Taken bound α)} {y : Except ParseError (Taken bound' β)}
    (h : ReadsAlike R S x y) (le : bound ≤ bound₂) (le' : bound' ≤ bound₂') :
    ReadsAlike R S (x >>= fun t => pure (t.within le)) (y >>= fun t => pure (t.within le')) :=
  h.bind fun value row => .ok ⟨value, row⟩

/-- The spans of an expression and of the moved one are related. -/
theorem Expr.Moved.span {e e' : Expr} (h : Expr.Moved R e e') : R e.span e'.span := by
  cases h <;> assumption

/-- Brackets can be put around both. -/
theorem Expr.Moved.withSpan {e e' : Expr} (h : Expr.Moved R e e') {a b : Span}
    (related : R a b) :
    Expr.Moved R (e.withSpan a) (e'.withSpan b) := by
  cases h with
  | int value => exact .int value related
  | fraction value => exact .fraction value related
  | bool value => exact .bool value related
  | text _ same => exact .text related same
  | command _ same => exact .command related same
  | var name => exact .var name related
  | binary op _ left right => exact .binary op related left right
  | unary op _ operand => exact .unary op related operand
  | call name _ args => exact .call name related args
  | pipe _ left right => exact .pipe related left right

/-! ## Single tokens -/

variable {eof eof' : Span}

section

variable {ts ts' : List Token}

/-- Both texts go on, or end, at related places. -/
theorem nextSpan_moved (places : Relates R eof eof') (row : Token.Row R ts ts') :
    R (nextSpan eof ts) (nextSpan eof' ts') := by
  cases row with
  | nil => exact places.atEnd
  | cons first _ => exact first.span

/-- A token is taken from both texts or from neither. -/
theorem take?_moved (wanted : Lexeme) (row : Token.Row R ts ts') :
    take? wanted ts = none ∧ take? wanted ts' = none ∨
    ∃ span span' rest rest' less less', take? wanted ts = some ⟨span, rest, less⟩ ∧
      take? wanted ts' = some ⟨span', rest', less'⟩ ∧ R span span' ∧ Token.Row R rest rest' := by
  cases row with
  | nil => exact .inl ⟨rfl, rfl⟩
  | @cons t t' rest rest' first others =>
    by_cases same : t.lexeme = wanted
    · exact .inr ⟨_, _, _, _, _, _, take?_cons_self same rest,
        take?_cons_self (first.lexeme ▸ same) rest', first.span, others⟩
    · exact .inl ⟨if_neg same, if_neg (first.lexeme ▸ same)⟩

/-- The next tokens read the same. -/
theorem head?_lexeme_moved (row : Token.Row R ts ts') :
    ts.head?.map (·.lexeme) = ts'.head?.map (·.lexeme) := by
  cases row with
  | nil => rfl
  | cons first _ => exact congrArg some first.lexeme

/-- A token is expected with the same success, or with faults at related places. -/
theorem expect_moved (places : Relates R eof eof') (wanted : Lexeme)
    (row : Token.Row R ts ts') :
    ReadsAlike R R (expect eof wanted ts) (expect eof' wanted ts') := by
  unfold expect
  rcases take?_moved wanted row with ⟨none, none'⟩ | ⟨_, _, _, _, _, _, some, some', span, rest⟩
  · rw [none, none', head?_lexeme_moved row]
    exact .error ⟨rfl, nextSpan_moved places row⟩
  · rw [some, some']
    exact .ok ⟨span, rest⟩

/-- So is a name, and it is the same one. -/
theorem expectName_moved (places : Relates R eof eof') (role : NameRole)
    (row : Token.Row R ts ts') :
    ReadsAlike R (Param.Moved R) (expectName eof role ts) (expectName eof' role ts') := by
  cases row with
  | nil => exact .error ⟨rfl, places.atEnd⟩
  | @cons t t' rest rest' first others =>
    obtain ⟨lexeme, span, body⟩ := t
    obtain ⟨lexeme', span', body'⟩ := t'
    obtain ⟨rfl : lexeme = lexeme', related⟩ := first
    cases lexeme with
    | ident name => exact .ok ⟨⟨rfl, related⟩, others⟩
    | _ => exact .error ⟨rfl, related⟩

theorem expectModule_moved (places : Relates R eof eof') (row : Token.Row R ts ts') :
    ReadsAlike R Eq (expectModule eof ts) (expectModule eof' ts') := by
  cases row with
  | nil => exact .error ⟨rfl, places.atEnd⟩
  | @cons t t' rest rest' first others =>
    obtain ⟨lexeme, span, body⟩ := t
    obtain ⟨lexeme', span', body'⟩ := t'
    obtain ⟨rfl : lexeme = lexeme', related⟩ := first
    cases lexeme with
    | ident name => exact .ok ⟨rfl, others⟩
    | text name => exact .ok ⟨rfl, others⟩
    | _ => exact .error ⟨rfl, related⟩

/-- An operator joins moved operands to a moved expression. -/
theorem Joint.join_moved (places : Relates R eof eof') (j : Joint)
    {left left' right right' : Expr} (first : Expr.Moved R left left')
    (second : Expr.Moved R right right') :
    Expr.Moved R (j.join left right) (j.join left' right') := by
  have span := places.merge first.span second.span
  cases j with
  | binary op => exact .binary op span first second
  | pipe => exact .pipe span first second

end

/-! ## Expressions -/

/-- Where a text begins changes only the places of its segments. -/
theorem Segment.map_placeless_split_eq (base base' : Nat) (raw : String) :
    (split base raw).map placeless = (split base' raw).map placeless :=
  (map_placeless_split base raw).trans (map_placeless_split base' raw).symm

mutual

/-- From moved tokens every expression rule reads a moved expression, or fails with a moved
fault. The rules call each other, so all of them are taken together. -/
theorem parseLevel_moved (places : Relates R eof eof') (level : Option Level)
    {ts ts' : List Token} (row : Token.Row R ts ts') :
    ReadsAlike R (Expr.Moved R) (parseLevel eof level ts) (parseLevel eof' level ts') := by
  match level with
  | none =>
    unfold parseLevel
    exact parseUnary_moved places row
  | some l =>
    unfold parseLevel
    refine (parseLevel_moved places l.tighter row).bind fun value row => ?_
    exact (parseJoints_moved places l value row).within _ _
termination_by 16 * ts.length + Level.weight level
decreasing_by
  · simp only [Level.weight]
    omega
  · have := Level.weight_tighter_lt l
    omega
  · simp only [Level.weight]
    omega

/-- What was read on the left may have moved as well. -/
theorem parseJoints_moved (places : Relates R eof eof') (l : Level) {left left' : Expr}
    (first : Expr.Moved R left left') {ts ts' : List Token} (row : Token.Row R ts ts') :
    ReadsAlike R (Expr.Moved R) (parseJoints eof l left ts) (parseJoints eof' l left' ts') := by
  unfold parseJoints
  match ts, ts', row with
  | [], [], .nil => exact .ok ⟨first, .nil⟩
  | t :: ts, t' :: ts', .cons head tail =>
    dsimp only
    rw [← head.lexeme]
    cases l.joint? t.lexeme with
    | none => exact .ok ⟨first, .cons head tail⟩
    | some j =>
      refine (parseLevel_moved places l.tighter tail).bind fun value row => ?_
      exact (parseJoints_moved places l (j.join_moved places first value) row).within _ _
termination_by 16 * ts.length
decreasing_by
  · have := Level.weight_tighter_lt l
    have : Level.weight (some l) ≤ 10 := by cases l <;> decide
    simp only [List.length_cons]
    omega
  · simp only [List.length_cons]
    omega

theorem parseUnary_moved (places : Relates R eof eof') {ts ts' : List Token}
    (row : Token.Row R ts ts') :
    ReadsAlike R (Expr.Moved R) (parseUnary eof ts) (parseUnary eof' ts') := by
  unfold parseUnary
  match ts, ts', row with
  | [], [], .nil => exact parsePrimary_moved places .nil
  | t :: ts, t' :: ts', .cons head tail =>
    dsimp only
    rw [← head.lexeme]
    cases unaryOp? t.lexeme with
    | none => exact parsePrimary_moved places (.cons head tail)
    | some op =>
      refine (parseUnary_moved places tail).bind fun value row => ?_
      exact .ok ⟨.unary op (places.merge head.span value.span) value, row⟩
termination_by 16 * ts.length + 2
decreasing_by
  all_goals simp only [List.length_cons, List.length_nil]; omega

/-- Literals are the same, and references have moved with the text they stand in. -/
theorem parsePrimary_moved (places : Relates R eof eof') {ts ts' : List Token}
    (row : Token.Row R ts ts') :
    ReadsAlike R (Expr.Moved R) (parsePrimary eof ts) (parsePrimary eof' ts') := by
  unfold parsePrimary
  match ts, ts', row with
  | [], [], .nil => exact .error ⟨rfl, places.atEnd⟩
  | ⟨lexeme, span, body⟩ :: ts, ⟨lexeme', span', body'⟩ :: ts', .cons head tail =>
    obtain ⟨rfl : lexeme = lexeme', related : R span span'⟩ := head
    dsimp only
    cases lexeme with
    | int value => exact .ok ⟨.int value related, tail⟩
    | fraction value => exact .ok ⟨.fraction value related, tail⟩
    | text raw =>
      exact .ok ⟨.text related (Segment.map_placeless_split_eq body body' raw), tail⟩
    | command raw =>
      exact .ok ⟨.command related (Segment.map_placeless_split_eq body body' raw), tail⟩
    | keyword word =>
      dsimp only
      cases truth? word with
      | none => exact .error ⟨rfl, related⟩
      | some value => exact .ok ⟨.bool value related, tail⟩
    | symbol symbol =>
      dsimp only
      split
      · refine (parseLevel_moved places (some .pipe) tail).bind fun value row => ?_
        refine (expect_moved places _ row).bind fun span row => ?_
        exact .ok ⟨value.withSpan (places.merge related span), row⟩
      · exact .error ⟨rfl, related⟩
    | ident name =>
      dsimp only
      rcases take?_moved (.symbol .leftParen) tail with
        ⟨none, none'⟩ | ⟨_, _, _, _, _, _, some, some', _, openedRow⟩
      · rw [none, none']
        exact .ok ⟨.var name related, tail⟩
      · rw [some, some']
        refine (parseArgs_moved places openedRow).bind fun moved row => ?_
        exact .ok ⟨.call name (places.merge related moved.2) moved.1, row⟩
termination_by 16 * ts.length + 1
decreasing_by
  all_goals simp only [List.length_cons, Level.weight, Level.height]; omega

/-- Arguments have moved one by one, and so has the closing bracket. -/
theorem parseArgs_moved (places : Relates R eof eof') {ts ts' : List Token}
    (row : Token.Row R ts ts') :
    ReadsAlike R (WithEnd R (List.Forall₂ (Expr.Moved R))) (parseArgs eof ts)
      (parseArgs eof' ts') := by
  unfold parseArgs
  rcases take?_moved (.symbol .rightParen) row with
    ⟨none, none'⟩ | ⟨_, _, _, _, _, _, some, some', closedSpan, closedRow⟩
  · rw [none, none']
    exact parseArgList_moved places row
  · rw [some, some']
    exact .ok ⟨⟨.nil, closedSpan⟩, closedRow⟩
termination_by 16 * ts.length + 12
decreasing_by
  omega

theorem parseArgList_moved (places : Relates R eof eof') {ts ts' : List Token}
    (row : Token.Row R ts ts') :
    ReadsAlike R (WithEnd R (List.Forall₂ (Expr.Moved R))) (parseArgList eof ts)
      (parseArgList eof' ts') := by
  unfold parseArgList
  refine (parseLevel_moved places (some .pipe) row).bind fun value row => ?_
  dsimp only
  rcases take?_moved (.symbol .comma) row with
    ⟨none, none'⟩ | ⟨_, _, _, _, _, _, some, some', _, commaRow⟩
  · rw [none, none']
    refine (expect_moved places _ row).bind fun span row => ?_
    exact .ok ⟨⟨.cons value .nil, span⟩, row⟩
  · rw [some, some']
    refine (parseArgList_moved places commaRow).bind fun moved row => ?_
    exact .ok ⟨⟨.cons value moved.1, moved.2⟩, row⟩
termination_by 16 * ts.length + 11
decreasing_by
  · simp only [Level.weight, Level.height]
    omega
  · omega

end

theorem parseExpr_moved (places : Relates R eof eof') {ts ts' : List Token}
    (row : Token.Row R ts ts') :
    ReadsAlike R (Expr.Moved R) (parseExpr eof ts) (parseExpr eof' ts') :=
  parseLevel_moved places (some .pipe) row

/-! ## Statements -/

section

variable {ts ts' : List Token}

theorem parseCondition_moved (places : Relates R eof eof') (row : Token.Row R ts ts') :
    ReadsAlike R (Expr.Moved R) (parseCondition eof ts) (parseCondition eof' ts') := by
  unfold parseCondition
  refine (expect_moved places _ row).bind fun _ row => ?_
  refine (parseExpr_moved places row).bind fun value row => ?_
  refine (expect_moved places _ row).bind fun _ row => ?_
  exact .ok ⟨value, row⟩

theorem parseExprEnd_moved (places : Relates R eof eof') (row : Token.Row R ts ts') :
    ReadsAlike R (WithEnd R (Expr.Moved R)) (parseExprEnd eof ts) (parseExprEnd eof' ts') := by
  unfold parseExprEnd
  refine (parseExpr_moved places row).bind fun value row => ?_
  refine (expect_moved places _ row).bind fun span row => ?_
  exact .ok ⟨⟨value, span⟩, row⟩

/-- What two loops run over differs in its places only. -/
def BoundsMoved (R : Span → Span → Prop) (x y : Expr × Option Expr) : Prop :=
  Expr.Moved R x.1 y.1 ∧ Option.Rel (Expr.Moved R) x.2 y.2

/-- Bounds have moved, and there is an upper one on both sides or on neither. -/
theorem parseBounds_moved (places : Relates R eof eof') (row : Token.Row R ts ts') :
    ReadsAlike R (BoundsMoved R) (parseBounds eof ts) (parseBounds eof' ts') := by
  unfold parseBounds
  refine (parseExpr_moved places row).bind fun first row => ?_
  dsimp only
  rcases take?_moved (.symbol .range) row with
    ⟨none, none'⟩ | ⟨_, _, _, _, _, _, some, some', _, dotsRow⟩
  · rw [none, none']
    refine (expect_moved places _ row).bind fun _ row => ?_
    exact .ok ⟨⟨first, .none⟩, row⟩
  · rw [some, some']
    refine (parseExpr_moved places dotsRow).bind fun second row => ?_
    refine (expect_moved places _ row).bind fun _ row => ?_
    exact .ok ⟨⟨first, .some second⟩, row⟩

/-- The variable of a loop is the same. -/
theorem parseLoopHead_moved (places : Relates R eof eof') (row : Token.Row R ts ts') :
    ReadsAlike R (fun x y => x.1 = y.1 ∧ BoundsMoved R x.2 y.2) (parseLoopHead eof ts)
      (parseLoopHead eof' ts') := by
  unfold parseLoopHead
  refine (expect_moved places _ row).bind fun _ row => ?_
  refine (expectName_moved places _ row).bind fun name row => ?_
  refine (expect_moved places _ row).bind fun _ row => ?_
  refine (parseBounds_moved places row).bind fun moved row => ?_
  exact .ok ⟨⟨name.name, moved⟩, row⟩

variable {start start' : Span}

theorem parseImport_moved (places : Relates R eof eof') (begins : R start start')
    (row : Token.Row R ts ts') :
    ReadsAlike R (Stmt.Moved R) (parseImport eof start ts) (parseImport eof' start' ts') := by
  unfold parseImport
  refine (expectModule_moved places row).bind fun same row => ?_
  refine (expect_moved places _ row).bind fun span row => ?_
  subst same
  exact .ok ⟨.load _ (places.merge begins span), row⟩

theorem parseReturn_moved (places : Relates R eof eof') (begins : R start start')
    (row : Token.Row R ts ts') :
    ReadsAlike R (Stmt.Moved R) (parseReturn eof start ts) (parseReturn eof' start' ts') := by
  unfold parseReturn
  rcases take?_moved (.symbol .semicolon) row with
    ⟨none, none'⟩ | ⟨_, _, _, _, _, _, some, some', stopSpan, stopRow⟩
  · rw [none, none']
    refine (parseExprEnd_moved places row).bind fun moved row => ?_
    exact .ok ⟨.ret (places.merge begins moved.2) moved.1, row⟩
  · rw [some, some']
    exact .error ⟨rfl, stopSpan⟩

theorem parseJump_moved (places : Relates R eof eof') (begins : R start start') (jump : Jump)
    (row : Token.Row R ts ts') :
    ReadsAlike R (Stmt.Moved R) (parseJump eof start jump ts)
      (parseJump eof' start' jump ts') := by
  unfold parseJump
  refine (expect_moved places _ row).bind fun span row => ?_
  exact .ok ⟨.jump jump (places.merge begins span), row⟩

theorem parseExprStmt_moved (places : Relates R eof eof') (row : Token.Row R ts ts') :
    ReadsAlike R (Stmt.Moved R) (parseExprStmt eof ts) (parseExprStmt eof' ts') := by
  unfold parseExprStmt
  refine (parseExprEnd_moved places row).bind fun moved rest => ?_
  exact .ok ⟨.expr (places.merge (nextSpan_moved places row) moved.2) moved.1, rest⟩

/-- A simple statement is of the same kind, and has moved. -/
theorem parseSimple_moved (places : Relates R eof eof') (row : Token.Row R ts ts') :
    ReadsAlike R (Stmt.Moved R) (parseSimple eof ts) (parseSimple eof' ts') := by
  unfold parseSimple
  cases row with
  | nil => exact .error ⟨rfl, places.atEnd⟩
  | @cons t t' ts ts' head tail =>
    dsimp only
    rw [← head.lexeme]
    split
    · exact .error ⟨rfl, head.span⟩
    · exact (parseImport_moved places head.span tail).within _ _
    · exact (parseReturn_moved places head.span tail).within _ _
    · exact (parseJump_moved places head.span .leave tail).within _ _
    · exact (parseJump_moved places head.span .next tail).within _ _
    · next name _ =>
      rcases take?_moved (.symbol .assign) tail with
        ⟨none, none'⟩ | ⟨_, _, _, _, _, _, some, some', _, signRow⟩
      · rw [none, none']
        exact parseExprStmt_moved places (.cons head tail)
      · rw [some, some']
        refine (parseExprEnd_moved places signRow).bind fun moved row => ?_
        exact .ok ⟨.assign name (places.merge head.span moved.2) moved.1, row⟩
    · exact parseExprStmt_moved places (.cons head tail)

end

mutual

/-- From moved tokens every statement rule reads a moved statement, or fails
with a moved fault. -/
theorem parseStmt_moved (places : Relates R eof eof') {ts ts' : List Token}
    (row : Token.Row R ts ts') :
    ReadsAlike R (Stmt.Moved R) (parseStmt eof ts) (parseStmt eof' ts') := by
  unfold parseStmt
  rcases take?_moved (.keyword .ifWord) row with
    ⟨none, none'⟩ | ⟨_, _, _, _, _, _, some, some', beginsSpan, beginsRow⟩
  · rcases take?_moved (.keyword .forWord) row with
      ⟨noLoop, noLoop'⟩ | ⟨_, _, _, _, _, _, some, some', beginsSpan, beginsRow⟩
    · rw [none, none', noLoop, noLoop']
      exact parseSimple_moved places row
    · rw [none, none', some, some']
      refine (parseLoopHead_moved places beginsRow).bind @fun head head' _ _ _ _ moved row => ?_
      refine (parseBlock_moved places row).bind fun block row => ?_
      obtain ⟨var, lower, upper⟩ := head
      obtain ⟨var', lower', upper'⟩ := head'
      obtain ⟨rfl : var = var', bounds⟩ := moved
      exact .ok ⟨.loop var (places.merge beginsSpan block.2) bounds.1 bounds.2 block.1, row⟩
  · rw [some, some']
    refine (parseCondition_moved places beginsRow).bind fun value row => ?_
    refine (parseBlock_moved places row).bind fun block row => ?_
    refine (parseElse_moved places block.2 row).bind fun chain row => ?_
    exact .ok ⟨.branch (places.merge beginsSpan chain.2) value block.1 chain.1, row⟩
termination_by 4 * ts.length
decreasing_by
  all_goals omega

/-- Blocks have moved statement by statement. -/
theorem parseBlock_moved (places : Relates R eof eof') {ts ts' : List Token}
    (row : Token.Row R ts ts') :
    ReadsAlike R (WithEnd R (List.Forall₂ (Stmt.Moved R))) (parseBlock eof ts)
      (parseBlock eof' ts') := by
  unfold parseBlock
  refine (expect_moved places _ row).bind fun _ row => ?_
  refine (parseStmts_moved places row).bind fun block row => ?_
  exact .ok ⟨block, row⟩
termination_by 4 * ts.length

theorem parseStmts_moved (places : Relates R eof eof') {ts ts' : List Token}
    (row : Token.Row R ts ts') :
    ReadsAlike R (WithEnd R (List.Forall₂ (Stmt.Moved R))) (parseStmts eof ts)
      (parseStmts eof' ts') := by
  unfold parseStmts
  rcases take?_moved (.symbol .rightBrace) row with
    ⟨none, none'⟩ | ⟨_, _, _, _, _, _, some, some', closeSpan, closeRow⟩
  · rw [none, none']
    dsimp only
    have empty : ts.isEmpty = ts'.isEmpty := by cases row <;> rfl
    rw [← empty]
    split
    · exact .error ⟨rfl, places.atEnd⟩
    · refine (parseStmt_moved places row).bind fun value row => ?_
      refine (parseStmts_moved places row).bind fun block row => ?_
      exact .ok ⟨⟨.cons value block.1, block.2⟩, row⟩
  · rw [some, some']
    exact .ok ⟨⟨.nil, closeSpan⟩, closeRow⟩
termination_by 4 * ts.length + 1

/-- The branches after the first one have moved, and end at related places. -/
theorem parseElse_moved (places : Relates R eof eof') {last last' : Span} (ends : R last last')
    {ts ts' : List Token} (row : Token.Row R ts ts') :
    ReadsAlike R (WithEnd R (ElseChain.Moved R)) (parseElse eof last ts)
      (parseElse eof' last' ts') := by
  unfold parseElse
  rcases take?_moved (.keyword .elseWord) row with
    ⟨none, none'⟩ | ⟨_, _, _, _, _, _, some, some', _, wordRow⟩
  · rw [none, none']
    exact .ok ⟨⟨.done, ends⟩, row⟩
  · rw [some, some']
    dsimp only
    rcases take?_moved (.keyword .ifWord) wordRow with
      ⟨none, none'⟩ | ⟨_, _, _, _, _, _, some, some', _, againRow⟩
    · rw [none, none']
      refine (parseBlock_moved places wordRow).bind fun block row => ?_
      exact .ok ⟨⟨.final block.1, block.2⟩, row⟩
    · rw [some, some']
      refine (parseCondition_moved places againRow).bind fun value row => ?_
      refine (parseBlock_moved places row).bind fun block row => ?_
      refine (parseElse_moved places block.2 row).bind fun chain row => ?_
      exact .ok ⟨⟨.elseIf value block.1 chain.1, chain.2⟩, row⟩
termination_by 4 * ts.length
decreasing_by
  all_goals omega

end

/-! ## Functions and programs -/

section

variable {ts ts' : List Token}

/-- A parameter has the name of another one on both sides or on neither. -/
theorem any_name_moved {seen seen' : List Param} (h : List.Forall₂ (Param.Moved R) seen seen')
    (name : String) : seen.any (·.name = name) = seen'.any (·.name = name) := by
  induction h with
  | nil => rfl
  | cons first _ ih => rw [List.any_cons, List.any_cons, first.name, ih]

/-- Parameters are refused for the same reasons on both sides. -/
theorem parseParams_moved (places : Relates R eof eof') {seen seen' : List Param}
    (before : List.Forall₂ (Param.Moved R) seen seen') {ts ts' : List Token}
    (row : Token.Row R ts ts') :
    ReadsAlike R (List.Forall₂ (Param.Moved R)) (parseParams eof seen ts)
      (parseParams eof' seen' ts') := by
  unfold parseParams
  refine (expectName_moved places _ row).bind @fun param param' _ _ _ _ moved row => ?_
  have upTo : List.Forall₂ (Param.Moved R) (seen ++ [param]) (seen' ++ [param']) :=
    List.rel_append before (.cons moved .nil)
  dsimp only
  rw [← moved.name, ← any_name_moved before]
  split
  · exact .error ⟨rfl, moved.span⟩
  · rcases take?_moved (.symbol .comma) row with
      ⟨none, none'⟩ | ⟨_, _, _, _, _, _, some, some', _, commaRow⟩
    · rw [none, none']
      refine (expect_moved places _ row).bind fun _ row => ?_
      exact .ok ⟨upTo, row⟩
    · rw [some, some']
      exact (parseParams_moved places upTo commaRow).within _ _
termination_by ts.length

theorem parseParamList_moved (places : Relates R eof eof') (row : Token.Row R ts ts') :
    ReadsAlike R (List.Forall₂ (Param.Moved R)) (parseParamList eof ts)
      (parseParamList eof' ts') := by
  unfold parseParamList
  rcases take?_moved (.symbol .rightParen) row with
    ⟨none, none'⟩ | ⟨_, _, _, _, _, _, some, some', closeSpan, closeRow⟩
  · rw [none, none']
    exact parseParams_moved places .nil row
  · rw [some, some']
    exact .ok ⟨.nil, closeRow⟩

theorem parseBody_moved (places : Relates R eof eof') (row : Token.Row R ts ts') :
    ReadsAlike R (WithEnd R (Option.Rel (List.Forall₂ (Stmt.Moved R)))) (parseBody eof ts)
      (parseBody eof' ts') := by
  unfold parseBody
  rcases take?_moved (.symbol .semicolon) row with
    ⟨none, none'⟩ | ⟨_, _, _, _, _, _, some, some', stopSpan, stopRow⟩
  · rw [none, none']
    refine (parseBlock_moved places row).bind fun block row => ?_
    exact .ok ⟨⟨.some block.1, block.2⟩, row⟩
  · rw [some, some']
    exact .ok ⟨⟨.none, stopSpan⟩, stopRow⟩

/-- A function has moved with its parameters and its body, and is of the same file. -/
theorem parseFunction_moved (places : Relates R eof eof') (file : String)
    (row : Token.Row R ts ts') :
    ReadsAlike R (Function.Moved R file) (parseFunction eof file ts)
      (parseFunction eof' file ts') := by
  unfold parseFunction
  refine (expect_moved places _ row).bind fun begins row => ?_
  refine (expectName_moved places _ row).bind fun named row => ?_
  refine (expect_moved places _ row).bind fun _ row => ?_
  refine (parseParamList_moved places row).bind fun moved row => ?_
  refine (parseBody_moved places row).bind fun block row => ?_
  exact .ok ⟨⟨named.name, moved, block.1, places.merge begins block.2, rfl, rfl⟩, row⟩

end

/-- Both kinds of items of a file differ in their places only. -/
def ItemsMoved (R : Span → Span → Prop) (file : String) (x y : List Function × List TopLevel) :
    Prop :=
  List.Forall₂ (Function.Moved R file) x.1 y.1 ∧ List.Forall₂ (TopLevel.Moved R file) x.2 y.2

/-- From moved tokens a moved file is read, or reading fails with a moved fault. -/
theorem parseItems_moved (places : Relates R eof eof') (file : String) {ts ts' : List Token}
    (row : Token.Row R ts ts') :
    Alike (ParseError.Moved R) (ItemsMoved R file) (parseItems eof file ts)
      (parseItems eof' file ts') := by
  unfold parseItems
  match ts, ts', row with
  | [], [], .nil => exact .ok ⟨.nil, .nil⟩
  | t :: ts, t' :: ts', .cons head tail =>
    dsimp only
    rw [← head.lexeme]
    split
    · refine Alike.bind (parseFunction_moved places file (.cons head tail)) ?_
      rintro ⟨function, rest, less⟩ ⟨function', rest', less'⟩ ⟨value, row⟩
      refine (parseItems_moved places file row).bind fun items items' moved => ?_
      exact .ok ⟨.cons value moved.1, moved.2⟩
    · refine Alike.bind (parseStmt_moved places (.cons head tail)) ?_
      rintro ⟨stmt, rest, less⟩ ⟨stmt', rest', less'⟩ ⟨value, row⟩
      refine (parseItems_moved places file row).bind fun items items' moved => ?_
      exact .ok ⟨moved.1, .cons ⟨value, rfl, rfl⟩ moved.2⟩
termination_by ts.length
decreasing_by
  all_goals exact less

/-- Moved tokens are read as a moved program, or not read for the same reason. -/
theorem Program.parse_moved {ts ts' : List Token} (places : Relates R (eofSpan ts) (eofSpan ts'))
    (row : Token.Row R ts ts') (file : String) :
    Alike (ParseError.Moved R) (Program.Moved R file) (Program.parse file ts)
      (Program.parse file ts') := by
  refine (parseItems_moved places file row).bind fun items items' moved => ?_
  exact .ok ⟨moved.1, moved.2, rfl, rfl⟩

end Surface

end Shellwright
