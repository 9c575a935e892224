import Shellwright.Surface.Placeless

/-!
# The grammar

Which trees a sequence of lexemes stands for. The grammar says nothing about how they are found:
a rule may be about itself on the left, two rules may begin alike, and no rule looks at what
comes after it. Trees carry no places here, since places are no part of what a program says.

* `Derives rule xs tree`: by this rule the lexemes are the tree.
* `Derives.begins`, `Derives.no_assign`: what a sequence begins with, and what it never holds. A
  reader that looks one or two tokens ahead decides by these.
-/

namespace Shellwright.Surface

/-- Operators of the same strength, each with the tree that it makes of its operands. -/
abbrev Tier := List (Symbol × (Expr → Expr → Expr))

/-- The operators between two operands, the loosest first. -/
def tiers : List Tier :=
  [[(.pipe, .pipe .zero)],
   [(.either, .binary .zero .or)],
   [(.both, .binary .zero .and)],
   [(.equal, .binary .zero .eq), (.notEqual, .binary .zero .ne)],
   [(.less, .binary .zero .lt), (.lessEqual, .binary .zero .le),
    (.greater, .binary .zero .gt), (.greaterEqual, .binary .zero .ge)],
   [(.plus, .binary .zero .add), (.minus, .binary .zero .sub)],
   [(.star, .binary .zero .mul), (.slash, .binary .zero .div), (.percent, .binary .zero .mod)]]

/-- The signs that stand before their operand. -/
def signs : List (Symbol × UnaryOp) := [(.minus, .negate), (.bang, .not)]

/-- The rules of the grammar. -/
inductive Rule where
  /-- Expressions whose outermost operator, outside brackets, is one of the given tiers. -/
  | within (tiers : List Tier)
  | signed
  | primary
  /-- One or more expressions with commas between them. -/
  | args
  | stmt
  | block
  | stmts
  /-- What may follow the first branch of a conditional. -/
  | otherwise
  /-- The body of a function, or the semicolon in its place. -/
  | body
  | function (file : String)
  | items (file : String)
  | program (file : String)

/-- What the sequences of a rule stand for. -/
abbrev Rule.Tree : Rule → Type
  | .within _ | .signed | .primary => Expr
  | .args => List Expr
  | .stmt => Stmt
  | .block | .stmts => List Stmt
  | .otherwise => ElseChain
  | .body => Option (List Stmt)
  | .function _ => Function
  | .items _ => List Function × List TopLevel
  | .program _ => Program

/-- Any expression. -/
abbrev Rule.expr : Rule := .within tiers

/-- Names with commas between them. -/
def commas (names : List String) : List Lexeme :=
  (names.map Lexeme.ident).intersperse (.symbol .comma)

/-- By this rule the lexemes, all of them, are the tree. -/
inductive Derives : (rule : Rule) → List Lexeme → rule.Tree → Prop
  | operand {xs : List Lexeme} {e : Expr} :
    Derives .signed xs e → Derives (.within []) xs e
  | tighter {tier : Tier} {tiers : List Tier} {xs : List Lexeme} {e : Expr} :
    Derives (.within tiers) xs e → Derives (.within (tier :: tiers)) xs e
  /-- Operators of one tier group from the left: only the left operand may hold others of
  them. -/
  | joined {tier : Tier} {tiers : List Tier} {xs ys : List Lexeme} {left right : Expr}
      {op : Symbol} {join : Expr → Expr → Expr} :
    (op, join) ∈ tier → Derives (.within (tier :: tiers)) xs left →
      Derives (.within tiers) ys right →
      Derives (.within (tier :: tiers)) (xs ++ .symbol op :: ys) (join left right)
  | plain {xs : List Lexeme} {e : Expr} :
    Derives .primary xs e → Derives .signed xs e
  | sign {xs : List Lexeme} {e : Expr} {symbol : Symbol} {op : UnaryOp} :
    (symbol, op) ∈ signs → Derives .signed xs e →
      Derives .signed (.symbol symbol :: xs) (.unary .zero op e)
  | int (value : Int64) : Derives .primary [.int value] (.int .zero value)
  | fraction (value : Binary64) : Derives .primary [.fraction value] (.fraction .zero value)
  | trueWord : Derives .primary [.keyword .trueWord] (.bool .zero true)
  | falseWord : Derives .primary [.keyword .falseWord] (.bool .zero false)
  | text (raw : String) :
    Derives .primary [.text raw] (.text .zero ((Segment.split 0 raw).map Segment.placeless))
  | command (raw : String) :
    Derives .primary [.command raw]
      (.command .zero ((Segment.split 0 raw).map Segment.placeless))
  | var (name : String) : Derives .primary [.ident name] (.var .zero name)
  /-- Brackets leave no trace in the tree. -/
  | brackets {xs : List Lexeme} {e : Expr} :
    Derives .expr xs e → Derives .primary (.symbol .leftParen :: (xs ++ [.symbol .rightParen])) e
  | bareCall (name : String) :
    Derives .primary [.ident name, .symbol .leftParen, .symbol .rightParen] (.call .zero name [])
  | call (name : String) {xs : List Lexeme} {es : List Expr} :
    Derives .args xs es →
      Derives .primary (.ident name :: .symbol .leftParen :: (xs ++ [.symbol .rightParen]))
        (.call .zero name es)
  | arg {xs : List Lexeme} {e : Expr} : Derives .expr xs e → Derives .args xs [e]
  | argsMore {xs ys : List Lexeme} {e : Expr} {es : List Expr} :
    Derives .expr xs e → Derives .args ys es →
    Derives .args (xs ++ .symbol .comma :: ys) (e :: es)
  | branch {xs ys zs : List Lexeme} {cond : Expr} {body : List Stmt} {chain : ElseChain} :
    Derives .expr xs cond → Derives .block ys body → Derives .otherwise zs chain →
      Derives .stmt
        (.keyword .ifWord :: .symbol .leftParen :: (xs ++ .symbol .rightParen :: (ys ++ zs)))
        (.branch .zero cond body chain)
  | loopOver (var : String) {xs ys : List Lexeme} {e : Expr} {body : List Stmt} :
    Derives .expr xs e → Derives .block ys body →
      Derives .stmt
        (.keyword .forWord :: .symbol .leftParen :: .ident var :: .keyword .inWord ::
          (xs ++ .symbol .rightParen :: ys))
        (.loop .zero var e none body)
  | loopRange (var : String) {xs ys zs : List Lexeme} {lower upper : Expr} {body : List Stmt} :
    Derives .expr xs lower → Derives .expr ys upper → Derives .block zs body →
      Derives .stmt
        (.keyword .forWord :: .symbol .leftParen :: .ident var :: .keyword .inWord ::
          (xs ++ .symbol .range :: (ys ++ .symbol .rightParen :: zs)))
        (.loop .zero var lower (some upper) body)
  | loadName (module : String) :
    Derives .stmt [.keyword .importWord, .ident module, .symbol .semicolon] (.load .zero module)
  | loadText (module : String) :
    Derives .stmt [.keyword .importWord, .text module, .symbol .semicolon] (.load .zero module)
  | ret {xs : List Lexeme} {e : Expr} : Derives .expr xs e →
    Derives .stmt (.keyword .returnWord :: (xs ++ [.symbol .semicolon])) (.ret .zero e)
  | leave : Derives .stmt [.keyword .breakWord, .symbol .semicolon] (.jump .zero .leave)
  | next : Derives .stmt [.keyword .continueWord, .symbol .semicolon] (.jump .zero .next)
  | assign (name : String) {xs : List Lexeme} {e : Expr} : Derives .expr xs e →
    Derives .stmt (.ident name :: .symbol .assign :: (xs ++ [.symbol .semicolon]))
      (.assign .zero name e)
  | expr {xs : List Lexeme} {e : Expr} : Derives .expr xs e →
    Derives .stmt (xs ++ [.symbol .semicolon]) (.expr .zero e)
  | block {xs : List Lexeme} {body : List Stmt} : Derives .stmts xs body →
    Derives .block (.symbol .leftBrace :: (xs ++ [.symbol .rightBrace])) body
  | noStmts : Derives .stmts [] []
  | stmtsMore {xs ys : List Lexeme} {s : Stmt} {ss : List Stmt} :
    Derives .stmt xs s → Derives .stmts ys ss → Derives .stmts (xs ++ ys) (s :: ss)
  | done : Derives .otherwise [] .done
  | elseIf {xs ys zs : List Lexeme} {cond : Expr} {body : List Stmt} {chain : ElseChain} :
    Derives .expr xs cond → Derives .block ys body → Derives .otherwise zs chain →
      Derives .otherwise
        (.keyword .elseWord :: .keyword .ifWord :: .symbol .leftParen ::
          (xs ++ .symbol .rightParen :: (ys ++ zs)))
        (.elseIf cond body chain)
  | final {xs : List Lexeme} {body : List Stmt} : Derives .block xs body →
    Derives .otherwise (.keyword .elseWord :: xs) (.final body)
  | declared : Derives .body [.symbol .semicolon] none
  | defined {xs : List Lexeme} {body : List Stmt} : Derives .block xs body →
    Derives .body xs (some body)
  | function {file : String} (name : String) {params : List String} {xs : List Lexeme}
      {body : Option (List Stmt)} :
    params.Nodup → Derives .body xs body →
      Derives (.function file)
        (.keyword .define :: .ident name :: .symbol .leftParen ::
          (commas params ++ .symbol .rightParen :: xs))
        ⟨name, params.map (⟨·, .zero⟩), body, .zero, file⟩
  | noItems {file : String} : Derives (.items file) [] ([], [])
  | itemFunction {file : String} {xs ys : List Lexeme} {f : Function} {fs : List Function}
      {ss : List TopLevel} :
    Derives (.function file) xs f → Derives (.items file) ys (fs, ss) →
      Derives (.items file) (xs ++ ys) (f :: fs, ss)
  | itemStmt {file : String} {xs ys : List Lexeme} {s : Stmt} {fs : List Function}
      {ss : List TopLevel} :
    Derives .stmt xs s → Derives (.items file) ys (fs, ss) →
      Derives (.items file) (xs ++ ys) (fs, ⟨s, file⟩ :: ss)
  | program {file : String} {xs : List Lexeme} {fs : List Function} {ss : List TopLevel} :
    Derives (.items file) xs (fs, ss) → Derives (.program file) xs ⟨fs, ss, .zero, [], file⟩

/-! ## What a sequence begins with -/

/-- An expression without signs and operators can begin with the lexeme. -/
def beginsPrimary : Lexeme → Bool
  | .int _ | .fraction _ | .text _ | .command _ | .ident _ => true
  | .keyword .trueWord | .keyword .falseWord | .symbol .leftParen => true
  | _ => false

/-- An expression can begin with the lexeme. -/
def beginsExpr : Lexeme → Bool
  | .symbol .minus | .symbol .bang => true
  | x => beginsPrimary x

theorem beginsExpr_of_beginsPrimary {x : Lexeme} (h : beginsPrimary x = true) :
    beginsExpr x = true := by
  cases x with
  | symbol symbol => cases symbol <;> first | rfl | cases h
  | _ => exact h

/-- A statement can begin with the lexeme. -/
def beginsStmt : Lexeme → Bool
  | .keyword .ifWord | .keyword .forWord | .keyword .importWord => true
  | .keyword .returnWord | .keyword .breakWord | .keyword .continueWord => true
  | x => beginsExpr x

theorem beginsStmt_of_beginsExpr {x : Lexeme} (h : beginsExpr x = true) :
    beginsStmt x = true := by
  cases x with
  | keyword word => cases word <;> first | rfl | cases h
  | _ => exact h

/-- What is known of the first lexeme by a rule; the rules that may derive nothing say
nothing. -/
def Rule.begins : Rule → Lexeme → Bool
  | .within _ | .signed | .args => beginsExpr
  | .primary => beginsPrimary
  | .stmt => beginsStmt
  | .block => (· = .symbol .leftBrace)
  | .function _ => (· = .keyword .define)
  | _ => fun _ => true

/-- The rules of which every sequence has a first lexeme. -/
def Rule.nonempty : Rule → Bool
  | .stmts | .otherwise | .items _ | .program _ => false
  | _ => true

theorem Derives.begins {rule : Rule} {xs : List Lexeme} {tree : rule.Tree}
    (h : Derives rule xs tree) (nonempty : rule.nonempty = true) :
    ∃ x rest, xs = x :: rest ∧ rule.begins x = true := by
  induction h with
  | operand _ ih | tighter _ ih | arg _ ih => exact ih rfl
  | plain _ ih =>
    obtain ⟨x, rest, rfl, begins⟩ := ih rfl
    exact ⟨x, rest, rfl, beginsExpr_of_beginsPrimary begins⟩
  | defined _ ih =>
    obtain ⟨x, rest, rfl, _⟩ := ih rfl
    exact ⟨x, rest, rfl, rfl⟩
  | joined _ _ _ ih _ =>
    obtain ⟨x, rest, rfl, begins⟩ := ih rfl
    exact ⟨x, _, rfl, begins⟩
  | argsMore _ _ ih _ =>
    obtain ⟨x, rest, rfl, begins⟩ := ih rfl
    exact ⟨x, _, rfl, begins⟩
  | expr _ ih =>
    obtain ⟨x, rest, rfl, begins⟩ := ih rfl
    exact ⟨x, _, rfl, beginsStmt_of_beginsExpr begins⟩
  | sign mem _ _ =>
    simp only [signs, List.mem_cons, List.not_mem_nil, Prod.mk.injEq, or_false] at mem
    rcases mem with ⟨rfl, rfl⟩ | ⟨rfl, rfl⟩
    · exact ⟨_, _, rfl, rfl⟩
    · exact ⟨_, _, rfl, rfl⟩
  | noStmts | stmtsMore | done | elseIf | final | noItems | itemFunction | itemStmt | program =>
    cases nonempty
  | _ => exact ⟨_, _, rfl, rfl⟩

/-- No sequence of statements begins with an `else`. -/
theorem Derives.stmts_no_else {xs : List Lexeme} {ss : List Stmt} (h : Derives .stmts xs ss) :
    xs.head? ≠ some (.keyword .elseWord) := by
  cases h with
  | noStmts => nofun
  | stmtsMore first _ =>
    obtain ⟨x, rest, rfl, begins⟩ := first.begins rfl
    rintro ⟨⟩
    cases begins

/-- No sequence of functions and statements begins with an `else`. -/
theorem Derives.items_no_else {file : String} {xs : List Lexeme}
    {items : List Function × List TopLevel} (h : Derives (.items file) xs items) :
    xs.head? ≠ some (.keyword .elseWord) := by
  cases h with
  | noItems => nofun
  | itemFunction first _ =>
    obtain ⟨x, rest, rfl, begins⟩ := first.begins rfl
    rintro ⟨⟩
    cases begins
  | itemStmt first _ =>
    obtain ⟨x, rest, rfl, begins⟩ := first.begins rfl
    rintro ⟨⟩
    cases begins

/-- The rules for expressions whose operators between two operands are no assignment signs. -/
def Rule.assignless : Rule → Bool
  | .within tiers => tiers.all fun tier => tier.all fun (op, _) => op ≠ .assign
  | .signed | .primary | .args => true
  | _ => false

/-- No expression holds an assignment sign. -/
theorem Derives.no_assign {rule : Rule} {xs : List Lexeme} {tree : rule.Tree}
    (h : Derives rule xs tree) (assignless : rule.assignless = true) : .symbol .assign ∉ xs := by
  induction h with
  | operand _ ih | plain _ ih | arg _ ih => exact ih rfl
  | tighter _ ih =>
    simp only [Rule.assignless, List.all_cons, Bool.and_eq_true] at assignless
    exact ih assignless.2
  | joined mem _ _ ihLeft ihRight =>
    have both := assignless
    simp only [Rule.assignless, List.all_cons, Bool.and_eq_true, List.all_eq_true] at both
    have other := of_decide_eq_true (both.1 _ mem)
    intro inside
    rcases List.mem_append.mp inside with left | right
    · exact ihLeft assignless left
    · rcases List.mem_cons.mp right with same | right
      · cases same
        exact other rfl
      · exact ihRight (List.all_eq_true.mpr fun t ht => List.all_eq_true.mpr (both.2 t ht)) right
  | sign mem _ ih =>
    simp only [signs, List.mem_cons, List.not_mem_nil, Prod.mk.injEq, or_false] at mem
    rcases mem with ⟨rfl, rfl⟩ | ⟨rfl, rfl⟩
    · simpa using ih rfl
    · simpa using ih rfl
  | brackets _ ih | call _ _ ih => simpa using ih rfl
  | argsMore _ _ ihFirst ihRest =>
    have first := ihFirst rfl
    have rest := ihRest rfl
    simp [first, rest]
  | int | fraction | trueWord | falseWord | text | command | var | bareCall => simp
  | _ => cases assignless

end Shellwright.Surface
