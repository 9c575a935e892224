import Mathlib.Data.List.Forall2
import Shellwright.Proofs.Places

/-!
# Scripts as commands

A script is one text, but it is put together from commands, which stand in blocks. Here what is
commanded and how it is laid out are apart. Words and command lines stay texts: a command line is
what the program itself spells out for the shell.

* `Command`, `Command.text`: what a block is made of, and its lines.
* `Yields`, `Module.Yields`: the commands of a resolved program.
* `generate_yields`: a script is the text of its program's commands.
-/

namespace Shellwright.Script

open Shellwright.Core

/-! ## Commands and their texts -/

mutual

/-- A command of a script. -/
inductive Command where
  /-- A variable of the function at hand gets a value. -/
  | declare (name value : String)
  /-- The nearest variable of that name gets a value, whoever it belongs to. -/
  | assign (name value : String)
  | branch (test : String) (body : List Command) (otherwise : Otherwise)
  /-- The nearest variable of that name gets each of the items in turn. -/
  | loop (name items : String) (body : List Command)
  | answer (word : String)
  | jump (jump : Jump)
  /-- A command line. -/
  | run (line : String)
  /-- Nothing, in a block that has no other command. -/
  | idle

/-- What follows the first branch of a conditional. -/
inductive Otherwise where
  | done
  | elseIf (test : String) (body : List Command) (otherwise : Otherwise)
  | final (body : List Command)

end

/-- The blanks before a line. -/
def marginAt (indent : Nat) : String := String.ofList (List.replicate (4 * indent) ' ')

/-- What ends a command. -/
def Command.ending : Command → String
  | .idle => "\n"
  | _ => ";\n"

mutual

/-- The text of a command, between the margin of its first line and what ends it. -/
def Command.text (indent : Nat) : Command → String
  | .declare name value => "local " ++ name ++ "=" ++ value
  | .assign name value => name ++ "=" ++ value
  | .branch test body otherwise =>
    "if [[ " ++ test ++ " ]]; then\n" ++ commandsText (indent + 1) body ++ otherwise.text indent
      ++ marginAt indent ++ "fi"
  | .loop name items body =>
    "for " ++ name ++ " in " ++ items ++ "; do\n" ++ commandsText (indent + 1) body
      ++ marginAt indent ++ "done"
  | .answer word => "echo " ++ word ++ "; exit"
  | .jump jump => jump.word
  | .run line => line
  | .idle => ": # Empty function"

/-- The lines of a block. -/
def commandsText (indent : Nat) : List Command → String
  | [] => ""
  | c :: rest => marginAt indent ++ c.text indent ++ c.ending ++ commandsText indent rest

/-- The text of the branches after the first one. -/
def Otherwise.text (indent : Nat) : Otherwise → String
  | .done => ""
  | .elseIf test body otherwise =>
    marginAt indent ++ "elif [[ " ++ test ++ " ]]; then\n" ++ commandsText (indent + 1) body
      ++ otherwise.text indent
  | .final body => marginAt indent ++ "else\n" ++ commandsText (indent + 1) body

end

/-- A function of a script. -/
structure Routine where
  name : String
  body : List Command

def Routine.text (r : Routine) : String :=
  "function " ++ r.name ++ " () \x7b\n" ++ commandsText 1 r.body ++ "\x7d\n\n"

/-- A script after its first line: functions, and then what is run. -/
structure Listing where
  routines : List Routine
  commands : List Command

def routinesText : List Routine → String
  | [] => ""
  | r :: rest => r.text ++ routinesText rest

def Listing.text (l : Listing) : String := routinesText l.routines ++ commandsText 0 l.commands

mutual

/-- A command and all inside it. -/
def Command.within : Command → List Command
  | .declare name value => [.declare name value]
  | .assign name value => [.assign name value]
  | .branch test body otherwise =>
    .branch test body otherwise :: (commandsWithin body ++ otherwise.within)
  | .loop name items body => .loop name items body :: commandsWithin body
  | .answer word => [.answer word]
  | .jump jump => [.jump jump]
  | .run line => [.run line]
  | .idle => [.idle]

def commandsWithin : List Command → List Command
  | [] => []
  | c :: rest => c.within ++ commandsWithin rest

def Otherwise.within : Otherwise → List Command
  | .done => []
  | .elseIf _ body otherwise => commandsWithin body ++ otherwise.within
  | .final body => commandsWithin body

end

def Otherwise.blocks : Otherwise → List (List Command)
  | .done => []
  | .elseIf _ body otherwise => body :: otherwise.blocks
  | .final body => [body]

/-- The blocks that a command chooses from. -/
def Command.blocks : Command → List (List Command)
  | .branch _ body otherwise => body :: otherwise.blocks
  | .loop _ _ body => [body]
  | _ => []

theorem commandsWithin_append (xs ys : List Command) :
    commandsWithin (xs ++ ys) = commandsWithin xs ++ commandsWithin ys := by
  induction xs with
  | nil => simp [commandsWithin]
  | cons c xs ih => simp [commandsWithin, ih, List.append_assoc]

/-- The commands in the branches after the first one are those of their blocks. -/
theorem Otherwise.within_eq : ∀ o : Otherwise, o.within = o.blocks.flatMap commandsWithin
  | .done => rfl
  | .elseIf _ body otherwise => by
    rw [Otherwise.within, Otherwise.blocks, List.flatMap_cons, otherwise.within_eq]
  | .final body => by
    simp [Otherwise.within, Otherwise.blocks]

/-- The commands in a command are itself and those of its blocks. -/
theorem Command.within_eq (c : Command) : c.within = c :: c.blocks.flatMap commandsWithin := by
  cases c with
  | branch test body otherwise =>
    rw [Command.within, Command.blocks, List.flatMap_cons, otherwise.within_eq]
  | loop name items body => simp [Command.within, Command.blocks]
  | _ => simp [Command.within, Command.blocks]

theorem commandsText_append (indent : Nat) (xs ys : List Command) :
    commandsText indent (xs ++ ys) = commandsText indent xs ++ commandsText indent ys := by
  induction xs with
  | nil => simp [commandsText]
  | cons c xs ih => simp [commandsText, ih, String.append_assoc]

/-! ## The commands of a program -/

/-- The mode in which a value is written that a command works on. -/
def valueMode : Mode := { Mode.initial with substitute := true }

/-- A block is never without commands. -/
def orIdle (cs : List Command) : List Command := if cs.isEmpty then [.idle] else cs

/-- A block has its commands, or one that does nothing if there are none. -/
theorem mem_orIdle {c : Command} {cs : List Command} :
    c ∈ orIdle cs ↔ c ∈ cs ∨ cs = [] ∧ c = .idle := by
  cases cs <;> simp [orIdle]

/-- An assignment, which declares its variable unless that is global. -/
def Command.assigning (v : Variable) (value : String) : Command :=
  if v.isGlobal then .assign v.name value else .declare v.name value

end Shellwright.Script

namespace Shellwright.Core

open Shellwright.Script

/-- What the kinds of syntax become in a script. -/
abbrev Part.Shell : Part → Type
  | .stmt => Command
  | .stmts => List Command
  | .chain => Otherwise

/-- The commands of a part of a body. Imports have none. -/
inductive Yields : (part : Part) → part.Tree → part.Shell → Prop
  | assign {v : Variable} {e : Expr} {value : String} :
    exprText valueMode e = .ok value → Yields .stmt (.assign v e) (.assigning v value)
  | branch {cond : Expr} {body : List Stmt} {chain : ElseChain} {test : String}
      {cs : List Command} {o : Otherwise} :
    conditionText .initial cond = .ok test → Yields .stmts body cs → Yields .chain chain o →
      Yields .stmt (.branch cond body chain) (.branch test (orIdle cs) o)
  | loop {v : Variable} {lower : Expr} {upper : Option Expr} {body : List Stmt} {items : String}
      {cs : List Command} :
    boundsText .initial lower upper = .ok items → Yields .stmts body cs →
      Yields .stmt (.loop v lower upper body) (.loop v.name items (orIdle cs))
  | ret {e : Expr} {word : String} : exprText valueMode e = .ok word →
    Yields .stmt (.ret e) (.answer (returnMark e ++ word ++ returnMark e))
  | jump {jump : Jump} : Yields .stmt (.jump jump) (.jump jump)
  | expr {e : Expr} {line : String} : effectText .initial e = .ok line →
    Yields .stmt (.expr e) (.run line)
  | nil : Yields .stmts [] []
  | load {module : String} {rest : List Stmt} {cs : List Command} :
    Yields .stmts rest cs → Yields .stmts (.load module :: rest) cs
  | cons {stmt : Stmt} {rest : List Stmt} {c : Command} {cs : List Command} :
    Yields .stmt stmt c → Yields .stmts rest cs → Yields .stmts (stmt :: rest) (c :: cs)
  | done : Yields .chain .done .done
  | elseIf {cond : Expr} {body : List Stmt} {chain : ElseChain} {test : String}
      {cs : List Command} {o : Otherwise} :
    conditionText .initial cond = .ok test → Yields .stmts body cs → Yields .chain chain o →
      Yields .chain (.elseIf cond body chain) (.elseIf test (orIdle cs) o)
  | final {body : List Stmt} {cs : List Command} :
    Yields .stmts body cs → Yields .chain (.final body) (.final (orIdle cs))

/-- The parameters of a function take their values from the positions of a call, counted from
`i`. -/
def paramCommands (i : Nat) : List String → List Command
  | [] => []
  | name :: rest => .declare name ("\"$" ++ toString i ++ "\"") :: paramCommands (i + 1) rest

/-- The lines for parameters declare them. -/
theorem eq_declare_of_mem_paramCommands {names : List String} {i : Nat} {c : Command}
    (mem : c ∈ paramCommands i names) : ∃ name value, c = .declare name value := by
  induction names generalizing i with
  | nil => cases mem
  | cons name rest ih =>
    rcases List.mem_cons.mp mem with rfl | mem
    · exact ⟨_, _, rfl⟩
    · exact ih mem

/-- Each parameter has a line that declares it. -/
theorem exists_mem_paramCommands {names : List String} {name : String} (mem : name ∈ names)
    (i : Nat) :
    ∃ value, .declare name value ∈ paramCommands i names := by
  induction names generalizing i with
  | nil => cases mem
  | cons first rest ih =>
    rcases List.mem_cons.mp mem with rfl | mem
    · exact ⟨_, .head _⟩
    · obtain ⟨value, there⟩ := ih mem (i + 1)
      exact ⟨value, .tail _ there⟩

/-- A function of a script begins with its parameters. -/
def Function.Yields (f : Function) (r : Routine) : Prop :=
  ∃ body cs, f.body = some body ∧ Core.Yields .stmts body cs ∧
    r = ⟨f.name, paramCommands 1 (f.params.map (·.name)) ++ orIdle cs⟩

/-- The value of a global variable is assigned. -/
def Assignment.Yields (a : Assignment) (c : Command) : Prop :=
  ∃ value, exprText valueMode a.value = .ok value ∧ c = .assigning a.var value

/-- The commands of a program: its functions that have a body, the values of its global
variables, and the call of its entry function unless it is a library. -/
structure Module.Yields (library : Bool) (module : Module) (l : Listing) : Prop where
  routines : List.Forall₂ Function.Yields (module.functions.filter (·.body.isSome)) l.routines
  commands : ∃ values, List.Forall₂ Assignment.Yields module.globals values ∧
    l.commands = values ++ if library then [] else module.main.toList.map .run

/-- What holds of a function and its commands holds all along a script. -/
theorem Module.Yields.forall_routines {library : Bool} {module : Module} {l : Listing}
    (h : module.Yields library l) {R : Function → Routine → Prop}
    (all : ∀ f ∈ module.functions, ∀ r, f.Yields r → R f r) :
    List.Forall₂ R (module.functions.filter (·.body.isSome)) l.routines := by
  have known : ∀ f ∈ module.functions.filter (·.body.isSome), f ∈ module.functions :=
    fun f => List.mem_of_mem_filter
  refine ((List.forall₂_and_left _ _).mpr ⟨known, h.routines⟩).imp ?_
  rintro f r ⟨mem, yields⟩
  exact all f mem r yields

/-- Each function with a body has a routine. -/
theorem exists_routine {fs : List Function} {rs : List Routine} {R : Function → Routine → Prop}
    (h : List.Forall₂ R (fs.filter (·.body.isSome)) rs) {f : Function} (mem : f ∈ fs)
    (isSome : f.body.isSome = true) : ∃ r ∈ rs, R f r := by
  have defined : f ∈ fs.filter (·.body.isSome) := List.mem_filter.mpr ⟨mem, isSome⟩
  generalize fs.filter (·.body.isSome) = defs at defined h
  induction h with
  | nil => cases defined
  | cons first _ ih =>
    rcases List.mem_cons.mp defined with rfl | defined
    · exact ⟨_, .head _, first⟩
    · obtain ⟨r, mem, holds⟩ := ih defined
      exact ⟨r, .tail _ mem, holds⟩

/-! ## Texts of expressions do not depend on the layout -/

mutual

/-- The text of an expression does not depend on braces and margins. -/
theorem exprText_layout (b : Bool) (i : Nat) : ∀ (e : Expr) (m : Mode),
    exprText { m with braces := b, indent := i } e = exprText m e
  | .int _ _, m | .fraction _ _, m | .bool _ _, m => by simp only [exprText]
  | .text _ segments, m | .command _ segments, m => by
    have same : segmentsText { m with quote := false, braces := b, indent := i } segments =
        segmentsText { m with quote := false } segments := by
      apply segmentsText_of_quote
      rfl
    simp only [exprText, same, substitutionOpen, substitutionClose]
  | .var _ v, m => by simp only [exprText, variableText]
  | .binary _ op left right, m => by
    simp only [exprText, binaryOpen, binaryClose]
    rw [exprText_layout b i left { m with decide := _, quote := _ },
      exprText_layout b i right { m with decide := _, quote := _ }]
  | .unary _ .negate operand, m => by
    simp only [exprText]
    rw [exprText_layout b i operand m,
      exprText_layout b i operand { m with quote := false, substitute := true }]
  | .unary _ .not operand, m => by
    simp only [exprText]
    rw [exprText_layout b i operand { m with decide := false }]
  | .call _ name args, m => by
    simp only [exprText, substitutionOpen, substitutionClose]
    rw [argsText_layout b i args { m with substitute := true }]
  | .stream _ op left right, m => by
    simp only [exprText]
    rw [exprText_layout b i left { m with substitute := false },
      exprText_layout b i right { m with substitute := false }]

theorem argsText_layout (b : Bool) (i : Nat) : ∀ (args : List Expr) (m : Mode),
    argsText { m with braces := b, indent := i } args = argsText m args
  | [], m => by simp only [argsText]
  | arg :: rest, m => by
    simp only [argsText, argMark]
    rw [exprText_layout b i arg m, argsText_layout b i rest m]

end

section

variable {m : Mode}

theorem isLineMode.exprText_eq (line : isLineMode m) (e : Expr) :
    exprText { m with substitute := true } e = exprText valueMode e := by
  obtain ⟨quote, substitute, decide, braces, indent⟩ := m
  obtain ⟨rfl, rfl, rfl⟩ := line
  exact exprText_layout braces indent e valueMode

/-- In a line a condition is written as in any other one. -/
theorem isLineMode.conditionText_eq (line : isLineMode m) (cond : Expr) :
    conditionText m cond = conditionText .initial cond := by
  obtain ⟨quote, substitute, decide, braces, indent⟩ := m
  obtain ⟨rfl, rfl, rfl⟩ := line
  have same := exprText_layout braces indent cond (conditionMode .initial cond)
  rw [conditionText, conditionText, ← same]
  rfl

theorem isLineMode.boundsText_eq (line : isLineMode m) (lower : Expr) (upper : Option Expr) :
    boundsText m lower upper = boundsText .initial lower upper := by
  obtain ⟨quote, substitute, decide, braces, indent⟩ := m
  obtain ⟨rfl, rfl, rfl⟩ := line
  cases upper with
  | none => exact exprText_layout braces indent lower { valueMode with quote := false }
  | some upper =>
    have first := exprText_layout braces indent lower valueMode
    have second := exprText_layout braces indent upper valueMode
    rw [boundsText, boundsText]
    exact congr (congrArg _ first) (funext fun _ => congrFun (congrArg _ second) _)

theorem isLineMode.effectText_eq (line : isLineMode m) (e : Expr) :
    effectText m e = effectText .initial e := by
  obtain ⟨quote, substitute, decide, braces, indent⟩ := m
  obtain ⟨rfl, rfl, rfl⟩ := line
  cases e with
  | stream ty op left right =>
    have first := exprText_layout braces indent left .initial
    have second := exprText_layout braces indent right .initial
    rw [effectText, effectText]
    refine congrArg _ (funext fun word => ?_)
    exact congr (congrArg _ first) (funext fun _ => congrFun (congrArg _ second) _)
  | _ => exact exprText_layout braces indent _ .initial

end

/-! ## Texts of statements are texts of commands -/

/-- A statement other than an import has a line. -/
theorem stmtsText_cons {stmt : Stmt} (some : stmt.isLoad = false) (m : Mode) (rest : List Stmt) :
    stmtsText m (stmt :: rest) = do
      let text ← stmtText m stmt
      let others ← stmtsText m rest
      return m.margin ++ text ++ ";\n" ++ others := by
  cases stmt with
  | load module => cases some
  | _ => simp only [stmtsText]

/-- What becomes a command is no import. -/
theorem Yields.isLoad_eq {stmt : Stmt} {c : Command} (h : Yields .stmt stmt c) :
    stmt.isLoad = false := by
  cases h <;> rfl

/-- Only the command that does nothing ends otherwise, and no statement has it. -/
theorem Yields.ending_eq {stmt : Stmt} {c : Command} (h : Yields .stmt stmt c) :
    c.ending = ";\n" := by
  cases h with
  | assign =>
    unfold Command.assigning
    split <;> rfl
  | _ => rfl

/-- A block of imports only has no commands, and gets one that does nothing. -/
theorem Yields.isEmpty_eq {stmts : List Stmt} {cs : List Command} (h : Yields .stmts stmts cs) :
    cs.isEmpty = stmts.all Stmt.isLoad := by
  induction stmts with
  | nil =>
    cases h
    rfl
  | cons stmt rest ih =>
    cases h with
    | load others => exact ih others
    | cons first others => simp [first.isLoad_eq]

/-- The text of a block has the line of an empty block where it has no other. -/
theorem Yields.commandsText_orIdle {stmts : List Stmt} {cs : List Command}
    (h : Yields .stmts stmts cs) (m : Mode) :
    commandsText m.indent cs ++ placeholder m stmts = commandsText m.indent (orIdle cs) := by
  rw [placeholder, orIdle, ← h.isEmpty_eq]
  cases cs with
  | nil =>
    simp [commandsText, Command.text, Command.ending, Mode.margin, marginAt, String.append_assoc]
  | cons c cs => simp

/-- The text of a block without braces. -/
theorem Yields.blockText_eq {stmts : List Stmt} {cs : List Command} (h : Yields .stmts stmts cs)
    {m : Mode} (bare : m.braces = false) :
    blockText m [] stmts (commandsText (m.indent + 1) cs) =
      commandsText (m.indent + 1) (orIdle cs) := by
  have lines := h.commandsText_orIdle (Change.deeper.apply m)
  rw [blockText, blockOpen, blockClose, bare]
  simpa [paramLines, Change.apply] using lines

mutual

/-- What is written for a statement is the text of its command. -/
theorem stmtText_yields : ∀ {stmt : Stmt} {m : Mode} {t : String}, isLineMode m →
    stmt.isLoad = false → stmtText m stmt = .ok t →
    ∃ c, Yields .stmt stmt c ∧ t = c.text m.indent
  | .assign v value, m, t, line, _, h => by
    rw [stmtText, assignText, line.exprText_eq] at h
    obtain ⟨text, isValue, h⟩ := bind_eq_ok.mp h
    cases h
    refine ⟨_, .assign isValue, ?_⟩
    unfold Command.assigning assignOpen
    split <;> simp [Command.text, String.append_assoc]
  | .branch cond body otherwise, m, t, line, _, h => by
    rw [stmtText, line.conditionText_eq] at h
    obtain ⟨test, isTest, h⟩ := bind_eq_ok.mp h
    obtain ⟨lines, areLines, h⟩ := bind_eq_ok.mp h
    obtain ⟨rest, isRest, h⟩ := bind_eq_ok.mp h
    cases h
    obtain ⟨cs, commands, rfl⟩ := stmtsText_yields line.unbraced.deeper areLines
    obtain ⟨o, others, rfl⟩ := elseText_yields line.unbraced rfl isRest
    refine ⟨_, .branch isTest commands others, ?_⟩
    have block := commands.blockText_eq (m := { m with braces := false }) rfl
    rw [Command.text, ← block]
    simp only [String.append_assoc]
    rfl
  | .loop v lower upper body, m, t, line, _, h => by
    rw [stmtText, line.boundsText_eq] at h
    obtain ⟨items, areItems, h⟩ := bind_eq_ok.mp h
    obtain ⟨lines, areLines, h⟩ := bind_eq_ok.mp h
    cases h
    obtain ⟨cs, commands, rfl⟩ := stmtsText_yields line.unbraced.deeper areLines
    refine ⟨_, .loop areItems commands, ?_⟩
    have block := commands.blockText_eq (m := { m with braces := false }) rfl
    rw [Command.text, ← block]
    simp only [String.append_assoc]
    rfl
  | .ret value, m, t, line, _, h => by
    rw [stmtText, returnText, line.exprText_eq] at h
    obtain ⟨word, isWord, h⟩ := bind_eq_ok.mp h
    cases h
    exact ⟨_, .ret isWord, by simp [Command.text, String.append_assoc]⟩
  | .jump jump, m, t, _, _, h => by
    rw [stmtText] at h
    cases h
    exact ⟨_, .jump, by rw [Command.text]⟩
  | .expr e, m, t, line, _, h => by
    rw [stmtText, line.effectText_eq] at h
    exact ⟨_, .expr h, by rw [Command.text]⟩

/-- The text of statements is that of commands, one for each statement that is no import. -/
theorem stmtsText_yields : ∀ {stmts : List Stmt} {m : Mode} {t : String}, isLineMode m →
    stmtsText m stmts = .ok t → ∃ cs, Yields .stmts stmts cs ∧ t = commandsText m.indent cs
  | [], m, t, _, h => by
    rw [stmtsText] at h
    cases h
    exact ⟨[], .nil, by rw [commandsText]⟩
  | stmt :: rest, m, t, line, h => by
    -- both are named here, before the cases on the statement hide that they are smaller
    have first := @stmtText_yields stmt m
    have more := @stmtsText_yields rest m
    cases isLoad : stmt.isLoad with
    | true =>
      cases stmt with
      | load module =>
        rw [stmtsText] at h
        obtain ⟨cs, others, rfl⟩ := more line h
        exact ⟨cs, .load others, rfl⟩
      | _ => cases isLoad
    | false =>
      rw [stmtsText_cons isLoad] at h
      obtain ⟨text, isText, h⟩ := bind_eq_ok.mp h
      obtain ⟨lines, areLines, h⟩ := bind_eq_ok.mp h
      cases h
      obtain ⟨c, one, rfl⟩ := first line isLoad isText
      obtain ⟨cs, others, rfl⟩ := more line areLines
      refine ⟨c :: cs, .cons one others, ?_⟩
      rw [commandsText, one.ending_eq]
      rfl

/-- The text of the branches after the first one is that of their commands. -/
theorem elseText_yields : ∀ {chain : ElseChain} {m : Mode} {t : String}, isLineMode m →
    m.braces = false → elseText m chain = .ok t →
    ∃ o, Yields .chain chain o ∧ t = o.text m.indent
  | .done, m, t, _, _, h => by
    rw [elseText] at h
    cases h
    exact ⟨_, .done, by rw [Otherwise.text]⟩
  | .elseIf cond body otherwise, m, t, line, bare, h => by
    rw [elseText, line.conditionText_eq] at h
    obtain ⟨test, isTest, h⟩ := bind_eq_ok.mp h
    obtain ⟨lines, areLines, h⟩ := bind_eq_ok.mp h
    obtain ⟨rest, isRest, h⟩ := bind_eq_ok.mp h
    cases h
    obtain ⟨cs, commands, rfl⟩ := stmtsText_yields line.deeper areLines
    obtain ⟨o, others, rfl⟩ := elseText_yields line bare isRest
    refine ⟨_, .elseIf isTest commands others, ?_⟩
    rw [Otherwise.text, ← commands.blockText_eq bare]
    rfl
  | .final body, m, t, line, bare, h => by
    rw [elseText] at h
    obtain ⟨lines, areLines, h⟩ := bind_eq_ok.mp h
    cases h
    obtain ⟨cs, commands, rfl⟩ := stmtsText_yields line.deeper areLines
    refine ⟨_, .final commands, ?_⟩
    rw [Otherwise.text, ← commands.blockText_eq bare]
    rfl

end

/-! ## Scripts -/

/-- The lines for parameters are commands, too. -/
theorem paramLines_eq (m : Mode) (i : Nat) (names : List String) :
    paramLines m i names = commandsText m.indent (paramCommands i names) := by
  induction names generalizing i with
  | nil => rw [paramLines, paramCommands, commandsText]
  | cons name rest ih =>
    have mark : "=\"$" = "=" ++ "\"$" := rfl
    have close : "\";\n" = "\"" ++ ";\n" := rfl
    rw [paramLines, paramCommands, commandsText, ih, mark, close]
    simp only [Command.text, Command.ending, String.append_assoc]
    rfl

/-- The text of a function with a body is that of a routine. -/
theorem functionText_yields {f : Function} {t : String} (h : functionText .initial f = .ok t)
    (isSome : f.body.isSome = true) : ∃ r, f.Yields r ∧ t = r.text := by
  obtain ⟨body, isBody⟩ := Option.isSome_iff_exists.mp isSome
  rw [functionText, isBody] at h
  obtain ⟨lines, areLines, h⟩ := bind_eq_ok.mp h
  cases h
  have line : isLineMode .initial := ⟨rfl, rfl, rfl⟩
  obtain ⟨cs, commands, rfl⟩ := stmtsText_yields line.deeper areLines
  refine ⟨_, ⟨body, cs, isBody, commands, rfl⟩, ?_⟩
  have inside : commandsText 1 cs ++ placeholder (Change.deeper.apply .initial) body =
      commandsText 1 (orIdle cs) := commands.commandsText_orIdle (Change.deeper.apply .initial)
  have params := paramLines_eq (Change.deeper.apply .initial) 1 (f.params.map (·.name))
  have opens : " () \x7b\n" = " () " ++ "\x7b\n" := rfl
  rw [Routine.text, commandsText_append, ← inside, opens, blockText, params]
  simp only [String.append_assoc]
  rfl

/-- The text of functions is that of the routines of those with a body. -/
theorem functionsText_yields {fs : List Function} {t : String}
    (h : functionsText .initial fs = .ok t) :
    ∃ rs, List.Forall₂ Function.Yields (fs.filter (·.body.isSome)) rs ∧ t = routinesText rs := by
  induction fs generalizing t with
  | nil =>
    cases h
    exact ⟨[], .nil, rfl⟩
  | cons f fs ih =>
    obtain ⟨text, isText, h⟩ := bind_eq_ok.mp h
    obtain ⟨others, areOthers, h⟩ := bind_eq_ok.mp h
    cases h
    obtain ⟨rs, routines, rfl⟩ := ih areOthers
    cases body : f.body with
    | some stmts =>
      obtain ⟨r, first, rfl⟩ := functionText_yields isText (by rw [body]; rfl)
      exact ⟨r :: rs, by simpa [body] using ⟨first, routines⟩, rfl⟩
    | none =>
      rw [functionText, body] at isText
      cases isText
      exact ⟨rs, by simpa [body] using routines, String.empty_append⟩

/-- The values of global variables are given by commands. -/
theorem globalsText_yields {as : List Assignment} {t : String}
    (h : globalsText .initial as = .ok t) :
    ∃ cs, List.Forall₂ Assignment.Yields as cs ∧ t = commandsText 0 cs := by
  induction as generalizing t with
  | nil =>
    cases h
    exact ⟨[], .nil, by rw [commandsText]⟩
  | cons a as ih =>
    obtain ⟨text, isText, h⟩ := bind_eq_ok.mp h
    obtain ⟨others, areOthers, h⟩ := bind_eq_ok.mp h
    cases h
    obtain ⟨cs, commands, rfl⟩ := ih areOthers
    have line : isLineMode .initial := ⟨rfl, rfl, rfl⟩
    have isStmt : stmtText .initial (.assign a.var a.value) = .ok text := by rwa [stmtText]
    obtain ⟨c, first, rfl⟩ := stmtText_yields line rfl isStmt
    have ends := first.ending_eq
    cases first with
    | assign isValue =>
      refine ⟨_ :: cs, .cons ⟨_, isValue, rfl⟩ commands, ?_⟩
      rw [commandsText, ends]
      simp only [String.append_assoc]
      rfl

/-- An executable ends with the call of its entry function, and a library with nothing. -/
theorem entryCall_yields {library : Bool} {module : Module} {t : String}
    (h : entryCall library module = .ok t) :
    t = commandsText 0 (if library then [] else module.main.toList.map .run) := by
  cases library with
  | true =>
    cases h
    simp [commandsText]
  | false =>
    rw [entryCall, if_neg (by decide)] at h
    split at h
    · cases h
    case h_2 main isMain =>
      split at h
      · cases h
        simp [isMain, commandsText, Command.text, Command.ending, marginAt]
      · cases h

/-- A script is the text of the commands of its program, after a first line. -/
theorem generate_yields {target : Target} {library : Bool} {module : Module} {script : String}
    (h : generate target library module = .ok script) :
    ∃ l, module.Yields library l ∧ script = target.shebang ++ "\n" ++ l.text := by
  obtain ⟨t, text, rfl⟩ := generate_eq_ok h
  obtain ⟨functions, areFunctions, text⟩ := bind_eq_ok.mp text
  obtain ⟨globals, areGlobals, text⟩ := bind_eq_ok.mp text
  obtain ⟨entry, isEntry, text⟩ := bind_eq_ok.mp text
  cases text
  obtain ⟨rs, routines, rfl⟩ := functionsText_yields areFunctions
  obtain ⟨cs, commands, rfl⟩ := globalsText_yields areGlobals
  refine ⟨⟨rs, cs ++ if library then [] else module.main.toList.map .run⟩,
    ⟨routines, cs, commands, rfl⟩, ?_⟩
  rw [Listing.text, commandsText_append, ← entryCall_yields isEntry]
  simp only [String.append_assoc]

end Shellwright.Core
