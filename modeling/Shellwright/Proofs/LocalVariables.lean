import Mathlib.Logic.Relation
import Shellwright.Proofs.Commands
import Shellwright.Proofs.Mentions

/-!
# Local variables in the shell

In the shell a function sees the variables of its callers, and a variable is its own only once it
is declared there. Parameters and assignments declare the local variables that they set. A loop
does not: it sets the nearest variable of that name.

* `Write`, `Yields.writes_eq`: how the commands of a body set the variables that
  it gives values to.
* `Visible`, `ShellStep`, `ShellRun`: what commands do to the variables of a function
  and of its callers.
* `ShellRun.outer_eq`: a variable of a caller stays, unless commands set it while
  it is not hidden.
* `Reaches`: what a run can come to.
* `functions_scoped`: which variables a script declares, and how a call can change
  those of its caller.
-/

namespace Shellwright.Script

open Shellwright.Core

/-! ## Variables of a function and of its callers -/

/-- The variables that can be seen in a function: its own ones, and behind them
those of its callers. -/
structure Visible where
  own : String → Option String
  outer : String → Option String

namespace Visible

def declare (vars : Visible) (x value : String) : Visible :=
  { vars with own := Function.update vars.own x (some value) }

/-- The nearest variable of a name gets a value. -/
def set (vars : Visible) (x value : String) : Visible :=
  if (vars.own x).isSome then vars.declare x value
  else { vars with outer := Function.update vars.outer x (some value) }

/-- At the start of a call a function has no variables. -/
def start (outer : String → Option String) : Visible := ⟨fun _ => none, outer⟩

/-- A declared variable is one of the function's own. -/
theorem declare_isSome (vars : Visible) (x value y : String) :
    ((vars.declare x value).own y).isSome = (decide (y = x) || (vars.own y).isSome) := by
  by_cases same : y = x <;> simp [declare, Function.update, same]

/-- Setting a variable makes it no more the function's own than before. -/
@[simp] theorem set_isSome (vars : Visible) (x value y : String) :
    ((vars.set x value).own y).isSome = (vars.own y).isSome := by
  unfold set
  split
  case isTrue isOwn =>
    rw [declare_isSome]
    by_cases same : y = x
    · simp [same, isOwn]
    · simp [same]
  case isFalse => rfl

theorem set_outer_of_ne (vars : Visible) {x y : String} (value : String) (ne : y ≠ x) :
    (vars.set x value).outer y = vars.outer y := by
  unfold set
  split
  · rfl
  · simp [Function.update, ne]

/-- A variable of the function itself hides the one of its callers. -/
theorem set_outer_of_own {vars : Visible} {x y : String} (value : String)
    (isOwn : (vars.own y).isSome = true) : (vars.set x value).outer y = vars.outer y := by
  by_cases same : y = x
  · rw [set, if_pos (same ▸ isOwn)]
    rfl
  · exact vars.set_outer_of_ne value same

end Visible

/-! ## Steps -/

def Otherwise.tests : Otherwise → List String
  | .done => []
  | .elseIf test _ otherwise => test :: otherwise.tests
  | .final _ => []

/-- The texts that the shell expands or runs for a command itself. -/
def Command.words : Command → List String
  | .declare _ value => [value]
  | .assign _ value => [value]
  | .branch test _ otherwise => test :: otherwise.tests
  | .loop _ items _ => [items]
  | .answer word => [word]
  | .jump _ => []
  | .run line => [line]
  | .idle => []

/-- What is still to be run in a function, and the variables. -/
structure Point where
  commands : List Command
  vars : Visible

/-- One step of a function in the shell, as far as variables go: values and choices are
left open. What its texts do is left to the program, and it is only known which names
each text can change. -/
inductive ShellStep (changes : String → String → Prop) : Point → Point → Prop
  | expand {c : Command} {rest : List Command} {vars vars' : Visible} :
    (∀ x, (∀ word ∈ c.words, ¬changes word x) →
      vars'.own x = vars.own x ∧ vars'.outer x = vars.outer x) →
      ShellStep changes ⟨c :: rest, vars⟩ ⟨c :: rest, vars'⟩
  | declare {x value : String} {rest : List Command} {vars : Visible} (new : String) :
    ShellStep changes ⟨.declare x value :: rest, vars⟩ ⟨rest, vars.declare x new⟩
  | assign {x value : String} {rest : List Command} {vars : Visible} (new : String) :
    ShellStep changes ⟨.assign x value :: rest, vars⟩ ⟨rest, vars.set x new⟩
  | choose {test : String} {body block : List Command} {o : Otherwise} {rest : List Command}
      {vars : Visible} : block ∈ (Command.branch test body o).blocks →
    ShellStep changes ⟨.branch test body o :: rest, vars⟩ ⟨block ++ rest, vars⟩
  | skip {test : String} {body : List Command} {o : Otherwise} {rest : List Command}
      {vars : Visible} : ShellStep changes ⟨.branch test body o :: rest, vars⟩ ⟨rest, vars⟩
  | again {x items : String} {body rest : List Command} {vars : Visible} (new : String) :
    ShellStep changes ⟨.loop x items body :: rest, vars⟩
      ⟨body ++ .loop x items body :: rest, vars.set x new⟩
  | leave {x items : String} {body rest : List Command} {vars : Visible} :
    ShellStep changes ⟨.loop x items body :: rest, vars⟩ ⟨rest, vars⟩
  | answer {word : String} {rest : List Command} {vars : Visible} :
    ShellStep changes ⟨.answer word :: rest, vars⟩ ⟨[], vars⟩
  /-- A jump goes on at the loop that it is in, or behind it. -/
  | jump {j : Jump} {rest later : List Command} {vars : Visible} : later <:+ rest →
    ShellStep changes ⟨.jump j :: rest, vars⟩ ⟨later, vars⟩
  | run {line : String} {rest : List Command} {vars : Visible} :
    ShellStep changes ⟨.run line :: rest, vars⟩ ⟨rest, vars⟩
  | idle {rest : List Command} {vars : Visible} :
    ShellStep changes ⟨.idle :: rest, vars⟩ ⟨rest, vars⟩

abbrev ShellRun (changes : String → String → Prop) : Point → Point → Prop :=
  Relation.ReflTransGen (ShellStep changes)

/-! ## How variables are written -/

/-- How a command writes a variable. -/
inductive Write where
  | declared (name : String)
  | assigned (name : String)
  | looped (name : String)
  deriving DecidableEq

def Command.write? : Command → Option Write
  | .declare name _ => some (.declared name)
  | .assign name _ => some (.assigned name)
  | .loop name _ _ => some (.looped name)
  | _ => none

/-- All that commands write, and those inside them. -/
def writes (cs : List Command) : List Write := (commandsWithin cs).filterMap Command.write?

/-- A body declares a variable just if a command in it does. -/
theorem declared_mem_writes {cs : List Command} {x : String} :
    .declared x ∈ writes cs ↔ ∃ value, .declare x value ∈ commandsWithin cs := by
  rw [writes, List.mem_filterMap]
  constructor
  · rintro ⟨c, mem, isWrite⟩
    cases c with
    | declare name value =>
      cases isWrite
      exact ⟨value, mem⟩
    | _ => cases isWrite
  · rintro ⟨value, mem⟩
    exact ⟨_, mem, rfl⟩

/-- A command by itself sets the nearest variable of a name. -/
def Command.Sets (c : Command) (x : String) : Prop :=
  c.write? = some (.assigned x) ∨ c.write? = some (.looped x)

/-- The commands of a block are among those of the commands around it. -/
theorem commandsWithin_subset_of_mem_blocks {c : Command} {block : List Command}
    (mem : block ∈ c.blocks) (rest : List Command) :
    commandsWithin block ⊆ commandsWithin (c :: rest) := by
  rw [commandsWithin, c.within_eq]
  intro d inside
  exact List.mem_append_left _ (.tail _ (List.mem_flatMap.mpr ⟨block, mem, inside⟩))

theorem commandsWithin_subset_cons (c : Command) (rest : List Command) :
    commandsWithin rest ⊆ commandsWithin (c :: rest) := by
  rw [commandsWithin]
  exact List.subset_append_right _ _

theorem mem_commandsWithin_cons (c : Command) (rest : List Command) :
    c ∈ commandsWithin (c :: rest) := by
  rw [commandsWithin, c.within_eq]
  exact List.mem_append_left _ (.head _)

/-! ## What a run leaves alone -/

section

variable {changes : String → String → Prop} {q q' : Point} {x : String}

/-- A step leaves only commands that were there. -/
theorem ShellStep.subset (h : ShellStep changes q q') :
    commandsWithin q'.commands ⊆ commandsWithin q.commands := by
  cases h with
  | expand => exact fun _ mem => mem
  | choose block =>
    rw [commandsWithin_append]
    exact List.append_subset.mpr ⟨commandsWithin_subset_of_mem_blocks block _,
      commandsWithin_subset_cons _ _⟩
  | again =>
    rw [commandsWithin_append]
    exact List.append_subset.mpr
      ⟨commandsWithin_subset_of_mem_blocks (List.mem_singleton.mpr rfl) _, fun _ mem => mem⟩
  | answer => exact List.nil_subset _
  | jump later =>
    obtain ⟨skipped, rfl⟩ := later
    refine List.Subset.trans ?_ (commandsWithin_subset_cons _ _)
    rw [commandsWithin_append]
    exact List.subset_append_right _ _
  | declare | assign | skip | leave | run | idle => exact commandsWithin_subset_cons _ _

/-- No text of commands changes a name. -/
def Spare (changes : String → String → Prop) (x : String) (cs : List Command) : Prop :=
  ∀ c ∈ commandsWithin cs, ∀ word ∈ c.words, ¬changes word x

/-- A name is a variable of the function itself, or is going to be one before anything else
happens, or is not set any more. -/
inductive Hidden (x : String) : Point → Prop
  | own {q : Point} : (q.vars.own x).isSome = true → Hidden x q
  | declared {q : Point} {first : List Command} {value : String} {rest : List Command} :
    q.commands = first ++ .declare x value :: rest →
      (∀ c ∈ first, ∃ y value, c = .declare y value) → Hidden x q
  | unset {q : Point} : (∀ c ∈ commandsWithin q.commands, ¬c.Sets x) → Hidden x q

/-- A variable that a function has hides the one of its callers from then on. -/
theorem ShellStep.own (h : ShellStep changes q q') (spare : Spare changes x q.commands)
    (isOwn : (q.vars.own x).isSome = true) :
    (q'.vars.own x).isSome = true ∧ q'.vars.outer x = q.vars.outer x := by
  cases h with
  | expand only =>
    obtain ⟨own, outer⟩ := only x (spare _ (mem_commandsWithin_cons _ _))
    exact ⟨own ▸ isOwn, outer⟩
  | declare => exact ⟨by simp [Visible.declare_isSome, isOwn], rfl⟩
  | assign new | again new => exact ⟨by simpa using isOwn, Visible.set_outer_of_own new isOwn⟩
  | choose | skip | leave | answer | jump | run | idle => exact ⟨isOwn, rfl⟩

/-- A variable of the callers that no command sets keeps its value. -/
theorem ShellStep.unset (h : ShellStep changes q q') (spare : Spare changes x q.commands)
    (unset : ∀ c ∈ commandsWithin q.commands, ¬c.Sets x) : q'.vars.outer x = q.vars.outer x := by
  cases h with
  | expand only => exact (only x (spare _ (mem_commandsWithin_cons _ _))).2
  | @assign y _ _ vars new =>
    have ne : x ≠ y := fun same => unset _ (mem_commandsWithin_cons _ _) (.inl (same ▸ rfl))
    exact vars.set_outer_of_ne new ne
  | @again y _ _ _ vars new =>
    have ne : x ≠ y := fun same => unset _ (mem_commandsWithin_cons _ _) (.inr (same ▸ rfl))
    exact vars.set_outer_of_ne new ne
  | declare | choose | skip | leave | answer | jump | run | idle => rfl

/-- Declarations come one after the other. -/
theorem ShellStep.declaring {y value : String} {rest : List Command} (h : ShellStep changes q q')
    (spare : Spare changes x q.commands) (next : q.commands = .declare y value :: rest) :
    q'.vars.outer x = q.vars.outer x ∧
      (q'.commands = q.commands ∨
        q'.commands = rest ∧ ((q'.vars.own x).isSome =
          (decide (x = y) || (q.vars.own x).isSome))) := by
  cases h with
  | expand only => exact ⟨(only x (spare _ (mem_commandsWithin_cons _ _))).2, .inl rfl⟩
  | declare new =>
    cases next
    exact ⟨rfl, .inr ⟨rfl, Visible.declare_isSome _ _ new x⟩⟩
  | _ => cases next

/-- A step that spares a variable keeps it hidden, and leaves the caller's one alone. -/
theorem ShellStep.hidden (h : ShellStep changes q q') (spare : Spare changes x q.commands)
    (hidden : Hidden x q) : Hidden x q' ∧ q'.vars.outer x = q.vars.outer x := by
  cases hidden with
  | own isOwn =>
    obtain ⟨own, outer⟩ := h.own spare isOwn
    exact ⟨.own own, outer⟩
  | unset unset => exact ⟨.unset fun c mem => unset c (h.subset mem), h.unset spare unset⟩
  | @declared first value rest split declares =>
    cases first with
    | nil =>
      obtain ⟨outer, same | ⟨-, own⟩⟩ := h.declaring spare split
      · exact ⟨.declared (same.trans split) declares, outer⟩
      · exact ⟨.own (by simpa using own), outer⟩
    | cons c first =>
      obtain ⟨⟨y, v, rfl⟩, others⟩ := List.forall_mem_cons.mp declares
      obtain ⟨outer, same | ⟨same, -⟩⟩ := h.declaring spare split
      · exact ⟨.declared (same.trans split) declares, outer⟩
      · exact ⟨.declared same others, outer⟩

/-- A variable of the callers keeps its value in a run, if it is hidden at the start. -/
theorem ShellRun.outer_eq (run : ShellRun changes q q') (spare : Spare changes x q.commands)
    (hidden : Hidden x q) : q'.vars.outer x = q.vars.outer x := by
  -- both what makes the step keep the variable and its value go along the run
  have all : (Spare changes x q'.commands ∧ Hidden x q') ∧ q'.vars.outer x = q.vars.outer x := by
    induction run with
    | refl => exact ⟨⟨spare, hidden⟩, rfl⟩
    | tail _ step ih =>
      obtain ⟨⟨spare, hidden⟩, same⟩ := ih
      obtain ⟨hidden, outer⟩ := step.hidden spare hidden
      exact ⟨⟨fun c mem => spare c (step.subset mem), hidden⟩, outer.trans same⟩
  exact all.2

end

/-! ## What a run can reach -/

/-- The command ends its function or a round of its loop. -/
def Command.isExit : Command → Bool
  | .answer _ | .jump _ => true
  | _ => false

/-- A run leads from commands to a command, and makes no variable of this name. -/
def Reaches (changes : String → String → Prop) (x : String) (c : Command) (cs : List Command) :
    Prop :=
  ∀ rest vars, ∃ rest' vars', ShellRun changes ⟨cs ++ rest, vars⟩ ⟨c :: rest', vars'⟩ ∧
    (vars'.own x).isSome = (vars.own x).isSome

section

variable {changes : String → String → Prop} {x : String} {c : Command}

/-- Any other command can be passed. -/
theorem exists_pass {d : Command} (exit : d.isExit = false)
    (other : d.write? ≠ some (.declared x)) (rest : List Command) (vars : Visible) :
    ∃ vars', ShellStep changes ⟨d :: rest, vars⟩ ⟨rest, vars'⟩ ∧
      (vars'.own x).isSome = (vars.own x).isSome := by
  cases d with
  | declare y value =>
    have ne : x ≠ y := fun same => other (same ▸ rfl)
    exact ⟨_, .declare value, by simp [Visible.declare_isSome, ne]⟩
  | assign y value => exact ⟨_, .assign value, vars.set_isSome y value x⟩
  | branch => exact ⟨_, .skip, rfl⟩
  | loop => exact ⟨_, .leave, rfl⟩
  | run => exact ⟨_, .run, rfl⟩
  | idle => exact ⟨_, .idle, rfl⟩
  | answer | jump => cases exit

/-- A run that passes a command reaches what it reaches behind it. -/
theorem Reaches.cons {d : Command} {cs : List Command} (exit : d.isExit = false)
    (other : d.write? ≠ some (.declared x)) (h : Reaches changes x c cs) :
    Reaches changes x c (d :: cs) := by
  intro rest vars
  obtain ⟨vars₁, step, first⟩ := @exists_pass changes x d exit other (cs ++ rest) vars
  obtain ⟨rest', vars', run, own⟩ := h rest vars₁
  exact ⟨rest', vars', .head step run, own.trans first⟩

/-- What can be reached in a block of a command can be reached from the command. -/
theorem Reaches.of_block {d : Command} {block : List Command} (mem : block ∈ d.blocks)
    (h : Reaches changes x c block) (cs : List Command) : Reaches changes x c (d :: cs) := by
  intro rest vars
  cases d with
  | branch test body o =>
    obtain ⟨rest', vars', run, own⟩ := h (cs ++ rest) vars
    exact ⟨rest', vars', .head (.choose mem) run, own⟩
  | loop y items body =>
    cases List.mem_singleton.mp mem
    obtain ⟨rest', vars', run, own⟩ := h (.loop y items _ :: (cs ++ rest)) (vars.set y "")
    exact ⟨rest', vars', .head (.again "") run, own.trans (vars.set_isSome y "" x)⟩
  | _ => cases mem

mutual

/-- Without commands that leave, every command can be reached, at any depth. -/
theorem reaches_of_mem : ∀ {cs : List Command}, c ∈ commandsWithin cs →
    (∀ d ∈ commandsWithin cs, d.isExit = false ∧ d.write? ≠ some (.declared x)) →
    Reaches changes x c cs
  | d :: cs, mem, passes => by
    rw [commandsWithin] at mem passes
    obtain ⟨inside, others⟩ := List.forall_mem_append.mp passes
    rcases List.mem_append.mp mem with mem | mem
    · rcases Command.eq_or_reaches mem inside with rfl | ⟨block, isBlock, h⟩
      · exact fun rest vars => ⟨cs ++ rest, vars, .refl, rfl⟩
      · exact h.of_block isBlock cs
    · have self : d ∈ d.within := by
        rw [d.within_eq]
        exact .head _
      exact (reaches_of_mem mem others).cons (inside d self).1 (inside d self).2

/-- A command in another one is that one, or can be reached in one of its blocks, if nothing on
the way ends the run. -/
theorem Command.eq_or_reaches : ∀ {d : Command}, c ∈ d.within →
    (∀ e ∈ d.within, e.isExit = false ∧ e.write? ≠ some (.declared x)) →
    c = d ∨ ∃ block ∈ d.blocks, Reaches changes x c block
  | .branch _ body otherwise, mem, passes => by
    rw [Command.within] at mem passes
    obtain ⟨inside, others⟩ := List.forall_mem_append.mp (List.forall_mem_cons.mp passes).2
    rcases List.mem_cons.mp mem with rfl | mem
    · exact .inl rfl
    rcases List.mem_append.mp mem with mem | mem
    · exact .inr ⟨body, .head _, reaches_of_mem mem inside⟩
    · obtain ⟨block, isBlock, h⟩ := exists_block_reaches mem others
      exact .inr ⟨block, .tail _ isBlock, h⟩
  | .loop _ _ body, mem, passes => by
    rw [Command.within] at mem passes
    rcases List.mem_cons.mp mem with rfl | mem
    · exact .inl rfl
    · exact .inr ⟨body, .head _, reaches_of_mem mem (List.forall_mem_cons.mp passes).2⟩
  | .declare _ _, mem, _ | .assign _ _, mem, _ | .answer _, mem, _ | .jump _, mem, _
  | .run _, mem, _ | .idle, mem, _ => by
    rw [Command.within] at mem
    exact .inl (List.mem_singleton.mp mem)

/-- So it is with the branches after the first one. -/
theorem exists_block_reaches : ∀ {o : Otherwise}, c ∈ o.within →
    (∀ d ∈ o.within, d.isExit = false ∧ d.write? ≠ some (.declared x)) →
    ∃ block ∈ o.blocks, Reaches changes x c block
  | .elseIf _ body otherwise, mem, passes => by
    rw [Otherwise.within] at mem passes
    obtain ⟨inside, others⟩ := List.forall_mem_append.mp passes
    rcases List.mem_append.mp mem with mem | mem
    · exact ⟨body, .head _, reaches_of_mem mem inside⟩
    · obtain ⟨block, isBlock, h⟩ := exists_block_reaches mem others
      exact ⟨block, .tail _ isBlock, h⟩
  | .final body, mem, passes => by
    rw [Otherwise.within] at mem passes
    exact ⟨body, .head _, reaches_of_mem mem passes⟩

end

end

end Shellwright.Script

namespace Shellwright.Core

open Shellwright.Script

/-! ## What a body writes -/

/-- How a variable is written that gets a value. -/
def Mention.write? : Mention → Option Write
  | .part _ => none
  | .assigned v _ => some (if v.isGlobal then .assigned v.name else .declared v.name)
  | .looped v _ => some (.looped v.name)

/-- Expressions write no variable. -/
@[simp] theorem Expr.filterMap_write?_mentions (e : Expr) :
    e.mentions.filterMap Mention.write? = [] := by
  simp [Expr.mentions, List.filterMap_map, Function.comp_def, Mention.write?]

@[simp] theorem filterMap_write?_upperMentions (upper : Option Expr) :
    (upperMentions upper).filterMap Mention.write? = [] := by
  cases upper <;> simp [upperMentions]

abbrev Part.writes : (part : Part) → part.Shell → List Write
  | .stmt, c => Script.writes [c]
  | .stmts, cs => Script.writes cs
  | .chain, o => o.within.filterMap Command.write?

@[simp] theorem writes_append (xs ys : List Command) :
    writes (xs ++ ys) = writes xs ++ writes ys := by
  rw [writes, commandsWithin_append, List.filterMap_append]
  rfl

@[simp] theorem writes_orIdle (cs : List Command) : writes (orIdle cs) = writes cs := by
  cases cs with
  | nil => simp [orIdle, writes, commandsWithin, Command.within, Command.write?]
  | cons c cs => rfl

theorem writes_branch (test : String) (body : List Command) (o : Otherwise) :
    writes [.branch test body o] = writes body ++ o.within.filterMap Command.write? := by
  rw [writes, commandsWithin, commandsWithin, List.append_nil, Command.within,
    List.filterMap_cons_none rfl, List.filterMap_append]
  rfl

theorem writes_loop (name items : String) (body : List Command) :
    writes [.loop name items body] = .looped name :: writes body := by
  rw [writes, commandsWithin, commandsWithin, List.append_nil, Command.within]
  rfl

/-- Commands write variables as the body gives them values, in the same order. -/
theorem Yields.writes_eq {part : Part} {tree : part.Tree} {shell : part.Shell}
    (h : Yields part tree shell) :
    part.writes shell = (part.mentions tree).filterMap Mention.write? := by
  induction h with
  | @assign v e value isValue =>
    rw [Part.mentions, Stmt.mentions, List.filterMap_append, e.filterMap_write?_mentions]
    cases isGlobal : v.isGlobal <;>
      simp [Part.writes, writes, Command.assigning, commandsWithin, Command.within,
        Command.write?, Mention.write?, isGlobal]
  | branch _ _ _ ihBody ihChain =>
    rw [Part.writes, writes_branch, writes_orIdle, Part.mentions, Stmt.mentions,
      List.filterMap_append, List.filterMap_append, Expr.filterMap_write?_mentions,
      List.nil_append]
    exact congr (congrArg _ ihBody) ihChain
  | loop _ _ ih =>
    rw [Part.writes, writes_loop, writes_orIdle, Part.mentions, Stmt.mentions,
      List.filterMap_append, List.filterMap_append, Expr.filterMap_write?_mentions,
      filterMap_write?_upperMentions, List.nil_append, List.nil_append]
    exact congrArg (Write.looped _ :: ·) ih
  | ret | jump | expr =>
    simp [Part.mentions, Stmt.mentions, Part.writes, writes, commandsWithin, Command.within,
      Command.write?]
  | nil => simp [Part.mentions, stmtsMentions, Part.writes, writes, commandsWithin]
  | load _ ih => simpa [Part.mentions, stmtsMentions, Stmt.mentions] using ih
  | @cons _ _ c cs _ _ ihFirst ihRest =>
    have whole : writes (c :: cs) = writes [c] ++ writes cs := writes_append [c] cs
    rw [Part.writes, whole, Part.mentions, stmtsMentions, List.filterMap_append, ← ihFirst,
      ← ihRest]
  | done => simp [Part.mentions, ElseChain.mentions, Part.writes, Otherwise.within]
  | elseIf _ _ _ ihBody ihChain =>
    rw [Part.writes, Otherwise.within, List.filterMap_append, Part.mentions, ElseChain.mentions,
      List.filterMap_append, List.filterMap_append, Expr.filterMap_write?_mentions,
      List.nil_append]
    exact congr (congrArg _ ((writes_orIdle _).trans ihBody)) ihChain
  | final _ ih =>
    rw [Part.writes, Otherwise.within, Part.mentions, ElseChain.mentions]
    exact (writes_orIdle _).trans ih

/-- The lines for parameters declare them, in their order. -/
theorem writes_paramCommands (i : Nat) (names : List String) :
    writes (paramCommands i names) = names.map .declared := by
  induction names generalizing i with
  | nil => rfl
  | cons name rest ih =>
    rw [paramCommands, List.map_cons, ← ih (i + 1)]
    rfl

/-- What the commands of a function write: its parameters first, then what its
body gives values to. -/
theorem Function.Yields.writes_eq {f : Function} {r : Routine} (h : f.Yields r) :
    writes r.body = (f.params.map (·.name)).map .declared ++
      f.mentions.filterMap Mention.write? := by
  obtain ⟨body, cs, isBody, commands, rfl⟩ := h
  rw [writes_append, writes_paramCommands, writes_orIdle, Function.mentions, isBody]
  exact congrArg _ commands.writes_eq

section

variable {f : Function} {r : Routine} {x : String}

/-- Parameters and assignments declare local variables. -/
theorem Function.Yields.declared_iff (h : f.Yields r) :
    (∃ value, .declare x value ∈ commandsWithin r.body) ↔ (∃ v ∈ f.params, v.name = x) ∨
      ∃ v ty, .assigned v ty ∈ f.mentions ∧ v.isGlobal = false ∧ v.name = x := by
  rw [← declared_mem_writes, h.writes_eq, List.mem_append]
  refine or_congr (by simp) ?_
  rw [List.mem_filterMap]
  constructor
  · rintro ⟨m, mem, isWrite⟩
    cases m with
    | part => cases isWrite
    | looped => cases isWrite
    | assigned v ty =>
      cases isGlobal : v.isGlobal with
      | true => simp [Mention.write?, isGlobal] at isWrite
      | false =>
        refine ⟨v, ty, mem, isGlobal, ?_⟩
        simpa [Mention.write?, isGlobal] using isWrite
  · rintro ⟨v, ty, mem, isLocal, rfl⟩
    exact ⟨_, mem, by simp [Mention.write?, isLocal]⟩

/-- Only assignments to global variables and loops set variables that may be
those of a caller. -/
theorem Function.Yields.exists_of_sets (h : f.Yields r) {c : Command}
    (mem : c ∈ commandsWithin r.body) (sets : c.Sets x) :
    ∃ v ty, v.name = x ∧
      (.assigned v ty ∈ f.mentions ∧ v.isGlobal = true ∨ .looped v ty ∈ f.mentions) := by
  have written : .assigned x ∈ writes r.body ∨ .looped x ∈ writes r.body :=
    sets.imp (fun isWrite => List.mem_filterMap.mpr ⟨c, mem, isWrite⟩)
      fun isWrite => List.mem_filterMap.mpr ⟨c, mem, isWrite⟩
  rw [h.writes_eq] at written
  simp only [List.mem_append, List.map_map, List.mem_map, Function.comp_apply, reduceCtorEq,
    and_false, exists_false, false_or, List.mem_filterMap] at written
  obtain ⟨m, mem, isWrite⟩ | ⟨m, mem, isWrite⟩ := written
  · cases m with
    | part => cases isWrite
    | looped => cases isWrite
    | assigned v ty =>
      cases isGlobal : v.isGlobal with
      | true =>
        refine ⟨v, ty, ?_, .inl ⟨mem, isGlobal⟩⟩
        simpa [Mention.write?, isGlobal] using isWrite
      | false => simp [Mention.write?, isGlobal] at isWrite
  · cases m with
    | part => cases isWrite
    | assigned v ty => cases isGlobal : v.isGlobal <;> simp [Mention.write?, isGlobal] at isWrite
    | looped v ty =>
      cases isWrite
      exact ⟨v, ty, rfl, .inr mem⟩

/-- The parameters of a function are its own before anything else happens. -/
theorem Function.Yields.hidden_param (h : f.Yields r) {v : Variable} (param : v ∈ f.params)
    (vars : Visible) : Hidden v.name ⟨r.body, vars⟩ := by
  obtain ⟨body, cs, isBody, -, rfl⟩ := h
  obtain ⟨value, mem⟩ := exists_mem_paramCommands (List.mem_map_of_mem (f := (·.name)) param) 1
  obtain ⟨first, rest, split⟩ := List.append_of_mem mem
  have whole : paramCommands 1 (f.params.map (·.name)) ++ orIdle cs =
      first ++ .declare v.name value :: (rest ++ orIdle cs) := by
    rw [split, List.append_assoc, List.cons_append]
  refine .declared whole fun c mem => ?_
  exact eq_declare_of_mem_paramCommands (split ▸ List.mem_append_left _ mem)

end

/-- How the commands of a function treat its variables. -/
structure Function.Scoped (f : Function) (r : Routine) : Prop where
  yields : f.Yields r
  /-- Parameters are declared, and local variables that are assigned: neither global variables
  nor those that only loops set. -/
  declared : ∀ v, f.Binds v → ((∃ value, .declare v.name value ∈ commandsWithin r.body) ↔
    v.isGlobal = false ∧ (v ∈ f.params ∨ ∃ ty, .assigned v ty ∈ f.mentions))
  /-- A call that changes a variable of its caller does so by the texts of the program, by a
  global variable, or by a loop. -/
  kept : ∀ changes outer finish, ShellRun changes ⟨r.body, .start outer⟩ finish →
    ∀ x, finish.vars.outer x ≠ outer x →
      (∃ c ∈ commandsWithin r.body, ∃ word ∈ c.words, changes word x) ∨
      ∃ v, f.Binds v ∧ v.name = x ∧
        (v.isGlobal = true ∨ v ∉ f.params ∧ ∃ ty, .looped v ty ∈ f.mentions)
  /-- A loop over a local variable that nothing declares does change it,
  wherever it is reached. -/
  leaks : (∀ c ∈ commandsWithin r.body, c.isExit = false) → ∀ v ty, .looped v ty ∈ f.mentions →
    v.isGlobal = false → v ∉ f.params → (∀ ty, .assigned v ty ∉ f.mentions) →
    ∀ changes outer new, ∃ finish, ShellRun changes ⟨r.body, .start outer⟩ finish ∧
      finish.vars.outer v.name = some new

section

variable {p : Surface.Program} {f : Function} {r : Routine}

/-- A variable that a function binds is declared just if it is local and is a
parameter or assigned somewhere. -/
theorem Function.InOrder.declared_iff (inOrder : f.InOrder p) (yields : f.Yields r)
    {v : Variable} (binds : f.Binds v) :
    (∃ value, .declare v.name value ∈ commandsWithin r.body) ↔
      v.isGlobal = false ∧ (v ∈ f.params ∨ ∃ ty, .assigned v ty ∈ f.mentions) := by
  have same : ∀ w, f.Binds w → w.name = v.name → w = v := fun w other =>
    inOrder.eq_of_name other.mem_variables binds.mem_variables
  rw [yields.declared_iff]
  constructor
  · rintro (⟨w, param, sameName⟩ | ⟨w, ty, assigned, isLocal, sameName⟩)
    · cases same w (.inl param) sameName
      exact ⟨inOrder.params _ param, .inl param⟩
    · cases same w (.of_assigned assigned) sameName
      exact ⟨isLocal, .inr ⟨ty, assigned⟩⟩
  · rintro ⟨isLocal, param | ⟨ty, assigned⟩⟩
    · exact .inl ⟨v, param, rfl⟩
    · exact .inr ⟨v, ty, assigned, isLocal, rfl⟩

/-- What a run of a function changes for its caller is changed by a word of its body, is global,
or is the variable of a loop and no parameter. -/
theorem Function.Yields.kept (yields : f.Yields r) {changes : String → String → Prop}
    {outer : String → Option String} {finish : Point}
    (run : ShellRun changes ⟨r.body, .start outer⟩ finish) {x : String}
    (changed : finish.vars.outer x ≠ outer x) :
    (∃ c ∈ commandsWithin r.body, ∃ word ∈ c.words, changes word x) ∨
      ∃ v, f.Binds v ∧ v.name = x ∧
        (v.isGlobal = true ∨ v ∉ f.params ∧ ∃ ty, .looped v ty ∈ f.mentions) := by
  by_contra none
  obtain ⟨spare, unbound⟩ := not_or.mp none
  refine changed (run.outer_eq (fun c mem word isWord changes => ?_) ?_)
  · exact spare ⟨c, mem, word, isWord, changes⟩
  by_cases param : ∃ v ∈ f.params, v.name = x
  · obtain ⟨v, param, rfl⟩ := param
    exact yields.hidden_param param _
  -- only a global variable or the variable of a loop is set without being declared
  · refine .unset fun c mem sets => ?_
    obtain ⟨v, ty, rfl, ⟨assigned, isGlobal⟩ | looped⟩ := yields.exists_of_sets mem sets
    · exact unbound ⟨v, .of_assigned assigned, rfl, .inl isGlobal⟩
    · exact unbound ⟨v, .of_looped looped, rfl,
        .inr ⟨fun mem => param ⟨v, mem, rfl⟩, ty, looped⟩⟩

/-- A loop sets the variable of a caller, if nothing makes one of that name. -/
theorem Function.Yields.leaks (yields : f.Yields r) {v : Variable} {ty : Ty}
    (goesOn : ∀ c ∈ commandsWithin r.body, c.isExit = false) (looped : .looped v ty ∈ f.mentions)
    (undeclared : ¬∃ value, .declare v.name value ∈ commandsWithin r.body)
    (changes : String → String → Prop) (outer : String → Option String) (new : String) :
    ∃ finish, ShellRun changes ⟨r.body, .start outer⟩ finish ∧
      finish.vars.outer v.name = some new := by
  have isWritten : .looped v.name ∈ writes r.body := by
    rw [yields.writes_eq]
    exact List.mem_append_right _ (List.mem_filterMap.mpr ⟨_, looped, rfl⟩)
  obtain ⟨c, mem, isLoop⟩ := List.mem_filterMap.mp isWritten
  cases c with
  | loop y items body =>
    cases isLoop
    have reaches : Reaches changes v.name (.loop v.name items body) r.body := by
      refine reaches_of_mem mem fun d inside => ⟨goesOn d inside, fun isWrite => undeclared ?_⟩
      exact declared_mem_writes.mp (List.mem_filterMap.mpr ⟨d, inside, isWrite⟩)
    obtain ⟨rest, vars, run, own⟩ := reaches [] (.start outer)
    rw [List.append_nil] at run
    refine ⟨_, run.tail (.again new), ?_⟩
    show (vars.set v.name new).outer v.name = some new
    rw [Visible.set, own]
    simp [Visible.start]
  | _ => cases isLoop

end

/-- What a script declares in its functions, and what that keeps of the
variables of their callers. -/
theorem functions_scoped {p : Surface.Program} {library : Bool} {module : Module}
    {target : Target} {script : String} (obtained : Obtained p)
    (resolved : Module.ofProgram library p = .ok module)
    (written : generate target library module = .ok script) :
    ∃ l, module.Yields library l ∧ script = target.shebang ++ "\n" ++ l.text ∧
      List.Forall₂ Function.Scoped (module.functions.filter (·.body.isSome)) l.routines := by
  obtain ⟨l, yields, rfl⟩ := generate_yields written
  refine ⟨l, yields, rfl, yields.forall_routines fun f mem r commands => ?_⟩
  have inOrder := ofProgram_inOrder obtained resolved f mem
  refine ⟨commands, fun v binds => inOrder.declared_iff commands binds,
    fun changes outer finish run x => commands.kept run, ?_⟩
  intro goesOn v ty looped isLocal notParam unassigned
  refine commands.leaks goesOn looped fun declared => ?_
  obtain ⟨-, param | ⟨ty', assigned⟩⟩ :=
    (inOrder.declared_iff commands (.of_looped looped)).mp declared
  · exact notParam param
  · exact unassigned ty' assigned

/-- The body of a function is one loop around one expression, over a variable of its own. -/
def Function.isLocalLoop (f : Function) : Bool :=
  match f with
  | ⟨_, [], some [.loop v _ _ [.expr _]]⟩ => !v.isGlobal
  | _ => false

/-- Both functions have a variable `i`, and one calls the other. -/
def loopSample : Source :=
  ⟨"def f() \x7b for (i in 1 .. 2) \x7b @(echo $i); \x7d \x7d def g() \x7b i = 7; f(); \x7d"⟩

/-- The variable of a loop is not declared, so a run of the function changes the caller's one. -/
theorem functions_scoped_loop : ∃ p module script l, readProgram "sample" loopSample = .ok p ∧
    Module.ofProgram true p = .ok module ∧ generate .bash true module = .ok script ∧
    module.Yields true l ∧ script = Target.bash.shebang ++ "\n" ++ l.text ∧
    ∃ f ∈ module.functions, ∃ r ∈ l.routines, f.Scoped r ∧
      ∃ v, f.Binds v ∧ v.isGlobal = false ∧
        (¬∃ value, .declare v.name value ∈ commandsWithin r.body) ∧
        ∃ finish, ShellRun (fun _ _ => False) ⟨r.body, .start fun _ => some "7"⟩ finish ∧
          finish.vars.outer v.name = some "1" := by
  obtain ⟨p, module, script, isRead, resolved, written, asked⟩ :=
    exists_written "sample" loopSample (fun module => module.functions.any Function.isLocalLoop)
      (by decide +kernel)
  obtain ⟨l, yields, isScript, all⟩ := functions_scoped (.read isRead) resolved written
  obtain ⟨f, mem, shape⟩ := List.any_eq_true.mp asked
  refine ⟨p, module, script, l, isRead, resolved, written, yields, isScript, f, mem, ?_⟩
  unfold Function.isLocalLoop at shape
  split at shape
  case h_1 name v lower upper e =>
    obtain ⟨r, isRoutine, treats⟩ := exists_routine all mem rfl
    generalize isFunction : Function.mk name [] (some [.loop v lower upper [.expr e]]) = f at *
    have writes : f.mentions.filterMap Mention.write? = [.looped v.name] := by
      subst isFunction
      simp [Function.mentions, stmtsMentions, Stmt.mentions, Mention.write?]
    have looped : .looped v (itemTy upper) ∈ f.mentions := by
      subst isFunction
      simp [Function.mentions, stmtsMentions, Stmt.mentions]
    have binds : f.Binds v := .of_looped looped
    have isLocal : v.isGlobal = false := by simpa using shape
    have notParam : v ∉ f.params := by
      subst isFunction
      exact List.not_mem_nil
    have unassigned : ∀ ty, .assigned v ty ∉ f.mentions := by
      intro ty assigned
      have bad : .declared v.name ∈ f.mentions.filterMap Mention.write? :=
        List.mem_filterMap.mpr ⟨_, assigned, by simp [Mention.write?, isLocal]⟩
      simp [writes] at bad
    have goesOn : ∀ c ∈ commandsWithin r.body, c.isExit = false := by
      obtain ⟨body, cs, isBody, commands, rfl⟩ := treats.yields
      subst isFunction
      cases isBody
      cases commands with
      | cons first rest =>
        cases first with
        | loop _ inside =>
          cases inside with
          | cons first others =>
            cases first
            cases others
            cases rest
            simp [paramCommands, orIdle, commandsWithin, Command.within, Command.isExit]
    refine ⟨r, isRoutine, treats, v, binds, isLocal, fun declared => ?_,
      treats.leaks goesOn v _ looped isLocal notParam unassigned _ _ "1"⟩
    obtain ⟨-, param | ⟨ty, assigned⟩⟩ := (treats.declared v binds).mp declared
    · exact notParam param
    · exact unassigned ty assigned
  case h_2 => cases shape

end Shellwright.Core
