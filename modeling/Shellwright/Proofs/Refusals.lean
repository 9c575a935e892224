import Shellwright.Proofs.Faults
import Shellwright.Proofs.Mentions

/-!
# Why there is no script

A writer gives up at the first connection of streams that the target has no text for, at whatever
depth of the program it stands. Only when there is none does the entry function matter, and then
only for a script that is to be run. All this can be told from the program alone: what is written
on the way, and in which modes, has no part in it.

* `Module.expressions`: the expressions of a program at any depth, in the order of writing.
* `Module.Redirects`, `Module.RedirectsFirst`: a program asks for what the target has no text
  for, and what it asks for first.
* `moduleText_fault?`: the fault of a script, from the expressions of the program in that order.
* `Writer.generate_refuses`: which programs a writer refuses, why, and what is left of its text.
-/

namespace Shellwright.Core

open Shellwright.Script

/-! ## Expressions in the order of writing -/

/-- The expressions at any depth of a program, in the order in which they are written:
functions before the values of global variables, an expression before what is inside it,
and left before right. -/
def Module.expressions (module : Module) : List Expr :=
  module.roots.flatMap fun root => root.2.parts

/-- The expression connects streams, and not by a pipe. -/
def Expr.Redirects (e : Expr) (op : StreamOp) : Prop :=
  op ≠ .pipe ∧ ∃ ty left right, e = .stream ty op left right

/-- At some depth of a function that has a body, or of the value of a global variable, streams
are connected, and not by a pipe. -/
def Module.Redirects (module : Module) (op : StreamOp) : Prop :=
  ∃ place frames e, (place, fill frames e) ∈ module.roots ∧ e.Redirects op

/-- This is the connection that comes first in the order of writing. -/
def Module.RedirectsFirst (module : Module) (op : StreamOp) : Prop :=
  ∃ before e after, module.expressions = before ++ e :: after ∧ e.Redirects op ∧
    ∀ earlier ∈ before, ∀ op, ¬earlier.Redirects op

/-- The program names a function to begin with, and this function has a body. -/
def Module.Begins (module : Module) : Prop :=
  ∃ f ∈ module.functions, module.main = some f.name ∧ f.body.isSome = true

theorem argsParts_append (before after : List Expr) :
    argsParts (before ++ after) = argsParts before ++ argsParts after := by
  induction before with
  | nil => rw [argsParts, List.nil_append, List.nil_append]
  | cons arg rest ih => rw [List.cons_append, argsParts, argsParts, ih, List.append_assoc]

/-- What is part of an expression is part of all that it stands in. -/
theorem Frame.mem_parts_fill (f : Frame) {e part : Expr} (mem : part ∈ e.parts) :
    part ∈ (f.fill e).parts := by
  cases f with
  | left | upstream =>
    rw [Frame.fill, Expr.parts]
    exact .tail _ (List.mem_append_left _ mem)
  | right | downstream =>
    rw [Frame.fill, Expr.parts]
    exact .tail _ (List.mem_append_right _ mem)
  | negated | inverted =>
    rw [Frame.fill, Expr.parts]
    exact .tail _ mem
  | argument ty name before after =>
    rw [Frame.fill, Expr.parts, argsParts_append, argsParts]
    exact .tail _ (List.mem_append_right _ (List.mem_append_left _ mem))

/-- What is inside an expression is what has frames around it there. -/
theorem mem_parts_iff {e part : Expr} : part ∈ e.parts ↔ ∃ frames, e = fill frames part := by
  constructor
  · exact exists_fill_of_mem_parts
  · rintro ⟨frames, rfl⟩
    -- the outermost frame is taken off last
    induction frames using List.reverseRecOn with
    | nil => exact part.mem_parts
    | append_singleton frames f ih =>
      rw [fill_concat]
      exact f.mem_parts_fill ih

theorem Module.mem_expressions {module : Module} {e : Expr} :
    e ∈ module.expressions ↔ ∃ place frames, (place, fill frames e) ∈ module.roots := by
  rw [Module.expressions, List.mem_flatMap]
  constructor
  · rintro ⟨⟨place, outer⟩, mem, inside⟩
    obtain ⟨frames, rfl⟩ := mem_parts_iff.mp inside
    exact ⟨place, frames, mem⟩
  · rintro ⟨place, frames, mem⟩
    exact ⟨_, mem, mem_parts_iff.mpr ⟨frames, rfl⟩⟩

/-- A module redirects a stream just if one of its expressions does. -/
theorem Module.redirects_iff {module : Module} {op : StreamOp} :
    module.Redirects op ↔ ∃ e ∈ module.expressions, e.Redirects op := by
  constructor
  · rintro ⟨place, frames, e, mem, redirects⟩
    exact ⟨e, mem_expressions.mpr ⟨place, frames, mem⟩, redirects⟩
  · rintro ⟨e, mem, redirects⟩
    obtain ⟨place, frames, mem⟩ := mem_expressions.mp mem
    exact ⟨place, frames, e, mem, redirects⟩

/-! ## Events and outermost expressions -/

theorem boundRoots_parts (lower : Expr) (upper : Option Expr) :
    (boundRoots lower upper).flatMap (fun root => root.2.parts) =
      lower.parts ++ eventParts (upperEvents upper) := by
  cases upper with
  | none => simp [boundRoots, upperEvents]
  | some upper => simp [boundRoots, upperEvents]

mutual

/-- The expressions of a statement are the same, in the same order, whether it is looked at from
outside or walked through. -/
theorem Stmt.roots_parts : ∀ (s : Stmt) (inLoop : Bool),
    s.roots.flatMap (fun root => root.2.parts) = eventParts (s.events inLoop)
  | .assign v value, inLoop => by simp [Stmt.roots, Stmt.events]
  | .branch cond body otherwise, inLoop => by
    simp [Stmt.roots, Stmt.events, stmtsRoots_parts body inLoop, otherwise.roots_parts inLoop]
  | .loop v lower upper body, inLoop => by
    simp [Stmt.roots, Stmt.events, boundRoots_parts, stmtsRoots_parts body true]
  | .ret value, inLoop => by simp [Stmt.roots, Stmt.events]
  | .jump _, inLoop | .load _, inLoop => by
    rw [Stmt.roots, Stmt.events]
    rfl
  | .expr e, inLoop => by simp [Stmt.roots, Stmt.events]

theorem stmtsRoots_parts : ∀ (stmts : List Stmt) (inLoop : Bool),
    (stmtsRoots stmts).flatMap (fun root => root.2.parts) = eventParts (stmtsEvents inLoop stmts)
  | [], inLoop => by simp [stmtsRoots, stmtsEvents]
  | stmt :: rest, inLoop => by
    simp [stmtsRoots, stmtsEvents, stmt.roots_parts inLoop, stmtsRoots_parts rest inLoop]

theorem ElseChain.roots_parts : ∀ (chain : ElseChain) (inLoop : Bool),
    chain.roots.flatMap (fun root => root.2.parts) = eventParts (chain.events inLoop)
  | .done, inLoop => by simp [ElseChain.roots, ElseChain.events]
  | .elseIf cond body otherwise, inLoop => by
    simp [ElseChain.roots, ElseChain.events, stmtsRoots_parts body inLoop,
      otherwise.roots_parts inLoop]
  | .final body, inLoop => by
    simp [ElseChain.roots, ElseChain.events, stmtsRoots_parts body inLoop]

end

/-- So are those of a function. -/
theorem Function.roots_parts (f : Function) :
    (stmtsRoots (f.body.getD [])).flatMap (fun root => root.2.parts) = eventParts f.events := by
  rw [Function.events]
  cases f.body with
  | none => rfl
  | some body => exact stmtsRoots_parts body false

/-- First come the bodies of functions, in their order, and then the values of global
variables. -/
theorem Module.expressions_eq (module : Module) :
    module.expressions = module.functions.flatMap (fun f => eventParts f.events) ++
      module.globals.flatMap (·.value.parts) := by
  simp only [Module.expressions, Module.roots, List.flatMap_append, List.flatMap_assoc,
    List.flatMap_map, Function.roots_parts]

end Shellwright.Core

namespace Shellwright.Script

open Shellwright.Core

/-! ## Faults of connections -/

/-- A connection has a fault of its own just if it is no pipe. -/
theorem redirection?_eq_some {e : Expr} {fault : Fault} :
    redirection? e = some fault ↔ ∃ op, e.Redirects op ∧
    fault? (streamWord op) = some fault := by
  constructor
  · intro found
    cases e with
    | stream ty op left right =>
      refine ⟨op, ⟨?_, ty, left, right, rfl⟩, found⟩
      rintro rfl
      cases found
    | _ => cases found
  · rintro ⟨op, ⟨-, ty, left, right, rfl⟩, found⟩
    exact found

theorem redirection?_eq_none {e : Expr} : redirection? e = none ↔ ∀ op, ¬e.Redirects op := by
  constructor
  · rintro none op ⟨noPipe, ty, left, right, rfl⟩
    cases op with
    | pipe => exact noPipe rfl
    | output | input => cases none
  · intro none
    cases e with
    | stream ty op left right =>
      cases op with
      | pipe => rfl
      | output => exact absurd ⟨nofun, ty, left, right, rfl⟩ (none .output)
      | input => exact absurd ⟨nofun, ty, left, right, rfl⟩ (none .input)
    | _ => rfl

/-- The first connection that cannot be written is the fault. -/
theorem firstRedirection_eq_some {module : Module} {fault : Fault} :
    firstRedirection module.expressions = some fault ↔
      ∃ op, module.RedirectsFirst op ∧ fault? (streamWord op) = some fault := by
  rw [firstRedirection, List.findSome?_eq_some_iff]
  constructor
  · rintro ⟨before, e, after, split, found, earlier⟩
    obtain ⟨op, redirects, same⟩ := redirection?_eq_some.mp found
    refine ⟨op, ⟨before, e, after, split, redirects, fun x mem => ?_⟩, same⟩
    exact redirection?_eq_none.mp (earlier x mem)
  · rintro ⟨op, ⟨before, e, after, split, redirects, earlier⟩, same⟩
    refine ⟨before, e, after, split, redirection?_eq_some.mpr ⟨op, redirects, same⟩,
      fun x mem => ?_⟩
    exact redirection?_eq_none.mpr (earlier x mem)

theorem firstRedirection_expressions_eq_none {module : Module} :
    firstRedirection module.expressions = none ↔ ∀ op, ¬module.Redirects op := by
  rw [firstRedirection_eq_none]
  constructor
  · intro none op redirects
    obtain ⟨e, mem, redirects⟩ := Module.redirects_iff.mp redirects
    exact redirection?_eq_none.mp (none e mem) op redirects
  · intro none e mem
    exact redirection?_eq_none.mpr fun op redirects =>
      none op (Module.redirects_iff.mpr ⟨e, mem, redirects⟩)

/-- A script fails for what comes first among its expressions, and then for want
of an entry function. -/
theorem moduleText_fault? (m : Mode) (library : Bool) (module : Module) :
    fault? (moduleText m library module) =
      (firstRedirection module.expressions).or (fault? (entryCall library module)) := by
  rw [moduleText_fault, Module.expressions_eq, firstRedirection_append, Option.or_assoc]

/-! ## Entry functions -/

/-- A script that is to be run needs a function to begin with, and a library does not. -/
theorem entryCall_isOk (library : Bool) (module : Module) :
    fault? (entryCall library module) = none ↔ library = true ∨ module.Begins := by
  cases library with
  | true => exact iff_of_true rfl (.inl rfl)
  | false =>
    rw [entryCall, if_neg Bool.false_ne_true, Module.Begins]
    cases module.main with
    | none => exact iff_of_false (Option.some_ne_none _) (by rintro (⟨⟨⟩⟩ | ⟨_, _, ⟨⟩, _⟩))
    | some name =>
      dsimp only
      split
      case isTrue callable =>
        obtain ⟨f, mem, asked⟩ := List.any_eq_true.mp callable
        obtain ⟨isNamed, hasBody⟩ := Bool.and_eq_true_iff.mp asked
        exact iff_of_true rfl (.inr ⟨f, mem, by rw [of_decide_eq_true isNamed], hasBody⟩)
      case isFalse refused =>
        refine iff_of_false (Option.some_ne_none _) ?_
        rintro (⟨⟨⟩⟩ | ⟨f, mem, isNamed, hasBody⟩)
        exact refused (List.any_eq_true.mpr ⟨f, mem, by simp [Option.some.inj isNamed, hasBody]⟩)

/-- A call of the entry function fails only where the module is malformed. -/
theorem entryCall_fault {library : Bool} {module : Module} {fault : Fault}
    (h : fault? (entryCall library module) = some fault) : fault.kind = .malformed := by
  have failed := eq_error_of_fault? h
  rw [entryCall] at failed
  split at failed
  · cases failed
  · split at failed
    · cases failed
      rfl
    · split at failed
      · cases failed
      · cases failed
        rfl

/-! ## Writers -/

/-- What a writer hands over has the fault of the text. -/
theorem Writer.generate_eq_error {w : Writer} {module : Module} {e : Error} :
    (w.generate module).1 = .error e ↔
      ∃ fault, fault? (moduleText .initial w.library module) = some fault ∧
        e = fault.toError w.target := by
  rw [Writer.generate_eq]
  cases moduleText .initial w.library module with
  | error fault =>
    constructor
    · rintro ⟨⟩
      exact ⟨fault, rfl, rfl⟩
    · rintro ⟨_, ⟨⟩, rfl⟩
      rfl
  | ok text => exact ⟨nofun, nofun⟩

/-- A script is refused just if its text has a fault. -/
theorem Writer.generate_isError (w : Writer) (module : Module) :
    (∃ e, (w.generate module).1 = .error e) ↔
      fault? (moduleText .initial w.library module) ≠ none := by
  rw [Option.ne_none_iff_exists']
  constructor
  · rintro ⟨e, failed⟩
    obtain ⟨fault, isFault, -⟩ := generate_eq_error.mp failed
    exact ⟨fault, isFault⟩
  · rintro ⟨fault, isFault⟩
    exact ⟨_, generate_eq_error.mpr ⟨fault, isFault, rfl⟩⟩

theorem Writer.generate_redirectsFirst (w : Writer) {module : Module} {op : StreamOp}
    {fault : Fault} (first : module.RedirectsFirst op)
    (isFault : fault? (streamWord op) = some fault) :
    (w.generate module).1 = .error (fault.toError w.target) := by
  refine generate_eq_error.mpr ⟨fault, ?_, rfl⟩
  rw [moduleText_fault?, firstRedirection_eq_some.mpr ⟨op, first, isFault⟩, Option.some_or]

/-- A writer refuses a program just if it connects streams other than by pipes, at any depth, or
is to be run and does not begin. In the first case the connection that comes first in the order
of writing is to blame, and it is named; in the second one the program is malformed. Every error
names the target, and the writer is left without text. -/
theorem Writer.generate_refuses (w : Writer) (module : Module) :
    ((∃ e, (w.generate module).1 = .error e) ↔
      (∃ op, module.Redirects op) ∨ w.library = false ∧ ¬module.Begins) ∧
    ((∃ op, module.Redirects op) → ∃ op, module.RedirectsFirst op) ∧
    (module.RedirectsFirst .output →
      (w.generate module).1 = .error ⟨.unimplemented, "output redirection", some .bash⟩) ∧
    (module.RedirectsFirst .input →
      (w.generate module).1 = .error ⟨.unimplemented, "input redirection", some .bash⟩) ∧
    ((∀ op, ¬module.Redirects op) → ∀ e, (w.generate module).1 = .error e →
      e.kind = .malformed) ∧
    (∀ e, (w.generate module).1 = .error e →
      e.target = some .bash ∧ (w.generate module).2.out = "") := by
  have target : w.target = .bash := by cases w.target; rfl
  have fault := moduleText_fault? .initial w.library module
  refine ⟨?_, fun ⟨op, redirects⟩ => ?_, fun first => ?_, fun first => ?_, fun none e failed =>
    ?_, fun e failed => ?_⟩
  · rw [w.generate_isError, fault, ne_eq, Option.or_eq_none_iff,
      firstRedirection_expressions_eq_none, entryCall_isOk, not_and_or, not_or, Bool.not_eq_true,
      not_forall_not]
  · cases found : firstRedirection module.expressions with
    | none => exact absurd redirects (firstRedirection_expressions_eq_none.mp found op)
    | some fault =>
      obtain ⟨op, first, -⟩ := firstRedirection_eq_some.mp found
      exact ⟨op, first⟩
  · rw [w.generate_redirectsFirst first rfl, target]
    rfl
  · rw [w.generate_redirectsFirst first rfl, target]
    rfl
  · obtain ⟨cause, isFault, rfl⟩ := Writer.generate_eq_error.mp failed
    rw [fault, firstRedirection_expressions_eq_none.mpr none, Option.none_or] at isFault
    exact entryCall_fault isFault
  · obtain ⟨cause, -, rfl⟩ := Writer.generate_eq_error.mp failed
    rw [Writer.generate_eq, target]
    exact ⟨rfl, rfl⟩

/-- A program that nothing begins. The end of a range reads from what it should only be piped
into, and more of this kind comes after it. -/
def redirectedSample : Module :=
  let word (name : String) : Expr := .command .text [.text name]
  let wrong : Expr :=
    .stream .text .input (word "sort") (.stream .text .output (word "cat") (word "f"))
  let range : Stmt :=
    .loop ⟨"i", false⟩ (.int .integer 1) (some (.stream .text .pipe (word "ls") wrong)) []
  ⟨[⟨"declared", [], none⟩, ⟨"f", [], some [.branch (.bool .boolean true) [range] .done]⟩],
    [⟨⟨"x", true⟩, .stream .text .output (word "ls") (word "f")⟩], none⟩

/-- A program whose entry function is only declared. -/
def bodilessSample : Module := ⟨[⟨"main", [], none⟩], [], some "main"⟩

/-- The first of these programs is refused for the input that it asks for first, also as a
library. The second one is refused only if it is to be run. -/
theorem Writer.generate_refuses_samples :
    let w : Writer := { target := .bash, library := true, out := "left over" }
    (redirectedSample.RedirectsFirst .input ∧
      (w.generate redirectedSample).1 =
        .error ⟨.unimplemented, "input redirection", some .bash⟩ ∧
      (w.generate redirectedSample).2.out = "") ∧
    ((∀ op, ¬bodilessSample.Redirects op) ∧ ¬bodilessSample.Begins ∧
      (∃ e, ({ w with library := false }.generate bodilessSample).1 = .error e ∧
        e.kind = .malformed) ∧
      ¬∃ e, (w.generate bodilessSample).1 = .error e) := by
  intro w
  have first : redirectedSample.RedirectsFirst .input := by
    refine ⟨[_, _, _, _], _, _, rfl, ⟨nofun, _, _, _, rfl⟩, fun e mem => ?_⟩
    exact redirection?_eq_none.mp (firstRedirection_eq_none.mp rfl e mem)
  have none : ∀ op, ¬bodilessSample.Redirects op := by
    rintro op ⟨place, frames, e, mem, -⟩
    exact absurd mem List.not_mem_nil
  have noEntry : ¬bodilessSample.Begins := by
    rintro ⟨f, mem, -, hasBody⟩
    cases List.mem_singleton.mp mem
    cases hasBody
  obtain ⟨-, -, -, input, -, empty⟩ := w.generate_refuses redirectedSample
  obtain ⟨refused, -, -, -, malformed, -⟩ :=
    { w with library := false }.generate_refuses bodilessSample
  obtain ⟨e, failed⟩ := refused.mpr (.inr ⟨rfl, noEntry⟩)
  refine ⟨⟨first, input first, (empty _ (input first)).2⟩, none, noEntry,
    ⟨e, failed, malformed none e failed⟩, fun failed => ?_⟩
  rcases (w.generate_refuses bodilessSample).1.mp failed with ⟨op, redirects⟩ | ⟨isLibrary, -⟩
  · exact none op redirects
  · cases isLibrary

end Shellwright.Script
