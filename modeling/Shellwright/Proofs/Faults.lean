import Mathlib.Data.List.TakeWhile
import Shellwright.Proofs.Scoping
import Shellwright.Proofs.WellFormed

/-!
# Which programs have a script

Writing a script can fail for two reasons. A connection of streams may have no word in the
target, and a script that is to be run may have nothing to begin with. Neither depends on the
mode that a part is written in, so that the fault can be read off the tree: it is that of the
first redirection in the order of writing, and only if there is none the entry function matters.

* `exprText_fault`, `stmtsText_fault`, `moduleText_fault`: the fault of a text, from its parts.
* `ofProgram_unredirected`: no source gives a redirection.
* `entryCall_ofProgram`: when the program of a source has nothing to begin with.
* `generate_ofProgram`: which programs that were read or loaded have a script.
-/

namespace Shellwright.Script

open Shellwright.Core

/-! ## Faults of computations -/

/-- The fault of a computation, if it has one. -/
def fault? {α : Type} : Except Fault α → Option Fault
  | .ok _ => none
  | .error fault => some fault

@[simp] theorem fault?_ok {α : Type} (a : α) : fault? (.ok a) = none := rfl

@[simp] theorem fault?_pure {α : Type} (a : α) : fault? (pure a : Except Fault α) = none := rfl

/-- Of two steps the first one that has a fault decides, where the fault of the second one does
not depend on what the first one gives. -/
theorem fault?_bind {α β : Type} {x : Except Fault α} {f : α → Except Fault β}
    {first second : Option Fault} (hx : fault? x = first) (hf : ∀ a, fault? (f a) = second) :
    fault? (x >>= f) = first.or second := by
  subst hx
  cases x with
  | error e => rfl
  | ok a => exact hf a

/-- A last step that cannot fail does not matter. -/
theorem fault?_bind_pure {α β : Type} {x : Except Fault α} {f : α → β} {fault : Option Fault}
    (hx : fault? x = fault) : fault? (x >>= fun a => pure (f a)) = fault := by
  rw [fault?_bind hx fun a => fault?_pure (f a), Option.or_none]

/-- A computation without fault has a result. -/
theorem exists_of_fault? {α : Type} {x : Except Fault α} (h : fault? x = none) :
    ∃ a, x = .ok a := by
  cases x with
  | error e => cases h
  | ok a => exact ⟨a, rfl⟩

theorem eq_error_of_fault? {α : Type} {x : Except Fault α} {fault : Fault}
    (h : fault? x = some fault) : x = .error fault := by
  cases x with
  | error e =>
    cases h
    rfl
  | ok a => cases h

/-! ## Redirections -/

/-- The fault of an expression by itself, whatever is inside it. -/
def redirection? : Expr → Option Fault
  | .stream _ op _ _ => fault? (streamWord op)
  | _ => none

/-- The fault of the first redirection. -/
def firstRedirection (es : List Expr) : Option Fault := es.findSome? redirection?

/-- The first redirection of two lists is that of the first one, or else that of the second. -/
@[simp] theorem firstRedirection_append (es fs : List Expr) :
    firstRedirection (es ++ fs) = (firstRedirection es).or (firstRedirection fs) :=
  List.findSome?_append

theorem firstRedirection_cons (e : Expr) (es : List Expr) :
    firstRedirection (e :: es) = (redirection? e).or (firstRedirection es) := by
  rw [firstRedirection, List.findSome?_cons]
  cases redirection? e <;> rfl

/-- There is no first redirection just if there is none. -/
theorem firstRedirection_eq_none {es : List Expr} :
    firstRedirection es = none ↔ ∀ e ∈ es, redirection? e = none :=
  List.findSome?_eq_none_iff

/-! ## Expressions -/

mutual

/-- The mode has no part in whether an expression can be written. -/
theorem exprText_fault :
    ∀ (e : Expr) (m : Mode), fault? (exprText m e) = firstRedirection e.parts
  | .int _ _, m | .fraction _ _, m | .bool _ _, m | .text _ _, m | .command _ _, m
  | .var _ _, m => by
    rw [Expr.parts, firstRedirection_cons]
    rfl
  | .binary _ op left right, m => by
    rw [exprText, Expr.parts, firstRedirection_cons, firstRedirection_append]
    show _ = (firstRedirection left.parts).or (firstRedirection right.parts)
    exact fault?_bind (exprText_fault left _) fun l => fault?_bind_pure (exprText_fault right _)
  | .unary _ .negate operand, m => by
    rw [exprText, Expr.parts, firstRedirection_cons]
    split
    · exact fault?_bind_pure (exprText_fault operand m)
    · exact fault?_bind_pure (exprText_fault operand _)
  | .unary _ .not operand, m => by
    rw [exprText, Expr.parts, firstRedirection_cons]
    exact fault?_bind_pure (exprText_fault operand _)
  | .call _ name args, m => by
    rw [exprText, Expr.parts, firstRedirection_cons]
    exact fault?_bind_pure (argsText_fault args _)
  | .stream _ op left right, m => by
    rw [exprText, Expr.parts, firstRedirection_cons, firstRedirection_append]
    refine fault?_bind rfl fun word => ?_
    exact fault?_bind (exprText_fault left _) fun l => fault?_bind_pure (exprText_fault right _)

/-- Arguments fail at the first redirection in them. -/
theorem argsText_fault : ∀ (args : List Expr) (m : Mode),
    fault? (argsText m args) = firstRedirection (argsParts args)
  | [], m => by
    rw [argsText, argsParts]
    rfl
  | arg :: rest, m => by
    rw [argsText, argsParts, firstRedirection_append]
    exact fault?_bind (exprText_fault arg m) fun text => fault?_bind_pure (argsText_fault rest m)

end

/-! ## Statements -/

/-- The expressions among events, and all inside them. -/
def eventParts (events : List Event) : List Expr := events.filterMap Event.part?

@[simp] theorem eventParts_nil : eventParts [] = [] := rfl

@[simp] theorem eventParts_append (xs ys : List Event) :
    eventParts (xs ++ ys) = eventParts xs ++ eventParts ys :=
  List.filterMap_append

@[simp] theorem eventParts_bind (v : Variable) (events : List Event) :
    eventParts (.bind v :: events) = eventParts events := rfl

@[simp] theorem eventParts_effect (e : Expr) (events : List Event) :
    eventParts (.effect e :: events) = eventParts events := rfl

@[simp] theorem eventParts_events (e : Expr) : eventParts e.events = e.parts := by
  simp [eventParts, Expr.events, List.filterMap_map, Function.comp_def, Event.part?]

/-- What is run for its effect fails at the first redirection in it. -/
theorem effectText_fault (e : Expr) (m : Mode) :
    fault? (effectText m e) = firstRedirection e.parts := by
  cases e with
  | stream ty op left right =>
    rw [effectText, Expr.parts, firstRedirection_cons, firstRedirection_append]
    refine fault?_bind rfl fun word => ?_
    exact fault?_bind (exprText_fault left _) fun l => fault?_bind_pure (exprText_fault right _)
  | _ => exact exprText_fault _ m

/-- Bounds fail at the first redirection, that in the lower one first. -/
theorem boundsText_fault (lower : Expr) (upper : Option Expr) (m : Mode) :
    fault? (boundsText m lower upper) =
      (firstRedirection lower.parts).or (firstRedirection (eventParts (upperEvents upper))) := by
  cases upper with
  | none => exact (exprText_fault lower _).trans (Option.or_none ..).symm
  | some upper =>
    rw [boundsText, upperEvents, eventParts_events]
    exact fault?_bind (exprText_fault lower _) fun l => fault?_bind_pure (exprText_fault upper _)

theorem conditionText_fault (cond : Expr) (m : Mode) :
    fault? (conditionText m cond) = firstRedirection cond.parts :=
  fault?_bind_pure (exprText_fault cond _)

mutual

/-- A statement fails at the first redirection that happens in it. The three kinds of lists of
statements are taken together. -/
theorem stmtText_fault : ∀ (s : Stmt) (m : Mode) (inLoop : Bool),
    fault? (stmtText m s) = firstRedirection (eventParts (s.events inLoop))
  | .assign v value, m, inLoop => by
    rw [stmtText, Stmt.events, eventParts_append, eventParts_events, eventParts_bind,
      eventParts_nil, List.append_nil]
    exact fault?_bind_pure (exprText_fault value _)
  | .branch cond body otherwise, m, inLoop => by
    rw [stmtText, Stmt.events, eventParts_append, eventParts_append, eventParts_events,
      firstRedirection_append, firstRedirection_append]
    refine fault?_bind (conditionText_fault cond m) fun test => ?_
    refine fault?_bind (stmtsText_fault body _ inLoop) fun lines => ?_
    exact fault?_bind_pure (elseText_fault otherwise _ inLoop)
  | .loop v lower upper body, m, inLoop => by
    rw [stmtText, Stmt.events, eventParts_append, eventParts_append, eventParts_bind,
      eventParts_events, firstRedirection_append, firstRedirection_append, ← Option.or_assoc]
    refine fault?_bind (boundsText_fault lower upper m) fun bounds => ?_
    exact fault?_bind_pure (stmtsText_fault body _ true)
  | .ret value, m, inLoop => by
    rw [stmtText, Stmt.events, eventParts_events]
    exact fault?_bind_pure (exprText_fault value _)
  | .jump _, m, inLoop | .load _, m, inLoop => by
    rw [stmtText, Stmt.events]
    rfl
  | .expr e, m, inLoop => by
    rw [stmtText, Stmt.events, eventParts_effect, eventParts_events]
    exact effectText_fault e m

theorem stmtsText_fault : ∀ (stmts : List Stmt) (m : Mode) (inLoop : Bool),
    fault? (stmtsText m stmts) = firstRedirection (eventParts (stmtsEvents inLoop stmts))
  | [], m, inLoop => by
    rw [stmtsText, stmtsEvents]
    rfl
  | stmt :: rest, m, inLoop => by
    have one := stmtText_fault stmt m inLoop
    have more := stmtsText_fault rest m inLoop
    rw [stmtsEvents, eventParts_append, firstRedirection_append, ← one]
    unfold stmtsText
    cases stmt
    case load => exact more
    all_goals exact fault?_bind rfl fun text => fault?_bind_pure more

theorem elseText_fault : ∀ (chain : ElseChain) (m : Mode) (inLoop : Bool),
    fault? (elseText m chain) = firstRedirection (eventParts (chain.events inLoop))
  | .done, m, inLoop => by
    rw [elseText, ElseChain.events]
    rfl
  | .elseIf cond body otherwise, m, inLoop => by
    rw [elseText, ElseChain.events, eventParts_append, eventParts_append, eventParts_events,
      firstRedirection_append, firstRedirection_append]
    refine fault?_bind (conditionText_fault cond m) fun test => ?_
    refine fault?_bind (stmtsText_fault body _ inLoop) fun lines => ?_
    exact fault?_bind_pure (elseText_fault otherwise _ inLoop)
  | .final body, m, inLoop => by
    rw [elseText, ElseChain.events]
    exact fault?_bind_pure (stmtsText_fault body _ inLoop)

end

/-! ## Modules -/

/-- A function fails at the first redirection in its body. -/
theorem functionText_fault (f : Function) (m : Mode) :
    fault? (functionText m f) = firstRedirection (eventParts f.events) := by
  rw [functionText, Function.events]
  cases f.body with
  | none => rfl
  | some body => exact fault?_bind_pure (stmtsText_fault body _ false)

/-- Functions fail at the first redirection in the first one that has any. -/
theorem functionsText_fault (fs : List Function) (m : Mode) :
    fault? (functionsText m fs) =
      firstRedirection (fs.flatMap fun f => eventParts f.events) := by
  induction fs with
  | nil => rfl
  | cons f fs ih =>
    rw [functionsText, List.flatMap_cons, firstRedirection_append]
    exact fault?_bind (functionText_fault f m) fun text => fault?_bind_pure ih

/-- The values of global variables fail at the first redirection in them. -/
theorem globalsText_fault (as : List Assignment) (m : Mode) :
    fault? (globalsText m as) = firstRedirection (as.flatMap (·.value.parts)) := by
  induction as with
  | nil => rfl
  | cons a as ih =>
    have value : fault? (assignText m a.var a.value) = firstRedirection a.value.parts :=
      fault?_bind_pure (exprText_fault a.value _)
    rw [globalsText, List.flatMap_cons, firstRedirection_append]
    exact fault?_bind value fun text => fault?_bind_pure ih

/-- A script fails for the first redirection in its functions, then for the first one in the
values of its global variables, and then for want of an entry function. -/
theorem moduleText_fault (m : Mode) (library : Bool) (module : Module) :
    fault? (moduleText m library module) =
      (firstRedirection (module.functions.flatMap fun f => eventParts f.events)).or
        ((firstRedirection (module.globals.flatMap (·.value.parts))).or
          (fault? (entryCall library module))) := by
  refine fault?_bind (functionsText_fault module.functions m) fun functions => ?_
  exact fault?_bind (globalsText_fault module.globals m) fun globals => fault?_bind_pure rfl

end Shellwright.Script

namespace Shellwright.Core

open Shellwright.Script

/-! ## Programs of a source -/

/-- What is in order is no redirection. -/
theorem Expr.Proper.unredirected {declared : String → Nat → Prop} {known : Variable → Prop}
    {e : Expr} (proper : e.Proper declared known) : redirection? e = none := by
  cases e with
  | stream ty op left right =>
    cases proper.streams ty op left right rfl
    rfl
  | _ => rfl

/-- Nor is anything in a function that is in order. -/
theorem Function.InOrder.unredirected {p : Surface.Program} {f : Function} (h : f.InOrder p) :
    ∀ e ∈ eventParts f.events, redirection? e = none := by
  intro e mem
  obtain ⟨event, isEvent, isPart⟩ := List.mem_filterMap.mp mem
  cases event with
  | part e' =>
    cases isPart
    obtain ⟨bound, proper⟩ := h.allowed isEvent
    exact Expr.Proper.unredirected proper
  | _ => cases isPart

/-- Resolving makes no redirection, in a function or in the value of a global variable. -/
theorem ofProgram_unredirected {library : Bool} {p : Surface.Program} {m : Module}
    (obtained : Obtained p) (resolved : ResolvesProgram library p m) :
    firstRedirection (m.functions.flatMap fun f => eventParts f.events) = none ∧
      firstRedirection (m.globals.flatMap (·.value.parts)) = none := by
  have filled := obtained.filled
  have of_inOrder {globals : List Assignment} {functions : List Function}
      (bodies : ∀ f ∈ functions, f.InOrder p) (values : ∀ a ∈ globals, a.InOrder p) :
      firstRedirection (functions.flatMap fun f => eventParts f.events) = none ∧
        firstRedirection (globals.flatMap (·.value.parts)) = none := by
    refine ⟨firstRedirection_eq_none.mpr fun e mem => ?_,
      firstRedirection_eq_none.mpr fun e mem => ?_⟩
    · obtain ⟨f, isFunction, mem⟩ := List.mem_flatMap.mp mem
      exact (bodies f isFunction).unredirected e mem
    · obtain ⟨a, isGlobal, mem⟩ := List.mem_flatMap.mp mem
      exact ((values a isGlobal).value e mem).unredirected
  cases resolved with
  | made stages absent _ entry =>
    have inOrder := stages.inOrder filled
    have made : Function.InOrder p ⟨entryName, [], some _⟩ :=
      ⟨nofun, resolveEntry_traced (stages.serves.enter p.entryFile [])
        (fun t mem => filled.topLevel t (entryStatements_subset p mem)) entry⟩
    exact of_inOrder (List.forall_mem_append.mpr
      ⟨inOrder.bodies, List.forall_mem_singleton.mpr made⟩) inOrder.values
  | kept stages _ _ =>
    exact of_inOrder (stages.inOrder filled).bodies (stages.inOrder filled).values

/-- A program that is to be run, has nothing outside functions but imports and the assignments
that it begins with, and only declares its entry function. -/
structure LacksEntry (library : Bool) (p : Surface.Program) : Prop where
  executable : library = false
  quiet : ∀ t ∈ p.topLevel, t.leads = true
  declared : ∃ f ∈ p.functions, f.name = entryName ∧ f.body = none

/-- There is nothing for an entry function to run just if all statements are assignments and
imports that come first. -/
theorem isLoose_eq_false_iff {p : Surface.Program} :
    isLoose p = false ↔ ∀ t ∈ p.topLevel, t.leads = true := by
  rw [← List.dropWhile_eq_nil_iff, ← Bool.not_eq_true, isLoose_iff]
  show (¬∃ t ∈ p.remaining, _) ↔ p.remaining = []
  constructor
  · intro none
    cases rest : p.remaining with
    | nil => rfl
    | cons t ts =>
      -- the first statement that does not go on with the assignments is no import either
      have stops : t.leads ≠ true := by
        have first := List.head?_dropWhile_not Surface.TopLevel.leads p.topLevel
        rw [show p.topLevel.dropWhile Surface.TopLevel.leads = t :: ts from rest] at first
        simpa using first
      refine absurd ⟨t, rest ▸ .head _, ?_⟩ none
      obtain ⟨stmt, file⟩ := t
      cases stmt with
      | load => exact absurd rfl stops
      | _ => rfl
  · rintro empty ⟨t, mem, -⟩
    rw [empty] at mem
    cases mem

/-- The entry function that is made can be called. -/
theorem entryCall_made (library : Bool) (functions : List Function) (globals : List Assignment)
    (body : List Stmt) : fault? (entryCall library
      ⟨functions ++ [⟨entryName, [], some body⟩], globals, some entryName⟩) = none := by
  cases library <;> simp [entryCall]

/-- A program of a source has nothing to begin with just when it is to be run, has no statements
to run and only declares its entry function. -/
theorem entryCall_ofProgram {library : Bool} {p : Surface.Program} {m : Module}
    (obtained : Obtained p) (resolved : ResolvesProgram library p m) :
    (¬LacksEntry library p → fault? (entryCall library m) = none) ∧
      (LacksEntry library p → fault? (entryCall library m) = some .noEntry) := by
  cases resolved with
  | made stages absent needed entry =>
    refine ⟨fun _ => entryCall_made .., fun lacks => ?_⟩
    obtain ⟨f, mem, isEntry, -⟩ := lacks.declared
    exact absurd isEntry (absent f mem)
  | @kept globals functions s stages tidy entry =>
    have inOrder := stages.inOrder obtained.filled
    cases library with
    | true => exact ⟨fun _ => rfl, fun lacks => nomatch lacks.executable⟩
    | false =>
      obtain ⟨f, mem, isEntry⟩ := entry.resolve_right Bool.false_ne_true
      -- names are distinct, so that the function found is the one at hand
      have found : p.functions.find? (·.name = entryName) = some f := by
        cases user : p.functions.find? (·.name = entryName) with
        | none => exact absurd isEntry (find?_entry_eq_none.mp user f mem)
        | some g =>
          have same : g.name = f.name := by
            have isEntry' := List.find?_some user
            rw [isEntry]
            exact of_decide_eq_true isEntry'
          rw [List.inj_on_of_nodup_map inOrder.distinct
            (List.mem_of_find?_eq_some user) mem same]
      cases hasBody : f.body with
      | none =>
        refine ⟨fun has =>
          absurd ⟨rfl, isLoose_eq_false_iff.mp tidy, f, mem, isEntry, hasBody⟩ has, fun _ => ?_⟩
        simp [entryCall, found, Option.filter, hasBody, fault?]
      | some body =>
        refine ⟨fun _ => ?_, fun lacks => ?_⟩
        · obtain ⟨g, isFunction, name, -, isSome⟩ := inOrder.exists_function mem
          rw [hasBody, Option.isSome_some] at isSome
          have callable : functions.any (fun g => g.name = entryName && g.body.isSome) = true :=
            List.any_eq_true.mpr ⟨g, isFunction, by simp [name, isEntry, isSome]⟩
          simp [entryCall, found, Option.filter, hasBody, isEntry, callable]
        · obtain ⟨g, isFunction, name, declared⟩ := lacks.declared
          have same :=
            List.inj_on_of_nodup_map inOrder.distinct isFunction mem (name.trans isEntry.symm)
          rw [same, hasBody] at declared
          cases declared

/-- A program that was read or loaded, and resolved, has a script unless it lacks an
entry function. In that case the module is not in order. No source asks for more
than the target has. -/
theorem generate_ofProgram (target : Target) {library : Bool} {p : Surface.Program} {m : Module}
    (obtained : Obtained p) (resolved : Module.ofProgram library p = .ok m) :
    (¬LacksEntry library p → ∃ script, generate target library m = .ok script) ∧
      (LacksEntry library p →
        ∃ e, generate target library m = .error e ∧ e.kind = .malformed) ∧
      ∀ e, generate target library m = .error e → e.kind ≠ .unimplemented := by
  have resolves := resolvesProgram_iff.mp resolved
  obtain ⟨functions, globals⟩ := ofProgram_unredirected obtained resolves
  obtain ⟨complete, lacking⟩ := entryCall_ofProgram obtained resolves
  have fault := moduleText_fault .initial library m
  rw [functions, globals, Option.none_or, Option.none_or] at fault
  have written (has : ¬LacksEntry library p) :
      ∃ script, generate target library m = .ok script := by
    obtain ⟨t, text⟩ := exists_of_fault? (fault.trans (complete has))
    exact ⟨_, by rw [generate_eq, text]⟩
  have refused (lacks : LacksEntry library p) :
      generate target library m = .error (Fault.noEntry.toError target) := by
    rw [generate_eq, eq_error_of_fault? (fault.trans (lacking lacks))]
  refine ⟨written, fun lacks => ⟨_, refused lacks, rfl⟩, fun e failed => ?_⟩
  by_cases lacks : LacksEntry library p
  · rw [refused lacks] at failed
    cases failed
    exact nofun
  · obtain ⟨script, ok⟩ := written lacks
    cases ok.symm.trans failed

/-- A program whose entry function is only declared. -/
def declaredSample : Source := ⟨"x = 1;\nimport other;\ny = x;\ndef main();"⟩

/-- A program with pipelines in a loop. -/
def pipedSample : Source := ⟨"for (i in 1 .. 3) \x7b @(echo $i) | @(cat) | @(wc); \x7d"⟩

/-- The first of these programs can be resolved and has no script, and the second
one has a script. -/
theorem generate_ofProgram_declared :
    (∃ p m, readProgram "sample" declaredSample = .ok p ∧ Module.ofProgram false p = .ok m ∧
      LacksEntry false p ∧ ∃ e, generate .bash false m = .error e ∧ e.kind = .malformed) ∧
    ∃ p m, readProgram "sample" pipedSample = .ok p ∧ Module.ofProgram false p = .ok m ∧
      ¬LacksEntry false p ∧ ∃ script, generate .bash false m = .ok script := by
  constructor
  · obtain ⟨p, m, isRead, asked, resolved⟩ := exists_resolved "sample" declaredSample false
      (fun p => p.topLevel.all (·.leads) && p.functions.any fun f =>
        f.name = entryName && f.body.isNone) (by decide +kernel)
    obtain ⟨quiet, declares⟩ := Bool.and_eq_true_iff.mp asked
    obtain ⟨f, mem, isDeclared⟩ := List.any_eq_true.mp declares
    have lacks : LacksEntry false p :=
      ⟨rfl, List.all_eq_true.mp quiet, f, mem, by simpa using isDeclared⟩
    exact ⟨p, m, isRead, resolved, lacks,
      (generate_ofProgram .bash (.read isRead) resolved).2.1 lacks⟩
  · obtain ⟨p, m, isRead, asked, resolved⟩ := exists_resolved "sample" pipedSample false
      (·.functions.isEmpty) (by decide +kernel)
    have has : ¬LacksEntry false p := by
      rintro ⟨-, -, f, mem, -⟩
      rw [List.isEmpty_iff.mp asked] at mem
      cases mem
    exact ⟨p, m, isRead, resolved, has, (generate_ofProgram .bash (.read isRead) resolved).1 has⟩

end Shellwright.Core
