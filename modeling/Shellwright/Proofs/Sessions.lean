import Mathlib.Data.List.Induction
import Shellwright.Script.Session
import Shellwright.Script.Text

/-!
# One writer, many scripts

A writer that lives on is asked for scripts while scopes are open, and a script begins with the
initial mode whatever scopes are open around it. Nothing of this is seen from outside: every
script is the one that a new writer hands over, and closing a scope brings back the mode from
before it was opened.

Which scope a step closes is a matter of the steps alone. `opened` tells where in a
session the scopes that are still open were opened, and the scopes of the writer remember
the modes at these places.
-/

namespace Shellwright.Script

open Shellwright.Core

/-! ## Where the open scopes were opened -/

/-- The places of the open scopes after a step at the place `i`, the innermost first. -/
def Step.track (places : List Nat) (i : Nat) : Step → List Nat
  | .openScope _ => i :: places
  | .closeScope => places.tail
  | .setIndent _ | .generate _ => places

/-- The places in a session where the scopes that it leaves open were opened, the innermost
first. -/
def opened (steps : List Step) : List Nat :=
  steps.zipIdx.foldl (fun places (step, i) => step.track places i) []

theorem opened_concat (steps : List Step) (step : Step) :
    opened (steps ++ [step]) = step.track (opened steps) steps.length := by
  simp [opened, List.zipIdx_append]

theorem lt_length_of_mem_opened {steps : List Step} {i : Nat} (h : i ∈ opened steps) :
    i < steps.length := by
  induction steps using List.reverseRecOn with
  | nil => exact absurd h List.not_mem_nil
  | append_singleton steps step ih =>
    rw [List.length_append, List.length_singleton]
    rw [opened_concat] at h
    cases step with
    | openScope change =>
      obtain rfl | h := List.mem_cons.mp h
      · exact Nat.lt_succ_self _
      · exact Nat.lt_succ_of_lt (ih h)
    | closeScope => exact Nat.lt_succ_of_lt (ih (List.mem_of_mem_tail h))
    | setIndent indent => exact Nat.lt_succ_of_lt (ih h)
    | generate module => exact Nat.lt_succ_of_lt (ih h)

namespace Writer

/-! ## Sessions step by step -/

/-- The writer after a session. -/
def after (w : Writer) (steps : List Step) : Writer := (w.run steps).1

theorem after_append (w : Writer) (first second : List Step) :
    w.after (first ++ second) = (w.after first).after second := by
  induction first generalizing w with
  | nil => rfl
  | cons s rest ih => exact ih (w.step s).1

theorem after_concat (w : Writer) (steps : List Step) (s : Step) :
    w.after (steps ++ [s]) = ((w.after steps).step s).1 :=
  w.after_append steps [s]

/-- Each report is that of its step, made by the writer after the steps before. -/
theorem run_report (w : Writer) {steps : List Step} {i : Nat} {s : Step}
    (at_i : steps[i]? = some s) :
    (w.run steps).2[i]? = some ((w.after (steps.take i)).step s).2 := by
  induction steps generalizing w i with
  | nil => simp at at_i
  | cons first rest ih =>
    cases i with
    | zero =>
      obtain rfl : first = s := by simpa using at_i
      rfl
    | succ i => exact ih (w.step first).1 (by simpa using at_i)

theorem after_take_succ (w : Writer) {steps : List Step} {i : Nat} {s : Step}
    (at_i : steps[i]? = some s) :
    w.after (steps.take (i + 1)) = ((w.after (steps.take i)).step s).1 := by
  rw [List.take_add_one, at_i]
  exact w.after_concat _ s

/-! ## Scripts -/

/-- The script is that of a new writer, and the writer is then as before a script, whatever it
was asked for and whether there is a script. -/
theorem step_generate (w : Writer) (module : Module) :
    w.step (.generate module) =
      (w.restart, ⟨.initial, some (Script.generate w.target w.library module)⟩) := by
  rw [step, generate_eq, Script.generate_eq]
  rfl

/-- No step changes what the writer is for. -/
theorem step_target (w : Writer) (s : Step) :
    (w.step s).1.target = w.target ∧ (w.step s).1.library = w.library := by
  cases s with
  | openScope change => exact ⟨rfl, rfl⟩
  | closeScope =>
    rw [step, closeScope]
    cases w.scopes <;> exact ⟨rfl, rfl⟩
  | setIndent indent => exact ⟨rfl, rfl⟩
  | generate module =>
    rw [step_generate]
    exact ⟨rfl, rfl⟩

theorem after_target (w : Writer) (steps : List Step) :
    (w.after steps).target = w.target ∧ (w.after steps).library = w.library := by
  induction steps using List.reverseRecOn with
  | nil => exact ⟨rfl, rfl⟩
  | append_singleton steps s ih =>
    rw [after_concat, (step_target _ s).1, (step_target _ s).2]
    exact ih

/-! ## Scopes -/

/-- What the scopes that a session has left open remember. -/
def remembered (w : Writer) (steps : List Step) (places : List Nat) : List Mode :=
  places.map fun i => (w.after (steps.take i)).mode

theorem remembered_cons (w : Writer) (steps : List Step) (i : Nat) (places : List Nat) :
    w.remembered steps (i :: places) =
      (w.after (steps.take i)).mode :: w.remembered steps places := rfl

/-- What scopes remember does not depend on later steps. -/
theorem remembered_concat (w : Writer) (steps : List Step) (s : Step) :
    w.remembered (steps ++ [s]) (opened steps) = w.remembered steps (opened steps) := by
  refine List.map_congr_left fun i mem => ?_
  rw [List.take_append_of_le_length (Nat.le_of_lt (lt_length_of_mem_opened mem))]

/-- One step keeps the scopes in agreement with the places where they were opened. -/
theorem step_scopes (w : Writer) (steps : List Step) (s : Step) {left : List Mode}
    (scopes : (w.after steps).scopes = w.remembered steps (opened steps) ++ left)
    (suffix : left <:+ w.scopes) :
    ∃ left', ((w.after steps).step s).1.scopes =
      w.remembered (steps ++ [s]) (opened (steps ++ [s])) ++ left' ∧ left' <:+ w.scopes := by
  rw [opened_concat]
  cases s with
  | openScope change =>
    refine ⟨left, ?_, suffix⟩
    show (w.after steps).mode :: (w.after steps).scopes =
      w.remembered (steps ++ [_]) (steps.length :: opened steps) ++ left
    rw [remembered_cons, remembered_concat, List.take_left, scopes, List.cons_append]
  | closeScope =>
    have closed : ((w.after steps).step .closeScope).1.scopes = (w.after steps).scopes.tail := by
      rw [step, closeScope]
      cases hs : (w.after steps).scopes with
      | nil => exact hs
      | cons mode rest => rfl
    have kept := w.remembered_concat steps .closeScope
    show ∃ left', _ = w.remembered (steps ++ [.closeScope]) (opened steps).tail ++ left' ∧ _
    rw [closed, scopes, ← kept]
    cases opened steps with
    | nil => exact ⟨left.tail, rfl, (List.tail_suffix left).trans suffix⟩
    | cons i places => exact ⟨left, rfl, suffix⟩
  | setIndent indent => exact ⟨left, by rw [Step.track, remembered_concat]; exact scopes, suffix⟩
  | generate module =>
    refine ⟨left, ?_, suffix⟩
    rw [step_generate, Step.track, remembered_concat]
    exact scopes

/-- The scopes that a session has left open remember the modes from just before they were opened.
What lies below them was open before the session. -/
theorem after_scopes (w : Writer) (steps : List Step) :
    ∃ left, (w.after steps).scopes = w.remembered steps (opened steps) ++ left ∧
      left <:+ w.scopes := by
  induction steps using List.reverseRecOn with
  | nil => exact ⟨w.scopes, rfl, List.suffix_rfl⟩
  | append_singleton steps s ih =>
    obtain ⟨left, scopes, suffix⟩ := ih
    rw [after_concat]
    exact w.step_scopes steps s scopes suffix

theorem closeScope_eq {w : Writer} {mode : Mode} {scopes : List Mode}
    (h : w.scopes = mode :: scopes) : w.closeScope = { w with mode, scopes } := by
  rw [closeScope, h]

/-- Closing scopes one after the other brings back what the outermost one of them remembers. -/
theorem after_closeScopes (w : Writer) {modes left : List Mode} {outermost : Mode}
    (scopes : w.scopes = modes ++ outermost :: left) :
    w.after (List.replicate (modes.length + 1) .closeScope) =
      { w with mode := outermost, scopes := left } := by
  induction modes generalizing w with
  | nil => exact closeScope_eq scopes
  | cons mode modes ih =>
    have closed : w.closeScope = { w with mode, scopes := modes ++ outermost :: left } :=
      closeScope_eq scopes
    calc w.after (List.replicate (modes.length + 1 + 1) .closeScope)
        = w.closeScope.after (List.replicate (modes.length + 1) .closeScope) := rfl
      _ = { w.closeScope with mode := outermost, scopes := left } := ih _ (by rw [closed])
      _ = { w with mode := outermost, scopes := left } := by rw [closed]

/-- A session on one writer: every script is the one that a new writer hands over, and leaves the
writer with the initial mode and no text; closing a scope brings back the mode from before the
step that opened it; and closing all the scopes that a session leaves open brings back the mode
from before the outermost one of them. -/
theorem run_independent (w : Writer) (steps : List Step) :
    (∀ i module, steps[i]? = some (.generate module) →
      (w.run steps).2[i]? = some ⟨.initial, some (Script.generate w.target w.library module)⟩ ∧
        (w.after (steps.take (i + 1))).mode = .initial ∧
        (w.after (steps.take (i + 1))).out = "") ∧
    (∀ i j, steps[j]? = some .closeScope → (opened (steps.take j)).head? = some i →
      (w.run steps).2[j]? = some ⟨(w.after (steps.take i)).mode, none⟩ ∧
        (w.after (steps.take (j + 1))).mode = (w.after (steps.take i)).mode) ∧
    ∀ i, (opened steps).getLast? = some i →
      let closed := w.after (steps ++ List.replicate (opened steps).length .closeScope)
      closed.mode = (w.after (steps.take i)).mode ∧ closed.scopes <:+ w.scopes := by
  refine ⟨fun i module at_i => ?_, fun i j at_j innermost => ?_, fun i outermost => ?_⟩
  · have ⟨target, library⟩ := w.after_target (steps.take i)
    rw [run_report w at_i, after_take_succ w at_i, step_generate, target, library]
    exact ⟨rfl, rfl, rfl⟩
  · obtain ⟨places, eq⟩ := List.head?_eq_some_iff.mp innermost
    obtain ⟨left, scopes, -⟩ := w.after_scopes (steps.take j)
    have before : i ≤ j := by
      have := lt_length_of_mem_opened (List.mem_of_mem_head? innermost)
      rw [List.length_take] at this
      omega
    have remembers : (w.after (steps.take j)).scopes =
        (w.after (steps.take i)).mode :: (w.remembered (steps.take j) places ++ left) := by
      rw [scopes, eq, remembered_cons, List.cons_append, List.take_take, Nat.min_eq_left before]
    rw [run_report w at_j, after_take_succ w at_j, step, closeScope_eq remembers]
    exact ⟨rfl, rfl⟩
  · obtain ⟨places, eq⟩ := List.getLast?_eq_some_iff.mp outermost
    obtain ⟨left, scopes, suffix⟩ := w.after_scopes steps
    have remembers : (w.after steps).scopes =
        w.remembered steps places ++ (w.after (steps.take i)).mode :: left := by
      rw [scopes, eq, remembered, List.map_append, List.append_assoc]
      rfl
    have length : (opened steps).length = (w.remembered steps places).length + 1 := by
      rw [eq, remembered, List.length_append, List.length_map, List.length_singleton]
    rw [length, after_append, after_closeScopes _ remembers]
    exact ⟨rfl, suffix⟩

/-- Two scopes with scripts in between, the first of which cannot be written,
and a third scope. -/
def interleaved : List Step :=
  [.openScope (.quoting false), .setIndent 3, .openScope .deeper, .generate ⟨[], [], none⟩,
    .closeScope, .generate ⟨[⟨"main", [], some []⟩], [], some "main"⟩,
    .openScope (.bracing false)]

theorem run_independent_interleaved :
    let w : Writer := { target := .bash, library := false }
    (∃ e, (w.run interleaved).2[3]? = some ⟨.initial, some (.error e)⟩) ∧
      (w.after (interleaved.take 4)).mode = .initial ∧ (w.after (interleaved.take 4)).out = "" ∧
      opened (interleaved.take 4) = [2, 0] ∧
      (w.run interleaved).2[4]? = some ⟨⟨false, false, true, true, 3⟩, none⟩ ∧
      opened interleaved = [6, 0] ∧
      (w.after (interleaved ++ List.replicate 2 .closeScope)).mode = .initial ∧
      (w.after (interleaved ++ List.replicate 2 .closeScope)).scopes <:+ [] := by
  intro w
  obtain ⟨scripts, closes, leaves⟩ := run_independent w interleaved
  obtain ⟨failed, mode, out⟩ := scripts 3 _ rfl
  exact ⟨⟨_, failed⟩, mode, out, rfl, (closes 2 4 rfl rfl).1, rfl, leaves 0 rfl⟩

end Writer

end Shellwright.Script
