import Shellwright.Proofs.Outcome
import Shellwright.Script.Text

/-!
# Two forms of an expression

A comparison is written as a bare test or, as a value, in a decision that gives `1` or `0`. A
call or a command is written as it is run or, as a value, in a substitution that gives its
output. Which of the two is decided by one setting of the mode each; the text inside is the same.
-/

namespace Shellwright.Script

open Shellwright.Core

/-- The text that turns a test into a value. -/
def decided (test : String) : String := "$([[ " ++ test ++ decisionClose

/-- The text that turns a command line into a value. -/
def substituted (line : String) : String := "$(" ++ line ++ ")"

theorem exprText_comparison {e : Expr} (h : e.isComparison = true) (m : Mode) :
    exprText m e = (exprText { m with decide := false } e).map fun t =>
      if m.decide then decided t else t := by
  cases e with
  | binary ty op left right =>
    have comparison : op.isComparison = true := h
    have arithmetic : op.isArithmetic = false := Bool.not_eq_true' _ ▸ comparison
    simp only [exprText, binaryOpen, binaryClose, comparison, arithmetic]
    generalize exprText _ left = l
    generalize exprText _ right = r
    cases l <;> cases r <;> cases m.decide <;>
      simp [bind, Except.bind, pure, Except.pure, Except.map, decided, String.append_assoc]
  | _ => cases h

/-- Of the mode, interpolated text only depends on whether variables are quoted. -/
theorem segmentsText_of_quote {m m' : Mode} (h : m.quote = m'.quote) (segments : List Segment) :
    segmentsText m segments = segmentsText m' segments := by
  induction segments with
  | nil => rfl
  | cons s rest ih => cases s <;> simp [segmentsText, variableText, h, ih]

theorem exprText_run {e : Expr} (h : (e.isCall || e.isCommand) = true) (m : Mode) :
    exprText m e = (exprText { m with substitute := false } e).map fun t =>
      if m.substitute then substituted t else t := by
  cases e with
  | call ty name args =>
    simp only [exprText, substitutionOpen, substitutionClose]
    generalize argsText _ args = text
    cases text <;> cases m.substitute <;>
      simp [bind, Except.bind, pure, Except.pure, Except.map, substituted, String.append_assoc]
  | command ty segments =>
    have same : segmentsText { m with quote := false, substitute := false } segments =
        segmentsText { m with quote := false } segments := by
      apply segmentsText_of_quote
      rfl
    simp only [exprText, substitutionOpen, substitutionClose, same]
    cases m.substitute <;> simp [Except.map, substituted, String.append_assoc]
  | _ => cases h

/-! ## Parts of texts -/

/-- One text is a part of another. -/
def Inside (s t : String) : Prop := ∃ before after, t = before ++ s ++ after

namespace Inside

variable {s t u : String}

theorem refl (s : String) : Inside s s := ⟨"", "", by simp⟩

theorem trans (h : Inside s t) (h' : Inside t u) : Inside s u := by
  obtain ⟨b, a, rfl⟩ := h
  obtain ⟨b', a', rfl⟩ := h'
  exact ⟨b' ++ b, a ++ a', by simp [String.append_assoc]⟩

theorem before (h : Inside s t) (u : String) : Inside s (t ++ u) :=
  h.trans ⟨"", u, by simp⟩

theorem after (h : Inside s t) (u : String) : Inside s (u ++ t) :=
  h.trans ⟨u, "", by simp⟩

end Inside

end Shellwright.Script
