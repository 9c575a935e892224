import Shellwright.Script.Writer

/-!
# Writers that live on

A writer can be asked for one script after the other, with scopes opened and closed in between.
-/

namespace Shellwright.Script

/-- What a writer can be asked to do. -/
inductive Step where
  | openScope (change : Change)
  | closeScope
  | setIndent (indent : Nat)
  | generate (module : Core.Module)

/-- What a writer tells after a step: its mode, and the script if it was asked for one. -/
structure Report where
  mode : Mode
  script : Option (Except Error String)

namespace Writer

/-- One step of a writer. -/
def step (w : Writer) : Step → Writer × Report
  | .openScope change =>
    let w := w.openScope change
    (w, ⟨w.mode, none⟩)
  | .closeScope =>
    let w := w.closeScope
    (w, ⟨w.mode, none⟩)
  | .setIndent indent =>
    let w := { w with mode := { w.mode with indent } }
    (w, ⟨w.mode, none⟩)
  | .generate module =>
    let (script, w) := w.generate module
    (w, ⟨w.mode, some script⟩)

/-- The writer after a sequence of steps, and its reports. -/
def run (w : Writer) : List Step → Writer × List Report
  | [] => (w, [])
  | s :: rest =>
    let (w, report) := w.step s
    let (w, reports) := w.run rest
    (w, report :: reports)

/-- The reports of a sequence of steps, after which all open scopes are closed, the innermost
first. -/
def session (w : Writer) (steps : List Step) : List Report :=
  let (w, reports) := w.run steps
  reports ++ (w.run (List.replicate w.scopes.length .closeScope)).2

end Writer

end Shellwright.Script
