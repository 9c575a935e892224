import Shellwright.Path
import Shellwright.Source.Text

/-!
# Diagnostics

A diagnostic is what a person reads about a mistake: a message, the place it is about,
and sometimes advice. When the source text is at hand the line is shown with a mark
under the characters meant.
-/

namespace Shellwright

/-- A message about one place of one file. -/
structure Diagnostic where
  message : String
  span : Span
  source : Option Source
  file : Option String
  help : Option String
  deriving DecidableEq, Inhabited

namespace Diagnostic

/-- A diagnostic that is about a file as a whole. -/
def bare (message : String) (file : Option String) : Diagnostic :=
  ⟨message, .zero, none, file, none⟩

/-- A run of one character. -/
def run (c : Char) (n : Nat) : String := String.ofList (List.replicate n c)

/-- The line under the source line: a caret under the first character meant, and a tilde under
each further one when they all stand on that line. -/
def markLine (s : Source) (span : Span) : String :=
  let (line, col) := s.lineCol span.start
  let (lastLine, _) := s.lineCol span.stop
  let width :=
    if line = lastLine then (s.slice ⟨s.clip span.start, s.clip span.stop⟩).length else 1
  run ' ' (col - 1) ++ "^" ++ run '~' (width - 1)

/-- Message, line and mark of a place in a source text. -/
def located (s : Source) (file : String) (base : Option Path) (message : String) (span : Span) :
    String :=
  let (line, col) := s.lineCol span.start
  Path.shown ⟨file⟩ base ++ ":" ++ toString line ++ ":" ++ toString col ++ ": " ++ message ++
    "\n"
    ++ s.lineText line ++ "\n" ++ markLine s span

/-- The text of a diagnostic, with file names shown as seen from `base`. -/
def format (d : Diagnostic) (base : Option Path) : String :=
  let main := match d.source, d.file with
    | some source, some file => located source file base d.message d.span
    | none, some file => Path.shown ⟨file⟩ base ++ ": error: " ++ d.message
    | _, none => "error: " ++ d.message
  match d.help with
  | some help => main ++ "\nhelp: " ++ help
  | none => main

end Diagnostic

end Shellwright
