import Shellwright.Core.Resolve
import Shellwright.Script.Writer
import Shellwright.Source.Diagnostic
import Shellwright.Surface.Parser

/-!
# From source to script

The stages of a compilation, with their faults told as diagnostics.
-/

namespace Shellwright

/-- A fault of spelling, told about a file. -/
def LexError.diagnostic (e : LexError) (file : String) (source : Source) : Diagnostic :=
  ⟨e.fault.message, e.span, some source, some file, none⟩

/-- A fault of grammar, told about a file. -/
def Surface.ParseError.diagnostic (e : ParseError) (file : String) (source : Source) :
    Diagnostic :=
  ⟨e.fault.message, e.span, some source, some file, none⟩

/-- A fault of meaning, told about a program. The line is shown if the text of the
file is at hand. -/
def Core.ScopeError.diagnostic (e : ScopeError) (p : Surface.Program) : Diagnostic :=
  ⟨e.fault.message, e.span, p.source? e.file, some e.file, e.fault.help⟩

/-- The tokens of a file. -/
def readTokens (file : String) (source : Source) : Except Diagnostic (List Token) :=
  (Token.scan source.chars).mapError fun e => e.diagnostic file source

/-- The program of a file, without the file's text. -/
def readProgram (file : String) (source : Source) : Except Diagnostic Surface.Program := do
  let tokens ← readTokens file source
  (Surface.Program.parse file tokens).mapError fun e => e.diagnostic file source

/-- The program of a file, with the file's text. -/
def readWithSource (file : String) (source : Source) : Except Diagnostic Surface.Program := do
  let program ← readProgram file source
  return { program with sources := [(file, source)] }

/-- The resolved form of a program. -/
def resolve (library : Bool) (p : Surface.Program) : Except Diagnostic Core.Module :=
  (Core.Module.ofProgram library p).mapError fun e => e.diagnostic p

end Shellwright
