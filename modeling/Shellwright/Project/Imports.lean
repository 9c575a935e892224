import Shellwright.Path
import Shellwright.Surface.Basic

/-!
# Imports

Where an import leads, and which imports a file has.
-/

namespace Shellwright.Project

open Surface

/-- What the names of source files end in. -/
def sourceExtension : String := "bish"

/-- The path that an import means: the module seen from the importing file, with the usual
extension if it has none. -/
def importPath (importer : Path) (module : String) : Path :=
  let path := (importer.parent?.getD ⟨"."⟩).join ⟨module⟩
  if path.hasExtension then path else path.addExtension sourceExtension

/-- An import of a file. -/
structure Import where
  span : Span
  module : String

/-- The imports among the statements outside functions. -/
def importsOf : List TopLevel → List Import
  | [] => []
  | ⟨.load span module, _⟩ :: rest => ⟨span, module⟩ :: importsOf rest
  | _ :: rest => importsOf rest

mutual

/-- The first import inside a statement that holds statements. -/
def importWithin? : Stmt → Option Span
  | .branch _ _ body otherwise => importAmong? body <|> importInElse? otherwise
  | .loop _ _ _ _ body => importAmong? body
  | _ => none

/-- The first import among statements, or inside one of them. -/
def importAmong? : List Stmt → Option Span
  | [] => none
  | .load span _ :: _ => some span
  | stmt :: rest => importWithin? stmt <|> importAmong? rest

/-- The first import in the branches after the first one. -/
def importInElse? : ElseChain → Option Span
  | .done => none
  | .elseIf _ body otherwise => importAmong? body <|> importInElse? otherwise
  | .final body => importAmong? body

end

/-- The first import that does not stand at the top level of a program: those in functions come
before those in statements. -/
def nestedImport? (p : Program) : Option Span :=
  (p.functions.findSome? fun f => f.body.bind importAmong?) <|>
    (p.topLevel.findSome? fun t => importWithin? t.stmt)

end Shellwright.Project
