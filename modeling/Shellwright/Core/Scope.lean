import Shellwright.Core.Basic
import Shellwright.Source.Span
import Shellwright.Suggest

/-!
# Scopes

What is known about names at one point of a program: the functions, the variables that the whole
script shares, and the variables of the function at hand. A scope changes from statement to
statement, because an assignment binds a name and gives it the type of its last value.
-/

namespace Shellwright.Core

/-! ## Faults -/

/-- Why a name or a statement has no meaning where it stands. -/
inductive ScopeFault where
  | undefinedVariable (name : String) (near : Option String)
  | undefinedFunction (name : String) (near : Option String)
  | wrongArity (name : String) (wanted got : Nat)
  | unusedResult
  | jumpOutsideLoop (jump : Jump)
  | duplicateFunction (name : String)
  | mainBesideStatements
  deriving DecidableEq, Repr

namespace ScopeFault

def message : ScopeFault → String
  | .undefinedVariable name _ => "undefined variable '" ++ name ++ "'"
  | .undefinedFunction name _ => "undefined function '" ++ name ++ "'"
  | .wrongArity name wanted got =>
    "function '" ++ name ++ "' expects " ++ toString wanted ++ " argument"
      ++ (if wanted = 1 then "" else "s") ++ ", got " ++ toString got
  | .unusedResult => "expression result is unused"
  | .jumpOutsideLoop jump => "'" ++ jump.word ++ "' outside of a loop"
  | .duplicateFunction name => "function '" ++ name ++ "' is defined more than once"
  | .mainBesideStatements => "'main' cannot be defined alongside top-level statements"

/-- The advice that a known name is meant. -/
def didYouMean (name : String) : String := "did you mean '" ++ name ++ "'?"

/-- What the writer can do about a fault. -/
def help : ScopeFault → Option String
  | .undefinedVariable _ near => near.map didYouMean
  | .undefinedFunction _ near =>
    some ((near.map didYouMean).getD "use @( ... ) to run an external command")
  | .unusedResult =>
    some "only calls, external commands and pipelines can be used as statements"
  | .mainBesideStatements => some "move the top-level statements into main()"
  | _ => none

end ScopeFault

/-- A fault and the place it is about. -/
structure ScopeError where
  fault : ScopeFault
  span : Span
  file : String
  deriving DecidableEq, Repr

/-! ## Names -/

/-- What is known of each of some names. -/
abbrev Names (α : Type) := List (String × α)

namespace Names

variable {α : Type}

/-- What is known of a name. -/
def get? (names : Names α) (name : String) : Option α := names.lookup name

/-- A name is known. -/
def has (names : Names α) (name : String) : Bool := (names.get? name).isSome

/-- The names with one of them added or changed. -/
def put (name : String) (a : α) : Names α → Names α
  | [] => [(name, a)]
  | (key, b) :: rest => if key = name then (name, a) :: rest else (key, b) :: put name a rest

/-- All names. -/
def keys (names : Names α) : List String := names.map (·.1)

end Names

/-- What a caller has to know of a function. -/
structure Signature where
  arity : Nat
  /-- The type of its value, as far as it is known by now. -/
  result : Ty
  deriving DecidableEq, Repr

/-- What is known about names at one point of a program. -/
structure Scope where
  /-- The file that the point lies in. -/
  file : String
  signatures : Names Signature
  globals : Names Ty
  /-- The variables of the function at hand; none outside functions. -/
  locals : Option (Names Ty)
  /-- The type of the values returned so far. -/
  result : Option Ty

namespace Scope

/-- The variable that a name means, and its type. Local variables come first. -/
def find? (s : Scope) (name : String) : Option (Variable × Ty) :=
  match s.locals.bind (·.get? name) with
  | some ty => some (⟨name, false⟩, ty)
  | none => (s.globals.get? name).map fun ty => (⟨name, true⟩, ty)

/-- All variables that can be named. -/
def known (s : Scope) : List String :=
  s.globals.keys ++ (s.locals.map Names.keys).getD []

/-- Gives a value of some type to a name: to the local variable of that name, else to the global
one, else to a new local one. -/
def bind (s : Scope) (name : String) (ty : Ty) : Variable × Scope :=
  match s.locals with
  | some locals =>
    if locals.has name || !s.globals.has name then
      (⟨name, false⟩, { s with locals := some (locals.put name ty) })
    else (⟨name, true⟩, { s with globals := s.globals.put name ty })
  | none => (⟨name, true⟩, { s with globals := s.globals.put name ty })

/-- Takes note of a returned value. The first type that is known stays. -/
def noteResult (s : Scope) (ty : Ty) : Scope :=
  match s.result with
  | none | some .undef => { s with result := some ty }
  | some _ => s

/-- A fault at a place of the file at hand. -/
def error (s : Scope) (fault : ScopeFault) (span : Span) : ScopeError := ⟨fault, span, s.file⟩

end Scope

end Shellwright.Core
