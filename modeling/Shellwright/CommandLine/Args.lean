import Shellwright.CommandLine.Request
import Shellwright.Text.Visible

/-!
# Arguments

How the arguments of a call are read. They are read from the left, and the first fault decides.
A value that is attached to its option is looked at at once. A value that is an argument of its
own, the input among them, is looked at only when the next argument has been understood, or
when there is none; so an argument that is not understood decides before a bad value that
stands just before it.
-/

namespace Shellwright.CommandLine

open Text (visible)

/-! ## Vocabulary -/

/-- Arguments that stand alone. -/
inductive Flag where
  | library
  | plainFile
  | check
  | surface
  | core
  | help
  | version
  deriving DecidableEq, Repr

def Flag.name : Flag → String
  | .library => "library"
  | .plainFile => "no-chmod-x"
  | .check => "check"
  | .surface => "emit-ast"
  | .core => "emit-ir"
  | .help => "help"
  | .version => "version"

/-- Every flag once. -/
def Flag.all : List Flag :=
  [.library, .plainFile, .check, .surface, .core, .help, .version]

/-- Arguments with a value. -/
inductive Setting where
  | target
  | output
  deriving DecidableEq, Repr

def Setting.name : Setting → String
  | .target => "target"
  | .output => "out"

/-- What the value of a setting is called. -/
def Setting.valueName : Setting → String
  | .target => "TARGET"
  | .output => "FILE"

/-- Every setting once. -/
def Setting.all : List Setting := [.target, .output]

/-- What an argument can be the name of. -/
inductive Switch where
  | flag (flag : Flag)
  | setting (setting : Setting)
  deriving DecidableEq, Repr

namespace Switch

/-- How an option is named in a message. -/
def shown : Switch → String
  | .flag f => "--" ++ f.name
  | .setting s => "--" ++ s.name ++ " <" ++ s.valueName ++ ">"

/-- The option with a long name. -/
def ofLong? (name : String) : Option Switch :=
  match Flag.all.find? (·.name = name), Setting.all.find? (·.name = name) with
  | some f, _ => some (.flag f)
  | none, some s => some (.setting s)
  | none, none => none

/-- The option with a short name. -/
def ofShort? : Char → Option Switch
  | 'o' => some (.setting .output)
  | 'h' => some (.flag .help)
  | 'V' => some (.flag .version)
  | _ => none

end Switch

/-! ## Faults -/

/-- Why arguments are not understood. -/
inductive UsageFault where
  | unexpectedArgument (arg : String)
  | unexpectedValue (value : String) (switch : Switch)
  | missingValue (shown : String)
  | invalidTarget (value : String)
  | repeated (switch : Switch)
  | conflict (first : Flag) (others : List Flag)
  deriving DecidableEq, Repr

/-- What is said of a fault. Of what was typed only the visible part is repeated. -/
def UsageFault.message : UsageFault → String
  | .unexpectedArgument arg => "unexpected argument '" ++ visible arg ++ "' found"
  | .unexpectedValue value switch =>
    "unexpected value '" ++ visible value ++ "' for '" ++ switch.shown
      ++ "' found; no more were expected"
  | .missingValue shown => "a value is required for '" ++ shown ++ "' but none was supplied"
  | .invalidTarget value =>
    "invalid value '" ++ visible value ++ "' for '" ++ (Switch.setting .target).shown ++ "': "
      ++ Target.unknownMessage (visible value)
  | .repeated switch => "the argument '" ++ switch.shown ++ "' cannot be used multiple times"
  | .conflict first [other] =>
    "the argument '--" ++ first.name ++ "' cannot be used with '--" ++ other.name ++ "'"
  | .conflict first others =>
    "the argument '--" ++ first.name ++ "' cannot be used with:"
      ++ String.join (others.map ("\n  --" ++ ·.name))

/-- Why reading arguments ends early. -/
inductive Stop where
  | help
  | version
  | fault (fault : UsageFault)
  deriving DecidableEq, Repr

/-! ## Reading -/

/-- A value that is still to be looked at. -/
inductive Pending where
  /-- The value of a setting, if it was given. -/
  | setting (setting : Setting) (value : Option String)
  | input (text : String)
  deriving DecidableEq, Repr

/-- What the arguments read so far say. -/
structure Draft where
  input : Option String := none
  target : Option Target := none
  output : Option String := none
  /-- The flags given, in their order. -/
  flags : List Flag := []
  pending : Option Pending := none

namespace Draft

/-- Ends with a fault. -/
def fail {α : Type} (fault : UsageFault) : Except Stop α := .error (.fault fault)

/-- Looks at the value of a setting. -/
def set (d : Draft) (setting : Setting) (value : Option String) : Except Stop Draft :=
  match setting, value with
  | .target, some value =>
    if d.target.isSome then fail (.repeated (.setting .target))
    else
      match Target.ofName? value with
      | some target => .ok { d with target := some target }
      | none => fail (.invalidTarget value)
  | .output, some value =>
    if d.output.isSome then fail (.repeated (.setting .output))
    else if value.isEmpty then fail (.missingValue (Switch.setting .output).shown)
    else .ok { d with output := some value }
  | setting, none => fail (.missingValue (Switch.setting setting).shown)

/-- Looks at the input. -/
def setInput (d : Draft) (text : String) : Except Stop Draft :=
  if text.isEmpty then fail (.missingValue "[INPUT]") else .ok { d with input := some text }

/-- Looks at the value that is still to be looked at. -/
def settle (d : Draft) : Except Stop Draft :=
  match d.pending with
  | none => .ok d
  | some (.setting setting value) => { d with pending := none }.set setting value
  | some (.input text) => { d with pending := none }.setInput text

/-- An input was given, whether it has been looked at or not. -/
def hasInput (d : Draft) : Bool :=
  match d.pending with
  | some (.input _) => true
  | _ => d.input.isSome

/-- Takes a flag. -/
def addFlag (d : Draft) (flag : Flag) : Except Stop Draft := do
  let d ← d.settle
  match flag with
  | .help => .error .help
  | .version => .error .version
  | flag =>
    if flag ∈ d.flags then fail (.repeated (.flag flag))
    else return { d with flags := d.flags ++ [flag] }

/-- Takes a setting, with a value if one is attached to it. -/
def addSetting (d : Draft) (setting : Setting) (value : Option String) : Except Stop Draft := do
  let d ← d.settle
  match value with
  | some value => d.set setting (some value)
  | none => return { d with pending := some (.setting setting none) }

/-- Takes an argument that is no option. -/
def addInput (d : Draft) (arg : String) : Except Stop Draft :=
  if d.hasInput then fail (.unexpectedArgument arg)
  else do return { ← d.settle with pending := some (.input arg) }

/-- Takes a long option, after its two dashes. -/
def addLong (d : Draft) (body : List Char) : Except Stop Draft :=
  let name := String.ofList (body.takeWhile (· ≠ '='))
  let value := match body.dropWhile (· ≠ '=') with
    | _ :: rest => some (String.ofList rest)
    | [] => none
  match Switch.ofLong? name, value with
  | none, _ => fail (.unexpectedArgument ("--" ++ name))
  | some (.flag f), none => d.addFlag f
  | some (.flag f), some value => fail (.unexpectedValue value (.flag f))
  | some (.setting s), value => d.addSetting s value

/-- Takes short options, after their dash. What follows a setting is its value. -/
def addShort (d : Draft) : List Char → Except Stop Draft
  | [] => .ok d
  | c :: rest =>
    match Switch.ofShort? c, rest with
    | none, _ => fail (.unexpectedArgument ("-" ++ String.singleton c))
    | some (.flag f), rest => do addShort (← d.addFlag f) rest
    | some (.setting s), [] => d.addSetting s none
    | some (.setting s), '=' :: value => d.addSetting s (some (String.ofList value))
    | some (.setting s), value => d.addSetting s (some (String.ofList value))

/-- Takes one argument. An argument without dash is the value of a setting that still needs
one. -/
def addArg (d : Draft) (arg : String) : Except Stop Draft :=
  match arg.toList with
  | '-' :: '-' :: body => d.addLong body
  | '-' :: c :: body => d.addShort (c :: body)
  | _ =>
    match d.pending with
    | some (.setting setting none) =>
      .ok { d with pending := some (.setting setting (some arg)) }
    | _ => d.addInput arg

/-- Takes arguments, all of which are inputs once two dashes have been seen. -/
def addArgs (d : Draft) (inputsOnly : Bool) : List String → Except Stop Draft
  | [] => d.settle
  | arg :: rest =>
    if inputsOnly then do (← d.addInput arg).addArgs true rest
    else if arg = "--" then d.addArgs true rest
    else do (← d.addArg arg).addArgs false rest

end Draft

/-- The flags of which only one can be given. -/
def exclusive : List Flag := [.check, .surface, .core]

/-- The first fault among flags that exclude each other. -/
def conflictOf? (flags : List Flag) : Option UsageFault :=
  match flags.filter (· ∈ exclusive) with
  | first :: other :: others => some (.conflict first (other :: others))
  | _ => none

/-- The request that arguments make. -/
def Request.ofArgs (args : List String) : Except Stop Request := do
  let d ← Draft.addArgs {} false args
  match conflictOf? d.flags with
  | some fault => .error (.fault fault)
  | none => return {
      input := d.input.map Path.mk
      target := d.target.getD .bash
      library := .library ∈ d.flags
      output := d.output.map Path.mk
      plainFile := .plainFile ∈ d.flags
      check := .check ∈ d.flags
      surface := .surface ∈ d.flags
      core := .core ∈ d.flags }

end Shellwright.CommandLine
