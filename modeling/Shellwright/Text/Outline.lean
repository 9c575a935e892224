import Shellwright.Text.Quoted

/-!
# Outlines

An outline shows a tree as text, every part on a line of its own and four spaces in from the
part it belongs to.
-/

namespace Shellwright.Text

/-- A tree to be shown. -/
inductive Outline where
  /-- A value on one line. -/
  | leaf (text : String)
  /-- Named parts. -/
  | record (name : String) (fields : List (String × Outline))
  /-- Parts without names. -/
  | tuple (name : String) (items : List Outline)
  | list (items : List Outline)

namespace Outline

/-- A text in quotes. -/
def text (s : String) : Outline := .leaf (quoted s)

def bool (b : Bool) : Outline := .leaf (if b then "true" else "false")

def nat (n : Nat) : Outline := .leaf (toString n)

/-- A value that may be missing. -/
def option {α : Type} (f : α → Outline) : Option α → Outline
  | none => .leaf "None"
  | some a => .tuple "Some" [f a]

/-- The blanks before a part that lies `depth` levels deep. -/
def pad (depth : Nat) : String := String.ofList (List.replicate (4 * depth) ' ')

mutual

/-- The lines of an outline whose first line is already set in by `depth` levels. -/
def render (depth : Nat) : Outline → String
  | .leaf text => text
  | .record name fields =>
    name ++ " \x7b\n" ++ renderFields (depth + 1) fields ++ pad depth ++ "\x7d"
  | .tuple name items => name ++ "(\n" ++ renderItems (depth + 1) items ++ pad depth ++ ")"
  | .list [] => "[]"
  | .list (first :: rest) =>
    "[\n" ++ pad (depth + 1) ++ render (depth + 1) first ++ ",\n" ++ renderItems (depth + 1) rest
      ++ pad depth ++ "]"

/-- The lines of parts without names. -/
def renderItems (depth : Nat) : List Outline → String
  | [] => ""
  | item :: rest => pad depth ++ render depth item ++ ",\n" ++ renderItems depth rest

/-- The lines of named parts. -/
def renderFields (depth : Nat) : List (String × Outline) → String
  | [] => ""
  | (name, value) :: rest =>
    pad depth ++ name ++ ": " ++ render depth value ++ ",\n" ++ renderFields depth rest

end

/-- The text of an outline. -/
def toText (o : Outline) : String := o.render 0

end Outline

end Shellwright.Text
