import Shellwright.Token.Lexer

/-!
# Interpolated text

The raw text of a string or a command is a sequence of plain text and references to variables. A
reference is `$name` or `${name}`; a backslash and the character after it are plain text, so an
escaped dollar sign starts no reference.
-/

namespace Shellwright.Surface

open Text (byteSize)

/-- A piece of interpolated text. -/
inductive Segment where
  | text (text : String)
  /-- A reference to a variable; `raw` is the reference as written. -/
  | ref (name raw : String) (span : Span)
  deriving DecidableEq, Repr

namespace Segment

/-- The text that a segment was read from. -/
def raw : Segment → String
  | .text s => s
  | .ref _ s _ => s

/-- Puts plain text before segments, as part of the first one if that is plain text too. -/
def consText (text : String) : List Segment → List Segment
  | .text next :: rest => .text (text ++ next) :: rest
  | segments => .text text :: segments

/-- A name at the start of a text. -/
def leadingName (cs : List Char) : Option (List Char) :=
  match cs with
  | c :: _ => if isNameStart c then some (cs.takeWhile isNameChar) else none
  | [] => none

/-- The reference that a dollar sign before `cs` starts, if any: its name, and what
it takes of `cs`. -/
def reference? (cs : List Char) : Option (List Char × List Char) :=
  match cs with
  | '\x7b' :: inner =>
    match leadingName inner with
    | some name =>
      if (inner.drop name.length).head? =
        some '\x7d' then some (name, '\x7b' :: name ++ ['\x7d'])
      else none
    | none => none
  | _ => (leadingName cs).map fun name => (name, name)

/-- The segments of a text whose first character stands at byte `pos`, after passing over the
first `skip` characters, which lie before `pos`. -/
def splitFrom : Nat → Nat → List Char → List Segment
  | _, _, [] => []
  | skip + 1, pos, _ :: cs => splitFrom skip pos cs
  | 0, pos, '\\' :: c :: cs =>
    consText (String.ofList ['\\', c]) (splitFrom 0 (pos + byteSize ['\\', c]) cs)
  | 0, pos, c :: cs =>
    if c = '$' then
      match reference? cs with
      | some (name, taken) =>
        let stop := pos + byteSize (c :: taken)
        .ref (String.ofList name) (String.ofList (c :: taken)) ⟨pos, stop⟩ ::
          splitFrom taken.length stop cs
      | none => consText (String.singleton c) (splitFrom 0 (pos + c.utf8Size) cs)
    else consText (String.singleton c) (splitFrom 0 (pos + c.utf8Size) cs)

/-- The segments of a raw text that begins at byte `base`. -/
def split (base : Nat) (raw : String) : List Segment :=
  splitFrom 0 base raw.toList

end Segment

end Shellwright.Surface
