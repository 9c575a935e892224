/-!
# Visible text

Some characters of a text are orders to a terminal. A message that repeats a text that someone
typed leaves them out: control characters other than blanks, and the sequences that an escape
character starts. What is left is what a reader of the message sees.
-/

namespace Shellwright.Text

/-- Where the next character of a text stands. -/
inductive Order where
  /-- In no order. -/
  | none
  /-- Just after an escape character. -/
  | escape
  /-- In an order that has begun with marks and ends with a letter or a digit. -/
  | marked
  /-- In an order with numbers, which ends with a letter. -/
  | control
  /-- In a title, which ends with a bell. -/
  | title
  /-- In a message for the terminal, which only another order ends. -/
  | message
  deriving DecidableEq, Repr

/-- The control characters that leave a blank. -/
def isSpacing (c : Char) : Bool := c = '\t' || c = '\n' || c = '\x0c' || c = '\r'

/-- Where the character after `c` stands, when `c` follows an escape character. -/
def Order.start (c : Char) : Order :=
  if c = '[' then .control
  else if c = ']' then .title
  else if c = 'P' || c = 'X' || c = '^' || c = '_' then .message
  else if '0' ≤ c && c ≤ '~' then .none
  else if ' ' ≤ c && c ≤ '/' then .marked
  else .escape

/-- Where the character after `c` stands. -/
def Order.next (o : Order) (c : Char) : Order :=
  if c = '\x1b' then .escape
  else if c = '\x18' || c = '\x1a' then .none
  else
    match o with
    | .none => .none
    | .escape => if isSpacing c then .none else start c
    | .marked => if isSpacing c || ('0' ≤ c && c ≤ '~') then .none else .marked
    | .control => if isSpacing c || ('@' ≤ c && c ≤ '~') then .none else .control
    | .title => if c = '\x07' then .none else .title
    | .message => .message

/-- A character that stands at `o` is seen. -/
def Order.shows (o : Order) (c : Char) : Bool :=
  match o with
  | .none => isSpacing c || (' ' ≤ c && c ≠ '\x7f')
  | .escape | .marked | .control => isSpacing c
  | .title | .message => false

/-- What is seen of a text that begins at `o`. -/
def visibleFrom (o : Order) : List Char → List Char
  | [] => []
  | c :: cs => if o.shows c then c :: visibleFrom (o.next c) cs else visibleFrom (o.next c) cs

/-- What is seen of a text. -/
def visible (text : String) : String := String.ofList (visibleFrom .none text.toList)

end Shellwright.Text
