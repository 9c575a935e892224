/-!
# Paths

A path is kept as it was written. Its components are read off the text: repeated separators and
single dots between components mean nothing, a leading dot of a relative path is kept, and a
double dot is a component of its own. Operations that shorten a path cut its text at a
component's end, so what is left is still written as it was.
-/

namespace Shellwright

/-- A path, as written. -/
structure Path where
  text : String
  deriving DecidableEq, Repr, Inhabited

/-- One step of a path. -/
inductive Component where
  /-- The separator that an absolute path begins with. -/
  | root
  /-- The dot that a relative path begins with. -/
  | here
  /-- Two dots. -/
  | up
  | name (text : String)
  deriving DecidableEq, Repr

namespace Path

/-- A component with the range of characters it takes up. -/
structure Mark where
  component : Component
  start : Nat
  stop : Nat

/-! ## Components -/

/-- The pieces of a text between separators, each with its place, when the text begins at
`pos`. -/
def pieces (pos : Nat) : List Char → List (Nat × List Char)
  | [] => [(pos, [])]
  | c :: cs =>
    if c = '/' then (pos, []) :: pieces (pos + 1) cs
    else
      match pieces (pos + 1) cs with
      | (_, piece) :: rest => (pos, c :: piece) :: rest
      | [] => [(pos, [c])]

/-- The component that a piece stands for, if any. -/
def Mark.ofPiece (piece : Nat × List Char) : Option Mark :=
  let stop := piece.1 + piece.2.length
  match piece.2 with
  | [] => none
  | ['.'] => if piece.1 = 0 then some ⟨.here, piece.1, stop⟩ else none
  | ['.', '.'] => some ⟨.up, piece.1, stop⟩
  | cs => some ⟨.name (String.ofList cs), piece.1, stop⟩

def chars (p : Path) : List Char := p.text.toList

/-- The path begins at the root. -/
def isAbsolute (p : Path) : Bool := p.chars.head? = some '/'

/-- The components with their places. -/
def marks (p : Path) : List Mark :=
  let inner := (pieces 0 p.chars).filterMap Mark.ofPiece
  if p.isAbsolute then ⟨.root, 0, 1⟩ :: inner else inner

/-- The characters between two places. -/
def cut (p : Path) (start stop : Nat) : String :=
  String.ofList ((p.chars.take stop).drop start)

/-- The last component's name, unless the path ends in dots or is the root. -/
def fileName? (p : Path) : Option String :=
  match p.marks.getLast? with
  | some ⟨.name text, _, _⟩ => some text
  | _ => none

/-- The path without its last component; none for the root and the empty path. -/
def parent? (p : Path) : Option Path :=
  match p.marks.reverse with
  | [] => none
  | ⟨.root, _, _⟩ :: _ => none
  | _ :: [] => some ⟨""⟩
  | _ :: before :: _ => some ⟨p.cut 0 before.stop⟩

/-! ## Building -/

/-- The path of `inner` as seen from `p`. An absolute path is the same from everywhere. -/
def join (p inner : Path) : Path :=
  if inner.isAbsolute then inner
  else if p.text.isEmpty || p.chars.getLast? = some '/' then ⟨p.text ++ inner.text⟩
  else ⟨p.text ++ "/" ++ inner.text⟩

/-- The file name has a dot other than its first character. -/
def hasExtension (p : Path) : Bool :=
  match p.fileName? with
  | some name => (name.toList.drop 1).contains '.'
  | none => false

/-- The path with an extension added to its file name; a path without file name
stays as it is. -/
def addExtension (p : Path) (extension : String) : Path :=
  match p.fileName?, p.marks.getLast? with
  | some _, some last => ⟨p.cut 0 last.stop ++ "." ++ extension⟩
  | _, _ => p

/-! ## Showing -/

/-- What is left of the components after those of a base, if they begin with them. -/
def after? : List Mark → List Mark → Option (List Mark)
  | ms, [] => some ms
  | [], _ :: _ => none
  | m :: ms, b :: bs => if m.component = b.component then after? ms bs else none

/-- The part of the path below a base. -/
def relativeTo? (p base : Path) : Option String :=
  match after? p.marks base.marks with
  | none => none
  | some rest =>
    let stop := (rest.getLast?.map (·.stop)).getD 0
    match base.marks, rest with
    | [], _ => some (p.cut 0 stop)
    | _ :: _, [] => some ""
    | _ :: _, first :: _ => some (p.cut first.start stop)

/-- The text shown for a path: a relative path as it is, an absolute one below the base, or else
by its file name. Separators are shown as slashes. -/
def shown (p : Path) (base : Option Path) : String :=
  let text :=
    if !p.isAbsolute then p.text
    else
      match base.bind p.relativeTo? with
      | some rest => rest
      | none => p.fileName?.getD p.text
  String.ofList (text.toList.map fun c => if c = '\\' then '/' else c)

end Path

end Shellwright
