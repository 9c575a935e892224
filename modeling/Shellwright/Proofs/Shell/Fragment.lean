import Shellwright.Proofs.Shell.Arithmetic

/-!
# Words and tests of the shell

The part of the shell that values and conditions of scripts are written in. A word is a row of
pieces: plain characters, values of variables, arithmetic expansions, and substitutions that
turn a test into `1` or `0`. A test compares the numbers that two words stand for, or joins two
tests, where `&&` binds tighter than `||` and the second test is looked at only if the first one
leaves something to decide.

`readWord` and `readTest` read texts, `expand` and `Test.holds` say what comes out of what was
read. As in the shell, an arithmetic expansion is expanded as text before its arithmetic is read.
A division by zero ends the evaluation as a whole.
-/

namespace Shellwright.Shell

open Shellwright.Script

/-! ## Words and tests -/

/-- How two numbers can be compared. -/
inductive Relation where
  | eq
  | ne
  | lt
  | le
  | gt
  | ge
  deriving DecidableEq, Repr

namespace Relation

def word : Relation → String
  | .eq => "-eq"
  | .ne => "-ne"
  | .lt => "-lt"
  | .le => "-le"
  | .gt => "-gt"
  | .ge => "-ge"

def all : List Relation := [.eq, .ne, .lt, .le, .gt, .ge]

def holds : Relation → Int64 → Int64 → Bool
  | .eq, a, b => a = b
  | .ne, a, b => a ≠ b
  | .lt, a, b => a < b
  | .le, a, b => a ≤ b
  | .gt, a, b => b < a
  | .ge, a, b => b ≤ a

end Relation

mutual

/-- A piece of a word. -/
inductive Piece where
  | plain (c : Char)
  | var (name : String)
  /-- The value of an arithmetic text, after the text has been expanded. -/
  | arith (body : List Piece)
  /-- `1` if the test holds, or fails in case it is inverted, and `0` otherwise. -/
  | decision (inverted : Bool) (test : Test)

/-- A test. -/
inductive Test where
  | compare (relation : Relation) (left right : List Piece)
  | both (first second : Test)
  | either (first second : Test)

end

mutual

/-- What a piece expands to, given the texts that variables hold. -/
def Piece.expand (env : String → String) : Piece → Except Failure (List Char)
  | .plain c => .ok [c]
  | .var name => .ok (env name).toList
  | .arith body => do
    let v ← arithValue (← expand env body)
    return (intText v).toList
  | .decision inverted test => do
    return (boolText ((← test.holds env) != inverted)).toList

/-- What a word expands to. -/
def expand (env : String → String) : List Piece → Except Failure (List Char)
  | [] => .ok []
  | p :: ps => do
    let text ← p.expand env
    let rest ← expand env ps
    return text ++ rest

/-- Whether a test holds. -/
def Test.holds (env : String → String) : Test → Except Failure Bool
  | .compare relation left right => do
    let a ← arithValue (← expand env left)
    let b ← arithValue (← expand env right)
    return relation.holds a b
  | .both first second => do
    if ← first.holds env then second.holds env else return false
  | .either first second => do
    if ← first.holds env then return true else second.holds env

end

/-! ## Reading -/

/-- What follows a given beginning of a text. -/
def after? : List Char → List Char → Option (List Char)
  | [], cs => some cs
  | a :: as, c :: cs => if a = c then after? as cs else none
  | _ :: _, [] => none

/-- The name of a variable, and what follows it. -/
def readName (cs : List Char) : Option (String × List Char) :=
  match cs.takeWhile isNameChar with
  | [] => none
  | c :: name =>
    if isNameStart c then some (.ofList (c :: name), cs.dropWhile isNameChar) else none

/-- A relation between two words, with a blank before and after it. -/
def readRelation (cs : List Char) : Option (Relation × List Char) :=
  Relation.all.findSome? fun r => (after? (' ' :: r.word.toList ++ [' ']) cs).map (r, ·)

/-- How many brackets are open after a character of an arithmetic text. -/
def depthAfter (c : Char) (depth : Nat) : Nat :=
  if c = '(' then depth + 1 else if c = ')' then depth - 1 else depth

mutual

/-- The pieces of a word, up to a blank or the end of the text. -/
def readWord (cs : List Char) : Option (List Piece × List Char) :=
  match cs with
  | [] => some ([], [])
  | c :: cs =>
    if c = ' ' then some ([], c :: cs)
    else if c = '$' then do
      let (p, rest) ← readExpansion cs
      let ⟨rest, _⟩ ← leftOf cs rest
      let (ps, rest) ← readWord rest
      return (p :: ps, rest)
    else if c = '"' then do
      let ⟨inner, _⟩ ← (after? ['$'] cs).bind (leftOf cs)
      let (p, rest) ← readExpansion inner
      let ⟨rest, _⟩ ← (after? ['"'] rest).bind (leftOf cs)
      let (ps, rest) ← readWord rest
      return (p :: ps, rest)
    else if c.isDigit || c = '-' then do
      let (ps, rest) ← readWord cs
      return (.plain c :: ps, rest)
    else none
termination_by (cs.length, 0)

/-- The pieces of an arithmetic text in which `depth` brackets are open, through the two
brackets that end it. -/
def readArith (depth : Nat) (cs : List Char) : Option (List Piece × List Char) :=
  match cs with
  | [] => none
  | c :: cs =>
    if c = '$' then do
      let (p, rest) ← readExpansion cs
      let ⟨rest, _⟩ ← leftOf cs rest
      let (ps, rest) ← readArith depth rest
      return (p :: ps, rest)
    else if c = ')' && depth = 0 then do
      let rest ← after? [')'] cs
      return ([], rest)
    else if c = ' ' || c.isDigit || isArithMark c then do
      let (ps, rest) ← readArith (depthAfter c depth) cs
      return (.plain c :: ps, rest)
    else none
termination_by (cs.length, 0)

/-- What a dollar sign stands for that comes before the text. -/
def readExpansion (cs : List Char) : Option (Piece × List Char) :=
  match (after? ['(', '('] cs).bind (leftOf cs) with
  | some ⟨body, _⟩ => do
    let (body, rest) ← readArith 0 body
    return (.arith body, rest)
  | none =>
    match (after? "([[ ".toList cs).bind (leftOf cs) with
    | some ⟨test, _⟩ => readDecision false test
    | none =>
      match (after? "(! [[ ".toList cs).bind (leftOf cs) with
      | some ⟨test, _⟩ => readDecision true test
      | none => (readName cs).map fun (name, rest) => (.var name, rest)
termination_by (cs.length, 0)

/-- A test and what turns it into `1` or `0`. -/
def readDecision (inverted : Bool) (cs : List Char) : Option (Piece × List Char) := do
  let (test, rest) ← readTest cs
  let rest ← after? " ]] && echo 1 || echo 0)".toList rest
  return (.decision inverted test, rest)
termination_by (cs.length, 4)

/-- A test; `||` binds loosest. -/
def readTest (cs : List Char) : Option (Test × List Char) := do
  let (first, rest) ← readConjunction cs
  match (after? " || ".toList rest).bind (leftOf cs) with
  | some ⟨more, _⟩ => do
    let (second, rest) ← readTest more
    return (.either first second, rest)
  | none => return (first, rest)
termination_by (cs.length, 3)

def readConjunction (cs : List Char) : Option (Test × List Char) := do
  let (first, rest) ← readCondition cs
  match (after? " && ".toList rest).bind (leftOf cs) with
  | some ⟨more, _⟩ => do
    let (second, rest) ← readConjunction more
    return (.both first second, rest)
  | none => return (first, rest)
termination_by (cs.length, 2)

/-- A test in brackets, or two words with a relation between them. -/
def readCondition (cs : List Char) : Option (Test × List Char) :=
  match (after? "( ".toList cs).bind (leftOf cs) with
  | some ⟨inner, _⟩ => do
    let (test, rest) ← readTest inner
    let rest ← after? " )".toList rest
    return (test, rest)
  | none => do
    let (left, rest) ← readWord cs
    let (relation, rest) ← readRelation rest
    let ⟨rest, _⟩ ← leftOf cs rest
    let (right, rest) ← readWord rest
    return (.compare relation left right, rest)
termination_by (cs.length, 1)

end

end Shellwright.Shell
