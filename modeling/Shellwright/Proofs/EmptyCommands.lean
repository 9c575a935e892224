import Shellwright.Proofs.Commands
import Shellwright.Proofs.Mentions

/-!
# Empty commands

A block of a script must have a command in it. A block that would have no line gets one that does
nothing. But the text of an external command is up to the program: if it is empty, then so is the
line or the side of a pipe that it makes, and the shell does not take it; and if it is only a
comment, then the line is no command either.

* `blankText`, `voidText`: texts that show nothing, and texts that the shell passes over.
* `exprText_blank`: only an empty external command is written as nothing.
* `BlockLines`: what the lines of a block are.
* `Yields.written_blocks`: the blocks of a script are those of its program.
* `blocks_lined`: the blocks of a script, and the sides of its pipes.
-/

namespace Shellwright.Script

open Shellwright.Core
open Shellwright.Text (isBlank)

/-! ## Texts without commands -/

/-- The text shows nothing. -/
def blankText (s : String) : Bool := s.toList.all isBlank

/-- Characters that the shell passes over, in a comment or not: blanks, and comments to the
end of their line. -/
def isVoidFrom : Bool → List Char → Bool
  | _, [] => true
  | true, c :: rest => isVoidFrom (c != '\n') rest
  | false, c :: rest =>
    if c = ' ' || c = '\t' || c = '\n' then isVoidFrom false rest
    else c = '#' && isVoidFrom true rest

/-- The text is no command. -/
def voidText (s : String) : Bool := isVoidFrom false s.toList

/-- The text begins with a word of a command. -/
def BeginsWord (s : String) : Prop :=
  ∃ c rest, s.toList = c :: rest ∧ isBlank c = false ∧ c ≠ '#'

/-- A text is blank just if its parts are. -/
@[simp] theorem blankText_append (s t : String) :
    blankText (s ++ t) = (blankText s && blankText t) := by
  simp [blankText]

@[simp] theorem blankText_empty : blankText "" = true := rfl

theorem BeginsWord.append {s : String} (h : BeginsWord s) (t : String) :
    BeginsWord (s ++ t) := by
  obtain ⟨c, rest, chars, solid⟩ := h
  exact ⟨c, rest ++ t.toList, by rw [String.toList_append, chars, List.cons_append], solid⟩

/-- What begins with a word is not blank. -/
theorem BeginsWord.blankText {s : String} (h : BeginsWord s) : blankText s = false := by
  obtain ⟨c, rest, chars, solid, -⟩ := h
  rw [Script.blankText, chars, List.all_cons, solid]
  rfl

/-- Nor is it without a command. -/
theorem BeginsWord.voidText {s : String} (h : BeginsWord s) : voidText s = false := by
  obtain ⟨c, rest, chars, solid, comment⟩ := h
  have others : c ≠ ' ' ∧ c ≠ '\t' ∧ c ≠ '\n' := by
    refine ⟨?_, ?_, ?_⟩ <;> rintro rfl <;> cases solid
  rw [Script.voidText, chars, isVoidFrom]
  simp [others, comment]

/-- A name begins a word. -/
theorem beginsWord_of_isName {s : String} (h : Surface.Segment.IsName s.toList) :
    BeginsWord s := by
  obtain ⟨⟨c, rest, chars, -⟩, all⟩ := h
  have isNameChar := all c (chars ▸ .head _)
  refine ⟨c, rest, chars, isBlank_eq_false_of_isNameChar isNameChar, ?_⟩
  rintro rfl
  cases isNameChar

/-- Every command but a command line of the program begins with a word, if variables have
names. -/
theorem Command.beginsWord {c : Command} (line : ∀ text, c ≠ .run text)
    (named : ∀ x value, c = .assign x value → Surface.Segment.IsName x.toList) (indent : Nat) :
    BeginsWord (c.text indent) := by
  cases c with
  | declare x value =>
    rw [Command.text, String.append_assoc, String.append_assoc]
    exact BeginsWord.append ⟨'l', _, rfl, by decide, by decide⟩ _
  | assign x value =>
    rw [Command.text, String.append_assoc]
    exact (beginsWord_of_isName (named x value rfl)).append _
  | branch test body o =>
    rw [Command.text]
    simp only [String.append_assoc]
    exact BeginsWord.append ⟨'i', _, rfl, by decide, by decide⟩ _
  | loop x items body =>
    rw [Command.text]
    simp only [String.append_assoc]
    exact BeginsWord.append ⟨'f', _, rfl, by decide, by decide⟩ _
  | answer word =>
    rw [Command.text, String.append_assoc]
    exact BeginsWord.append ⟨'e', _, rfl, by decide, by decide⟩ _
  | jump jump =>
    rw [Command.text]
    cases jump
    · exact ⟨_, _, rfl, by decide, by decide⟩
    · exact ⟨_, _, rfl, by decide, by decide⟩
  | run text => exact absurd rfl (line text)
  | idle =>
    rw [Command.text]
    exact ⟨':', _, rfl, by decide, by decide⟩

/-! ## Blocks inside blocks -/

mutual

/-- The blocks inside a command, at any depth. -/
def Command.blocksWithin : Command → List (List Command)
  | .branch _ body otherwise => body :: (commandsBlocks body ++ otherwise.blocksWithin)
  | .loop _ _ body => body :: commandsBlocks body
  | _ => []

def commandsBlocks : List Command → List (List Command)
  | [] => []
  | c :: rest => c.blocksWithin ++ commandsBlocks rest

def Otherwise.blocksWithin : Otherwise → List (List Command)
  | .done => []
  | .elseIf _ body otherwise => body :: (commandsBlocks body ++ otherwise.blocksWithin)
  | .final body => body :: commandsBlocks body

end

/-- The line of an empty block has no block in it. -/
theorem commandsBlocks_orIdle (cs : List Command) :
    commandsBlocks (orIdle cs) = commandsBlocks cs := by
  cases cs <;> rfl

theorem commandsBlocks_paramCommands (names : List String) (i : Nat) (cs : List Command) :
    commandsBlocks (paramCommands i names ++ cs) = commandsBlocks cs := by
  induction names generalizing i with
  | nil => rfl
  | cons name rest ih => exact ih (i + 1)

/-! ## Texts of expressions -/

theorem blankText_of_mem {s : String} {c : Char} (mem : c ∈ s.toList)
    (solid : isBlank c = false) :
    blankText s = false := by
  rw [blankText, List.all_eq_false]
  exact ⟨c, mem, by rw [solid]; exact Bool.false_ne_true⟩

theorem isBlank_eq_false_of_isDigit {c : Char} (digit : c.isDigit = true) : isBlank c = false :=
  isBlank_eq_false_of_isNameChar (by simp [isNameChar, Char.isAlphanum, digit])

/-- A number is not blank. -/
theorem blankText_intText (v : Int64) : blankText (intText v) = false := by
  obtain ⟨c, head, digit⟩ := Shell.toDigits_head v.toInt.natAbs []
  rw [List.append_nil] at head
  have mem : c ∈ (intText v).toList := by
    rw [Shell.intText_toList]
    split
    · exact .tail _ (List.mem_of_mem_head? head)
    · exact List.mem_of_mem_head? head
  exact blankText_of_mem mem (isBlank_eq_false_of_isDigit digit)

theorem isDigit_of_mem_shortest (v : Binary64) {c : Char}
    (mem : c ∈ (Decimal.shortest v).digits) :
    c.isDigit = true := by
  have digits : ∀ n, ∀ c ∈ Decimal.dropZeros (Nat.toDigits 10 n), c.isDigit = true := by
    intro n c mem
    have there : c ∈ (Nat.toDigits 10 n).reverse :=
      (List.dropWhile_sublist _).subset (List.mem_reverse.mp mem)
    exact Nat.isDigit_of_mem_toDigits (b := 10) (n := n) (by decide) (by decide)
      (List.mem_reverse.mp there)
  exact digits _ c mem

theorem blankText_positional {d : Decimal} (digits : ∀ c ∈ d.digits, c.isDigit = true)
    (tail : String) :
    blankText (d.positional tail) = false := by
  have zero : blankText "0." = false := rfl
  have point : blankText "." = false := rfl
  unfold Decimal.positional
  dsimp only
  split
  · simp [zero]
  split
  case isTrue above fits =>
    -- what has no digits has zeros up to the point
    cases chars : d.digits with
    | nil =>
      have zeros : '0' ∈ (Decimal.zeros (d.point.toNat - ([] : List Char).length)).toList := by
        rw [Decimal.zeros, String.toList_ofList]
        exact List.mem_replicate.mpr ⟨by simp; omega, rfl⟩
      rw [blankText_append, blankText_append, blankText_of_mem zeros (by decide), Bool.and_false,
        Bool.false_and]
    | cons c cs =>
      have first : c ∈ (String.ofList (c :: cs)).toList := by simp
      have digit := digits c (chars ▸ .head _)
      rw [blankText_append, blankText_append,
        blankText_of_mem first (isBlank_eq_false_of_isDigit digit), Bool.false_and,
        Bool.false_and]
  · simp [point]

/-- A fraction is not blank. -/
theorem blankText_fractionText (v : Binary64) : blankText (fractionText v) = false := by
  have whole : blankText ".0" = false := rfl
  unfold fractionText
  split
  · simp [whole]
  · unfold Layout.write
    split
    · rfl
    · have magnitude : blankText (Layout.plain.magnitude v) = false := by
        unfold Layout.magnitude
        split
        · rfl
        split
        · rfl
        · exact blankText_positional (fun c => isDigit_of_mem_shortest v) _
      simp [magnitude]

theorem blankText_operatorWord (asText : Bool) (op : BinaryOp) :
    blankText (operatorWord asText op) = false := by
  cases asText <;> cases op <;> rfl

/-- Nor is a variable, for a dollar sign comes first. -/
theorem blankText_variableText (m : Mode) (braced : Bool) (v : Variable) :
    blankText (variableText m braced v) = false := by
  have mark : blankText "$" = false := rfl
  simp [variableText, mark]

end Shellwright.Script

namespace Shellwright.Core

open Surface.Segment (IsName)
open Shellwright.Script

/-- A call has a name, and an external command that is not empty does not look empty. -/
def Expr.Solid : Expr → Prop
  | .command _ segments => segments = [] ∨ blankText (segmentsText bareMode segments) = false
  | .call _ name _ => IsName name.toList
  | _ => True

/-- Blanks around the text of a command were dropped when it was read. -/
theorem IsMeaning.solid {p : Surface.Program} {e : Expr} (h : IsMeaning p e)
    (obtained : Obtained p) :
    e.Solid := by
  obtain ⟨s, src, part, resolved⟩ := h
  obtain ⟨source, ts, own, scanned, run, spells⟩ := obtained.isRead part
  have among := Surface.Derives.keeps spells Surface.Rule.joins_expr
  cases e with
  | command ty segments =>
    cases resolveExpr_mirrors s resolved with
    | @command span _ gs _ _ =>
      cases resolved
      obtain ⟨raw, mem, same⟩ := among
      obtain ⟨t, isOwn, lexeme⟩ := List.mem_map.mp mem
      have trimmed := (closes_of_token scanned (run.subset isOwn) lexeme []).2
      have respelled := respelled_literalText s bareMode 0 raw
      rw [Expr.Solid, resolveSegments_eq s same]
      cases chars : raw.toList with
      | nil =>
        refine .inl ?_
        rw [Surface.Segment.split, chars]
        rfl
      | cons c cs =>
        have head : (literalText s bareMode 0 raw).toList.head? = some c := by
          rw [← respelled.head?_eq, chars]
          rfl
        exact .inr (blankText_of_mem (List.mem_of_mem_head? head)
          ((respelled.trimmed trimmed).1 c head))
  | call ty name args =>
    cases resolveExpr_mirrors s resolved with
    | call =>
      obtain ⟨t, isOwn, lexeme⟩ := List.mem_map.mp among
      exact Token.isName_of_scan scanned (run.subset isOwn) lexeme
  | _ => trivial

/-- Nothing is written as nothing but an empty external command that is only run. -/
theorem exprText_blank {m : Mode} {e : Expr} {s : String} (solid : e.Solid)
    (text : exprText m e = .ok s) :
    blankText s = true ↔ m.substitute = false ∧ ∃ ty, e = .command ty [] := by
  cases e with
  | int ty value =>
    cases text
    simp [blankText_intText]
  | fraction ty value =>
    cases text
    simp [blankText_fractionText]
  | bool ty value =>
    cases text
    cases value <;> simp [boolText] <;> rfl
  | text ty segments =>
    cases text
    have mark : blankText "\"" = false := rfl
    simp [mark]
  | var ty v =>
    cases text
    simp [blankText_variableText]
  | command ty segments =>
    cases text
    have same : segmentsText { m with quote := false } segments =
        segmentsText bareMode segments := by
      apply segmentsText_of_quote
      rfl
    have opens : blankText "$(" = false := rfl
    rw [same]
    cases on : m.substitute with
    | true => simp [substitutionOpen, on, opens]
    | false =>
      rcases solid with rfl | shows
      · simp [substitutionOpen, substitutionClose, on, segmentsText]
      · have some : segments ≠ [] := by
          rintro rfl
          cases shows
        simp [substitutionOpen, on, shows, some]
  | binary ty op left right =>
    rw [exprText] at text
    obtain ⟨l, -, text⟩ := bind_eq_ok.mp text
    obtain ⟨r, -, text⟩ := bind_eq_ok.mp text
    cases text
    simp [blankText_operatorWord]
  | unary ty op operand =>
    have sign : blankText "-" = false := rfl
    have arith : blankText "$((-(" = false := rfl
    have test : blankText "$(! [[ " = false := rfl
    cases op with
    | negate =>
      rw [exprText] at text
      split at text
      · obtain ⟨t, -, text⟩ := bind_eq_ok.mp text
        cases text
        simp [sign]
      · obtain ⟨t, -, text⟩ := bind_eq_ok.mp text
        cases text
        simp [arith]
    | not =>
      rw [exprText] at text
      obtain ⟨t, -, text⟩ := bind_eq_ok.mp text
      cases text
      simp [test]
  | call ty name args =>
    rw [exprText] at text
    obtain ⟨t, -, text⟩ := bind_eq_ok.mp text
    cases text
    simp [(beginsWord_of_isName solid).blankText]
  | stream ty op left right =>
    have opens : blankText "$(" = false := rfl
    rw [exprText_stream] at text
    obtain ⟨t, -, rfl⟩ := map_eq_ok.mp text
    simp [substituted, opens]

/-- A pipe is written between its sides. -/
theorem effectText_stream {m : Mode} {ty : Ty} {op : StreamOp} {left right : Expr} {t : String}
    (text : effectText m (.stream ty op left right) = .ok t) :
    ∃ l r, exprText { m with substitute := false } left = .ok l ∧
      exprText { m with substitute := false } right = .ok r ∧ t = l ++ " | " ++ r := by
  rw [effectText] at text
  obtain ⟨word, isWord, text⟩ := bind_eq_ok.mp text
  obtain ⟨l, isLeft, text⟩ := bind_eq_ok.mp text
  obtain ⟨r, isRight, text⟩ := bind_eq_ok.mp text
  cases text
  cases op with
  | pipe =>
    cases isWord
    exact ⟨l, r, isLeft, isRight, rfl⟩
  | output | input => cases isWord

/-- A line that is run for its effect is blank just for an empty command. -/
theorem effectText_blank {e : Expr} {line : String} (solid : e.Solid)
    (text : effectText .initial e = .ok line) :
    blankText line = true ↔ ∃ ty, e = .command ty [] := by
  cases e with
  | stream ty op left right =>
    obtain ⟨l, r, -, -, rfl⟩ := effectText_stream text
    have mark : blankText " | " = false := rfl
    simp [mark]
  | _ => exact (exprText_blank (m := .initial) solid text).trans (and_iff_right rfl)

/-! ## Lines of a block -/

section

variable {stmt : Stmt} {c : Command}

/-- A statement has names for the variables that it sets, and what it runs is solid. -/
structure Stmt.Solid (stmt : Stmt) : Prop where
  named : ∀ v e, stmt = .assign v e → v.isGlobal = true → IsName v.name.toList
  line : ∀ e, stmt = .expr e → e.Solid

/-- A statement makes a command line of the program, or a command that begins with a word. -/
theorem Yields.line_or_word (h : Yields .stmt stmt c) (solid : stmt.Solid) (indent : Nat) :
    (∃ e line, stmt = .expr e ∧ effectText .initial e = .ok line ∧ c = .run line) ∨
      (∀ e, stmt ≠ .expr e) ∧ BeginsWord (c.text indent) := by
  cases h with
  | expr line => exact .inl ⟨_, _, rfl, line, rfl⟩
  | @assign v e value isValue =>
    refine .inr ⟨by simp, Command.beginsWord ?_ ?_ indent⟩
    · intro text
      unfold Command.assigning
      split <;> simp
    · intro x value same
      unfold Command.assigning at same
      split at same
      case isTrue isGlobal =>
        cases same
        exact solid.named v e rfl isGlobal
      case isFalse => cases same
  | _ => exact .inr ⟨by simp, Command.beginsWord (by simp) (by simp) indent⟩

/-- So is the line of a statement. -/
theorem Yields.blank_iff (h : Yields .stmt stmt c) (solid : stmt.Solid) (indent : Nat) :
    blankText (c.text indent) = true ↔ ∃ ty, stmt = .expr (.command ty []) := by
  rcases h.line_or_word solid indent with ⟨e, line, rfl, text, rfl⟩ | ⟨other, word⟩
  · rw [Command.text, effectText_blank (solid.line e rfl) text]
    simp
  · refine iff_of_false (by simp [word.blankText]) ?_
    rintro ⟨ty, same⟩
    exact other _ same

/-- The line of a statement is without a command just if it runs something whose text is. -/
theorem Yields.void_iff (h : Yields .stmt stmt c) (solid : stmt.Solid) (indent : Nat) :
    voidText (c.text indent) = true ↔
      ∃ e line, stmt = .expr e ∧ effectText .initial e = .ok line ∧ voidText line = true := by
  rcases h.line_or_word solid indent with ⟨e, line, rfl, text, rfl⟩ | ⟨other, word⟩
  · rw [Command.text]
    constructor
    · exact fun isVoid => ⟨e, line, rfl, text, isVoid⟩
    · rintro ⟨e', line', same, text', isVoid⟩
      cases same
      cases text.symm.trans text'
      exact isVoid
  · refine iff_of_false (by simp [word.voidText]) ?_
    rintro ⟨e, line, same, -⟩
    exact other e same

end

section

variable {stmts : List Stmt} {cs : List Command}

/-- Every command of a block comes from a statement. -/
theorem Yields.exists_stmt (h : Yields .stmts stmts cs) {c : Command} (mem : c ∈ cs) :
    ∃ stmt ∈ stmts, Yields .stmt stmt c := by
  induction stmts generalizing cs with
  | nil =>
    cases h
    cases mem
  | cons first rest ih =>
    cases h with
    | load others =>
      obtain ⟨stmt, isIn, yields⟩ := ih others mem
      exact ⟨stmt, .tail _ isIn, yields⟩
    | cons one others =>
      rcases List.mem_cons.mp mem with rfl | mem
      · exact ⟨first, .head _, one⟩
      · obtain ⟨stmt, isIn, yields⟩ := ih others mem
        exact ⟨stmt, .tail _ isIn, yields⟩

/-- Every statement but an import has a command. -/
theorem Yields.exists_command (h : Yields .stmts stmts cs) {stmt : Stmt} (mem : stmt ∈ stmts)
    (isLoad : stmt.isLoad = false) : ∃ c ∈ cs, Yields .stmt stmt c := by
  induction stmts generalizing cs with
  | nil => cases mem
  | cons first rest ih =>
    rcases List.mem_cons.mp mem with rfl | later
    · cases h with
      | load => cases isLoad
      | cons one => exact ⟨_, .head _, one⟩
    · cases h with
      | load others => exact ih others later
      | cons _ others =>
        obtain ⟨c, isIn, yields⟩ := ih others later
        exact ⟨c, .tail _ isIn, yields⟩

/-- What the lines are of a block that was written for parameters and statements. -/
structure BlockLines (params : List Variable) (stmts : List Stmt) (block : List Command) :
    Prop where
  some : block ≠ []
  /-- A line is blank only for an empty external command. -/
  blank : (∃ c ∈ block, ∃ indent, blankText (c.text indent) = true) ↔
    ∃ ty, .expr (.command ty []) ∈ stmts
  /-- No line is a command only if there are statements, and all that they do is
  to run such lines. -/
  void : (∀ c ∈ block, ∀ indent, voidText (c.text indent) = true) ↔
    params = [] ∧ (∃ stmt ∈ stmts, stmt.isLoad = false) ∧
      ∀ stmt ∈ stmts, stmt.isLoad = false → ∃ e line, stmt = .expr e ∧
        effectText .initial e = .ok line ∧ voidText line = true

/-- The lines of a block, those for its parameters included. The parameters come first, and the
line of an empty block stands only where no command does. -/
theorem Yields.blockLines (h : Yields .stmts stmts cs) (solid : ∀ stmt ∈ stmts, stmt.Solid)
    (params : List Variable) :
    BlockLines params stmts (paramCommands 1 (params.map (·.name)) ++ orIdle cs) := by
  have idle (indent : Nat) : BeginsWord (Command.idle.text indent) :=
    Command.beginsWord (by simp) (by simp) indent
  have declares : ∀ c ∈ paramCommands 1 (params.map (·.name)), ∀ indent,
      BeginsWord (c.text indent) := by
    intro c mem indent
    obtain ⟨name, value, rfl⟩ := eq_declare_of_mem_paramCommands mem
    exact Command.beginsWord (by simp) (by simp) indent
  refine ⟨?_, ?_, ?_⟩
  · refine List.append_ne_nil_of_right_ne_nil _ ?_
    cases cs <;> simp [orIdle]
  · constructor
    · rintro ⟨c, mem, indent, blank⟩
      rcases List.mem_append.mp mem with mem | mem
      · rw [(declares c mem indent).blankText] at blank
        cases blank
      · rcases mem_orIdle.mp mem with mem | ⟨-, rfl⟩
        · obtain ⟨stmt, isIn, yields⟩ := h.exists_stmt mem
          obtain ⟨ty, rfl⟩ := (yields.blank_iff (solid stmt isIn) indent).mp blank
          exact ⟨ty, isIn⟩
        · rw [(idle indent).blankText] at blank
          cases blank
    · rintro ⟨ty, isIn⟩
      obtain ⟨c, mem, yields⟩ := h.exists_command isIn rfl
      exact ⟨c, List.mem_append_right _ (mem_orIdle.mpr (.inl mem)), 0,
        (yields.blank_iff (solid _ isIn) 0).mpr ⟨ty, rfl⟩⟩
  · constructor
    · intro void
      obtain ⟨voidParams, voidLines⟩ := List.forall_mem_append.mp void
      refine ⟨?_, ?_, fun stmt isIn isLoad => ?_⟩
      · cases params with
        | nil => rfl
        | cons v rest =>
          have first := voidParams _ (.head _) 0
          rw [(declares _ (.head _) 0).voidText] at first
          cases first
      · by_contra none
        have imports : cs = [] := by
          rw [← List.isEmpty_iff, h.isEmpty_eq]
          simpa using none
        have only := voidLines .idle (mem_orIdle.mpr (.inr ⟨imports, rfl⟩)) 0
        rw [(idle 0).voidText] at only
        cases only
      · obtain ⟨c, mem, yields⟩ := h.exists_command isIn isLoad
        exact (yields.void_iff (solid stmt isIn) 0).mp
          (voidLines c (mem_orIdle.mpr (.inl mem)) 0)
    · rintro ⟨rfl, ⟨stmt, isIn, isLoad⟩, all⟩ c mem indent
      obtain ⟨first, isFirst, -⟩ := h.exists_command isIn isLoad
      rcases mem_orIdle.mp mem with mem | ⟨rfl, -⟩
      · obtain ⟨stmt, isIn, yields⟩ := h.exists_stmt mem
        exact (yields.void_iff (solid stmt isIn) indent).mpr (all stmt isIn yields.isLoad_eq)
      · cases isFirst

end

/-! ## Blocks of a program -/

abbrev Part.blocks : (part : Part) → part.Tree → List (List Stmt)
  | .stmt => Stmt.blocks
  | .stmts => stmtsBlocks
  | .chain => ElseChain.blocks

abbrev Part.shellBlocks : (part : Part) → part.Shell → List (List Command)
  | .stmt => Command.blocksWithin
  | .stmts => commandsBlocks
  | .chain => Otherwise.blocksWithin

/-- The block is what these statements are written as. -/
def IsWritten (stmts : List Stmt) (block : List Command) : Prop :=
  ∃ cs, Yields .stmts stmts cs ∧ block = orIdle cs

theorem Yields.written_cons {body : List Stmt} {cs : List Command} (h : Yields .stmts body cs)
    (inside : List.Forall₂ IsWritten (stmtsBlocks body) (commandsBlocks cs)) :
    List.Forall₂ IsWritten (body :: stmtsBlocks body)
      (orIdle cs :: commandsBlocks (orIdle cs)) := by
  rw [commandsBlocks_orIdle]
  exact .cons ⟨cs, h, rfl⟩ inside

/-- The blocks of a script are those of the program, one by one. -/
theorem Yields.written_blocks {part : Part} {tree : part.Tree} {shell : part.Shell}
    (h : Yields part tree shell) :
    List.Forall₂ IsWritten (part.blocks tree) (part.shellBlocks shell) := by
  induction h with
  | assign =>
    unfold Command.assigning
    split <;> exact .nil
  | branch _ body _ bodyBlocks chainBlocks =>
    exact List.rel_append (body.written_cons bodyBlocks) chainBlocks
  | elseIf _ body _ bodyBlocks chainBlocks =>
    exact List.rel_append (body.written_cons bodyBlocks) chainBlocks
  | loop _ body bodyBlocks => exact body.written_cons bodyBlocks
  | final body bodyBlocks => exact body.written_cons bodyBlocks
  | load _ restBlocks => exact restBlocks
  | cons _ _ oneBlocks restBlocks => exact List.rel_append oneBlocks restBlocks
  | ret | jump | expr | nil | done => exact .nil

/-! ## Programs -/

/-- What is assigned outside functions is a name. -/
theorem isName_of_assigns {p : Surface.Program} {x : String} (h : p.Assigns x)
    (obtained : Obtained p) : IsName x.toList := by
  obtain ⟨t, mem, span, value, same⟩ := h
  have part : p.Part (.stmt (.assign span x value)) := same ▸ .stmt mem
  obtain ⟨source, ts, own, scanned, run, spells⟩ := obtained.isRead part
  have named : .ident x ∈ own.map Token.lexeme := by
    generalize own.map Token.lexeme = xs at spells
    cases spells with
    | assign => exact .head _
  obtain ⟨t, isOwn, lexeme⟩ := List.mem_map.mp named
  exact Token.isName_of_scan scanned (run.subset isOwn) lexeme

section

variable {library : Bool} {p : Surface.Program} {module : Module}

/-- All statements of the blocks of a program were read from text, and are solid therefore. -/
theorem solid_of_mem_blocks (obtained : Obtained p)
    (resolved : Module.ofProgram library p = .ok module) {f : Function}
    (isFunction : f ∈ module.functions) {block : List Stmt} (isBlock : block ∈ f.blocks)
    {stmt : Stmt} (isIn : stmt ∈ block) : stmt.Solid := by
  have mentioned : stmt.mentions ⊆ f.mentions := by
    refine List.Subset.trans ?_ (Function.mentions_of_mem_blocks isBlock).subset
    obtain ⟨before, after, rfl⟩ := List.append_of_mem isIn
    rw [stmtsMentions_append, stmtsMentions]
    exact fun _ mem => List.mem_append_right _ (List.mem_append_left _ mem)
  constructor
  · rintro v e rfl isGlobal
    have assigned : .assigned v e.ty ∈ f.mentions := mentioned (by simp [Stmt.mentions])
    have binds : f.Binds v := .of_assigned assigned
    have means := (ofProgram_inOrder obtained resolved f isFunction).means binds.mem_variables
    exact isName_of_assigns (means.2.mp isGlobal).1 obtained
  · rintro e rfl
    have part : .part e ∈ f.mentions := mentioned (List.mem_map_of_mem e.mem_parts)
    obtain ⟨place, frames, root⟩ := module.exists_root_of_mem_mentions isFunction part
    exact (exists_source_of_root resolved root).solid obtained

/-- The text of a pipe from its line: a pipe that is a statement is run for its effect, and one
whose output is wanted, or that stands in another expression, is in a substitution. -/
def pipeText (place : Place) (frames : List Frame) (line : String) : String :=
  if place = .effect ∧ frames = [] then line else substituted line

/-- A pipe stands in the script as it is written for its effect, whether its output
is wanted or not. -/
theorem Place.Holds.stands_stream {place : Place} {frames : List Frame} {ty : Ty} {op : StreamOp}
    {left right : Expr} {script : String}
    (h : place.Holds (fill frames (.stream ty op left right)) script) :
    ∃ m line, effectText m (.stream ty op left right) = .ok line ∧
      StandsFor script place frames (.stream ty op left right) (pipeText place frames line) := by
  by_cases bare : place = .effect ∧ frames = []
  · obtain ⟨rfl, rfl⟩ := bare
    obtain ⟨m, line, -, text, stands⟩ := h.stands_whole
    exact ⟨m, line, text, stands⟩
  · have inner : place ≠ .effect ∨ frames ≠ [] := Decidable.not_and_iff_not_or_not.mp bare
    obtain ⟨m, s, text, stands, -⟩ := h.stands rfl inner
    rw [exprText_stream] at text
    obtain ⟨line, isLine, rfl⟩ := map_eq_ok.mp text
    refine ⟨m, line, isLine, ?_⟩
    rw [pipeText, if_neg bare]
    exact stands

/-- A side of a pipe, which is blank only for an empty external command. -/
structure IsSide (e : Expr) (side : String) : Prop where
  text : ∃ m : Mode, m.substitute = false ∧ exprText m e = .ok side
  blank : blankText side = true ↔ ∃ ty, e = .command ty []

/-- A pipe of a program stands in the script between its two sides. -/
theorem exists_sides {target : Target} {script : String} (obtained : Obtained p)
    (resolved : Module.ofProgram library p = .ok module)
    (written : generate target library module = .ok script) {place : Place} {frames : List Frame}
    {ty : Ty} {op : StreamOp} {left right : Expr}
    (root : (place, fill frames (.stream ty op left right)) ∈ module.roots) :
    ∃ l r, IsSide left l ∧ IsSide right r ∧
      StandsFor script place frames (.stream ty op left right)
        (pipeText place frames (l ++ " | " ++ r)) := by
  have sideOf (frame : Frame) {m : Mode} {e : Expr} {side : String}
      (same : frame.fill e = .stream ty op left right)
      (text : exprText { m with substitute := false } e = .ok side) : IsSide e side := by
    have isRoot : (place, fill (frame :: frames) e) ∈ module.roots := by
      rw [fill_cons, same]
      exact root
    have solid := (exists_source_of_root resolved isRoot).solid obtained
    exact ⟨⟨_, rfl, text⟩, (exprText_blank solid text).trans (and_iff_right rfl)⟩
  obtain ⟨m, line, text, stands⟩ := (generate_holds written root).stands_stream
  obtain ⟨l, r, isLeft, isRight, rfl⟩ := effectText_stream text
  exact ⟨l, r, sideOf (.upstream ty op right) rfl isLeft,
    sideOf (.downstream ty op left) rfl isRight, stands⟩

end

/-- How the blocks of a function are written, its body first. -/
structure Function.Lined (f : Function) (r : Routine) : Prop where
  yields : f.Yields r
  lines : ∃ body, f.body = some body ∧ BlockLines f.params body r.body ∧
    List.Forall₂ (BlockLines []) (stmtsBlocks body) (commandsBlocks r.body)

/-- A function that is written block by block has the lines of its blocks. -/
theorem Function.Yields.lined {f : Function} {r : Routine} (h : f.Yields r)
    (solid : ∀ block ∈ f.blocks, ∀ stmt ∈ block, stmt.Solid) : f.Lined r := by
  obtain ⟨body, cs, isBody, commands, same⟩ := id h
  have blocks : f.blocks = body :: stmtsBlocks body := by rw [Function.blocks, isBody]
  obtain ⟨solidBody, solidBlocks⟩ := List.forall_mem_cons.mp (blocks ▸ solid)
  refine ⟨h, body, isBody, ?_, ?_⟩
  · rw [same]
    exact commands.blockLines solidBody f.params
  · rw [same, commandsBlocks_paramCommands, commandsBlocks_orIdle]
    refine ((List.forall₂_and_left _ _).mpr ⟨solidBlocks, commands.written_blocks⟩).imp ?_
    rintro stmts block ⟨solid, cs, inner, rfl⟩
    exact inner.blockLines solid []

/-- Every block of a script has a line. A line, or a side of a pipe, is blank just for an
external command that is empty, and a block is without a command just if all that is in it are
lines of the program that are none. -/
theorem blocks_lined {p : Surface.Program} {library : Bool} {module : Module} {target : Target}
    {script : String} (obtained : Obtained p)
    (resolved : Module.ofProgram library p = .ok module)
    (written : generate target library module = .ok script) :
    (∃ l, module.Yields library l ∧ script = target.shebang ++ "\n" ++ l.text ∧
      List.Forall₂ Function.Lined (module.functions.filter (·.body.isSome)) l.routines) ∧
    ∀ place frames ty op left right,
      (place, fill frames (.stream ty op left right)) ∈ module.roots →
        ∃ l r, IsSide left l ∧ IsSide right r ∧
          StandsFor script place frames (.stream ty op left right)
            (pipeText place frames (l ++ " | " ++ r)) := by
  constructor
  · obtain ⟨l, yields, isScript⟩ := generate_yields written
    refine ⟨l, yields, isScript, yields.forall_routines fun f mem r commands => ?_⟩
    exact commands.lined fun block isBlock stmt =>
      solid_of_mem_blocks obtained resolved mem isBlock
  · exact fun place frames ty op left right => exists_sides obtained resolved written

/-- The first branch of a function runs only an empty command, and a pipe starts with one. -/
def Function.runsNothing (f : Function) : Bool :=
  match f.body with
  | some [.branch _ [.expr (.command _ [])] _, .expr (.stream _ _ (.command _ []) _)] => true
  | _ => false

def emptySample : Source := ⟨"if (true) \x7b @(); \x7d @( ) | @(cat);"⟩

/-- A block without a command, with a blank line in it, and a pipe that starts with nothing. -/
theorem blocks_lined_empty :
    ∃ p module script l, readProgram "sample" emptySample = .ok p ∧
      Module.ofProgram true p = .ok module ∧ generate .bash true module = .ok script ∧
      module.Yields true l ∧ script = Target.bash.shebang ++ "\n" ++ l.text ∧
      (∃ r ∈ l.routines, ∃ block ∈ commandsBlocks r.body,
        (∃ c ∈ block, ∃ indent, blankText (c.text indent) = true) ∧
        ∀ c ∈ block, ∀ indent, voidText (c.text indent) = true) ∧
      ∃ ty op left right l r, (.effect, .stream ty op left right) ∈ module.roots ∧
        blankText l = true ∧
        StandsFor script .effect [] (.stream ty op left right) (l ++ " | " ++ r) := by
  obtain ⟨p, module, script, isRead, resolved, written, asked⟩ :=
    exists_written "sample" emptySample (fun module => module.functions.any Function.runsNothing)
      (by decide +kernel)
  obtain ⟨⟨l, yields, isScript, lined⟩, pipes⟩ := blocks_lined (.read isRead) resolved written
  refine ⟨p, module, script, l, isRead, resolved, written, yields, isScript, ?_⟩
  obtain ⟨f, mem, shape⟩ := List.any_eq_true.mp asked
  unfold Function.runsNothing at shape
  split at shape
  case h_1 cond ty chain ty' op ty'' right isBody =>
    constructor
    · obtain ⟨r, isRoutine, -, body, same, -, inner⟩ :=
        exists_routine lined mem (by rw [isBody]; rfl)
      cases isBody.symm.trans same
      obtain ⟨block, rest, lines, -, blocks⟩ := List.forall₂_cons_left_iff.mp inner
      refine ⟨r, isRoutine, block, blocks ▸ .head _, lines.blank.mpr ⟨ty, .head _⟩, ?_⟩
      refine lines.void.mpr ⟨rfl, ⟨_, .head _, rfl⟩, fun stmt isIn _ => ?_⟩
      cases List.mem_singleton.mp isIn
      exact ⟨_, "", rfl, rfl, rfl⟩
    · have root : (Place.effect, fill [] (.stream ty' op (.command ty'' []) right)) ∈
          module.roots := by
        refine List.mem_append_left _ (List.mem_flatMap.mpr ⟨f, mem, ?_⟩)
        simp [isBody, stmtsRoots, Stmt.roots]
      obtain ⟨l, r, isLeft, -, stands⟩ := pipes _ _ _ _ _ _ root
      exact ⟨_, _, _, _, l, r, root, isLeft.blank.mpr ⟨_, rfl⟩, stands⟩
  case h_2 => cases shape

end Shellwright.Core
