import Shellwright.Proofs.ParserSound
import Shellwright.Proofs.ProjectContents
import Shellwright.Proofs.Segments

/-!
# Pieces of text in programs

Trees allow pieces of text that are empty, but none is ever read: a text is split where there is
something to split, a reader only hands the pieces on, and loading joins programs that were read.

* `filled_split`: no piece of a text is empty.
* `Derives.filled`: nor is any in a tree that the grammar derives.
* `Obtained.filled`: nor is any in a program that was read or loaded.
-/

namespace Shellwright.Surface

/-! ## Pieces -/

/-- No piece is empty. -/
def Filled (segments : List Segment) : Prop := ∀ g ∈ segments, g.raw ≠ ""

@[simp] theorem filled_nil : Filled [] := nofun

@[simp] theorem filled_append {gs hs : List Segment} :
    Filled (gs ++ hs) ↔ Filled gs ∧ Filled hs :=
  List.forall_mem_append

theorem filled_cons {g : Segment} {gs : List Segment} :
    Filled (g :: gs) ↔ g.raw ≠ "" ∧ Filled gs :=
  List.forall_mem_cons

/-- Text that is not empty can be put before pieces that are not. -/
theorem Filled.consText {text : String} {gs : List Segment} (some : text ≠ "") (h : Filled gs) :
    Filled (Segment.consText text gs) := by
  unfold Segment.consText
  split
  case h_1 next rest =>
    obtain ⟨_, others⟩ := filled_cons.mp h
    exact filled_cons.mpr ⟨fun none => some (String.append_eq_empty_iff.mp none).1, others⟩
  case h_2 => exact filled_cons.mpr ⟨some, h⟩

/-- No piece of a text is empty. -/
theorem filled_splitFrom (skip pos : Nat) (cs : List Char) :
    Filled (Segment.splitFrom skip pos cs) := by
  fun_induction Segment.splitFrom skip pos cs with
  | case1 => exact filled_nil
  | case2 _ _ _ _ ih => exact ih
  | case3 _ _ _ ih => exact ih.consText (by simp)
  | case4 _ _ _ _ _ _ _ ih => exact filled_cons.mpr ⟨by simp [Segment.raw], ih⟩
  | case5 _ _ _ _ ih => exact ih.consText (by simp)
  | case6 _ _ _ _ _ ih => exact ih.consText (by simp)

theorem filled_split (base : Nat) (raw : String) : Filled (Segment.split base raw) :=
  filled_splitFrom 0 base raw.toList

/-- Places do not matter here. -/
@[simp] theorem filled_map_placeless {gs : List Segment} :
    Filled (gs.map Segment.placeless) ↔ Filled gs := by
  rw [Filled, List.forall_mem_map, Filled]
  refine forall_congr' fun g => imp_congr_right fun _ => ?_
  cases g <;> rfl

/-! ## Pieces in trees -/

mutual

/-- The pieces of all texts in an expression. -/
def Expr.segments : Expr → List Segment
  | .int _ _ | .fraction _ _ | .bool _ _ | .var _ _ => []
  | .text _ segments | .command _ segments => segments
  | .binary _ _ left right | .pipe _ left right => left.segments ++ right.segments
  | .unary _ _ operand => operand.segments
  | .call _ _ args => argsSegments args

def argsSegments : List Expr → List Segment
  | [] => []
  | arg :: rest => arg.segments ++ argsSegments rest

end

def upperSegments : Option Expr → List Segment
  | none => []
  | some upper => upper.segments

mutual

/-- The pieces of all texts in a statement. -/
def Stmt.segments : Stmt → List Segment
  | .assign _ _ value => value.segments
  | .branch _ cond body otherwise => cond.segments ++ (stmtsSegments body ++ otherwise.segments)
  | .loop _ _ lower upper body => lower.segments ++ (upperSegments upper ++ stmtsSegments body)
  | .ret _ value => value.segments
  | .jump _ _ | .load _ _ => []
  | .expr _ expr => expr.segments

def stmtsSegments : List Stmt → List Segment
  | [] => []
  | stmt :: rest => stmt.segments ++ stmtsSegments rest

def ElseChain.segments : ElseChain → List Segment
  | .done => []
  | .elseIf cond body otherwise => cond.segments ++ (stmtsSegments body ++ otherwise.segments)
  | .final body => stmtsSegments body

end

def bodySegments : Option (List Stmt) → List Segment
  | none => []
  | some body => stmtsSegments body

/-- No piece of text in a program is empty. -/
structure Program.Filled (p : Program) : Prop where
  functions : ∀ f ∈ p.functions, Surface.Filled (bodySegments f.body)
  topLevel : ∀ t ∈ p.topLevel, Surface.Filled t.stmt.segments

/-! ## Pieces without places -/

mutual

/-- Without places an expression has the same pieces without places. -/
theorem Expr.segments_placeless : ∀ e : Expr,
    e.placeless.segments = e.segments.map Segment.placeless
  | .int _ _ | .fraction _ _ | .bool _ _ | .var _ _ => by
    simp only [Expr.placeless, Expr.segments, List.map_nil]
  | .text _ _ | .command _ _ => by simp only [Expr.placeless, Expr.segments]
  | .binary _ _ left right | .pipe _ left right => by
    simp only [Expr.placeless, Expr.segments, left.segments_placeless, right.segments_placeless,
      List.map_append]
  | .unary _ _ operand => by
    simp only [Expr.placeless, Expr.segments, operand.segments_placeless]
  | .call _ _ args => by simp only [Expr.placeless, Expr.segments, argsSegments_placeless args]

theorem argsSegments_placeless : ∀ es : List Expr,
    argsSegments (Expr.placelessList es) = (argsSegments es).map Segment.placeless
  | [] => by simp only [Expr.placelessList, argsSegments, List.map_nil]
  | e :: es => by
    simp only [Expr.placelessList, argsSegments, e.segments_placeless, argsSegments_placeless es,
      List.map_append]

end

theorem upperSegments_placeless (upper : Option Expr) :
    upperSegments (upper.map Expr.placeless) = (upperSegments upper).map Segment.placeless := by
  cases upper with
  | none => rfl
  | some upper => exact upper.segments_placeless

mutual

/-- So has a statement. -/
theorem Stmt.segments_placeless : ∀ s : Stmt,
    s.placeless.segments = s.segments.map Segment.placeless
  | .assign _ _ value | .ret _ value | .expr _ value => by
    simp only [Stmt.placeless, Stmt.segments, value.segments_placeless]
  | .branch _ cond body otherwise => by
    simp only [Stmt.placeless, Stmt.segments, cond.segments_placeless,
      stmtsSegments_placeless body, otherwise.segments_placeless, List.map_append]
  | .loop _ _ lower upper body => by
    simp only [Stmt.placeless, Stmt.segments, lower.segments_placeless, upperSegments_placeless,
      stmtsSegments_placeless body, List.map_append]
  | .jump _ _ | .load _ _ => by simp only [Stmt.placeless, Stmt.segments, List.map_nil]

theorem stmtsSegments_placeless : ∀ ss : List Stmt,
    stmtsSegments (Stmt.placelessList ss) = (stmtsSegments ss).map Segment.placeless
  | [] => by simp only [Stmt.placelessList, stmtsSegments, List.map_nil]
  | s :: ss => by
    simp only [Stmt.placelessList, stmtsSegments, s.segments_placeless,
      stmtsSegments_placeless ss, List.map_append]

/-- So have the branches after the first one. -/
theorem ElseChain.segments_placeless : ∀ c : ElseChain,
    c.placeless.segments = c.segments.map Segment.placeless
  | .done => by simp only [ElseChain.placeless, ElseChain.segments, List.map_nil]
  | .elseIf cond body otherwise => by
    simp only [ElseChain.placeless, ElseChain.segments, cond.segments_placeless,
      stmtsSegments_placeless body, otherwise.segments_placeless, List.map_append]
  | .final body => by
    simp only [ElseChain.placeless, ElseChain.segments, stmtsSegments_placeless body]

end

theorem bodySegments_placeless (body : Option (List Stmt)) :
    bodySegments (body.map Stmt.placelessList) = (bodySegments body).map Segment.placeless := by
  cases body with
  | none => rfl
  | some body => exact stmtsSegments_placeless body

/-- So it is enough to look at programs without places. -/
theorem Program.Filled.of_placeless {p : Program} (h : p.placeless.Filled) : p.Filled := by
  refine ⟨fun f mem => ?_, fun t mem => ?_⟩
  · have filled := h.functions f.placeless (List.mem_map_of_mem mem)
    rw [Function.placeless, bodySegments_placeless] at filled
    exact filled_map_placeless.mp filled
  · have filled := h.topLevel { t with stmt := t.stmt.placeless } (List.mem_map_of_mem mem)
    rw [Stmt.segments_placeless] at filled
    exact filled_map_placeless.mp filled

/-! ## Programs that were read -/

/-- No piece of text in what a rule derives is empty. -/
def Rule.Fills : (rule : Rule) → rule.Tree → Prop
  | .within _, e | .signed, e | .primary, e => Filled e.segments
  | .args, es => Filled (argsSegments es)
  | .stmt, s => Filled s.segments
  | .block, ss | .stmts, ss => Filled (stmtsSegments ss)
  | .otherwise, c => Filled c.segments
  | .body, ss? => Filled (bodySegments ss?)
  | .function _, f => Filled (bodySegments f.body)
  | .items _, (fs, ts) =>
    (∀ f ∈ fs, Filled (bodySegments f.body)) ∧ ∀ t ∈ ts, Filled t.stmt.segments
  | .program _, p => p.Filled

/-- The operators of a rule make trees that hold the pieces of their operands and no others. -/
def Rule.keepsPieces : Rule → Prop
  | .within tiers => ∀ tier ∈ tiers, ∀ op ∈ tier, ∀ left right,
    (op.2 left right).segments = left.segments ++ right.segments
  | _ => True

theorem Rule.keepsPieces_expr : Rule.expr.keepsPieces := by
  simp only [Rule.keepsPieces, tiers, List.forall_mem_cons, Expr.segments, implies_true,
    List.not_mem_nil, false_implies, and_self]

/-- What the grammar derives has no empty pieces, by induction on the derivation. -/
theorem Derives.filled {rule : Rule} {xs : List Lexeme} {tree : rule.Tree}
    (h : Derives rule xs tree) (keeps : rule.keepsPieces) : rule.Fills tree := by
  induction h with
  | operand _ ih | plain _ ih => exact ih trivial
  | tighter _ ih => exact ih fun tier mem => keeps tier (.tail _ mem)
  | joined mem _ _ ihLeft ihRight =>
    rw [Rule.Fills, keeps _ (.head _) _ mem, filled_append]
    exact ⟨ihLeft keeps, ihRight fun tier mem => keeps tier (.tail _ mem)⟩
  | sign _ _ ih => simpa [Rule.Fills, Expr.segments] using ih trivial
  | int | fraction | trueWord | falseWord | var | bareCall =>
    simp [Rule.Fills, Expr.segments, argsSegments]
  | text raw | command raw => simpa [Rule.Fills, Expr.segments] using filled_split 0 raw
  | brackets _ ih => exact ih Rule.keepsPieces_expr
  | call _ _ ih => simpa [Rule.Fills, Expr.segments] using ih trivial
  | arg _ ih => simpa [Rule.Fills, argsSegments] using ih Rule.keepsPieces_expr
  | argsMore _ _ ihFirst ihRest =>
    exact filled_append.mpr ⟨ihFirst Rule.keepsPieces_expr, ihRest trivial⟩
  | branch _ _ _ ihCond ihBody ihChain | elseIf _ _ _ ihCond ihBody ihChain =>
    exact filled_append.mpr
      ⟨ihCond Rule.keepsPieces_expr, filled_append.mpr ⟨ihBody trivial, ihChain trivial⟩⟩
  | loopOver _ _ _ ihLower ihBody =>
    exact filled_append.mpr ⟨ihLower Rule.keepsPieces_expr, ihBody trivial⟩
  | loopRange _ _ _ _ ihLower ihUpper ihBody =>
    exact filled_append.mpr ⟨ihLower Rule.keepsPieces_expr,
      filled_append.mpr ⟨ihUpper Rule.keepsPieces_expr, ihBody trivial⟩⟩
  | ret _ ih | assign _ _ ih | expr _ ih => exact ih Rule.keepsPieces_expr
  | loadName | loadText | leave | next | noStmts | done | declared => exact filled_nil
  | block _ ih | final _ ih | defined _ ih | function _ _ _ ih => exact ih trivial
  | stmtsMore _ _ ihFirst ihRest => exact filled_append.mpr ⟨ihFirst trivial, ihRest trivial⟩
  | noItems => exact ⟨nofun, nofun⟩
  | itemFunction _ _ ihFirst ihRest =>
    exact ⟨List.forall_mem_cons.mpr ⟨ihFirst trivial, (ihRest trivial).1⟩, (ihRest trivial).2⟩
  | itemStmt _ _ ihFirst ihRest =>
    exact ⟨(ihRest trivial).1, List.forall_mem_cons.mpr ⟨ihFirst trivial, (ihRest trivial).2⟩⟩
  | program _ ih => exact ⟨(ih trivial).1, (ih trivial).2⟩

/-- What is read has none therefore. -/
theorem Program.parse_filled {file : String} {ts : List Token} {p : Program}
    (h : Program.parse file ts = .ok p) : p.Filled :=
  .of_placeless ((Program.parse_sound h).filled trivial)

end Shellwright.Surface

namespace Shellwright.Project

open Surface

/-! ## Programs that were loaded -/

/-- Nor has the program of a file. -/
theorem filled_of_program? {fs : FileSystem} {q : Path} {program : Program}
    (h : program? fs q = some program) : program.Filled := by
  obtain ⟨s, ts, -, parsed⟩ := exists_parse_of_program? h
  exact Program.parse_filled parsed

theorem filled_functionsAt (fs : FileSystem) (q : Path) :
    ∀ f ∈ functionsAt fs q, Filled (bodySegments f.body) := by
  intro f mem
  obtain ⟨program, isProgram, isIn⟩ := exists_program_of_functionsAt mem
  exact (filled_of_program? isProgram).functions f isIn

theorem filled_topLevelAt (fs : FileSystem) (q : Path) :
    ∀ t ∈ topLevelAt fs q, Filled t.stmt.segments := by
  intro t mem
  obtain ⟨program, isProgram, isIn⟩ := exists_program_of_topLevelAt mem
  exact (filled_of_program? isProgram).topLevel t isIn

/-- Nor has what files are joined to. -/
theorem Joins.filled {fs : FileSystem} {entry : Path} {p : Program} (h : Joins fs entry p) :
    p.Filled := by
  refine ⟨fun f mem => ?_, fun t mem => ?_⟩
  · rw [h.functions] at mem
    obtain ⟨q, -, mem⟩ := List.mem_flatMap.mp mem
    exact filled_functionsAt fs q f mem
  · rw [h.topLevel] at mem
    rcases List.mem_append.mp mem with mem | mem
    · obtain ⟨q, -, mem⟩ := List.mem_flatMap.mp mem
      exact filled_topLevelAt fs q t (List.mem_of_mem_filter mem)
    · exact filled_topLevelAt fs entry t mem

end Shellwright.Project

namespace Shellwright

/-- The program was read from one text, or loaded from files. -/
inductive Obtained : Surface.Program → Prop
  | read {file : String} {source : Source} {p : Surface.Program} :
    readProgram file source = .ok p → Obtained p
  | readWithSource {file : String} {source : Source} {p : Surface.Program} :
    readWithSource file source = .ok p → Obtained p
  | load {fs : FileSystem} {entry : Path} {p : Surface.Program} :
    Project.load fs entry = .ok p → Obtained p

theorem filled_of_readProgram {file : String} {source : Source} {p : Surface.Program}
    (h : readProgram file source = .ok p) : p.Filled := by
  obtain ⟨tokens, -, h⟩ := bind_eq_ok.mp h
  cases parsed : Surface.Program.parse file tokens with
  | error e => rw [parsed] at h; cases h
  | ok program =>
    rw [parsed] at h
    cases h
    exact Surface.Program.parse_filled parsed

/-- However a program was obtained, none of its pieces is empty. -/
theorem Obtained.filled {p : Surface.Program} (h : Obtained p) : p.Filled := by
  cases h with
  | read h => exact filled_of_readProgram h
  | readWithSource h =>
    obtain ⟨program, isRead, h⟩ := bind_eq_ok.mp h
    cases h
    exact ⟨(filled_of_readProgram isRead).functions, (filled_of_readProgram isRead).topLevel⟩
  | load h =>
    obtain ⟨place, program, source, inner, found, completes, functions, topLevel⟩ :=
      Project.completes_of_load h
    exact (completes.joins found functions topLevel).filled

/-- A run on a text: it is read, what is asked of the program holds, and the
program can be resolved. -/
theorem exists_resolved (file : String) (source : Source) (library : Bool)
    (asked : Surface.Program → Bool)
    (runs : ((readProgram file source).toOption.any fun p =>
      asked p && (Core.Module.ofProgram library p).isOk) = true) :
    ∃ p m, readProgram file source = .ok p ∧ asked p = true ∧
      Core.Module.ofProgram library p = .ok m := by
  obtain ⟨p, isRead, runs⟩ := exists_ok_of_any runs
  obtain ⟨holds, isOk⟩ := Bool.and_eq_true_iff.mp runs
  obtain ⟨m, resolved⟩ := exists_ok_of_isOk isOk
  exact ⟨p, m, isRead, holds, resolved⟩

/-- A run on a text: it is read and resolved, what is asked of the resolved program holds, and
a script is written. -/
theorem exists_written (file : String) (source : Source) (asked : Core.Module → Bool)
    (runs : ((readProgram file source).toOption.any fun p =>
      (Core.Module.ofProgram true p).toOption.any fun module =>
        asked module && (Script.generate .bash true module).isOk) = true) :
    ∃ p module script, readProgram file source = .ok p ∧
      Core.Module.ofProgram true p = .ok module ∧
      Script.generate .bash true module = .ok script ∧ asked module = true := by
  obtain ⟨p, isRead, runs⟩ := exists_ok_of_any runs
  obtain ⟨module, resolved, runs⟩ := exists_ok_of_any runs
  obtain ⟨holds, isOk⟩ := Bool.and_eq_true_iff.mp runs
  obtain ⟨script, written⟩ := exists_ok_of_isOk isOk
  exact ⟨p, module, script, isRead, resolved, written, holds⟩

end Shellwright
