import Shellwright.Proofs.Mirroring
import Shellwright.Proofs.Places
import Shellwright.Proofs.Rereading
import Shellwright.Proofs.Spellings
import Shellwright.Proofs.WellFormed

/-!
# Where expressions come from

Every expression of a resolved program, at any depth, is what a part of the program as written
means in some scope; and that part was read from tokens. So what tokens can hold is known of the
texts and names in a script.

* `exists_source_of_root`: expressions of a resolved program come from parts of
  the program as written.
* `Obtained.isRead`: parts of a program that was read or loaded come from tokens.
* `closed_of_root`: texts in scripts hold no quote that would end them, and variables have names.
-/

namespace Shellwright.Core

/-! ## Parts of the program as written -/

section

variable {p : Surface.Program}

/-- Each argument was resolved from one of the source. -/
theorem exists_source_of_mem_args {s : Scope} {srcs : List Surface.Expr} {args : List Expr}
    (h : resolveArgs s srcs = .ok args) {e : Expr} (mem : e ∈ args) :
    ∃ src ∈ srcs, resolveExpr s src = .ok e := by
  induction srcs generalizing args with
  | nil =>
    cases h
    cases mem
  | cons src rest ih =>
    rw [resolveArgs] at h
    obtain ⟨first, isFirst, h⟩ := bind_eq_ok.mp h
    obtain ⟨others, areOthers, h⟩ := bind_eq_ok.mp h
    cases h
    rcases List.mem_cons.mp mem with rfl | later
    · exact ⟨src, .head _, isFirst⟩
    · obtain ⟨src', isIn, resolved⟩ := ih areOthers later
      exact ⟨src', .tail _ isIn, resolved⟩

/-- What an expression holds in a frame comes from an operand of its source. -/
theorem exists_operand {s : Scope} {src : Surface.Expr} {f : Frame} {e : Expr}
    (h : resolveExpr s src = .ok (f.fill e)) : ∃ x ∈ src.operands, resolveExpr s x = .ok e := by
  cases src with
  | int | fraction | bool | text | command =>
    cases f <;> cases h
  | var span name =>
    rw [resolveExpr] at h
    split at h
    · cases f <;> cases h
    · cases h
  | binary span op left right =>
    rw [resolveExpr] at h
    obtain ⟨l, isLeft, h⟩ := bind_eq_ok.mp h
    obtain ⟨r, isRight, h⟩ := bind_eq_ok.mp h
    cases f <;> cases h
    · exact ⟨left, .head _, isLeft⟩
    · exact ⟨right, .tail _ (.head _), isRight⟩
  | unary span op operand =>
    rw [resolveExpr] at h
    obtain ⟨inner, isInner, h⟩ := bind_eq_ok.mp h
    have same : applyUnary op inner = f.fill e := Except.ok.inj h
    refine ⟨operand, .head _, ?_⟩
    cases op with
    | not =>
      cases f <;> cases same
      exact isInner
    | negate =>
      cases number : inner.isNumber with
      | true =>
        have filled := f.fill_isNumber e
        rw [← same] at filled
        cases inner with
        | int | fraction => cases filled
        | _ => cases number
      | false =>
        rw [applyUnary_negate number] at same
        cases f <;> cases same
        exact isInner
  | call span name args =>
    rw [resolveExpr] at h
    split at h
    · cases h
    · split at h
      · obtain ⟨es, areArgs, h⟩ := bind_eq_ok.mp h
        cases f <;> cases h
        exact exists_source_of_mem_args areArgs (List.mem_append_right _ (.head _))
      · cases h
  | pipe span left right =>
    rw [resolveExpr] at h
    obtain ⟨l, isLeft, h⟩ := bind_eq_ok.mp h
    obtain ⟨r, isRight, h⟩ := bind_eq_ok.mp h
    cases f <;> cases h
    · exact ⟨left, .head _, isLeft⟩
    · exact ⟨right, .tail _ (.head _), isRight⟩

/-- The expression is what a part of the program means in some scope. -/
def IsMeaning (p : Surface.Program) (e : Expr) : Prop :=
  ∃ s src, p.Part (.expr src) ∧ resolveExpr s src = .ok e

/-- With an expression all that it holds has a source. -/
theorem IsMeaning.of_fill {frames : List Frame} {e : Expr} (h : IsMeaning p (fill frames e)) :
    IsMeaning p e := by
  induction frames generalizing e with
  | nil => exact h
  | cons f frames ih =>
    obtain ⟨s, src, part, resolved⟩ := ih (e := f.fill e) h
    obtain ⟨x, isOperand, isSource⟩ := exists_operand resolved
    exact ⟨s, x, part.child (List.mem_map_of_mem isOperand), isSource⟩

/-! ## Outermost expressions -/

/-- The syntax belongs to the program. -/
def Part.Within (p : Surface.Program) : (part : Part) → part.Source → Prop
  | .stmt, src => p.Part (.stmt src)
  | .stmts, src => ∀ s ∈ src, p.Part (.stmt s)
  | .chain, src => ∀ n ∈ src.children, p.Part n

/-- All outermost expressions come from parts of the program. -/
def Sourced (p : Surface.Program) (roots : List (Place × Expr)) : Prop :=
  ∀ root ∈ roots, IsMeaning p root.2

theorem sourced_nil : Sourced p [] := by
  intro root mem
  cases mem

theorem Sourced.cons {place : Place} {e : Expr} {roots : List (Place × Expr)}
    (first : IsMeaning p e) (h : Sourced p roots) : Sourced p ((place, e) :: roots) :=
  List.forall_mem_cons.mpr ⟨first, h⟩

theorem Sourced.append {as bs : List (Place × Expr)} (ha : Sourced p as) (hb : Sourced p bs) :
    Sourced p (as ++ bs) :=
  List.forall_mem_append.mpr ⟨ha, hb⟩

/-- The bounds of a loop mean those of the source. -/
theorem sourced_bounds {s : Scope} {srcLower : Surface.Expr} {srcUpper : Option Surface.Expr}
    {lower : Expr} {upper : Option Expr} (first : p.Part (.expr srcLower))
    (second : ∀ src ∈ srcUpper, p.Part (.expr src))
    (isLower : resolveExpr s srcLower = .ok lower)
    (isUpper : resolveUpper s srcUpper = .ok upper) : Sourced p (boundRoots lower upper) := by
  have fromLower : IsMeaning p lower := ⟨s, srcLower, first, isLower⟩
  cases srcUpper with
  | none =>
    cases isUpper
    exact sourced_nil.cons fromLower
  | some src =>
    rw [resolveUpper] at isUpper
    obtain ⟨e, isValue, isUpper⟩ := bind_eq_ok.mp isUpper
    cases isUpper
    exact .cons fromLower (sourced_nil.cons ⟨s, src, second src rfl, isValue⟩)

/-- All outermost expressions of resolved statements mean expressions of the source. -/
theorem Resolves.sourced {part : Part} {inLoop : Bool} {s s' : Scope} {src : part.Source}
    {tree : part.Tree} (h : Resolves part inLoop s src tree s') (within : part.Within p src) :
    Sourced p (part.roots tree) := by
  induction h with
  | assign value | ret value | expr _ value =>
    exact sourced_nil.cons ⟨_, _, Surface.Program.Part.child within (.head _), value⟩
  | @branch _ s _ _ _ src _ _ _ _ _ cond _ _ ihBody ihChain =>
    obtain ⟨first, others⟩ := List.forall_mem_cons.mp fun _ => Surface.Program.Part.child within
    obtain ⟨body, chain⟩ := List.forall_mem_append.mp others
    refine .cons ⟨s, src, first, cond⟩ (.append (ihBody fun stmt mem => ?_) (ihChain chain))
    exact body _ (List.mem_map_of_mem mem)
  | @loop _ _ _ _ _ _ _ srcUpper _ _ _ _ lower upper _ ih =>
    obtain ⟨first, others⟩ := List.forall_mem_cons.mp fun _ => Surface.Program.Part.child within
    obtain ⟨second, body⟩ := List.forall_mem_append.mp others
    refine .append (sourced_bounds first (fun src isUpper => ?_) lower upper) (ih fun stmt mem =>
      ?_)
    · exact second _ (List.mem_map_of_mem (by simpa using isUpper))
    · exact body _ (List.mem_map_of_mem mem)
  | jump | load | nil | done => exact sourced_nil
  | cons _ _ ihFirst ihRest =>
    obtain ⟨first, rest⟩ := List.forall_mem_cons.mp within
    exact (ihFirst first).append (ihRest rest)
  | @elseIf _ s _ _ src _ _ _ _ _ cond _ _ ihBody ihChain =>
    obtain ⟨first, others⟩ := List.forall_mem_cons.mp within
    obtain ⟨body, chain⟩ := List.forall_mem_append.mp others
    refine .cons ⟨s, src, first, cond⟩ (.append (ihBody fun stmt mem => ?_) (ihChain chain))
    exact body _ (List.mem_map_of_mem mem)
  | final _ ih =>
    exact ih fun stmt mem => within _ (List.mem_map_of_mem mem)

/-- So do those of functions. -/
theorem resolveFunctions_sourced {s : Scope} {fs : List Surface.Function}
    {r : List Function × Scope} (h : resolveFunctions s fs = .ok r)
    (within : ∀ f ∈ fs, p.Part (.function f)) :
    Sourced p (r.1.flatMap fun f => stmtsRoots (f.body.getD [])) := by
  induction fs generalizing s r with
  | nil =>
    cases h
    exact sourced_nil
  | cons f fs ih =>
    obtain ⟨part, others⟩ := List.forall_mem_cons.mp within
    obtain ⟨first, isFirst, h⟩ := bind_eq_ok.mp h
    obtain ⟨rest, areRest, h⟩ := bind_eq_ok.mp h
    cases h
    refine Sourced.append ?_ (ih areRest others)
    rw [resolveFunction] at isFirst
    split at isFirst
    case h_1 =>
      cases isFirst
      exact sourced_nil
    case h_2 stmts body =>
      obtain ⟨resolved, isBody, isFirst⟩ := bind_eq_ok.mp isFirst
      cases isFirst
      refine (resolves_stmts isBody).sourced fun stmt mem => part.child ?_
      rw [Surface.Node.children, Surface.Function.children, body]
      exact List.mem_append_right _ (List.mem_map_of_mem mem)

/-- So do those of the entry function. -/
theorem resolveEntry_sourced {s : Scope} {ts : List Surface.TopLevel} {r : List Stmt × Scope}
    (h : resolveEntry s ts = .ok r) (within : ts ⊆ p.topLevel) : Sourced p (stmtsRoots r.1) := by
  induction ts generalizing s r with
  | nil =>
    cases h
    exact sourced_nil
  | cons t ts ih =>
    obtain ⟨isTop, others⟩ := List.cons_subset.mp within
    obtain ⟨first, isFirst, h⟩ := bind_eq_ok.mp h
    obtain ⟨rest, areRest, h⟩ := bind_eq_ok.mp h
    cases h
    exact Sourced.append ((resolves_stmt isFirst).sourced (.stmt isTop)) (ih areRest others)

/-- So do the values of global variables. -/
theorem resolveGlobals_sourced {s : Scope} {inits : List GlobalInit}
    {r : List Assignment × Scope} (h : resolveGlobals s inits = .ok r)
    (within : ∀ init ∈ inits, p.Part (.expr init.value)) :
    Sourced p (r.1.map fun a => (.assigned a.var, a.value)) := by
  induction inits generalizing s r with
  | nil =>
    cases h
    exact sourced_nil
  | cons init inits ih =>
    obtain ⟨part, others⟩ := List.forall_mem_cons.mp within
    obtain ⟨value, isValue, h⟩ := bind_eq_ok.mp h
    obtain ⟨rest, areRest, h⟩ := bind_eq_ok.mp h
    cases h
    exact .cons ⟨_, init.value, part, isValue⟩ (ih areRest others)

theorem part_of_mem_globalInits {init : GlobalInit} (mem : init ∈ globalInits p) :
    p.Part (.expr init.value) := by
  obtain ⟨t, leads, isInit⟩ := List.mem_filterMap.mp mem
  have isTop : t ∈ p.topLevel := List.takeWhile_subset _ leads
  obtain ⟨span, stmt⟩ := GlobalInit.of?_eq_some.mp isInit
  refine Surface.Program.Part.child (.stmt isTop) ?_
  rw [stmt]
  exact .head _

/-- So do all outermost expressions of a program. -/
theorem Stages.sourced {globals : List Assignment} {functions : List Function} {s : Scope}
    (h : Stages p globals functions s) :
    Sourced p (functions.flatMap fun f => stmtsRoots (f.body.getD [])) ∧
      Sourced p (globals.map fun a => (.assigned a.var, a.value)) := by
  obtain ⟨-, initial, defined⟩ := h
  exact ⟨resolveFunctions_sourced defined fun f mem => .function mem,
    resolveGlobals_sourced initial fun init => part_of_mem_globalInits⟩

/-- Every expression of a resolved program, at any depth, comes from a part of the program as
written. -/
theorem exists_source_of_root {library : Bool} {module : Module}
    (resolved : Module.ofProgram library p = .ok module) {place : Place} {frames : List Frame}
    {e : Expr} (root : (place, fill frames e) ∈ module.roots) : IsMeaning p e := by
  have sourced : Sourced p module.roots := by
    cases resolvesProgram_iff.mp resolved with
    | made stages _ _ entry =>
      obtain ⟨functions, globals⟩ := stages.sourced
      refine .append ?_ globals
      rw [List.flatMap_append]
      refine functions.append ?_
      simpa using resolveEntry_sourced entry (entryStatements_subset p)
    | kept stages _ _ =>
      obtain ⟨functions, globals⟩ := stages.sourced
      exact functions.append globals
  exact (sourced _ root).of_fill

end

end Shellwright.Core

namespace Shellwright

/-! ## Names -/

theorem ofWord_eq_ident {word name : String} (h : Lexeme.ofWord word = .ident name) :
    word = name := by
  unfold Lexeme.ofWord at h
  split at h
  · cases h
  · repeat' split at h
    all_goals cases h
    rfl

/-- Only a word is read as a name, all of it. -/
theorem Reader.isName {c : Char} {read : List Char → Except (LexFault × List Char) Reading}
    (h : Reader c read) {cs : List Char} {r : Reading} (ok : read cs = .ok r) {name : String}
    (ident : r.lexeme = .ident name) : Surface.Segment.IsName name.toList := by
  cases h with
  | one s =>
    cases ok
    cases ident
  | oneOrTwo single double _ =>
    dsimp only [Shellwright.oneOrTwo] at ok
    split at ok <;> cases ok <;> cases ident
  | twice s fault =>
    dsimp only [Shellwright.twice] at ok
    split at ok <;> cases ok
    cases ident
  | text =>
    dsimp only at ok
    split at ok <;> cases ok
    cases ident
  | command =>
    unfold Lexeme.readCommand at ok
    split at ok
    · split at ok <;> cases ok
      cases ident
    · cases ok
  | number =>
    obtain ⟨digits, rest, rfl, all, stop, whole | ⟨d, places, last, rfl, first, more, ends⟩⟩ :=
      exists_number cs
    · rw [readNumber_whole all stop whole] at ok
      split at ok <;> cases ok
      cases ident
    · rw [readNumber_places all first more ends] at ok
      cases ok
      cases ident
  | word start =>
    cases ok
    rw [← ofWord_eq_ident ident, String.toList_ofList]
    refine ⟨⟨c, _, rfl, start⟩, List.forall_mem_cons.mpr ⟨?_, fun d mem => ?_⟩⟩
    · exact Surface.Segment.isNameChar_of_isNameStart start
    · exact List.all_eq_true.mp List.all_takeWhile d mem
  | stray => cases ok

/-- What is read as a name is one. -/
theorem Token.isName_of_scan {cs : List Char} {ts : List Token} {t : Token} {name : String}
    (scanned : Token.scan cs = .ok ts) (mem : t ∈ ts) (ident : t.lexeme = .ident name) :
    Surface.Segment.IsName name.toList := by
  obtain ⟨c, rest, reading, read, same⟩ := Core.exists_read scanned mem
  exact (reader_read c).isName read (same.trans ident)

end Shellwright

namespace Shellwright.Surface

/-! ## Parts and tokens -/

/-- A part of a program is a part of every program with more in it. -/
theorem Program.Part.mono {p q : Program} {n : Node} (h : p.Part n)
    (functions : p.functions ⊆ q.functions) (topLevel : p.topLevel ⊆ q.topLevel) : q.Part n := by
  induction h with
  | function mem => exact .function (functions mem)
  | stmt mem => exact .stmt (topLevel mem)
  | child _ mem ih => exact ih.child mem

/-- If the expression is a text, a command, a variable or a call, then its text or its name is
one of the lexemes. -/
def Expr.IsAmong (xs : List Lexeme) : Expr → Prop
  | .text _ segments =>
    ∃ raw, .text raw ∈ xs ∧ segments = (Segment.split 0 raw).map Segment.placeless
  | .command _ segments =>
    ∃ raw, .command raw ∈ xs ∧ segments = (Segment.split 0 raw).map Segment.placeless
  | .var _ name | .call _ name _ => .ident name ∈ xs
  | _ => True

theorem Expr.IsAmong.mono {xs ys : List Lexeme} {e : Expr} (h : e.IsAmong xs) (sub : xs ⊆ ys) :
    e.IsAmong ys := by
  cases e with
  | text span segments | command span segments =>
    obtain ⟨raw, mem, same⟩ := h
    exact ⟨raw, sub mem, same⟩
  | var | call => exact sub h
  | _ => trivial

/-- What a rule derives has its text or its name among its lexemes. -/
def Rule.Keeps : (rule : Rule) → List Lexeme → rule.Tree → Prop
  | .within _, xs, e | .signed, xs, e | .primary, xs, e => e.IsAmong xs
  | _, _, _ => True

/-- What the operators of a rule make has neither. -/
def Rule.joins : Rule → Prop
  | .within tiers => ∀ tier ∈ tiers, ∀ op ∈ tier, ∀ left right xs, (op.2 left right).IsAmong xs
  | _ => True

theorem Rule.joins_expr : Rule.expr.joins := by
  simp only [Rule.joins, tiers, List.forall_mem_cons, Expr.IsAmong, implies_true,
    List.not_mem_nil, false_implies, and_self]

/-- The names and literals of a tree are among the lexemes that spell it, by
induction on the derivation. -/
theorem Derives.keeps {rule : Rule} {xs : List Lexeme} {tree : rule.Tree}
    (h : Derives rule xs tree) (joins : rule.joins) : rule.Keeps xs tree := by
  induction h with
  | operand _ ih | plain _ ih => exact ih trivial
  | tighter _ ih => exact ih fun tier mem => joins tier (.tail _ mem)
  | joined mem _ _ _ _ => exact joins _ (.head _) _ mem _ _ _
  | text raw | command raw => exact ⟨raw, .head _, rfl⟩
  | var | call | bareCall => exact .head _
  | brackets _ ih =>
    have inner : Expr.IsAmong _ _ := ih Rule.joins_expr
    exact inner.mono (List.subset_cons_of_subset _ (List.subset_append_left ..))
  | _ => trivial

end Shellwright.Surface

namespace Shellwright.Project

open Surface

/-- The parts of a project are parts of what its files hold. -/
theorem Joins.exists_part {fs : FileSystem} {entry : Path} {p : Program} (h : Joins fs entry p)
    {n : Surface.Node} (part : p.Part n) :
    ∃ q program, program? fs q = some program ∧ program.Part n := by
  induction part with
  | function mem =>
    rw [h.functions] at mem
    obtain ⟨q, -, mem⟩ := List.mem_flatMap.mp mem
    obtain ⟨program, isProgram, isIn⟩ := exists_program_of_functionsAt mem
    exact ⟨q, program, isProgram, .function isIn⟩
  | @stmt t mem =>
    have isThere : ∃ q, t ∈ topLevelAt fs q := by
      rw [h.topLevel] at mem
      rcases List.mem_append.mp mem with mem | mem
      · obtain ⟨q, -, mem⟩ := List.mem_flatMap.mp mem
        exact ⟨q, List.mem_of_mem_filter mem⟩
      · exact ⟨entry, mem⟩
    obtain ⟨q, mem⟩ := isThere
    obtain ⟨program, isProgram, isIn⟩ := exists_program_of_topLevelAt mem
    exact ⟨q, program, isProgram, .stmt isIn⟩
  | child _ mem ih =>
    obtain ⟨q, program, isProgram, part⟩ := ih
    exact ⟨q, program, isProgram, part.child mem⟩

end Shellwright.Project

namespace Shellwright

open Surface

/-- The part was read from tokens of some text. -/
def Surface.Node.IsRead (n : Surface.Node) : Prop :=
  ∃ (s : Source) (ts own : List Token), Token.scan s.chars = .ok ts ∧ own <:+: ts ∧
    n.Spells (own.map Token.lexeme)

/-- Every part of a program that was read has tokens of its own. -/
theorem Surface.Program.Part.isRead {file : String} {s : Source} {ts : List Token} {p : Program}
    {n : Surface.Node} (part : p.Part n) (scanned : Token.scan s.chars = .ok ts)
    (parsed : Program.parse file ts = .ok p) : n.IsRead := by
  obtain ⟨own, run, stands, -⟩ := part.exists_run parsed (ordered_of_scan scanned)
  exact ⟨s, ts, own, scanned, run, stands.spells⟩

theorem isRead_of_readProgram {file : String} {s : Source} {p : Program} {n : Surface.Node}
    (h : readProgram file s = .ok p) (part : p.Part n) : n.IsRead := by
  obtain ⟨ts, tokens, parsed⟩ := bind_eq_ok.mp h
  exact part.isRead (readTokens_eq_ok.mp tokens) (mapError_eq_ok.mp parsed)

/-- Every part of a program was read from tokens, however the program was obtained. -/
theorem Obtained.isRead {p : Program} (h : Obtained p) {n : Surface.Node} (part : p.Part n) :
    n.IsRead := by
  cases h with
  | read h => exact isRead_of_readProgram h part
  | readWithSource h =>
    obtain ⟨program, isRead, h⟩ := bind_eq_ok.mp h
    cases h
    exact isRead_of_readProgram isRead (part.mono (List.Subset.refl _) (List.Subset.refl _))
  | load h =>
    obtain ⟨place, program, source, inner, found, completes, functions, topLevel⟩ :=
      Project.completes_of_load h
    obtain ⟨q, file, isFile, part⟩ := (completes.joins found functions topLevel).exists_part part
    obtain ⟨s, ts, scanned, parsed⟩ := Project.exists_parse_of_program? isFile
    exact part.isRead scanned parsed

end Shellwright

namespace Shellwright.Core

open Surface.Segment (IsName)
open Shellwright.Script

/-! ## Texts and names in a script -/

/-- The mode in which nothing is quoted. -/
def bareMode : Mode := { quote := false }

/-- In quotes, what is written for a text or a variable ends at the last quote: a text holds no
quote without a backslash before it, and a variable has a name. -/
def Expr.Closed : Expr → Prop
  | .text _ segments => Escaped '"' (segmentsText bareMode segments).toList
  | .var _ v => IsName v.name.toList
  | _ => True

/-- What means an expression of an obtained program has no open quotes in it. -/
theorem IsMeaning.closed {p : Surface.Program} {e : Expr} (h : IsMeaning p e)
    (obtained : Obtained p) :
    e.Closed := by
  obtain ⟨s, src, part, resolved⟩ := h
  obtain ⟨source, ts, own, scanned, run, spells⟩ := obtained.isRead part
  have among := Surface.Derives.keeps spells Surface.Rule.joins_expr
  cases e with
  | text ty segments =>
    cases resolveExpr_mirrors s resolved with
    | @text span _ gs _ _ =>
      cases resolved
      obtain ⟨raw, mem, same⟩ := among
      obtain ⟨t, isOwn, lexeme⟩ := List.mem_map.mp mem
      have closed := textBody_of_token scanned (run.subset isOwn) lexeme []
      have respelled := respelled_literalText s bareMode 0 raw
      rw [Expr.Closed, resolveSegments_eq s same]
      exact escaped_iff.mp (textBody_respelled respelled closed)
  | var ty v =>
    cases resolveExpr_mirrors s resolved with
    | var name =>
      obtain ⟨t, isOwn, lexeme⟩ := List.mem_map.mp among
      rw [Expr.Closed, name]
      exact Token.isName_of_scan scanned (run.subset isOwn) lexeme
  | _ => trivial

/-- All texts and variables in the script of a program that was read or loaded are closed. -/
theorem closed_of_root {library : Bool} {p : Surface.Program} {module : Module}
    (obtained : Obtained p) (resolved : Module.ofProgram library p = .ok module) {place : Place}
    {frames : List Frame} {e : Expr} (root : (place, fill frames e) ∈ module.roots) : e.Closed :=
  (exists_source_of_root resolved root).closed obtained

end Shellwright.Core
