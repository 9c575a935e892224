import Shellwright.Proofs.Diagnostics
import Shellwright.Proofs.LiteralTokens
import Shellwright.Proofs.Literals
import Shellwright.Proofs.Rereading
import Shellwright.Proofs.WrittenText

/-!
# Interpolation

A text is cut into its pieces without loss: pieces of plain text, as long as they can be, and
references, each where a dollar sign begins one. A backslash pairs with the character after it,
from the left, and a dollar sign that is the second of a pair begins nothing.

* `Segment.written_splitFrom`, `Segment.apart_splitFrom`: the pieces are the text, and no two
  pieces of plain text are neighbours.
* `Segment.refersAt_splitFrom_iff`: where the references are, what they name, and their places.
* `readProgram_interpolated`: so it is with every text and command of a program.
-/

namespace Shellwright

open Text (byteSize)

namespace Surface.Segment

variable {gs : List Segment} {before cs : List Char} {name ref : String} {span : Span}

/-! ## Pieces -/

def isText : Segment → Bool
  | .text _ => true
  | .ref .. => false

/-- The text that pieces were read from. -/
def written (gs : List Segment) : List Char := gs.flatMap fun g => g.raw.toList

/-- No two pieces of plain text are neighbours. -/
def Apart (gs : List Segment) : Prop :=
  gs.IsChain fun g h => ¬(g.isText = true ∧ h.isText = true)

theorem written_cons (g : Segment) (gs : List Segment) :
    written (g :: gs) = g.raw.toList ++ written gs :=
  List.flatMap_cons

/-- Plain text stands for itself. -/
theorem written_consText (text : String) (gs : List Segment) :
    written (consText text gs) = text.toList ++ written gs := by
  unfold consText
  split
  · rw [written_cons, written_cons, raw, raw, String.toList_append, List.append_assoc]
  · rw [written_cons, raw]

/-- The pieces of a text, put together again, are the text. -/
theorem written_splitFrom (pos : Nat) (cs : List Char) : written (splitFrom 0 pos cs) = cs := by
  induction pieces cs generalizing pos with
  | nil => rw [splitFrom]; rfl
  | escape c _ ih => rw [splitFrom_escape, written_consText, ih, String.toList_ofList]; rfl
  | char lone absent _ ih =>
    rw [splitFrom_char lone absent, written_consText, ih, String.toList_singleton]; rfl
  | reference isName stop _ ih =>
    rw [splitFrom_spelling isName stop, written_cons, ih, raw, String.toList_ofList,
      List.cons_append]

/-- Plain text joins the one after it, so pieces of plain text stay apart. -/
theorem Apart.consText (h : Apart gs) (text : String) : Apart (consText text gs) := by
  cases gs with
  | nil => exact .singleton _
  | cons g gs =>
    cases g with
    | text next =>
      cases gs with
      | nil => exact .singleton _
      | cons g gs =>
        obtain ⟨step, others⟩ := List.isChain_cons_cons.mp h
        exact List.isChain_cons_cons.mpr ⟨step, others⟩
    | ref => exact List.isChain_cons_cons.mpr ⟨fun both => Bool.false_ne_true both.2, h⟩

theorem Apart.consRef (h : Apart gs) (name ref : String) (span : Span) :
    Apart (.ref name ref span :: gs) := by
  cases gs with
  | nil => exact .singleton _
  | cons g gs => exact List.isChain_cons_cons.mpr ⟨fun both => Bool.false_ne_true both.1, h⟩

/-- In the pieces of a text no two plain ones stand side by side. -/
theorem apart_splitFrom (pos : Nat) (cs : List Char) : Apart (splitFrom 0 pos cs) := by
  induction pieces cs generalizing pos with
  | nil => rw [splitFrom]; exact .nil
  | escape c _ ih => rw [splitFrom_escape]; exact (ih _).consText _
  | char lone absent _ ih => rw [splitFrom_char lone absent]; exact (ih _).consText _
  | reference isName stop _ ih => rw [splitFrom_spelling isName stop]; exact (ih _).consRef _ _ _

/-! ## Pairs -/

/-- Where backslashes pair with the characters after them, from the left, the text ends within a
pair: the next character is the second of one. -/
def endsInPair (cs : List Char) : Bool := cs.foldl (fun opened c => !opened && c == '\\') false

/-- An escaped character is a pair by itself. -/
theorem endsInPair_escape (c : Char) (cs : List Char) :
    endsInPair ('\\' :: c :: cs) = endsInPair cs := rfl

theorem endsInPair_cons {c : Char} (h : c ≠ '\\') (cs : List Char) :
    endsInPair (c :: cs) = endsInPair cs := by
  have other : (c == '\\') = false := beq_false_of_ne h
  rw [endsInPair, List.foldl_cons, other]
  rfl

/-- Text without backslash leaves pairs as they are. -/
theorem endsInPair_append {us : List Char} (h : '\\' ∉ us) (cs : List Char) :
    endsInPair (us ++ cs) = endsInPair cs := by
  induction us with
  | nil => rfl
  | cons u us ih =>
    obtain ⟨first, others⟩ := not_or.mp (mt List.mem_cons.mpr h)
    rw [List.cons_append, endsInPair_cons (Ne.symm first), ih others]

/-! ## References -/

/-- Among the pieces a reference stands behind the text `before`. -/
def RefersAt (gs : List Segment) (before : List Char) (name ref : String) (span : Span) : Prop :=
  ∃ pre post, gs = pre ++ .ref name ref span :: post ∧ written pre = before

/-- A dollar sign and the text after it begin a reference: a name in braces, or a name as
far as it goes. -/
def Begins (after : List Char) (name ref : String) : Prop :=
  IsName name.toList ∧ ∃ braced rest, after = spelling braced name.toList ++ rest ∧
    (braced = false → goesOnName rest = false) ∧ ref.toList = '$' :: spelling braced name.toList

/-- In the text a reference stands behind `before`, where the dollar sign is not the
second of a pair. -/
def IsReference (cs before : List Char) (name ref : String) : Prop :=
  endsInPair before = false ∧ ∃ after, cs = before ++ '$' :: after ∧ Begins after name ref

theorem not_refersAt_nil : ¬RefersAt [] before name ref span := by
  rintro ⟨pre, post, same, -⟩
  cases pre <;> cases same

/-- Behind plain text references stand that much further on. -/
theorem refersAt_text_cons (text : String) :
    RefersAt (.text text :: gs) before name ref span ↔
      ∃ later, before = text.toList ++ later ∧ RefersAt gs later name ref span := by
  constructor
  · rintro ⟨pre, post, same, rfl⟩
    cases pre with
    | nil => cases same
    | cons g pre =>
      cases same
      exact ⟨_, written_cons _ pre, pre, post, rfl, rfl⟩
  · rintro ⟨_, rfl, pre, post, rfl, rfl⟩
    exact ⟨.text text :: pre, post, rfl, written_cons _ pre⟩

/-- So they do where plain text is joined to the pieces. -/
theorem refersAt_consText (text : String) :
    RefersAt (consText text gs) before name ref span ↔
      ∃ later, before = text.toList ++ later ∧ RefersAt gs later name ref span := by
  unfold consText
  split
  · next next rest =>
    simp only [refersAt_text_cons, String.toList_append]
    constructor
    · rintro ⟨later, rfl, h⟩
      exact ⟨next.toList ++ later, List.append_assoc .., later, rfl, h⟩
    · rintro ⟨_, rfl, later, rfl, h⟩
      exact ⟨later, (List.append_assoc ..).symm, h⟩
  · exact refersAt_text_cons text

/-- The first piece is a reference, or references stand behind it. -/
theorem refersAt_ref_cons {name' ref' : String} {span' : Span} :
    RefersAt (.ref name' ref' span' :: gs) before name ref span ↔
      before = [] ∧ name = name' ∧ ref = ref' ∧ span = span' ∨
      ∃ later, before = ref'.toList ++ later ∧ RefersAt gs later name ref span := by
  constructor
  · rintro ⟨pre, post, same, rfl⟩
    cases pre with
    | nil =>
      cases same
      exact .inl ⟨rfl, rfl, rfl, rfl⟩
    | cons g pre =>
      cases same
      exact .inr ⟨_, written_cons _ pre, pre, post, rfl, rfl⟩
  · rintro (⟨rfl, rfl, rfl, rfl⟩ | ⟨_, rfl, pre, post, rfl, rfl⟩)
    · exact ⟨[], gs, rfl, rfl⟩
    · exact ⟨.ref name' ref' span' :: pre, post, rfl, written_cons _ pre⟩

/-- At most one reference begins at a place. -/
theorem Begins.eq {after : List Char} {name name' ref ref' : String} (h : Begins after name ref)
    (h' : Begins after name' ref') : name = name' ∧ ref = ref' := by
  obtain ⟨isName, braced, rest, rfl, stop, spelled⟩ := h
  obtain ⟨isName', braced', rest', same, stop', spelled'⟩ := h'
  have found := reference?_spelling isName stop
  rw [same, reference?_spelling isName' stop'] at found
  obtain ⟨names, spellings⟩ := Prod.mk.inj (Option.some.inj found)
  refine ⟨String.toList_inj.mp names.symm, String.toList_inj.mp ?_⟩
  rw [spelled, spelled', spellings]

theorem Begins.reference?_ne_none {after : List Char} (h : Begins after name ref) :
    reference? after ≠ none := by
  obtain ⟨isName, braced, rest, rfl, stop, -⟩ := h
  rw [reference?_spelling isName stop]
  exact Option.some_ne_none _

/-- Either spelling of a name begins a reference to it. -/
theorem begins_spelling {name cs : List Char} {braced : Bool} (isName : IsName name)
    (stop : braced = false → goesOnName cs = false) :
    Begins (spelling braced name ++ cs) (String.ofList name)
      (String.ofList ('$' :: spelling braced name)) := by
  simp only [Begins, String.toList_ofList]
  exact ⟨isName, braced, cs, rfl, stop, rfl⟩

/-! ## References of a text, piece by piece -/

theorem not_isReference_nil : ¬IsReference [] before name ref := by
  rintro ⟨-, after, same, -⟩
  cases before <;> cases same

/-- No reference begins in a pair. -/
theorem isReference_escape (c : Char) :
    IsReference ('\\' :: c :: cs) before name ref ↔
      ∃ later, before = ['\\', c] ++ later ∧ IsReference cs later name ref := by
  constructor
  · rintro ⟨closed, after, same, begins⟩
    cases before with
    | nil => cases same
    | cons x before =>
      cases before with
      | nil =>
        -- The dollar sign would be the second of the pair.
        cases same
        cases closed
      | cons y before =>
        cases same
        rw [endsInPair_escape] at closed
        exact ⟨before, rfl, closed, after, rfl, begins⟩
  · rintro ⟨later, rfl, closed, after, rfl, begins⟩
    exact ⟨(endsInPair_escape c later).trans closed, after, rfl, begins⟩

theorem ne_backslash {c d : Char} {us vs : List Char} (lone : c = '\\' → us ++ d :: vs = []) :
    c ≠ '\\' :=
  fun backslash => List.append_ne_nil_of_right_ne_nil us (List.cons_ne_nil d vs) (lone backslash)

/-- No reference begins at a character that is no dollar sign before a name. -/
theorem isReference_char {c : Char} (lone : c = '\\' → cs = [])
    (absent : c = '$' → reference? cs = none) :
    IsReference (c :: cs) before name ref ↔
      ∃ later, before = [c] ++ later ∧ IsReference cs later name ref := by
  constructor
  · rintro ⟨closed, after, same, begins⟩
    cases before with
    | nil =>
      cases same
      exact absurd (absent rfl) begins.reference?_ne_none
    | cons x before =>
      rw [List.cons_append] at same
      obtain ⟨rfl, rfl⟩ := List.cons.inj same
      rw [endsInPair_cons (ne_backslash lone)] at closed
      exact ⟨before, rfl, closed, after, rfl, begins⟩
  · rintro ⟨later, rfl, closed, after, rfl, begins⟩
    exact ⟨(endsInPair_cons (ne_backslash lone) later).trans closed, after, rfl, begins⟩

/-- Where a reference begins it is the first one, and the others stand behind it. -/
theorem isReference_spelling {name' : List Char} {braced : Bool} (isName : IsName name')
    (stop : braced = false → goesOnName cs = false) :
    IsReference ('$' :: (spelling braced name' ++ cs)) before name ref ↔
      before = [] ∧ name = String.ofList name' ∧
      ref = String.ofList ('$' :: spelling braced name') ∨
      ∃ later, before = ('$' :: spelling braced name') ++ later ∧
        IsReference cs later name ref := by
  have noDollar : '$' ∉ spelling braced name' :=
    isName.not_mem_spelling braced (by decide) (by decide) (by decide)
  have noBackslash : '\\' ∉ '$' :: spelling braced name' :=
    isName.not_mem_reference braced (by decide) (by decide) (by decide) (by decide)
  constructor
  · rintro ⟨closed, after, same, begins⟩
    cases before with
    | nil =>
      cases same
      obtain ⟨names, refs⟩ := begins.eq (begins_spelling isName stop)
      exact .inl ⟨rfl, names, refs⟩
    | cons x before =>
      rw [List.cons_append] at same
      obtain ⟨rfl, behind⟩ := List.cons.inj same
      -- The dollar sign is not among the characters of the first reference.
      rcases List.append_eq_append_iff.mp behind with ⟨later, rfl, rest⟩ | ⟨more, inside, rest⟩
      · rw [← List.cons_append, endsInPair_append noBackslash] at closed
        exact .inr ⟨later, rfl, closed, after, rest, begins⟩
      · cases more with
        | nil =>
          rw [List.append_nil] at inside
          subst inside
          rw [← List.append_nil ('$' :: spelling braced name'), endsInPair_append noBackslash]
            at closed
          exact .inr ⟨[], (List.append_nil _).symm, closed, after, rest.symm, begins⟩
        | cons y more =>
          cases rest
          exact absurd (inside ▸ List.mem_append_right _ List.mem_cons_self) noDollar
  · rintro (⟨rfl, rfl, rfl⟩ | ⟨later, rfl, closed, after, rfl, begins⟩)
    · exact ⟨rfl, _, rfl, begins_spelling isName stop⟩
    · exact ⟨(endsInPair_append noBackslash later).trans closed, after, by simp, begins⟩

/-- The place of a reference behind `before`, in a text that begins at byte `pos`. -/
def placeBehind (pos : Nat) (before : List Char) (ref : String) : Span :=
  ⟨pos + byteSize before, pos + byteSize before + byteSize ref.toList⟩

/-- Places are counted in bytes from the beginning of the text. -/
theorem placeBehind_append (pos : Nat) (taken later : List Char) (ref : String) :
    placeBehind pos (taken ++ later) ref = placeBehind (pos + byteSize taken) later ref := by
  simp only [placeBehind, Text.byteSize_append, Nat.add_assoc]

theorem exists_later_iff {p : List Char → Prop} {pos : Nat} {taken : List Char} :
    (∃ later, before = taken ++ later ∧ p later ∧
      span = placeBehind (pos + byteSize taken) later ref) ↔
    (∃ later, before = taken ++ later ∧ p later) ∧ span = placeBehind pos before ref := by
  constructor
  · rintro ⟨later, rfl, holds, rfl⟩
    exact ⟨⟨later, rfl, holds⟩, (placeBehind_append ..).symm⟩
  · rintro ⟨⟨later, rfl, holds⟩, rfl⟩
    exact ⟨later, rfl, holds, placeBehind_append ..⟩

/-- The references among the pieces are those of the text, at their places. -/
theorem refersAt_splitFrom_iff {pos : Nat} :
    RefersAt (splitFrom 0 pos cs) before name ref span ↔
      IsReference cs before name ref ∧ span = placeBehind pos before ref := by
  induction pieces cs generalizing pos before with
  | nil =>
    rw [splitFrom]
    exact iff_of_false not_refersAt_nil fun both => not_isReference_nil both.1
  | escape c _ ih =>
    rw [splitFrom_escape, refersAt_consText, isReference_escape, String.toList_ofList]
    simp only [ih]
    exact exists_later_iff
  | @char c cs lone absent _ ih =>
    rw [splitFrom_char lone absent, refersAt_consText, isReference_char lone absent,
      String.toList_singleton]
    simp only [ih]
    exact exists_later_iff
  | @reference name' cs braced isName stop _ ih =>
    rw [splitFrom_spelling isName stop, refersAt_ref_cons, isReference_spelling isName stop,
      or_and_right, String.toList_ofList]
    simp only [ih, exists_later_iff]
    refine or_congr ?_ Iff.rfl
    constructor
    · rintro ⟨rfl, rfl, rfl, rfl⟩
      refine ⟨⟨rfl, rfl, rfl⟩, ?_⟩
      rw [placeBehind, String.toList_ofList]
      rfl
    · rintro ⟨⟨rfl, rfl, rfl⟩, rfl⟩
      refine ⟨rfl, rfl, rfl, ?_⟩
      rw [placeBehind, String.toList_ofList]
      rfl

end Surface.Segment

/-! ## Texts and commands of programs -/

open Surface Surface.Segment

/-- The pieces of a text or a command. -/
def Surface.Node.segments? : Surface.Node → Option (List Segment)
  | .expr (.text _ segments) => some segments
  | .expr (.command _ segments) => some segments
  | _ => none

/-- The pieces are the raw text of a token, cut where it has to be cut. -/
structure Interpolated (s : Source) (t : Token) (raw : String) (segments : List Segment) :
    Prop where
  whole : written segments = raw.toList
  filled : ∀ text, .text text ∈ segments → text ≠ ""
  apart : Apart segments
  /-- A reference stands among the pieces just where the text has one. -/
  references : ∀ before name ref span, RefersAt segments before name ref span ↔
    IsReference raw.toList before name ref ∧ span = placeBehind t.body before ref
  /-- The text under the place of a reference, which lies within the token, is the reference. -/
  places : ∀ name ref span, .ref name ref span ∈ segments →
    s.cut? span = some ref.toList ∧ t.span.start ≤ span.start ∧ span.stop ≤ t.span.stop
  /-- Looking for the raw text in the token would find it at the same place. -/
  first : '$' ∈ raw.toList → ∀ before after, s.slice t.span = before ++ (raw.toList ++ after) →
    t.body ≤ t.span.start + byteSize before

/-- The pieces of a literal token are as the text says, with places in the source. -/
theorem interpolated_split {s : Source} {ts : List Token} {t : Token} {raw : String}
    (scanned : Token.scan s.chars = .ok ts) (mem : t ∈ ts)
    (literal : t.lexeme = .text raw ∨ t.lexeme = .command raw) :
    Interpolated s t raw (Segment.split t.body raw) := by
  refine ⟨written_splitFrom _ _, fun text isPiece => filled_split _ _ _ isPiece,
    apart_splitFrom _ _, fun before name ref span => refersAt_splitFrom_iff,
    fun name ref span isPiece => ?_, fun dollar before after found =>
      Token.body_le scanned mem literal dollar found⟩
  have cut := (Token.sliceable scanned mem).references raw literal name ref span isPiece
  obtain ⟨lead, trail, -, body, stop, -, -⟩ := Token.exists_lead scanned mem literal
  obtain ⟨before, after, whole, rfl⟩ := exists_of_mem_splitFrom isPiece
  rw [whole, Text.byteSize_append, Text.byteSize_append] at stop
  exact ⟨cut, by dsimp only; omega, by dsimp only; omega⟩

/-- Whatever text is read as a program: every text and every command in it, at any depth, has the
pieces of the raw text of its token. -/
theorem readProgram_interpolated (file : String) (s : Source) (p : Program)
    (isRead : readProgram file s = .ok p) :
    ∃ ts, readTokens file s = .ok ts ∧
      ∀ n segments, p.Part n → n.segments? = some segments → ∃ t ∈ ts, ∃ raw span,
        (n = .expr (.text span segments) ∧ t.lexeme = .text raw ∨
          n = .expr (.command span segments) ∧ t.lexeme = .command raw) ∧
        span.start ≤ t.span.start ∧ t.span.stop ≤ span.stop ∧ Interpolated s t raw segments := by
  obtain ⟨ts, tokens, parsed⟩ := bind_eq_ok.mp isRead
  have parsed := mapError_eq_ok.mp parsed
  have scanned := readTokens_eq_ok.mp tokens
  refine ⟨ts, tokens, fun n segments part pieces => ?_⟩
  cases part.made parsed (ordered_of_scan scanned) with
  | intro self _ =>
    unfold Node.segments? at pieces
    split at pieces
    · cases pieces
      obtain ⟨t, mem, made, starts, stops⟩ := self _ rfl rfl
      cases made with
      | text same =>
        exact ⟨t, mem, _, _, .inl ⟨rfl, same⟩, starts, stops,
          interpolated_split scanned mem (.inl same)⟩
    · cases pieces
      obtain ⟨t, mem, made, starts, stops⟩ := self _ rfl rfl
      cases made with
      | command same =>
        exact ⟨t, mem, _, _, .inr ⟨rfl, same⟩, starts, stops,
          interpolated_split scanned mem (.inr same)⟩
    · cases pieces

/-- An escaped dollar sign, a reference in braces and a lone dollar sign; and a command whose
text does not begin behind its bracket. -/
theorem readProgram_interpolated_sample :
    ∃ p ts, readProgram "f" ⟨"x=\"\\$a$\x7bb\x7d$\";@( $x );"⟩ = .ok p ∧
      readTokens "f" ⟨"x=\"\\$a$\x7bb\x7d$\";@( $x );"⟩ = .ok ts ∧
      ∀ segments ∈ [[.text "\\$a", .ref "b" "$\x7bb\x7d" ⟨6, 10⟩, .text "$"],
        [.ref "x" "$x" ⟨16, 18⟩]], (∃ n, p.Part n ∧ n.segments? = some segments) ∧
        ∃ t ∈ ts, ∃ raw, Interpolated ⟨"x=\"\\$a$\x7bb\x7d$\";@( $x );"⟩ t raw segments := by
  obtain ⟨p, isRead, found⟩ := exists_ok_of_any
    (x := readProgram "f" ⟨"x=\"\\$a$\x7bb\x7d$\";@( $x );"⟩)
    (q := fun p => p.topLevel.flatMap (fun t => t.stmt.children.filterMap Node.segments?) =
      [[.text "\\$a", .ref "b" "$\x7bb\x7d" ⟨6, 10⟩, .text "$"], [.ref "x" "$x" ⟨16, 18⟩]])
    (by decide +kernel)
  obtain ⟨ts, tokens, interpolated⟩ := readProgram_interpolated "f" _ p isRead
  refine ⟨p, ts, isRead, tokens, fun segments mem => ?_⟩
  rw [← of_decide_eq_true found] at mem
  obtain ⟨item, isItem, mem⟩ := List.mem_flatMap.mp mem
  obtain ⟨n, below, pieces⟩ := List.mem_filterMap.mp mem
  have part : p.Part n := .child (.stmt isItem) below
  obtain ⟨t, isToken, raw, _, _, _, _, holds⟩ := interpolated n segments part pieces
  exact ⟨⟨n, part, pieces⟩, t, isToken, raw, holds⟩

end Shellwright
