import Mathlib.Data.Nat.PSub
import Shellwright.Proofs.Extents
import Shellwright.Proofs.Layouts
import Shellwright.Proofs.Lines
import Shellwright.Proofs.RawTexts

/-!
# Diagnostics stay within the text

A diagnostic shows a piece of the text, and for that it counts lines, cuts the text and steps
back from a column. Here all these steps are done over again in a way that fails when an
index, a cut or a difference is not defined. For the places that reading and resolving ever
tell of, nothing fails.

* `Source.Shown`: the places that can be shown. The end of the file is one of them although it
  lies past the text.
* `Diagnostic.format?`, `Diagnostic.format?_eq`: a diagnostic with such a place has a text.
* `Token.Sliceable`, `Token.sliceable`: what tokens and references say stands at their places.
* `diagnose_within`: whatever a text is, what is told about it can be shown.
-/

namespace Shellwright

open Text (byteSize)

namespace Source

variable {s : Source}

/-! ## Lines -/

/-- A line begins at a boundary. -/
theorem isBoundary_of_mem_breaks {before cs : List Char} (whole : s.chars = before ++ cs)
    {start : Nat} (mem : start ∈ breaksFrom (byteSize before) cs) : s.IsBoundary start := by
  induction cs generalizing before with
  | nil => cases mem
  | cons c cs ih =>
    have further : s.chars = (before ++ [c]) ++ cs := by simp [whole]
    have size : byteSize (before ++ [c]) = byteSize before + c.utf8Size := by
      simp [Text.byteSize_append, byteSize]
    rw [breaksFrom] at mem
    split at mem
    · next newline =>
      subst newline
      have one : byteSize (before ++ ['\n']) = byteSize before + 1 := size
      rw [← one] at mem
      rcases List.mem_cons.mp mem with rfl | mem
      · exact isBoundary_of_append further
      · exact ih further mem
    · rw [← size] at mem
      exact ih further mem

theorem isBoundary_of_mem_lineStarts {start : Nat} (mem : start ∈ s.lineStarts) :
    s.IsBoundary start := by
  rcases List.mem_cons.mp mem with rfl | mem
  · exact s.isBoundary_zero
  · have whole : s.chars = [] ++ s.chars := rfl
    exact isBoundary_of_mem_breaks whole mem

/-- Between the beginnings of two lines that follow each other stands a newline. -/
theorem newline_between {before cs : List Char} (whole : s.chars = before ++ cs) {first : Nat}
    (le : first ≤ byteSize before) {k start next : Nat}
    (found : (first :: breaksFrom (byteSize before) cs)[k]? = some start)
    (found' : (first :: breaksFrom (byteSize before) cs)[k + 1]? = some next) :
    start < next ∧ s.IsBoundary (next - 1) := by
  induction cs generalizing before first k with
  | nil => cases found'
  | cons c cs ih =>
    have further : s.chars = (before ++ [c]) ++ cs := by simp [whole]
    have size : byteSize (before ++ [c]) = byteSize before + c.utf8Size := by
      simp [Text.byteSize_append, byteSize]
    rw [breaksFrom] at found found'
    split at found
    · next newline =>
      subst newline
      have one : byteSize (before ++ ['\n']) = byteSize before + 1 := size
      rw [if_pos rfl] at found'
      cases k with
      | zero =>
        cases found
        cases found'
        exact ⟨by omega, isBoundary_of_append whole⟩
      | succ k =>
        rw [← one] at found found'
        exact ih further (Nat.le_refl _) found found'
    · next other =>
      rw [if_neg other] at found'
      rw [← size] at found found'
      exact ih further (by omega) found found'

/-- The index of the line that holds an offset. Where the offset is no line start, this is a step
back from where it would be put in, and the step is not defined at the front of the table. -/
def lineIndex? (s : Source) (pos : Nat) : Option Nat :=
  match search pos s.lineStarts with
  | .ok index => some index
  | .error index => index.ppred

/-- The search never fails to find a line, for the first entry is at the beginning. -/
theorem LastUpTo.lineIndex?_eq {pos k start : Nat} (h : LastUpTo s.lineStarts pos k start) :
    s.lineIndex? pos = some k := by
  unfold lineIndex?
  rw [h.search_eq s.pairwise_lineStarts]
  by_cases same : start = pos
  · rw [if_pos same]
  · rw [if_neg same]
    rfl

/-- Line and column of a byte offset, if the table has the line and the text can be cut there. -/
def lineCol? (s : Source) (pos : Nat) : Option (Nat × Nat) := do
  let index ← s.lineIndex? (s.clip pos)
  let start ← s.lineStarts[index]?
  let before ← s.cut? ⟨start, s.clip pos⟩
  return (index + 1, before.length + 1)

/-- Line and column are found at every boundary. -/
theorem lineCol?_eq {pos : Nat} (h : s.IsBoundary (s.clip pos)) :
    s.lineCol? pos = some (s.lineCol pos) := by
  -- The first line begins at zero, so some line begins last before the offset.
  obtain ⟨k, start, last⟩ := exists_lastUpTo (Nat.zero_le (s.clip pos)) (breaksFrom 0 s.chars)
  have last : LastUpTo s.lineStarts (s.clip pos) k start := last
  have covers : s.Covers ⟨start, s.clip pos⟩ :=
    ⟨last.le, h.le_size, isBoundary_of_mem_lineStarts (List.mem_of_getElem? last.found), h⟩
  have entry : s.lineStarts.getD k 0 = start := by
    rw [List.getD_eq_getElem?_getD, last.found, Option.getD_some]
  simp only [lineCol?, lineCol, last.lineIndex?_eq, last.lineIndex_eq, last.found, entry,
    Option.bind_eq_bind, Option.bind_some, covers.cut?_eq]
  rfl

/-- The text of a line, if the text can be cut where the line begins and ends. -/
def lineText? (s : Source) (line : Nat) : Option String :=
  match line with
  | 0 => some ""
  | k + 1 =>
    match s.lineStarts[k]? with
    | none => some ""
    | some start => do
      let stop ← match s.lineStarts[k + 1]? with
        | some next => next.ppred
        | none => some s.size
      let text ← s.cut? ⟨start, stop⟩
      return String.ofList text

/-- The text of a line is always found. -/
theorem lineText?_eq (line : Nat) : s.lineText? line = some (s.lineText line) := by
  unfold lineText? lineText
  match line with
  | 0 => rfl
  | k + 1 =>
    dsimp only
    cases found : s.lineStarts[k]? with
    | none => rfl
    | some start =>
      have begins := isBoundary_of_mem_lineStarts (List.mem_of_getElem? found)
      cases found' : s.lineStarts[k + 1]? with
      | none =>
        have covers : s.Covers ⟨start, s.size⟩ :=
          ⟨begins.le_size, Nat.le_refl _, begins, s.isBoundary_size⟩
        simp only [Option.bind_eq_bind, Option.bind_some, covers.cut?_eq]
        rfl
      | some next =>
        have whole : s.chars = [] ++ s.chars := rfl
        obtain ⟨less, ends⟩ := newline_between whole (Nat.le_refl 0) found found'
        have back : next.ppred = some (next - 1) := Nat.ppred_eq_some.mpr (by omega)
        have covers : s.Covers ⟨start, next - 1⟩ :=
          ⟨by dsimp only; omega, ends.le_size, begins, ends⟩
        simp only [back, Option.bind_eq_bind, Option.bind_some, covers.cut?_eq]
        rfl

/-! ## Places that can be shown -/

/-- The span begins within the text, and its ends, moved back to the end of the text, lie between
characters. -/
structure Shown (s : Source) (span : Span) : Prop where
  ordered : span.start ≤ span.stop
  within : span.start ≤ s.size
  start : s.IsBoundary (s.clip span.start)
  stop : s.IsBoundary (s.clip span.stop)

theorem clip_eq {pos : Nat} (h : pos ≤ s.size) : s.clip pos = pos := Nat.min_eq_left h

/-- A span of the text can be shown. -/
theorem Covers.shown {span : Span} (h : s.Covers span) : s.Shown span := by
  have within := h.start.le_size
  refine ⟨h.ordered, within, ?_, ?_⟩
  · rw [clip_eq within]
    exact h.start
  · rw [clip_eq h.within]
    exact h.stop

/-- Two spans that can be shown can be shown together. -/
theorem Shown.merge {a b : Span} (first : s.Shown a) (second : s.Shown b) :
    s.Shown (a.merge b) := by
  have := first.ordered
  have := second.ordered
  have := first.within
  refine ⟨by simp only [Span.merge]; omega, by simp only [Span.merge]; omega, ?_, ?_⟩
  · rcases Nat.le_total a.start b.start with le | le
    · simpa only [Span.merge, Nat.min_eq_left le] using first.start
    · simpa only [Span.merge, Nat.min_eq_right le] using second.start
  · rcases Nat.le_total a.stop b.stop with le | le
    · simpa only [Span.merge, Nat.max_eq_right le] using second.stop
    · simpa only [Span.merge, Nat.max_eq_left le] using first.stop

/-- What is shown of a span is clipped to a span of the text. -/
theorem Shown.covers {span : Span} (h : s.Shown span) :
    s.Covers ⟨s.clip span.start, s.clip span.stop⟩ := by
  have := h.ordered
  exact ⟨by simp only [clip]; omega, h.stop.le_size, h.start, h.stop⟩

end Source

/-! ## Texts of diagnostics -/

namespace Diagnostic

variable {s : Source} {span : Span}

/-- The line under the source line, if all of it is defined. -/
def markLine? (s : Source) (span : Span) : Option String := do
  let (line, col) ← s.lineCol? span.start
  let (lastLine, _) ← s.lineCol? span.stop
  let indent ← col.ppred
  let width ←
    if line = lastLine ∧ s.clip span.start < s.clip span.stop then
      (s.cut? ⟨s.clip span.start, s.clip span.stop⟩).map List.length
    else some 1
  return run ' ' indent ++ "^" ++ run '~' (width - 1)

/-- The marks under a span that can be shown can be computed. -/
theorem markLine?_eq (shown : s.Shown span) : markLine? s span = some (markLine s span) := by
  have back : (s.lineCol span.start).2.ppred = some ((s.lineCol span.start).2 - 1) := rfl
  unfold markLine? markLine
  simp only [Source.lineCol?_eq shown.start, Source.lineCol?_eq shown.stop, Option.bind_eq_bind,
    Option.bind_some, back]
  by_cases same : (s.lineCol span.start).1 = (s.lineCol span.stop).1
  · by_cases less : s.clip span.start < s.clip span.stop
    · rw [if_pos ⟨same, less⟩, if_pos same, shown.covers.cut?_eq]
      rfl
    · -- Nothing is under the span, and one caret is written all the same.
      rw [if_neg (fun both => less both.2), if_pos same,
        Source.slice_eq_nil (Nat.le_of_not_lt less)]
      rfl
  · rw [if_neg (fun both => same both.1), if_neg same]
    rfl

/-- Message, line and mark of a place, if all of it is defined. -/
def located? (s : Source) (file : String) (base : Option Path) (message : String) (span : Span) :
    Option String := do
  let (line, col) ← s.lineCol? span.start
  let text ← s.lineText? line
  let mark ← markLine? s span
  return Path.shown ⟨file⟩ base ++ ":" ++ toString line ++ ":" ++ toString col ++ ": " ++ message
    ++ "\n" ++ text ++ "\n" ++ mark

/-- So can the message with its place. -/
theorem located?_eq (shown : s.Shown span) (file : String) (base : Option Path)
    (message : String) :
    located? s file base message span = some (located s file base message span) := by
  simp only [located?, Source.lineCol?_eq shown.start, Source.lineText?_eq, markLine?_eq shown]
  rfl

/-- The text of a diagnostic, if all of it is defined. -/
def format? (d : Diagnostic) (base : Option Path) : Option String := do
  let main ← match d.source, d.file with
    | some source, some file => located? source file base d.message d.span
    | none, some file => some (Path.shown ⟨file⟩ base ++ ": error: " ++ d.message)
    | _, none => some ("error: " ++ d.message)
  return match d.help with
    | some help => main ++ "\nhelp: " ++ help
    | none => main

/-- So can a diagnostic as a whole. -/
theorem format?_eq {d : Diagnostic} (h : d.source = some s) (shown : s.Shown d.span)
    (base : Option Path) : d.format? base = some (d.format base) := by
  unfold format? format
  rw [h]
  cases d.file with
  | none => rfl
  | some file =>
    dsimp only
    rw [located?_eq shown]
    rfl

end Diagnostic

/-! ## Places of tokens -/

/-- The token's characters can be cut out of the text, and so can its raw text and all references
in it. Its raw text is found and split by counting bytes, and no step of that fails. -/
structure Token.Sliceable (s : Source) (t : Token) : Prop where
  covers : s.Covers t.span
  raw : ∀ raw, t.lexeme = .text raw ∨ t.lexeme = .command raw →
    s.cut? ⟨t.body, t.body + byteSize raw.toList⟩ = some raw.toList
  references : ∀ raw, t.lexeme = .text raw ∨ t.lexeme = .command raw →
    ∀ name ref span, .ref name ref span ∈ Surface.Segment.split t.body raw →
      s.cut? span = some ref.toList
  segments : ∀ raw, t.lexeme = .text raw ∨ t.lexeme = .command raw →
    t.segments? s = some (Surface.Segment.split t.body raw)

section

variable {s : Source} {ts : List Token} {t : Token}

/-- The raw text of a token stands in the text at its body. -/
theorem Token.exists_raw (scanned : Token.scan s.chars = .ok ts) (mem : t ∈ ts)
    (covers : s.Covers t.span) {raw : String}
    (literal : t.lexeme = .text raw ∨ t.lexeme = .command raw) :
    ∃ before after, s.chars = before ++ (raw.toList ++ after) ∧ byteSize before = t.body := by
  obtain ⟨lead, trail, split, body, -⟩ := Token.exists_lead scanned mem literal
  obtain ⟨before, inside, after, whole, same⟩ := covers.exists_append
  have text : s.slice t.span = inside := by rw [same, Source.slice_append whole]
  refine ⟨before ++ lead, trail ++ after, ?_, ?_⟩
  · rw [whole, ← text, split]
    simp only [List.append_assoc]
  · rw [body, same, Text.byteSize_append]

/-- Every token can be cut out of the source, with all that is cut out of it. -/
theorem Token.sliceable (scanned : Token.scan s.chars = .ok ts) (mem : t ∈ ts) :
    t.Sliceable s := by
  have covers : s.Covers t.span := by
    obtain ⟨stop, rest, walk, last⟩ := Token.scan_eq_ok_iff.mp scanned
    exact ((walk.lossless last).covered t mem).1
  refine ⟨covers, fun raw literal => ?_, fun raw literal name ref span mem' => ?_,
    fun raw literal => Token.segments?_eq scanned mem covers literal⟩
  · obtain ⟨before, after, whole, body⟩ := Token.exists_raw scanned mem covers literal
    rw [← body]
    exact Source.cut?_append whole
  · obtain ⟨before, after, whole, body⟩ := Token.exists_raw scanned mem covers literal
    obtain ⟨before', after', split, rfl⟩ := Surface.Segment.exists_of_mem_splitFrom mem'
    have further : s.chars = (before ++ before') ++ (ref.toList ++ (after' ++ after)) := by
      simp [whole, split]
    rw [← body, ← Text.byteSize_append]
    exact Source.cut?_append further

/-! ## The end of the file -/

theorem eofSpan_eq (pos : Nat) {ts : List Token} (h : ts ≠ []) :
    Surface.eofSpan ts = ⟨Token.lastStop pos ts, Token.lastStop pos ts + 1⟩ := by
  induction ts generalizing pos with
  | nil => exact absurd rfl h
  | cons t ts ih =>
    cases ts with
    | nil => rfl
    | cons t' ts =>
      have same : Surface.eofSpan (t :: t' :: ts) = Surface.eofSpan (t' :: ts) := by
        unfold Surface.eofSpan
        rw [List.getLast?_cons_cons]
      rw [same, ih t.span.stop (List.cons_ne_nil _ _)]
      rfl

/-- One byte past the last token is a boundary, or past the end of the text, for what follows a
token begins with a separator or a comment. -/
theorem eofSpan_shown (scanned : Token.scan s.chars = .ok ts) :
    s.Shown (Surface.eofSpan ts) := by
  by_cases empty : ts = []
  · subst empty
    have zero : s.IsBoundary (s.clip 0) := by
      rw [Source.clip_eq (Nat.zero_le _)]
      exact s.isBoundary_zero
    exact ⟨Nat.le_refl _, Nat.zero_le _, zero, zero⟩
  · obtain ⟨stop, rest, walk, last⟩ := Token.scan_eq_ok_iff.mp scanned
    obtain ⟨taken, whole, size, -⟩ := walk.cut
    rw [eofSpan_eq 0 empty, walk.lastStop_eq, size, Nat.zero_add]
    have begins := Source.isBoundary_of_append whole
    refine ⟨Nat.le_succ _, begins.le_size, ?_, ?_⟩
    · rw [Source.clip_eq begins.le_size]
      exact begins
    · dsimp only
      cases rest with
      | nil =>
        have ends : s.size = byteSize taken := by rw [Source.size, whole, List.append_nil]
        rw [Source.clip, ends, Nat.min_eq_right (Nat.le_succ _)]
        exact begins
      | cons c more =>
        have one : c.utf8Size = 1 := by
          rcases Quiet.cases (last.quiet c rfl) with rfl | rfl | rfl | rfl | rfl <;> rfl
        have next : s.IsBoundary (byteSize taken + 1) := by
          have further : s.chars = (taken ++ [c]) ++ more := by simp [whole]
          have boundary := Source.isBoundary_of_append further
          rwa [Text.byteSize_append, byteSize, byteSize, one] at boundary
        rw [Source.clip_eq next.le_size]
        exact next

end

/-! ## Whatever is told -/

section

variable {s : Source} {ts : List Token} {file : String}

theorem Alike.of_error {ε α : Type} {E : ε → ε → Prop} {S : α → α → Prop} {x : Except ε α}
    (h : Alike E S x x) {e : ε} (failed : x = .error e) : E e e := by
  subst failed
  cases h
  assumption

theorem Alike.of_ok {ε α : Type} {E : ε → ε → Prop} {S : α → α → Prop} {x : Except ε α}
    (h : Alike E S x x) {a : α} (done : x = .ok a) : S a a := by
  subst done
  cases h
  assumption

/-- Read from tokens of a text, a program has only places that can be shown, and so has the fault
if there is none. -/
theorem parse_shown (scanned : Token.scan s.chars = .ok ts) (file : String) :
    Alike (Surface.ParseError.Moved fun a _ => s.Shown a)
      (Surface.Program.Moved (fun a _ => s.Shown a) file) (Surface.Program.parse file ts)
      (Surface.Program.parse file ts) := by
  have places : Relates (fun a _ => s.Shown a) (Surface.eofSpan ts) (Surface.eofSpan ts) :=
    ⟨eofSpan_shown scanned, Source.Shown.merge⟩
  have row : Token.Row (fun a _ => s.Shown a) ts ts :=
    List.forall₂_same.mpr fun t mem => ⟨rfl, (Token.sliceable scanned mem).covers.shown⟩
  exact Surface.Program.parse_moved places row file

theorem readTokens_eq_ok {ts : List Token} :
    readTokens file s = .ok ts ↔ Token.scan s.chars = .ok ts :=
  mapError_eq_ok

/-- The diagnostic is about the text, and it can be shown. -/
structure Diagnostic.Within (d : Diagnostic) (s : Source) : Prop where
  source : d.source = some s
  shown : s.Shown d.span
  defined : ∀ base, d.format? base = some (d.format base)

theorem Diagnostic.within_of_shown {d : Diagnostic} (source : d.source = some s)
    (shown : s.Shown d.span) : d.Within s :=
  ⟨source, shown, format?_eq source shown⟩

/-- What is told of a text that has no tokens lies within it. -/
theorem readTokens_within {d : Diagnostic} (h : readTokens file s = .error d) : d.Within s := by
  obtain ⟨e, failed, rfl⟩ := mapError_eq_error.mp h
  exact Diagnostic.within_of_shown rfl (Token.covers_of_scan_eq_error failed).shown

/-- What is told of a text that is no program lies within it. -/
theorem readWithSource_within {d : Diagnostic} (h : readWithSource file s = .error d) :
    d.Within s := by
  rcases bind_eq_error.mp h with h | ⟨_, _, ⟨⟩⟩
  rcases bind_eq_error.mp h with h | ⟨ts, isRead, h⟩
  · exact readTokens_within h
  · obtain ⟨e, failed, rfl⟩ := mapError_eq_error.mp h
    have moved := (parse_shown (readTokens_eq_ok.mp isRead) file).of_error failed
    exact Diagnostic.within_of_shown rfl moved.span

/-- What is told of a program lies within its text. -/
theorem resolve_within {library : Bool} {p : Surface.Program} {d : Diagnostic}
    (isRead : readWithSource file s = .ok p) (h : resolve library p = .error d) :
    d.Within s := by
  obtain ⟨program, parsed, same⟩ := bind_eq_ok.mp isRead
  obtain ⟨ts, scanned, parsed⟩ := bind_eq_ok.mp parsed
  cases same
  have moved := (parse_shown (readTokens_eq_ok.mp scanned) file).of_ok (mapError_eq_ok.mp parsed)
  have whole : Surface.Program.Moved (fun a _ => s.Shown a) file
      { program with sources := [(file, s)] } { program with sources := [(file, s)] } :=
    ⟨moved.functions, moved.topLevel, moved.files⟩
  obtain ⟨e, failed, rfl⟩ := mapError_eq_error.mp h
  have fault := (Core.Module.ofProgram_moved library whole).of_error failed
  refine Diagnostic.within_of_shown ?_ fault.span
  simp [Core.ScopeError.diagnostic, Surface.Program.source?, fault.files.1]

end

/-- Whatever a text is: its tokens, and the references in them, can be cut out of it, and raw
texts are found and split byte by byte without a step that fails; a call, a statement or a
function reaches from its first token to the last one taken, and both are there; and each
diagnostic that scanning, reading or resolving gives is about a place that can be shown. -/
theorem diagnose_within (file : String) (s : Source) :
    (∀ ts, readTokens file s = .ok ts → ∀ t ∈ ts, t.Sliceable s) ∧
    (∀ (eof : Span) (ts rest : List Token),
      (∀ e less, Surface.parsePrimary eof ts = .ok ⟨e, rest, less⟩ →
      Surface.Reaches ts rest e.span) ∧
      (∀ stmt less, Surface.parseStmt eof ts = .ok ⟨stmt, rest, less⟩ →
        Surface.Reaches ts rest stmt.span) ∧
      ∀ f less, Surface.parseFunction eof file ts = .ok ⟨f, rest, less⟩ →
        Surface.Reaches ts rest f.span) ∧
    (∀ d, readTokens file s = .error d → d.Within s) ∧
    (∀ d, readWithSource file s = .error d → d.Within s) ∧
    ∀ library p d, readWithSource file s = .ok p → resolve library p = .error d →
      d.Within s := by
  refine ⟨?_, fun eof ts rest => ⟨?_, ?_, ?_⟩, ?_, ?_, ?_⟩
  · intro ts isRead t mem
    exact Token.sliceable (readTokens_eq_ok.mp isRead) mem
  · intro e less h
    exact Surface.parsePrimary_reaches ts h
  · intro stmt less h
    exact Surface.parseStmt_reaches ts h
  · intro f less h
    exact Surface.parseFunction_reaches ts h
  · intro d h
    exact readTokens_within h
  · intro d h
    exact readWithSource_within h
  · intro library p d isRead h
    exact resolve_within isRead h

/-- An escape, a lone dollar sign and a reference among characters of two bytes; a call that is
not closed before a comment at the end; and a name that is not known after one. -/
theorem diagnose_within_samples :
    (∃ ts, ∃ t ∈ ts, readTokens "f" ⟨"\"\\é$é$\x7bx\x7d\""⟩ = .ok ts ∧
      t.Sliceable ⟨"\"\\é$é$\x7bx\x7d\""⟩ ∧ t.segments? ⟨"\"\\é$é$\x7bx\x7d\""⟩ =
        some [.text "\\é$é", .ref "x" "$\x7bx\x7d" ⟨7, 11⟩]) ∧
    (∃ d, readWithSource "f" ⟨"f(#é"⟩ = .error d ∧ d.Within ⟨"f(#é"⟩) ∧
    ∃ p d, readWithSource "f" ⟨"#é\nx = y;"⟩ = .ok p ∧ resolve false p = .error d ∧
      d.Within ⟨"#é\nx = y;"⟩ := by
  refine ⟨?_, ?_, ?_⟩
  · obtain ⟨ts, isRead, found⟩ := exists_ok_of_any
      (x := readTokens "f" ⟨"\"\\é$é$\x7bx\x7d\""⟩)
      (q := fun ts => ts.any fun t => t.lexeme = .text "\\é$é$\x7bx\x7d" &&
        Surface.Segment.split t.body "\\é$é$\x7bx\x7d" =
          [.text "\\é$é", .ref "x" "$\x7bx\x7d" ⟨7, 11⟩])
      (by decide +kernel)
    obtain ⟨t, mem, found⟩ := List.any_eq_true.mp found
    simp only [Bool.and_eq_true, decide_eq_true_eq] at found
    have sliceable := (diagnose_within "f" ⟨"\"\\é$é$\x7bx\x7d\""⟩).1 ts isRead t mem
    exact ⟨ts, t, mem, isRead, sliceable, found.2 ▸ sliceable.segments _ (.inl found.1)⟩
  · have fails : (readWithSource "f" ⟨"f(#é"⟩).isOk = false := by decide +kernel
    cases isRead : readWithSource "f" ⟨"f(#é"⟩ with
    | ok p =>
      rw [isRead] at fails
      cases fails
    | error d => exact ⟨d, rfl, (diagnose_within "f" ⟨"f(#é"⟩).2.2.2.1 d isRead⟩
  · have runs : ((readWithSource "f" ⟨"#é\nx = y;"⟩).toOption.any fun p =>
        !(resolve false p).isOk) = true := by
      decide +kernel
    cases isRead : readWithSource "f" ⟨"#é\nx = y;"⟩ with
    | error d =>
      rw [isRead] at runs
      cases runs
    | ok p =>
      rw [isRead] at runs
      cases resolved : resolve false p with
      | ok m =>
        simp [Except.toOption, resolved, Except.isOk, Except.toBool] at runs
      | error d =>
        have within := (diagnose_within "f" ⟨"#é\nx = y;"⟩).2.2.2.2 false p d isRead resolved
        exact ⟨p, d, rfl, resolved, within⟩

end Shellwright
