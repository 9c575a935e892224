import Shellwright.Proofs.Lexemes
import Shellwright.Proofs.Slices

/-!
# Texts as tokens

Scanning takes a text apart into tokens with gaps between them, and nothing is lost: a gap holds
only separators and comments. How far the scan has come is all that it remembers, so a text can
be cut off after a token, or put apart there, and the tokens up to that point stay the same.

* `IsGap`, `IsLastGap`: what may stand between tokens, and behind the last one.
* `Walk`: some tokens, each behind its gap, and the text that is left.
* `scan_eq_ok_iff`, `exists_of_scan_eq_error`: scanning walks through the text, or up to a fault.
* `Walk.cut`: the text behind the tokens of a walk does not matter.
* `scan_insert`: a gap can be put next to any token.
* `scan_lossless`: the tokens and the gaps are all that there is in a text, up to a fault.
-/

namespace Shellwright

open Text (byteSize)

/-! ## Gaps -/

/-- Separators and comments, each comment with the end of its line. -/
inductive IsGap : List Char → Prop
  | nil : IsGap []
  | separator {c : Char} {cs : List Char} : isSeparator c = true → IsGap cs → IsGap (c :: cs)
  | comment {text cs : List Char} : '\n' ∉ text → IsGap cs → IsGap ('#' :: (text ++ '\n' :: cs))

/-- Nothing, or a comment that runs to the end of the text. -/
def IsLastComment (cs : List Char) : Prop := cs = [] ∨ ∃ text, '\n' ∉ text ∧ cs = '#' :: text

/-- What may stand behind the last token: a gap, and then perhaps a comment that
runs to the end. -/
def IsLastGap (cs : List Char) : Prop :=
  ∃ gap last, IsGap gap ∧ IsLastComment last ∧ cs = gap ++ last

/-- The character is the first one of a lexeme, if it is of any use. -/
def beginsLexeme (c : Char) : Bool := !isSeparator c && c ≠ '#'

theorem IsGap.isLastGap {gap : List Char} (h : IsGap gap) : IsLastGap gap :=
  ⟨gap, [], h, .inl rfl, (List.append_nil gap).symm⟩

/-- A gap that is not empty keeps apart what stands before and behind it. -/
theorem IsGap.quiet_append {gap : List Char} (h : IsGap gap) {cs : List Char}
    (apart : gap = [] → Quiet cs) : Quiet (gap ++ cs) := by
  cases h with
  | nil => exact apart rfl
  | separator sep _ =>
    rintro d ⟨⟩
    exact .inl sep
  | comment _ _ =>
    rintro d ⟨⟩
    exact .inr rfl

/-- A gap does not go on with what stands before it. -/
theorem IsGap.quiet {gap : List Char} (h : IsGap gap) : Quiet gap := by
  have whole : Quiet (gap ++ []) := h.quiet_append fun _ => quiet_nil
  rwa [List.append_nil] at whole

theorem IsLastGap.quiet {cs : List Char} (h : IsLastGap cs) : Quiet cs := by
  obtain ⟨gap, last, isGap, rfl | ⟨text, -, rfl⟩, rfl⟩ := h
  · exact isGap.quiet_append fun _ => quiet_nil
  · refine isGap.quiet_append fun _ => ?_
    rintro d ⟨⟩
    exact .inr rfl

/-- Every text begins with a gap, which a lexeme or a last comment follows. -/
theorem exists_gap (cs : List Char) :
    ∃ gap rest, cs = gap ++ rest ∧ IsGap gap ∧
      (IsLastComment rest ∨ ∃ c more, rest = c :: more ∧ beginsLexeme c = true) := by
  match cs with
  | [] => exact ⟨[], [], rfl, .nil, .inl (.inl rfl)⟩
  | c :: cs =>
    cases begins : beginsLexeme c with
    | true => exact ⟨[], c :: cs, rfl, .nil, .inr ⟨c, cs, rfl, begins⟩⟩
    | false =>
      cases sep : isSeparator c with
      | true =>
        obtain ⟨gap, rest, rfl, isGap, next⟩ := exists_gap cs
        exact ⟨c :: gap, rest, rfl, .separator sep isGap, next⟩
      | false =>
        obtain rfl : c = '#' := by simpa [beginsLexeme, sep] using begins
        by_cases line : '\n' ∈ cs
        · obtain ⟨text, below, split, inside⟩ := List.eq_append_cons_of_mem line
          obtain ⟨gap, rest, same, isGap, next⟩ := exists_gap below
          refine ⟨'#' :: (text ++ '\n' :: gap), rest, ?_, .comment inside isGap, next⟩
          simp [split, same]
        · exact ⟨[], '#' :: cs, rfl, .nil, .inl (.inr ⟨cs, line, rfl⟩)⟩
termination_by cs.length
decreasing_by
  · simp only [split, List.length_cons, List.length_append]
    omega
  · simp

/-! ## Steps of the scan -/

/-- The token that a lexeme at an offset is read as. -/
def Reading.token (pos : Nat) (c : Char) (r : Reading) : Token :=
  ⟨r.lexeme, ⟨pos, pos + byteSize (c :: r.more)⟩, pos + r.lead⟩

namespace Token

/-- The characters of a lexeme are passed over once it has been read. -/
theorem scanFrom_skip (skip pos : Nat) (cs : List Char) :
    scanFrom skip pos cs = scanFrom 0 pos (cs.drop skip) := by
  induction skip generalizing cs with
  | zero => rfl
  | succ skip ih =>
    cases cs with
    | nil => simp only [scanFrom, List.drop_nil]
    | cons c cs => rw [scanFrom, ih cs, List.drop_succ_cons]

/-- A comment is passed over up to the end of its line. -/
theorem scanFrom_comment {text : List Char} (inside : '\n' ∉ text) {cs : List Char}
    (stop : Stops (· ≠ '\n') cs) (pos : Nat) :
    scanFrom 0 pos ('#' :: (text ++ cs)) = scanFrom 0 (pos + byteSize ('#' :: text)) cs := by
  have all : ∀ c ∈ text, decide (c ≠ '\n') = true := by
    intro c mem
    exact decide_eq_true (ne_of_mem_of_not_mem mem inside)
  have sep : isSeparator '#' = false := rfl
  rw [scanFrom, sep]
  simp only [Bool.false_eq_true, if_false, if_true, stop.takeWhile_append all]
  rw [scanFrom_skip, List.drop_left]

/-- A gap makes no token. -/
theorem scanFrom_gap {gap : List Char} (h : IsGap gap) (pos : Nat) (cs : List Char) :
    scanFrom 0 pos (gap ++ cs) = scanFrom 0 (pos + byteSize gap) cs := by
  induction h generalizing pos with
  | nil => rfl
  | separator sep _ ih =>
    rw [List.cons_append, scanFrom, if_pos sep, ih, byteSize, Nat.add_assoc]
  | @comment text gap inside _ ih =>
    have stop : Stops (· ≠ '\n') ('\n' :: (gap ++ cs)) := stops_cons.mpr rfl
    have regroup : '#' :: (text ++ '\n' :: gap) ++ cs =
        '#' :: (text ++ '\n' :: (gap ++ cs)) := by
      simp
    have sep : isSeparator '\n' = true := rfl
    rw [regroup, scanFrom_comment inside stop, scanFrom, if_pos sep, ih]
    simp only [byteSize, Text.byteSize_append, Nat.add_assoc]

theorem scanFrom_lastComment {cs : List Char} (h : IsLastComment cs) (pos : Nat) :
    scanFrom 0 pos cs = .ok [] := by
  obtain rfl | ⟨text, inside, rfl⟩ := h
  · rw [scanFrom]
  · have whole := scanFrom_comment inside (stops_nil _) pos
    rw [List.append_nil] at whole
    rw [whole, scanFrom]

/-- A lexeme that can be read makes a token, and the scan goes on behind it. -/
theorem scanFrom_read {c : Char} (begins : beginsLexeme c = true) {r : Reading} {cs : List Char}
    (read : Lexeme.read c (r.more ++ cs) = .ok r) (pos : Nat) :
    scanFrom 0 pos (c :: (r.more ++ cs)) =
      (scanFrom 0 (pos + byteSize (c :: r.more)) cs).map (r.token pos c :: ·) := by
  obtain ⟨sep, comment⟩ : isSeparator c = false ∧ c ≠ '#' := by simpa [beginsLexeme] using begins
  rw [scanFrom, sep, if_neg Bool.false_ne_true, if_neg comment, read]
  dsimp only
  rw [scanFrom_skip, List.drop_left]
  cases scanFrom 0 (pos + byteSize (c :: r.more)) cs <;> rfl

/-- One that cannot be read ends the scan. -/
theorem scanFrom_fault {c : Char} (begins : beginsLexeme c = true) {cs looked : List Char}
    {fault : LexFault} (failed : Lexeme.read c cs = .error (fault, looked)) (pos : Nat) :
    scanFrom 0 pos (c :: cs) = .error ⟨fault, pos, pos + byteSize (c :: looked)⟩ := by
  obtain ⟨sep, comment⟩ : isSeparator c = false ∧ c ≠ '#' := by simpa [beginsLexeme] using begins
  rw [scanFrom, sep, if_neg Bool.false_ne_true, if_neg comment, failed]

/-- What a text says does not depend on where it stands. -/
theorem scanFrom_shift {skip pos : Nat} {cs : List Char} {ts : List Token}
    (h : scanFrom skip pos cs = .ok ts) (pos' : Nat) :
    ∃ ts', scanFrom skip pos' cs = .ok ts' ∧ ts'.map lexeme = ts.map lexeme := by
  fun_induction scanFrom skip pos cs generalizing ts pos' with
  | case1 =>
    cases h
    exact ⟨[], by rw [scanFrom], rfl⟩
  | case2 skip pos c cs ih =>
    rw [scanFrom]
    exact ih h pos'
  | case3 pos c cs sep ih =>
    rw [scanFrom, if_pos sep]
    exact ih h _
  | case4 =>
    rename_i ih
    rw [scanFrom, if_neg (by decide), if_pos rfl]
    exact ih h _
  | case5 | case7 => cases h
  | case6 pos c cs sep comment reading read _ rest scanned =>
    rename_i ih
    cases h
    obtain ⟨rest', scanned', same⟩ := ih scanned (pos' + byteSize (c :: reading.more))
    rw [scanFrom, if_neg sep, if_neg comment, read]
    simp only [scanned']
    exact ⟨_, rfl, congrArg (reading.lexeme :: ·) same⟩

/-! ## Walks -/

/-- From the text `cs` at the offset `pos`, the tokens are read, each behind its gap, and `rest`
is left at the offset `stop`. -/
inductive Walk : Nat → List Char → List Token → Nat → List Char → Prop
  | nil (pos : Nat) (cs : List Char) : Walk pos cs [] pos cs
  | cons {pos stop : Nat} {gap cs rest : List Char} {c : Char} {r : Reading} {ts : List Token} :
    IsGap gap → beginsLexeme c = true → Lexeme.read c (r.more ++ cs) = .ok r →
    Walk (pos + byteSize gap + byteSize (c :: r.more)) cs ts stop rest →
    Walk pos (gap ++ c :: (r.more ++ cs)) (r.token (pos + byteSize gap) c :: ts) stop rest

namespace Walk

variable {pos mid stop : Nat} {cs between rest : List Char} {ts us : List Token} {t : Token}

/-- One walk after the other. -/
theorem trans (h : Walk pos cs ts mid between) (h' : Walk mid between us stop rest) :
    Walk pos cs (ts ++ us) stop rest := by
  induction h with
  | nil => exact h'
  | cons gap begins read _ ih => exact .cons gap begins read (ih h')

/-- The scan goes on after the tokens of a walk. -/
theorem scanFrom_eq (h : Walk pos cs ts stop rest) :
    scanFrom 0 pos cs = (scanFrom 0 stop rest).map (ts ++ ·) := by
  induction h with
  | nil pos cs => cases scanFrom 0 pos cs <;> rfl
  | @cons pos stop gap cs rest c r ts isGap begins read _ ih =>
    rw [scanFrom_gap isGap, scanFrom_read begins read, ih]
    cases scanFrom 0 stop rest <;> rfl

/-- The text behind the tokens of a walk does not matter, as long as it does not go on
with the last one. -/
theorem cut (h : Walk pos cs ts stop rest) :
    ∃ taken, cs = taken ++ rest ∧ stop = pos + byteSize taken ∧
      ∀ w, Quiet w → Walk pos (taken ++ w) ts stop w := by
  induction h with
  | nil pos cs => exact ⟨[], rfl, rfl, fun w _ => .nil pos w⟩
  | @cons pos stop gap cs rest c r ts isGap begins read _ ih =>
    obtain ⟨taken, rfl, rfl, walk⟩ := ih
    obtain ⟨rest', same, again⟩ := (reader_read c).takes read
    obtain rfl := List.append_cancel_left same
    refine ⟨gap ++ c :: (r.more ++ taken), by simp, ?_, fun w quiet => ?_⟩
    · simp only [Text.byteSize_append, byteSize]
      omega
    · have regroup : gap ++ c :: (r.more ++ taken) ++ w =
          gap ++ c :: (r.more ++ (taken ++ w)) := by
        simp
      rw [regroup]
      exact .cons isGap begins (again taken rest w rfl quiet) (walk w quiet)

/-- A walk comes by each of its tokens. -/
theorem exists_of_mem (h : Walk pos cs ts stop rest) (mem : t ∈ ts) :
    ∃ before after start gap c r left, ts = before ++ t :: after ∧
      Walk pos cs before start (gap ++ c :: (r.more ++ left)) ∧ IsGap gap ∧
      beginsLexeme c = true ∧ Lexeme.read c (r.more ++ left) = .ok r ∧
      t = r.token (start + byteSize gap) c ∧ Walk t.span.stop left after stop rest := by
  induction h with
  | nil => cases mem
  | @cons pos stop gap cs rest c r ts isGap begins read walk ih =>
    rcases List.mem_cons.mp mem with rfl | mem
    · exact ⟨[], ts, pos, gap, c, r, cs, rfl, .nil _ _, isGap, begins, read, rfl, walk⟩
    · obtain ⟨before, after, start, gap', c', r', left, rfl, first, isGap', begins', read', same,
        last⟩ := ih mem
      exact ⟨_ :: before, after, start, gap', c', r', left, rfl, .cons isGap begins read first,
        isGap', begins', read', same, last⟩

end Walk

/-- A text is walked through to its last gap, or up to a fault. -/
theorem exists_walk (pos : Nat) (cs : List Char) :
    (∃ ts stop rest, Walk pos cs ts stop rest ∧ IsLastGap rest) ∨
    ∃ ts stop gap c rest fault looked, Walk pos cs ts stop (gap ++ c :: rest) ∧ IsGap gap ∧
      beginsLexeme c = true ∧ Lexeme.read c rest = .error (fault, looked) := by
  obtain ⟨gap, rest, split, isGap, last | ⟨c, more, rfl, begins⟩⟩ := exists_gap cs
  · exact .inl ⟨[], pos, cs, .nil pos cs, gap, rest, isGap, last, split⟩
  · cases read : Lexeme.read c more with
    | error e =>
      obtain ⟨fault, looked⟩ := e
      exact .inr ⟨[], pos, gap, c, more, fault, looked, split ▸ .nil pos cs, isGap, begins, read⟩
    | ok r =>
      obtain ⟨left, taken, -⟩ := (reader_read c).takes read
      rw [taken] at read
      rcases exists_walk (pos + byteSize gap + byteSize (c :: r.more)) left with
        ⟨ts, stop, rest, walk, last⟩ |
        ⟨ts, stop, gap', c', rest, fault, looked, walk, isGap', begins', failed⟩
      · rw [split, taken]
        exact .inl ⟨_, stop, rest, .cons isGap begins read walk, last⟩
      · rw [split, taken]
        exact .inr ⟨_, stop, gap', c', rest, fault, looked, .cons isGap begins read walk, isGap',
          begins', failed⟩
termination_by cs.length
decreasing_by
  simp only [split, taken, List.length_append, List.length_cons]
  omega

theorem scanFrom_lastGap {cs : List Char} (h : IsLastGap cs) (pos : Nat) :
    scanFrom 0 pos cs = .ok [] := by
  obtain ⟨gap, last, isGap, isLast, rfl⟩ := h
  rw [scanFrom_gap isGap, scanFrom_lastComment isLast]

/-- Scanning gives the tokens of a walk to the last gap. -/
theorem scan_eq_ok_iff {cs : List Char} {ts : List Token} :
    scan cs = .ok ts ↔ ∃ stop rest, Walk 0 cs ts stop rest ∧ IsLastGap rest := by
  constructor
  · intro scanned
    rcases exists_walk 0 cs with ⟨ts', stop, rest, walk, last⟩ |
      ⟨ts', stop, gap, c, rest, fault, looked, walk, isGap, begins, failed⟩
    · rw [scan, walk.scanFrom_eq, scanFrom_lastGap last] at scanned
      obtain rfl : ts' ++ [] = ts := Except.ok.inj scanned
      rw [List.append_nil]
      exact ⟨stop, rest, walk, last⟩
    · rw [scan, walk.scanFrom_eq, scanFrom_gap isGap, scanFrom_fault begins failed] at scanned
      cases scanned
  · rintro ⟨stop, rest, walk, last⟩
    rw [scan, walk.scanFrom_eq, scanFrom_lastGap last]
    exact congrArg Except.ok (List.append_nil ts)

/-- A scan that fails has walked up to the fault. -/
theorem exists_of_scan_eq_error {cs : List Char} {e : LexError} (h : scan cs = .error e) :
    ∃ ts stop gap c rest looked, Walk 0 cs ts stop (gap ++ c :: rest) ∧ IsGap gap ∧
      Lexeme.read c rest = .error (e.fault, looked) ∧
      e.span = ⟨stop + byteSize gap, stop + byteSize gap + byteSize (c :: looked)⟩ := by
  rcases exists_walk 0 cs with ⟨ts, stop, rest, walk, last⟩ |
    ⟨ts, stop, gap, c, rest, fault, looked, walk, isGap, begins, failed⟩
  · rw [scan, walk.scanFrom_eq, scanFrom_lastGap last] at h
    cases h
  · rw [scan, walk.scanFrom_eq, scanFrom_gap isGap, scanFrom_fault begins failed] at h
    cases h
    exact ⟨ts, stop, gap, c, rest, looked, walk, isGap, failed, rfl⟩

/-! ## Gaps put into a text -/

/-- A gap can be put where a walk has come to, if it is not within a gap already. -/
theorem Walk.insert {stop : Nat} {before after gap gap' : List Char} {us ts : List Token}
    (walk : Walk 0 (before ++ (gap ++ after)) us stop (gap ++ after))
    (scanned : scan (before ++ (gap ++ after)) = .ok ts) (isGap : IsGap gap)
    (isGap' : IsGap gap') :
    ∃ ts', scan (before ++ (gap ++ (gap' ++ after))) = .ok ts' ∧
      ts'.map lexeme = ts.map lexeme := by
  by_cases empty : gap' = []
  · subst empty
    exact ⟨ts, scanned, rfl⟩
  · obtain ⟨taken, same, -, again⟩ := walk.cut
    obtain rfl := List.append_cancel_right same
    have quiet : Quiet (gap ++ (gap' ++ after)) :=
      isGap.quiet_append fun _ => isGap'.quiet_append fun none => absurd none empty
    rw [scan, walk.scanFrom_eq, scanFrom_gap isGap] at scanned
    obtain ⟨vs, goesOn, rfl⟩ := map_eq_ok.mp scanned
    obtain ⟨vs', goesOn', lexemes⟩ := scanFrom_shift goesOn (stop + byteSize gap + byteSize gap')
    refine ⟨us ++ vs', ?_, by rw [List.map_append, List.map_append, lexemes]⟩
    rw [scan, (again _ quiet).scanFrom_eq, scanFrom_gap isGap, scanFrom_gap isGap', goesOn']
    rfl

/-- A gap put directly before or directly behind a token leaves all lexemes as they are. -/
theorem scan_insert {before after gap : List Char} {ts : List Token} {t : Token}
    (scanned : scan (before ++ after) = .ok ts) (mem : t ∈ ts)
    (place : byteSize before = t.span.start ∨ byteSize before = t.span.stop)
    (isGap : IsGap gap) :
    ∃ ts', scan (before ++ (gap ++ after)) = .ok ts' ∧ ts'.map lexeme = ts.map lexeme := by
  obtain ⟨stop, rest, whole, -⟩ := scan_eq_ok_iff.mp scanned
  obtain ⟨us, vs, start, gap', c, r, left, -, walk, isGap', begins, read, rfl, -⟩ :=
    whole.exists_of_mem mem
  obtain ⟨taken, same, size, -⟩ := walk.cut
  rw [Nat.zero_add] at size
  rcases place with place | place
  · -- The gap before the token only becomes longer.
    rw [← List.append_assoc] at same
    obtain ⟨rfl, rfl⟩ := Text.append_inj_of_byteSize same (by
      rw [place, Text.byteSize_append, ← size]
      rfl)
    rw [List.append_assoc] at walk scanned ⊢
    exact walk.insert scanned isGap' isGap
  · have regroup : taken ++ (gap' ++ c :: (r.more ++ left)) =
        taken ++ gap' ++ c :: r.more ++ left := by
      simp
    rw [regroup] at same
    obtain ⟨rfl, rfl⟩ := Text.append_inj_of_byteSize same (by
      rw [place, Text.byteSize_append, Text.byteSize_append, ← size]
      rfl)
    have upTo : Walk 0 _ _ _ ([] ++ after) := walk.trans (.cons isGap' begins read (.nil _ _))
    exact upTo.insert scanned .nil isGap

/-! ## Nothing is lost -/

/-- The places before the tokens, each from where the token before it ends. -/
def gaps (pos : Nat) : List Token → List Span
  | [] => []
  | t :: ts => ⟨pos, t.span.start⟩ :: gaps t.span.stop ts

/-- Where the last token ends. -/
def lastStop (pos : Nat) : List Token → Nat
  | [] => pos
  | t :: ts => lastStop t.span.stop ts

/-- The tokens are all that the text says. -/
structure Lossless (s : Source) (ts : List Token) : Prop where
  covered : ∀ t ∈ ts, s.Covers t.span ∧ t.span.start < t.span.stop
  ordered : ts.Pairwise fun t u => t.span.stop ≤ u.span.start
  /-- Before and between tokens stand gaps. -/
  gaps : ∀ gap ∈ gaps 0 ts, IsGap (s.slice gap)
  lastGap : IsLastGap (s.slice ⟨lastStop 0 ts, s.size⟩)
  /-- The text of a token alone is that token. -/
  alone : ∀ t ∈ ts, ∃ body,
    scan (s.slice t.span) = .ok [⟨t.lexeme, ⟨0, byteSize (s.slice t.span)⟩, body⟩]

section

variable {s : Source} {pos stop : Nat} {cs rest : List Char} {ts : List Token} {t : Token}

/-- The text that a token of a walk was read from. -/
theorem Walk.exists_text (h : Walk 0 s.chars ts stop rest) (mem : t ∈ ts) :
    ∃ before c r after, s.chars = before ++ ((c :: r.more) ++ after) ∧ beginsLexeme c = true ∧
      Lexeme.read c (r.more ++ after) = .ok r ∧ t = r.token (byteSize before) c := by
  obtain ⟨_, _, start, gap, c, r, left, -, walk, -, begins, read, same, -⟩ := h.exists_of_mem mem
  obtain ⟨taken, whole, size, -⟩ := walk.cut
  refine ⟨taken ++ gap, c, r, left, by simp [whole], begins, read, ?_⟩
  rw [same, size, Nat.zero_add, Text.byteSize_append]

/-- A walk goes forward. -/
theorem Walk.bounds (h : Walk pos cs ts stop rest) :
    pos ≤ stop ∧ ∀ t ∈ ts, pos ≤ t.span.start := by
  induction h with
  | nil => exact ⟨Nat.le_refl _, by simp⟩
  | cons _ _ _ _ ih =>
    refine ⟨by omega, List.forall_mem_cons.mpr ⟨Nat.le_add_right _ _, fun t mem => ?_⟩⟩
    have later := ih.2 t mem
    omega

/-- The tokens of a walk follow each other. -/
theorem Walk.ordered (h : Walk pos cs ts stop rest) :
    ts.Pairwise fun t u => t.span.stop ≤ u.span.start := by
  induction h with
  | nil => exact .nil
  | cons _ _ _ walk ih => exact .cons walk.bounds.2 ih

theorem Walk.lastStop_eq (h : Walk pos cs ts stop rest) : lastStop pos ts = stop := by
  induction h with
  | nil => rfl
  | cons _ _ _ _ ih => exact ih

/-- Between the tokens of a walk there are only gaps. -/
theorem Walk.gaps_isGap (h : Walk pos cs ts stop rest) {before : List Char}
    (whole : s.chars = before ++ cs) (size : byteSize before = pos) :
    ∀ gap ∈ gaps pos ts, IsGap (s.slice gap) := by
  induction h generalizing before with
  | nil => simp [Token.gaps]
  | @cons pos stop gap cs rest c r ts isGap _ _ _ ih =>
    subst size
    have further : s.chars = (before ++ gap ++ c :: r.more) ++ cs := by simp [whole]
    refine List.forall_mem_cons.mpr ⟨?_, ih further ?_⟩
    · rw [show (r.token (byteSize before + byteSize gap) c).span.start =
        byteSize before + byteSize gap from rfl, Source.slice_append whole]
      exact isGap
    · rw [Text.byteSize_append, Text.byteSize_append]

/-- The text of a token, by itself, is read as that token. -/
theorem scan_alone {c : Char} {r : Reading} {after : List Char} (begins : beginsLexeme c = true)
    (read : Lexeme.read c (r.more ++ after) = .ok r) :
    scan (c :: r.more) = .ok [r.token 0 c] := by
  obtain ⟨rest, -, again⟩ := (reader_read c).takes read
  have scanned := scanFrom_read begins (again [] rest [] rfl quiet_nil) 0
  rw [List.append_nil, List.append_nil] at scanned
  rw [scan, scanned, scanFrom]
  rfl

/-- A walk to the last gap loses nothing of the text. -/
theorem Walk.lossless (h : Walk 0 s.chars ts stop rest) (last : IsLastGap rest) :
    Lossless s ts := by
  have all : s.chars = [] ++ s.chars := rfl
  refine ⟨fun t mem => ?_, h.ordered, h.gaps_isGap all rfl, ?_, fun t mem => ?_⟩
  · obtain ⟨before, c, r, after, whole, -, -, rfl⟩ := h.exists_text mem
    refine ⟨Source.covers_of_append whole, ?_⟩
    have := c.utf8Size_pos
    simp only [Reading.token, byteSize]
    omega
  · obtain ⟨taken, whole, size, -⟩ := h.cut
    have ends : s.size = byteSize taken + byteSize rest := by
      rw [Source.size, whole, Text.byteSize_append]
    rw [h.lastStop_eq, size, Nat.zero_add, ends]
    rw [← List.append_nil rest] at whole
    rw [Source.slice_append whole]
    exact last
  · obtain ⟨before, c, r, after, whole, begins, read, rfl⟩ := h.exists_text mem
    have text : s.slice (r.token (byteSize before) c).span = c :: r.more :=
      Source.slice_append whole
    rw [text, scan_alone begins read]
    exact ⟨0 + r.lead, by rw [Reading.token, Nat.zero_add]; rfl⟩

/-- What a scan stumbles over is a piece of the text that is not empty. Up to there the text
alone is scanned as the tokens that were read. -/
theorem Walk.fault {gap : List Char} {c : Char} {fault : LexFault} {looked : List Char}
    (h : Walk 0 s.chars ts stop (gap ++ c :: rest)) (isGap : IsGap gap)
    (failed : Lexeme.read c rest = .error (fault, looked)) :
    s.Covers ⟨stop + byteSize gap, stop + byteSize gap + byteSize (c :: looked)⟩ ∧
      scan (s.slice ⟨0, stop + byteSize gap⟩) = .ok ts := by
  obtain ⟨after, rfl⟩ := (reader_read c).looked_append failed
  obtain ⟨taken, whole, size, again⟩ := h.cut
  have start : stop + byteSize gap = byteSize (taken ++ gap) := by
    rw [size, Nat.zero_add, Text.byteSize_append]
  have upTo : s.chars = [] ++ (taken ++ gap ++ c :: (looked ++ after)) := by simp [whole]
  have piece : s.chars = taken ++ gap ++ ((c :: looked) ++ after) := by simp [whole]
  have before : s.slice ⟨0, stop + byteSize gap⟩ = taken ++ gap := by
    have sliced := Source.slice_append upTo
    rwa [show byteSize [] = 0 from rfl, Nat.zero_add, ← start] at sliced
  constructor
  · rw [start]
    exact Source.covers_of_append piece
  · rw [before]
    exact scan_eq_ok_iff.mpr ⟨stop, gap, again gap isGap.quiet, isGap.isLastGap⟩

/-- A fault of the scan lies in the text. -/
theorem covers_of_scan_eq_error {e : LexError} (h : scan s.chars = .error e) :
    s.Covers e.span := by
  obtain ⟨ts, stop, gap, c, rest, looked, walk, isGap, read, place⟩ := exists_of_scan_eq_error h
  rw [place]
  exact (walk.fault isGap read).1

end

/-- Scanning loses nothing but gaps. If it fails, then at a piece of the text that is
not empty, and the text before that piece is scanned alone as the tokens that were read
when the fault showed. -/
theorem scan_lossless (s : Source) :
    (∀ ts, scan s.chars = .ok ts → Lossless s ts) ∧
    ∀ e, scan s.chars = .error e →
      (s.Covers e.span ∧ e.span.start < e.span.stop) ∧
      ∃ ts stop gap c rest looked, Walk 0 s.chars ts stop (gap ++ c :: rest) ∧ IsGap gap ∧
        Lexeme.read c rest = .error (e.fault, looked) ∧ e.span.start = stop + byteSize gap ∧
        scan (s.slice ⟨0, e.span.start⟩) = .ok ts := by
  refine ⟨fun ts scanned => ?_, fun e failed => ⟨⟨covers_of_scan_eq_error failed, ?_⟩, ?_⟩⟩
  · obtain ⟨stop, rest, walk, last⟩ := scan_eq_ok_iff.mp scanned
    exact walk.lossless last
  · obtain ⟨_, _, _, c, _, looked, -, -, -, place⟩ := exists_of_scan_eq_error failed
    have := c.utf8Size_pos
    simp only [place, byteSize]
    omega
  · obtain ⟨ts, stop, gap, c, rest, looked, walk, isGap, read, place⟩ :=
      exists_of_scan_eq_error failed
    rw [place]
    exact ⟨ts, stop, gap, c, rest, looked, walk, isGap, read, rfl, (walk.fault isGap read).2⟩

/-- A text with a comment and a range in it, and one that fails at a character of two bytes. -/
theorem scan_lossless_samples :
    Lossless ⟨"x# é\n<=1..2"⟩ [⟨.ident "x", ⟨0, 1⟩, 0⟩, ⟨.symbol .lessEqual, ⟨6, 8⟩, 6⟩,
      ⟨.int 1, ⟨8, 9⟩, 8⟩, ⟨.symbol .range, ⟨9, 11⟩, 9⟩, ⟨.int 2, ⟨11, 12⟩, 11⟩] ∧
    (⟨"x = é"⟩ : Source).Covers ⟨4, 6⟩ ∧ ∃ ts, scan
    ((⟨"x = é"⟩ : Source).slice ⟨0, 4⟩) = .ok ts := by
  constructor
  · have scanned : scan (⟨"x# é\n<=1..2"⟩ : Source).chars = .ok _ := rfl
    exact (scan_lossless ⟨"x# é\n<=1..2"⟩).1 _ scanned
  · have failed : scan (⟨"x = é"⟩ : Source).chars = .error ⟨.strayCharacter 'é', ⟨4, 6⟩⟩ := rfl
    obtain ⟨⟨covers, -⟩, ts, _, _, _, _, _, -, -, -, -, before⟩ :=
      (scan_lossless ⟨"x = é"⟩).2 _ failed
    exact ⟨covers, ts, before⟩

end Token

end Shellwright
