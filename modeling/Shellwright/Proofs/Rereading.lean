import Shellwright.Proofs.Diagnostics
import Shellwright.Proofs.ParserComplete
import Shellwright.Proofs.Placement

/-!
# Places are faithful to the text

The place of a part of a program is the part's own text. Cut out and read alone, as what the
part is, it gives that part again; and the places of the parts below it are cut out of it
one behind the other.

* `Token.scan_run`: the text of some tokens that follow each other is scanned
  alone as these tokens.
* `Node.Rereads`, `Node.Spells.rereads`: a text is read, all of it, as the part.
* `readProgram_faithful`: all places in a program are faithful.
-/

namespace Shellwright

open Text (byteSize)

/-! ## The text of a run of tokens -/

namespace Token

variable {pos stop : Nat} {cs rest : List Char} {ts us : List Token} {t first last : Token}

theorem Walk.split (h : Walk pos cs (ts ++ us) stop rest) :
    ∃ mid between, Walk pos cs ts mid between ∧ Walk mid between us stop rest := by
  induction ts generalizing pos cs with
  | nil => exact ⟨pos, cs, .nil pos cs, h⟩
  | cons t ts ih =>
    cases h with
    | cons gap begins read walk =>
      obtain ⟨mid, between, before, after⟩ := ih walk
      exact ⟨mid, between, .cons gap begins read before, after⟩

/-- Behind the gap before its first token, a walk begins alike wherever the text stands
and whatever follows it. -/
theorem Walk.alone (h : Walk pos cs (t :: ts) stop rest) :
    ∃ gap text, cs = gap ++ (text ++ rest) ∧ pos + byteSize gap = t.span.start ∧
      t.span.start + byteSize text = stop ∧
      ∃ ts', scan text = .ok ts' ∧ ts'.map lexeme = (t :: ts).map lexeme := by
  cases h with
  | @cons _ _ gap cs _ c r _ isGap begins read walk =>
    have bare : Walk (pos + byteSize gap) ([] ++ c :: (r.more ++ cs))
        (r.token (pos + byteSize gap) c :: ts) stop rest := .cons .nil begins read walk
    obtain ⟨text, split, size, again⟩ := bare.cut
    have scanned := (again [] quiet_nil).scanFrom_eq
    rw [scanFrom, List.append_nil, Except.map, List.append_nil] at scanned
    obtain ⟨ts', scanned', lexemes⟩ := scanFrom_shift scanned 0
    exact ⟨gap, text, by rw [← split]; rfl, rfl, size.symm, ts', scanned', lexemes⟩

theorem lastStop_of_getLast? (pos : Nat) (h : ts.getLast? = some last) :
    lastStop pos ts = last.span.stop := by
  induction ts generalizing pos with
  | nil => cases h
  | cons t ts ih =>
    cases ts with
    | nil =>
      cases h
      rfl
    | cons t' ts =>
      rw [List.getLast?_cons_cons] at h
      exact ih t.span.stop h

/-- A scan walks through every run of its tokens. -/
theorem exists_walk_of_run {s : Source} {own : List Token} (scanned : scan s.chars = .ok ts)
    (run : own <:+: ts) :
    ∃ before behind stop rest, s.chars = before ++ behind ∧
      Walk (byteSize before) behind own stop rest := by
  obtain ⟨stop, rest, walk, -⟩ := scan_eq_ok_iff.mp scanned
  obtain ⟨before, after, rfl⟩ := run
  obtain ⟨mid, between, upTo, -⟩ := walk.split
  obtain ⟨start, behind, beforeOwn, walkOwn⟩ := upTo.split
  obtain ⟨taken, whole, rfl, -⟩ := beforeOwn.cut
  rw [Nat.zero_add] at walkOwn
  exact ⟨taken, behind, mid, between, whole, walkOwn⟩

/-- The text from the first of some tokens to the last, scanned alone, says what they say. -/
theorem scan_run {s : Source} {own : List Token} (scanned : scan s.chars = .ok ts)
    (run : own <:+: ts) (head : own.head? = some first) (final : own.getLast? = some last) :
    ∃ before text after, s.chars = before ++ (text ++ after) ∧
      (⟨first.span.start, last.span.stop⟩ : Span) =
        ⟨byteSize before, byteSize before + byteSize text⟩ ∧
      ∃ own', scan text = .ok own' ∧ own'.map lexeme = own.map lexeme := by
  obtain ⟨before, behind, stop, rest, whole, walk⟩ := exists_walk_of_run scanned run
  obtain ⟨others, rfl⟩ := List.head?_eq_some_iff.mp head
  obtain ⟨gap, text, split, starts, stops, own', scanned', lexemes⟩ := walk.alone
  have ends := (lastStop_of_getLast? (byteSize before) final).symm.trans walk.lastStop_eq
  refine ⟨before ++ gap, text, rest, by rw [whole, split]; simp, ?_, own', scanned', lexemes⟩
  have begins : byteSize (before ++ gap) = first.span.start := by
    rw [Text.byteSize_append, ← starts]
  rw [begins, stops, ends]

end Token

namespace Surface

/-! ## Reading a part alone -/

theorem next_nil (p : Lexeme → Prop) : Next p [] := by
  intro t mem
  cases mem

/-- The text, all of it, is read as the part, apart from places. -/
def Node.Rereads (text : List Char) (n : Node) : Prop :=
  ∃ ts, Token.scan text = .ok ts ∧
    match n with
    | .expr e =>
      ∃ e' less, parseExpr (eofSpan ts) ts = .ok ⟨e', [], less⟩ ∧ e'.placeless = e.placeless
    | .stmt s =>
      ∃ s' less, parseStmt (eofSpan ts) ts = .ok ⟨s', [], less⟩ ∧ s'.placeless = s.placeless
    | .param p =>
      ∃ p' less, expectName (eofSpan ts) .parameter ts = .ok ⟨p', [], less⟩ ∧ p'.name = p.name
    | .function f =>
      ∃ f' less, parseFunction (eofSpan ts) f.file ts = .ok ⟨f', [], less⟩ ∧
        f'.placeless = f.placeless

theorem Derives.parseExpr_whole {ts : List Token} {tree : Expr}
    (h : Derives .expr (ts.map Token.lexeme) tree) (eof : Span) :
    ∃ e less, parseExpr eof ts = .ok ⟨e, [], less⟩ ∧ e.placeless = tree := by
  obtain ⟨e, placeless, reads⟩ := h.readable eof rfl (some .pipe) rfl
  have whole : outcome (parseLevel eof (some .pipe) (ts ++ [])) = .ok (e, []) :=
    (reads [] (next_nil _)).trans (outcome_parseJoints_stop (next_nil _) e)
  rw [List.append_nil] at whole
  obtain ⟨less, parsed⟩ := outcome_eq_ok.mp whole
  exact ⟨e, less, parsed, placeless⟩

theorem Derives.parseStmt_whole {ts : List Token} {tree : Stmt}
    (h : Derives .stmt (ts.map Token.lexeme) tree) (eof : Span) :
    ∃ s less, parseStmt eof ts = .ok ⟨s, [], less⟩ ∧ s.placeless = tree := by
  obtain ⟨s, placeless, reads⟩ := h.readable eof rfl
  have whole := reads [] (next_nil _)
  rw [List.append_nil] at whole
  obtain ⟨less, parsed⟩ := outcome_eq_ok.mp whole
  exact ⟨s, less, parsed, placeless⟩

theorem Derives.parseFunction_whole {file : String} {ts : List Token} {tree : Function}
    (h : Derives (.function file) (ts.map Token.lexeme) tree) (eof : Span) :
    ∃ f less, parseFunction eof file ts = .ok ⟨f, [], less⟩ ∧ f.placeless = tree := by
  obtain ⟨f, placeless, reads⟩ := h.readable eof rfl
  have whole := reads []
  rw [List.append_nil] at whole
  obtain ⟨less, parsed⟩ := outcome_eq_ok.mp whole
  exact ⟨f, less, parsed, placeless⟩

theorem Node.Spells.rereads {n : Node} {text : List Char} {ts : List Token}
    (scanned : Token.scan text = .ok ts) (h : n.Spells (ts.map Token.lexeme)) :
    n.Rereads text := by
  refine ⟨ts, scanned, ?_⟩
  cases n with
  | expr e => exact Derives.parseExpr_whole h _
  | stmt s => exact Derives.parseStmt_whole h _
  | function f => exact Derives.parseFunction_whole h _
  | param p =>
    obtain ⟨t, rfl, named⟩ := List.map_eq_singleton_iff.mp h
    exact ⟨_, _, expectName_cons named .parameter [], rfl⟩

/-! ## Places -/

/-- The place of the part, which stands in a text of these tokens, is the part's own text. -/
structure Node.Faithful (s : Source) (ts : List Token) (n : Node) : Prop where
  covers : s.Covers n.span
  proper : n.span.start < n.span.stop
  starts : ∃ t ∈ ts, t.span.start = n.span.start
  stops : ∃ t ∈ ts, t.span.stop = n.span.stop
  /-- What is below the part lies within it. -/
  inside : ∀ m ∈ n.children, n.span.start ≤ m.span.start ∧ m.span.stop ≤ n.span.stop
  /-- What is below the part lies there in its order, and nothing overlaps. -/
  apart : n.children.Pairwise fun m m' => m.span.stop ≤ m'.span.start
  rereads : ∃ text, s.cut? n.span = some text ∧ n.Rereads text

theorem ordered_of_scan {s : Source} {ts : List Token} (scanned : Token.scan s.chars = .ok ts) :
    Ordered ts := by
  obtain ⟨stop, rest, walk, last⟩ := Token.scan_eq_ok_iff.mp scanned
  have lossless := walk.lossless last
  exact ⟨fun t mem => (lossless.covered t mem).2, lossless.ordered⟩

theorem Node.Stands.faithful {s : Source} {ts own : List Token} {n : Node}
    (scanned : Token.scan s.chars = .ok ts) (run : own <:+: ts) (stands : n.Stands own)
    (below : Placed own n.children) : n.Faithful s ts := by
  have ordered : Ordered own := (ordered_of_scan scanned).sublist run.sublist
  obtain ⟨first, last, head, final, place⟩ := stands.exists_ends ordered
  obtain ⟨before, text, after, whole, cut, own', scanned', lexemes⟩ :=
    Token.scan_run scanned run head final
  have firstMem := List.mem_of_head? head
  have lastMem := List.mem_of_getLast? final
  refine ⟨?_, ?_, ⟨first, run.subset firstMem, by rw [place]⟩,
    ⟨last, run.subset lastMem, by rw [place]⟩, fun m mem => ?_, below.apart ordered, text,
    ?_, ?_⟩
  · rw [place, cut]
    exact Source.covers_of_append whole
  · have proper := ordered.proper first firstMem
    have stops := ordered.le_stop final firstMem
    rw [place]
    exact Nat.lt_of_lt_of_le proper stops
  · obtain ⟨own'', sub, stands', -⟩ := below.exists_run mem
    exact stands.within stands' sub ordered
  · rw [place, cut]
    exact Source.cut?_append whole
  · have spells := stands.spells
    rw [← lexemes] at spells
    exact Node.Spells.rereads scanned' spells

end Surface

open Surface

/-- Whatever text is read as a program: the place of each part of the program, at any
depth, reaches from a token to a token, holds the places of the parts below it in their
order, and its text alone is read as that part. Functions and statements outside them
follow each other without overlapping too. -/
theorem readProgram_faithful (file : String) (s : Source) (p : Program)
    (isRead : readProgram file s = .ok p) :
    ∃ ts, readTokens file s = .ok ts ∧ (∀ n, p.Part n → n.Faithful s ts) ∧
      p.functions.Pairwise (fun f g => f.span.stop ≤ g.span.start) ∧
      p.topLevel.Pairwise (fun t u => t.stmt.span.stop ≤ u.stmt.span.start) ∧
      ∀ f ∈ p.functions, ∀ t ∈ p.topLevel,
        f.span.stop ≤ t.stmt.span.start ∨ t.stmt.span.stop ≤ f.span.start := by
  obtain ⟨ts, tokens, parsed⟩ := bind_eq_ok.mp isRead
  have parsed := mapError_eq_ok.mp parsed
  have scanned := readTokens_eq_ok.mp tokens
  have ordered := ordered_of_scan scanned
  refine ⟨ts, tokens, fun n part => ?_, ?_⟩
  · obtain ⟨own, run, stands, below⟩ := part.exists_run parsed ordered
    exact stands.faithful scanned run below
  · unfold Program.parse at parsed
    obtain ⟨⟨fs, ss⟩, readItems, parsed⟩ := bind_eq_ok.mp parsed
    cases parsed
    obtain ⟨items, placed, perm, functions, stmts⟩ :=
      parseItems_placed _ file ts readItems ordered
    have apart := placed.apart ordered
    refine ⟨List.pairwise_map.mp (apart.sublist functions),
      List.pairwise_map.mp (apart.sublist stmts), fun f memF t memT => ?_⟩
    have either : items.Pairwise fun n m =>
        n.span.stop ≤ m.span.start ∨ m.span.stop ≤ n.span.start := apart.imp .inl
    have both := (perm.pairwise_iff Or.symm).mp either
    exact (List.pairwise_append.mp both).2.2 _ (List.mem_map_of_mem memF) _
      (List.mem_map.mpr ⟨t, memT, rfl⟩)

/-- A call in a pipeline, and a product with a sum in brackets. -/
theorem readProgram_faithful_sample :
    ∃ p ts, readProgram "f" ⟨"def f(a){return -(a+1)*2;}x=f(y)|@(ls);"⟩ = .ok p ∧
      p.functions.map (·.span) = [⟨0, 26⟩] ∧ p.topLevel.map (·.stmt.span) = [⟨26, 39⟩] ∧
      ∀ n, p.Part n → n.Faithful ⟨"def f(a){return -(a+1)*2;}x=f(y)|@(ls);"⟩ ts := by
  have runs : ((readProgram "f" ⟨"def f(a){return -(a+1)*2;}x=f(y)|@(ls);"⟩).toOption.any
      fun p =>
      p.functions.map (·.span) = [⟨0, 26⟩] && p.topLevel.map (·.stmt.span) = [⟨26, 39⟩]) =
        true := by
    decide +kernel
  cases isRead : readProgram "f" ⟨"def f(a){return -(a+1)*2;}x=f(y)|@(ls);"⟩ with
  | error d =>
    rw [isRead] at runs
    cases runs
  | ok p =>
    rw [isRead] at runs
    obtain ⟨functions, stmts⟩ := Bool.and_eq_true_iff.mp runs
    obtain ⟨ts, -, faithful, -⟩ := readProgram_faithful "f" _ p isRead
    exact ⟨p, ts, rfl, of_decide_eq_true functions, of_decide_eq_true stmts, faithful⟩

end Shellwright
