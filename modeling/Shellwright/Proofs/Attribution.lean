import Mathlib.Data.List.TakeWhile
import Shellwright.Files.Snapshot
import Shellwright.Proofs.Diagnostics
import Shellwright.Proofs.Offences
import Shellwright.Proofs.ProjectContents

/-!
# Faults of projects are told of the right file

The program of a project is put together from several files, and resolving goes back and forth
between them. Whatever it fails for, the diagnostic names the file that the part to blame was
read from, and shows that file's text.

* `Program.parse_files`: what is read from a file carries the file's name.
* `Loads.keeps`: a load keeps the text of each file under the file's name.
* `load_attributed`: whichever part of a project is to blame, the diagnostic is about its file.
-/

namespace Shellwright

/-! ## Messages -/

namespace Core

/-- The text ends, and not as the message about a second definition does. -/
def EndsOtherwise (s : String) : Prop :=
  s.toList ≠ [] ∧ s.toList.getLast? ≠ some 'e'

instance (s : String) : Decidable (EndsOtherwise s) := inferInstanceAs (Decidable (_ ∧ _))

theorem EndsOtherwise.prepend {t : String} (h : EndsOtherwise t) (s : String) :
    EndsOtherwise (s ++ t) := by
  obtain ⟨some, last⟩ := h
  rw [EndsOtherwise, String.toList_append, List.getLast?_append_of_ne_nil _ some]
  exact ⟨List.append_ne_nil_of_right_ne_nil _ some, last⟩

/-- A message that ends otherwise is not that of a function defined twice. -/
theorem EndsOtherwise.ne {s : String} (h : EndsOtherwise s) (name : String) :
    s ≠ (ScopeFault.duplicateFunction name).message := by
  have text : (ScopeFault.duplicateFunction name).message =
      "function '" ++ name ++ "' is defined more than once" := rfl
  have some : "' is defined more than once".toList ≠ [] := by decide
  intro same
  apply h.2
  rw [same, text, String.toList_append, List.getLast?_append_of_ne_nil _ some]
  decide

theorem endsOtherwise_toString (n : Nat) : EndsOtherwise (toString n) := by
  have digits : (toString n).toList = Nat.toDigits 10 n := by
    rw [Nat.toString_eq_repr, Nat.toList_repr]
  rw [EndsOtherwise, digits]
  refine ⟨Nat.toDigits_ne_nil, fun last => ?_⟩
  have isDigit := Nat.isDigit_of_mem_toDigits (by decide) (by decide) (List.mem_of_getLast? last)
  exact absurd isDigit (by decide)

/-- A part is never blamed in the words of a second definition. -/
theorem Blames.endsOtherwise {p : Surface.Program} {parts : List Surface.Occurrence}
    {fault : ScopeFault} {node : Surface.Node} (h : Blames p parts fault node) :
    EndsOtherwise fault.message := by
  cases h with
  | undefinedVariable | undefinedFunction => exact .prepend (by decide) _
  | wrongArity => exact (endsOtherwise_toString _).prepend _
  | unusedResult | mainBesideStatements => decide
  | jumpOutsideLoop => exact .prepend (by decide) _

end Core

end Shellwright

namespace Shellwright.Surface

theorem Program.parse_files {file : String} {ts : List Token} {p : Program}
    (h : Program.parse file ts = .ok p) :
    (∀ f ∈ p.functions, f.file = file) ∧ ∀ t ∈ p.topLevel, t.file = file := by
  have places : Relates (fun _ _ => True) (eofSpan ts) (eofSpan ts) :=
    ⟨trivial, fun _ _ => trivial⟩
  have row : Token.Row (fun _ _ => True) ts ts := List.forall₂_same.mpr fun t _ => ⟨rfl, trivial⟩
  have moved := (Program.parse_moved places row file).of_ok h
  exact ⟨fun f mem => (List.forall₂_same.mp moved.functions f mem).files.1,
    fun t mem => (List.forall₂_same.mp moved.topLevel t mem).files.1⟩

end Shellwright.Surface

namespace Shellwright.Project

open Surface Shellwright.Core

/-- Whatever is read from a file is said to be from that file. -/
theorem parseFile_files {place : Path} {source : Source} {program : Program}
    (h : parseFile place source = .ok program) :
    (∀ f ∈ program.functions, f.file = place.text) ∧
    ∀ t ∈ program.topLevel, t.file = place.text := by
  rw [parseFile] at h
  split at h
  case h_1 => cases h
  case h_2 =>
    split at h
    case h_1 => cases h
    case h_2 parses =>
      cases h
      exact Program.parse_files parses

/-! ## Texts -/

/-- The text of each file that is being loaded or has been is kept under the file's name. -/
def Loading.Keeps (fs : FileSystem) (l : Loading) : Prop :=
  ∀ q, q ∈ l.visiting ∨ q ∈ l.loaded →
    ∃ source, l.sources.lookup q.text = some source ∧ fs.read q = .ok source.text

namespace Loading.Keeps

variable {fs : FileSystem} {l : Loading} {place : Path} {source : Source}

theorem enter (h : l.Keeps fs) (reads : fs.read place = .ok source.text) :
    (l.enter place source).Keeps fs := by
  intro q mem
  by_cases same : q = place
  · subst same
    exact ⟨source, List.lookup_cons_self, reads⟩
  · have before : q ∈ l.visiting ∨ q ∈ l.loaded :=
      mem.imp_left fun isIn => (List.mem_cons.mp isIn).resolve_left same
    obtain ⟨text, kept, isText⟩ := h q before
    have differ : (q.text == place.text) = false := by
      rw [beq_eq_false_iff_ne]
      intro names
      exact same (Path.mk.injEq .. ▸ names)
    refine ⟨text, ?_, isText⟩
    rw [Loading.enter, List.lookup_cons, differ]
    exact kept

theorem leave (h : l.Keeps fs) (isIn : place ∈ l.visiting) (isEntry : Bool) (program : Program) :
    ((l.adding isEntry program).leave place).Keeps fs := by
  rintro q (visiting | loaded)
  · exact h q (.inl (List.mem_of_mem_erase visiting))
  · rcases List.mem_cons.mp loaded with rfl | loaded
    · exact h q (.inl isIn)
    · exact h q (.inr loaded)

end Loading.Keeps

/-- A load keeps the texts of the files it has read, step by step. -/
theorem Loads.keeps {fs : FileSystem} {l l' : Loading} {paths : List Path}
    (h : Loads fs l paths l') (before : l.Keeps fs) : l'.Keeps fs := by
  induction h with
  | nil => exact before
  | known _ _ _ ih => exact ih before
  | file _ _ _ opened loads _ _ ihInner ihRest =>
    have inner := ihInner (before.enter (openFile_eq_ok.mp opened).1)
    refine ihRest (inner.leave ?_ _ _)
    rw [loads.visiting_eq]
    exact .head _

/-- A file of a project, what is read from it, and its text as the program keeps it. -/
structure IsFile (fs : FileSystem) (entry : Path) (p : Program) (q : Path) (program : Program)
    (source : Source) : Prop where
  reached : Reaches fs entry q
  reads : fs.read q = .ok source.text
  parses : parseFile q source = .ok program
  kept : p.source? q.text = some source

theorem Loading.Completes.isFile {fs : FileSystem} {place q : Path} {program p : Program}
    {source : Source} {inner : Loading} (h : Completes fs place program source inner)
    (sources : p.sources = inner.sources) (reach : Reaches fs place q) :
    ∃ program source, IsFile fs place p q program source ∧ Usable fs place q program := by
  obtain ⟨program', usable⟩ := h.loadable.usable q reach
  obtain ⟨source', opened⟩ := usable.opened
  obtain ⟨reads, parses, -⟩ := openFile_eq_ok.mp opened
  have start : Loading.start.Keeps fs := by
    rintro q (mem | mem) <;> cases mem
  have keeps := h.loads.keeps (start.enter (openFile_eq_ok.mp h.opened).1)
  have isIn : q ∈ inner.visiting ∨ q ∈ inner.loaded := by
    rw [h.loads.visiting_eq]
    refine (List.mem_cons.mp (h.mem_iff.mpr reach)).imp_left fun same => ?_
    rw [same]
    exact .head _
  obtain ⟨⟨text⟩, kept, isText⟩ := keeps q isIn
  obtain ⟨text'⟩ := source'
  rw [reads] at isText
  cases isText
  refine ⟨program', ⟨text⟩, ⟨reach, reads, parses, ?_⟩, usable⟩
  rw [Program.source?, sources]
  exact kept

/-! ## Statements outside functions -/

/-- Where only assignments and imports stand, names are given values by assignments. -/
theorem exists_assign_of_leads {ts : List TopLevel} (lead : ∀ t ∈ ts, t.leads = true)
    {x : String} (mem : x ∈ boundNames (stmtsUses (ts.map (·.stmt)))) :
    ∃ t ∈ ts, ∃ span value, t.stmt = .assign span x value := by
  induction ts with
  | nil => cases mem
  | cons t ts ih =>
    obtain ⟨leads, others⟩ := List.forall_mem_cons.mp lead
    rw [List.map_cons, stmtsUses, boundNames_append, List.mem_append] at mem
    rcases mem with here | later
    · obtain ⟨stmt, file⟩ := t
      cases stmt with
      | assign span name value =>
        simp only [Stmt.uses, boundNames_append, Expr.boundNames_uses, List.nil_append,
          boundNames_binds, boundNames_nil, List.mem_singleton] at here
        subst here
        exact ⟨_, .head _, span, value, rfl⟩
      | load => cases here
      | _ => cases leads
    · obtain ⟨u, isIn, assigns⟩ := ih others later
      exact ⟨u, .tail _ isIn, assigns⟩

/-- What occurs in the statements that are left occurs in all of them, where more
names can be seen. -/
theorem subset_occurrences {program : Program} {before after : List TopLevel}
    (split : program.topLevel = before ++ after) :
    stmtsOccurrences false (boundNames (stmtsUses (before.map (·.stmt)))) (after.map (·.stmt)) ⊆
      program.occurrences := by
  rw [Program.occurrences, split, List.map_append, stmtsOccurrences_append, List.nil_append]
  exact List.subset_append_of_subset_right _ (List.subset_append_right ..)

namespace Joins

variable {fs : FileSystem} {entry q : Path} {p program : Program} {t : TopLevel}

/-- A statement of a file that is no import is a statement of the project. -/
theorem mem_topLevel (h : Joins fs entry p) (reach : Reaches fs entry q)
    (mem : t ∈ topLevelAt fs q) (other : t.stmt.isLoad = false) : t ∈ p.topLevel := by
  rw [h.topLevel]
  by_cases same : q = entry
  · subst same
    exact List.mem_append_right _ mem
  · refine List.mem_append_left _ (List.mem_flatMap.mpr ⟨q, ?_, ?_⟩)
    · exact List.mem_filter.mpr ⟨(h.mem_iff q).mpr reach, by simpa using same⟩
    · exact List.mem_filter.mpr ⟨mem, by rw [other]; rfl⟩

/-- The names that leading statements of a file give values to are global. -/
theorem assigns (h : Joins fs entry p) (reach : Reaches fs entry q) {before : List TopLevel}
    (sub : before ⊆ topLevelAt fs q) (lead : ∀ t ∈ before, t.leads = true) :
    ∀ x ∈ boundNames (stmtsUses (before.map (·.stmt))), p.Assigns x := by
  intro x mem
  obtain ⟨t, isIn, span, value, assigns⟩ := exists_assign_of_leads lead mem
  exact ⟨t, h.mem_topLevel reach (sub isIn) (by rw [assigns]; rfl), span, value, assigns⟩

/-- Files other than the entry file have only assignments and imports outside functions. -/
def Plain (fs : FileSystem) (entry : Path) : Prop :=
  ∀ q, Reaches fs entry q → q ≠ entry → ∀ t ∈ topLevelAt fs q, t.leads = true

/-- The statements that the program begins with are assignments of other files, and then what the
entry file begins with. -/
theorem leading_remaining (h : Joins fs entry p) (plain : Plain fs entry) :
    (∀ t ∈ p.leading, (∃ q, Reaches fs entry q ∧ q ≠ entry ∧ t ∈ topLevelAt fs q) ∨
      t ∈ (topLevelAt fs entry).takeWhile TopLevel.leads) ∧
      p.remaining = (topLevelAt fs entry).dropWhile TopLevel.leads := by
  have isImported : ∀ t ∈ ((importOrder fs entry).filter (· ≠ entry)).flatMap
      (fun q => assignments (topLevelAt fs q)),
      ∃ q, Reaches fs entry q ∧ q ≠ entry ∧ t ∈ topLevelAt fs q := by
    intro t mem
    obtain ⟨q, isFile, mem⟩ := List.mem_flatMap.mp mem
    obtain ⟨inOrder, other⟩ := List.mem_filter.mp isFile
    exact ⟨q, (h.mem_iff q).mp inOrder, by simpa using other, (List.mem_filter.mp mem).1⟩
  have lead : ∀ t ∈ ((importOrder fs entry).filter (· ≠ entry)).flatMap
      (fun q => assignments (topLevelAt fs q)), t.leads = true := by
    intro t mem
    obtain ⟨q, reach, other, isIn⟩ := isImported t mem
    exact plain q reach other t isIn
  rw [Program.leading, Program.remaining, h.topLevel, List.takeWhile_append_of_pos lead,
    List.dropWhile_append_of_pos lead]
  refine ⟨fun t mem => ?_, rfl⟩
  exact (List.mem_append.mp mem).imp_left (isImported t)

/-- An assignment that the program begins with comes from a file where only assignments and
imports stand before it. -/
theorem exists_of_leading (h : Joins fs entry p) (plain : Plain fs entry) (mem : t ∈ p.leading) :
    ∃ q before after, Reaches fs entry q ∧ topLevelAt fs q = before ++ t :: after ∧
      ∀ u ∈ before, u.leads = true := by
  rcases (h.leading_remaining plain).1 t mem with ⟨q, reach, other, isIn⟩ | isIn
  · obtain ⟨before, after, split⟩ := List.append_of_mem isIn
    refine ⟨q, before, after, reach, split, fun u isBefore => plain q reach other u ?_⟩
    rw [split]
    exact List.mem_append_left _ isBefore
  · obtain ⟨before, after, split⟩ := List.append_of_mem isIn
    refine ⟨entry, before, after ++ (topLevelAt fs entry).dropWhile TopLevel.leads, .refl, ?_,
      fun u isBefore => List.mem_takeWhile_imp (l := topLevelAt fs entry) ?_⟩
    · rw [← List.cons_append, ← List.append_assoc, ← split, List.takeWhile_append_dropWhile]
    · rw [split]
      exact List.mem_append_left _ isBefore

end Joins

/-! ## Projects -/

/-- Whatever the program of a project cannot be resolved for, a part of one of its files is to
blame, and that file is named. -/
theorem exists_file_of_error {fs : FileSystem} {entry : Path} {p : Program} {library : Bool}
    {e : ScopeError} (loaded : load fs entry = .ok p)
    (failed : Module.ofProgram library p = .error e) :
    ∃ place q program source, fs.find entry = .ok place ∧ IsFile fs place p q program source ∧
      e.Tells p q.text program.occurrences := by
  obtain ⟨place, first, text, inner, found, completes, same⟩ := load_eq_ok.mp loaded
  have functions := congrArg Program.functions same
  have topLevel := congrArg Program.topLevel same
  have sources := congrArg Program.sources same
  have joins : Joins fs place _ := completes.joins found functions topLevel
  have isFile (q : Path) (reach : Reaches fs place q) := completes.isFile sources reach
  have plain : Joins.Plain fs place := by
    intro q reach other t mem
    obtain ⟨program, usable⟩ := completes.loadable.usable q reach
    rw [topLevelAt_eq usable.reads] at mem
    exact usable.plain other t mem
  rcases ofProgram_eq_error (functions ▸ completes.distinct) failed with
    ⟨f, mem, tells⟩ | ⟨t, mem, tells⟩ | tells
  · rw [joins.functions] at mem
    obtain ⟨q, inOrder, mem⟩ := List.mem_flatMap.mp mem
    obtain ⟨program, source, file, usable⟩ := isFile q ((joins.mem_iff q).mp inOrder)
    rw [functionsAt_eq usable.reads] at mem
    refine ⟨place, q, program, source, found, file, ?_⟩
    rw [← (parseFile_files file.parses).1 f mem]
    refine tells.mono fun o isIn => List.mem_append_left _ ?_
    exact List.mem_flatMap.mpr ⟨f, mem, isIn⟩
  · obtain ⟨q, before, after, reach, split, lead⟩ := joins.exists_of_leading plain mem
    have globals := joins.assigns reach (split ▸ List.subset_append_left ..) lead
    obtain ⟨program, source, file, usable⟩ := isFile q reach
    rw [topLevelAt_eq usable.reads] at split
    refine ⟨place, q, program, source, found, file, ?_⟩
    rw [← (parseFile_files file.parses).2 t (split ▸ List.mem_append_right _ (.head _))]
    refine (tells _ globals).mono (List.Subset.trans ?_ (subset_occurrences split))
    exact List.subset_cons_of_subset _ (List.subset_append_left ..)
  · have whole :=
      List.takeWhile_append_dropWhile (p := TopLevel.leads) (l := topLevelAt fs place)
    have globals := joins.assigns .refl (List.takeWhile_subset TopLevel.leads)
      fun _ => List.mem_takeWhile_imp
    obtain ⟨t, mem, tells⟩ := tells _ globals
    rw [(joins.leading_remaining plain).2] at mem tells
    obtain ⟨program, source, file, usable⟩ := isFile place .refl
    rw [topLevelAt_eq usable.reads] at whole mem tells
    refine ⟨place, place, program, source, found, file, ?_⟩
    rw [← (parseFile_files file.parses).2 t (List.dropWhile_subset _ mem)]
    exact tells.mono (subset_occurrences whole.symm)

/-- The diagnostic is about a part of a file: it names the file, shows its text at the part's
place, and says what is wrong with the part. -/
structure Attributed (p : Program) (d : Diagnostic) (q : Path) (program : Program)
    (source : Source) : Prop where
  file : d.file = some q.text
  source : d.source = some source
  blames : ∃ (fault : ScopeFault) (node : Surface.Node),
    d.message = fault.message ∧ d.help = fault.help ∧ d.span = node.span ∧ program.Part node ∧
      Blames p program.occurrences fault node

/-- If the program of a project cannot be resolved, then a part of one of the project's files is
to blame, and the diagnostic is about that part as it was read from that file. That a function is
defined more than once is never told, since such a project is not loaded. -/
theorem load_attributed {fs : FileSystem} {entry : Path} {p : Program} {library : Bool}
    {d : Diagnostic} (loaded : load fs entry = .ok p) (failed : resolve library p = .error d) :
    (∃ place q program source, fs.find entry = .ok place ∧ IsFile fs place p q program source ∧
      Attributed p d q program source) ∧
      ∀ name, d.message ≠ (ScopeFault.duplicateFunction name).message := by
  obtain ⟨e, refused, rfl⟩ := mapError_eq_error.mp failed
  obtain ⟨place, q, program, source, found, isFile, here, node, span, blames⟩ :=
    exists_file_of_error loaded refused
  refine ⟨⟨place, q, program, source, found, isFile, congrArg some here, ?_, ?_⟩,
    blames.endsOtherwise.ne⟩
  · rw [← isFile.kept, ← here]
    rfl
  · exact ⟨e.fault, node, rfl, rfl, span.symm, blames.part, blames⟩

/-- A file that imports another one, whose function reads a variable that nobody
gives a value to. -/
def faultyFiles : FileSystem := Snapshot.toFileSystem {
  finds := [(⟨"/a.bish"⟩, .ok ⟨"/a.bish"⟩), (⟨"/b.bish"⟩, .ok ⟨"/b.bish"⟩)]
  reads := [(⟨"/a.bish"⟩, .ok "import \"b\"; x = 1; f(x);"),
    (⟨"/b.bish"⟩, .ok "def f(n) \x7b return n + y; \x7d")] }

theorem openFile_eq_getD {fs : FileSystem} {q : Path} {other : Program × Source}
    (h : (openFile fs q).isOk = true) :
    openFile fs q = .ok ((openFile fs q).toOption.getD other) := by
  cases opened : openFile fs q with
  | error e => rw [opened] at h; cases h
  | ok x => rfl

/-- What is read from one of the files. -/
def faultyProgram (q : Path) : Program × Source :=
  (openFile faultyFiles q).toOption.getD (⟨[], [], .zero, [], ""⟩, ⟨""⟩)

/-- The state of the load when all that the first file imports is loaded. -/
def faultyLoading : Loading :=
  (((Loading.start.enter ⟨"/a.bish"⟩ (faultyProgram ⟨"/a.bish"⟩).2).enter ⟨"/b.bish"⟩
    (faultyProgram ⟨"/b.bish"⟩).2).adding false (faultyProgram ⟨"/b.bish"⟩).1).leave ⟨"/b.bish"⟩

theorem faultyFiles_completes : Loading.Completes faultyFiles ⟨"/a.bish"⟩
    (faultyProgram ⟨"/a.bish"⟩).1 (faultyProgram ⟨"/a.bish"⟩).2 faultyLoading := by
  have opened (q : Path) (h : (openFile faultyFiles q).isOk = true) :
      openFile faultyFiles q = .ok (faultyProgram q) := openFile_eq_getD h
  have imports : pathsOf ⟨"/a.bish"⟩ (faultyProgram ⟨"/a.bish"⟩).1 = [⟨"/b.bish"⟩] := by
    decide +kernel
  have alone : pathsOf ⟨"/b.bish"⟩ (faultyProgram ⟨"/b.bish"⟩).1 = [] := by decide +kernel
  have names : ((faultyProgram ⟨"/b.bish"⟩).1.functions.map (·.name)).Nodup := by decide +kernel
  refine ⟨opened _ (by decide +kernel), ?_, by decide +kernel, by decide +kernel, by decide⟩
  rw [imports]
  have inner (l : Loading) :
      Loads faultyFiles l (pathsOf ⟨"/b.bish"⟩ (faultyProgram ⟨"/b.bish"⟩).1) l := by
    rw [alone]
    exact .nil
  exact .file rfl List.not_mem_nil (by decide) (opened _ (by decide +kernel)) (inner _)
    ⟨names, fun _ _ _ mem => absurd mem List.not_mem_nil, by decide +kernel⟩ .nil

theorem load_attributed_imported :
    ∃ p d, load faultyFiles ⟨"/a.bish"⟩ = .ok p ∧ resolve false p = .error d ∧
      d.file = some "/b.bish" ∧ d.span = ⟨22, 23⟩ ∧
      (∃ place q program source, faultyFiles.find ⟨"/a.bish"⟩ = .ok place ∧
        IsFile faultyFiles place p q program source ∧ Attributed p d q program source) ∧
      ∀ name, d.message ≠ (ScopeFault.duplicateFunction name).message := by
  have found : faultyFiles.find ⟨"/a.bish"⟩ = .ok ⟨"/a.bish"⟩ := rfl
  have loaded := load_eq_ok.mpr ⟨_, _, _, _, found, faultyFiles_completes, rfl⟩
  have outcome : (match resolve false
        ⟨faultyLoading.functions ++ (faultyProgram ⟨"/a.bish"⟩).1.functions,
          faultyLoading.globals ++ (faultyProgram ⟨"/a.bish"⟩).1.topLevel, .zero,
          faultyLoading.sources, "/a.bish"⟩ with
    | .ok _ => none
    | .error d => some (d.file, d.span)) = some (some "/b.bish", ⟨22, 23⟩) := by decide +kernel
  split at outcome
  case h_1 => cases outcome
  case h_2 d failed =>
    obtain ⟨file, span⟩ := Prod.mk.inj (Option.some.inj outcome)
    exact ⟨_, d, loaded, failed, file, span, load_attributed loaded failed⟩

end Shellwright.Project
