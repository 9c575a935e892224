import Shellwright.CommandLine.Run
import Shellwright.Proofs.FileTrees
import Shellwright.Proofs.Flags
import Shellwright.Proofs.ProjectContents

/-!
# Builds

A build goes through the same stages whatever it is for, and ends at the first one that
fails or that is all it was asked for. So goals differ in how many stages they need and in
nothing else: the failure of an early stage is the same for all of them. Files are written
after the last stage.

* `Ends fs o entry r`, `make_eq_iff`: how the stages of a build end.
* `Ends.error_mono`: a goal that needs more stages fails where one that needs fewer does.
* `Agrees fs entry result`: what the results for different goals have to do with each other, and
  what the codes of failures mean.
* `Course t home o entry r`, `build_course`: what becomes of a tree of files.
* `KeepsFiles t home o entry result t'`: only a complete script is written, and only where
  it was asked for.
-/

namespace Shellwright.Project

variable {fs : FileSystem} {o : Options} {entry : Path} {f : Failure}

/-! ## Stages -/

/-- The project cannot be loaded. -/
def Unloaded (fs : FileSystem) (entry : Path) : Prop := ∃ e, load fs entry = .error e

/-- The project can be loaded, but not resolved. -/
def Unresolved (fs : FileSystem) (o : Options) (entry : Path) : Prop :=
  ∃ p d, load fs entry = .ok p ∧ resolve o.library p = .error d

/-- The project can be resolved, but making its script fails. -/
def Ungenerated (fs : FileSystem) (o : Options) (entry : Path) (e : Script.Error) : Prop :=
  ∃ p m, load fs entry = .ok p ∧ resolve o.library p = .ok m ∧
    Script.generate o.target o.library m = .error e

/-- The script of a project. -/
def Generates (fs : FileSystem) (o : Options) (entry : Path) (script : String) : Prop :=
  ∃ p m, load fs entry = .ok p ∧ resolve o.library p = .ok m ∧
    Script.generate o.target o.library m = .ok script

/-- The entry file is there and can be opened. -/
def Opens (fs : FileSystem) (entry : Path) : Prop :=
  fs.has entry = true ∧ fs.refuses entry = none

/-- The entry file can be opened if it is there. -/
def Openable (fs : FileSystem) (entry : Path) : Prop :=
  fs.has entry = true → fs.refuses entry = none

/-- How a build ends: at the first stage that fails, or with what was asked for. -/
inductive Ends (fs : FileSystem) (o : Options) (entry : Path) : Except Failure String → Prop
  | missing : fs.has entry = false → Ends fs o entry (.error (.missing entry))
  | refused {fault : FileFault} : fs.has entry = true → fs.refuses entry = some fault →
    Ends fs o entry (.error (.unreadable entry fault))
  | unloaded {e : LoadError} : Opens fs entry → load fs entry = .error e →
    Ends fs o entry (.error (.source e.diagnostic (diagnosticBase fs entry)))
  | surface {p : Surface.Program} : Opens fs entry → load fs entry = .ok p →
    o.goal = .surface → Ends fs o entry (.ok p.dump)
  | unresolved {p : Surface.Program} {d : Diagnostic} : Opens fs entry →
    load fs entry = .ok p → o.goal ≠ .surface → resolve o.library p = .error d →
    Ends fs o entry (.error (.source d (diagnosticBase fs entry)))
  | core {p : Surface.Program} {m : Core.Module} : Opens fs entry → load fs entry = .ok p →
    resolve o.library p = .ok m → o.goal = .core → Ends fs o entry (.ok m.dump)
  | ungenerated {p : Surface.Program} {m : Core.Module} {e : Script.Error} : Opens fs entry →
    load fs entry = .ok p → resolve o.library p = .ok m → o.goal ≠ .surface → o.goal ≠ .core →
    Script.generate o.target o.library m = .error e → Ends fs o entry (.error (.generation e))
  | checked {p : Surface.Program} {m : Core.Module} {script : String} : Opens fs entry →
    load fs entry = .ok p → resolve o.library p = .ok m → o.goal = .check →
    Script.generate o.target o.library m = .ok script → Ends fs o entry (.ok "OK")
  | generated {p : Surface.Program} {m : Core.Module} {script : String} : Opens fs entry →
    load fs entry = .ok p → resolve o.library p = .ok m → o.goal = .script →
    Script.generate o.target o.library m = .ok script → Ends fs o entry (.ok script)

/-- What can be loaded is there. -/
theorem has_of_load {p : Surface.Program} (loaded : load fs entry = .ok p) :
    fs.has entry = true := by
  obtain ⟨place, _, _, _, found, _⟩ := load_eq_ok.mp loaded
  unfold FileSystem.has
  rw [found]
  rfl

/-- What can be loaded is there and can be opened. -/
theorem opens_of_load {p : Surface.Program} (openable : Openable fs entry)
    (loaded : load fs entry = .ok p) : Opens fs entry :=
  ⟨has_of_load loaded, openable (has_of_load loaded)⟩

theorem unloaded_of_missing (missing : fs.has entry = false) : Unloaded fs entry := by
  cases loaded : load fs entry with
  | error e => exact ⟨e, loaded⟩
  | ok p => exact absurd (missing.symm.trans (has_of_load loaded)) Bool.false_ne_true

/-- A compilation ends as its stages do. -/
theorem make_ends (fs : FileSystem) (o : Options) (entry : Path) :
    Ends fs o entry (make fs o entry) := by
  unfold make
  cases there : fs.has entry with
  | false => exact .missing there
  | true =>
    cases refused : fs.refuses entry with
    | some fault => exact .refused there refused
    | none =>
      have opens : Opens fs entry := ⟨there, refused⟩
      cases loaded : load fs entry with
      | error e => exact .unloaded opens loaded
      | ok p =>
        show Ends fs o entry (if o.goal = .surface then _ else _)
        split
        case isTrue goal => exact .surface opens loaded goal
        case isFalse notSurface =>
          cases resolved : resolve o.library p with
          | error d => exact .unresolved opens loaded notSurface resolved
          | ok m =>
            show Ends fs o entry (if o.goal = .core then _ else _)
            split
            case isTrue goal => exact .core opens loaded resolved goal
            case isFalse notCore =>
              cases made : Script.generate o.target o.library m with
              | error e => exact .ungenerated opens loaded resolved notSurface notCore made
              | ok script =>
                show Ends fs o entry (if o.goal = .check then _ else _)
                split
                case isTrue goal => exact .checked opens loaded resolved goal made
                case isFalse notCheck =>
                  have goal : o.goal = .script := by
                    cases goal : o.goal <;> simp_all
                  exact .generated opens loaded resolved goal made

/-- Stages end in one way only. -/
theorem Ends.unique {r r' : Except Failure String} (h : Ends fs o entry r)
    (h' : Ends fs o entry r') :
    r = r' := by
  -- Different ends contradict each other in the goal or in what one of the stages answers.
  cases h <;> cases h' <;> simp_all [Opens]

/-- So the stages say all there is to say about the result. -/
theorem make_eq_iff {r : Except Failure String} : make fs o entry = r ↔ Ends fs o entry r :=
  ⟨fun same => same ▸ make_ends fs o entry, (make_ends fs o entry).unique⟩

/-! ## Goals -/

/-- What loading or resolving says against a project, as far as the goal needs them. -/
inductive Diagnosed (fs : FileSystem) (o : Options) (entry : Path) : Diagnostic → Prop
  | loading {e : LoadError} : load fs entry = .error e → Diagnosed fs o entry e.diagnostic
  | resolving {p : Surface.Program} {d : Diagnostic} : o.goal ≠ .surface →
      load fs entry = .ok p →
    resolve o.library p = .error d → Diagnosed fs o entry d

/-- What the results for different goals have to do with each other, and what the
codes of failures mean. -/
structure Agrees (fs : FileSystem) (entry : Path) (result : Options → Except Failure String) :
    Prop where
  check_ok (o : Options) : result { o with goal := .check } = .ok "OK" ↔
    ∃ script, result { o with goal := .script, output := none } = .ok script
  check_error (o : Options) (f : Failure) : result { o with goal := .check } = .error f ↔
    result { o with goal := .script, output := none } = .error f
  core_fails (o : Options) : (∃ f, result { o with goal := .core } = .error f) ↔
    Unloaded fs entry ∨ Unresolved fs o entry
  core_error (o : Options) (f : Failure) : result { o with goal := .core } = .error f →
    result { o with goal := .script } = .error f
  surface_fails (o : Options) : (∃ f, result { o with goal := .surface } = .error f) ↔
    Unloaded fs entry ∨ fs.has entry = false
  surface_error (o : Options) (f : Failure) : result { o with goal := .surface } = .error f →
    result { o with goal := .script } = .error f
  code_source (o : Options) (f : Failure) : (result o = .error f ∧ f.code = 2) ↔
    fs.has entry = true ∧ ∃ d, Diagnosed fs o entry d ∧ f = .source d (diagnosticBase fs entry)
  code_generation (o : Options) (f : Failure) : (result o = .error f ∧ f.code = 3) ↔
    o.goal ≠ .surface ∧ o.goal ≠ .core ∧ ∃ e, Ungenerated fs o entry e ∧ f = .generation e
  code_file (o : Options) (f : Failure) : result o = .error f → f.code = 1 →
    (fs.has entry = false ∧ f = .missing entry) ∨
      ∃ path fault, o.goal = .script ∧ o.output = some path ∧ f = .unwritable path fault

/-- A goal that needs all the stages of another one fails where that one does. -/
theorem Ends.error_mono {o' : Options} (target : o'.target = o.target)
    (library : o'.library = o.library) (resolves : o.goal ≠ .surface → o'.goal ≠ .surface)
    (generates : o.goal ≠ .core → o'.goal ≠ .core) (h : Ends fs o entry (.error f)) :
    Ends fs o' entry (.error f) := by
  cases h with
  | missing none => exact .missing none
  | refused there fault => exact .refused there fault
  | unloaded opens failed => exact .unloaded opens failed
  | unresolved opens loaded goal failed =>
    exact .unresolved opens loaded (resolves goal) (library ▸ failed)
  | ungenerated opens loaded resolved notSurface notCore failed =>
    exact .ungenerated opens loaded (library ▸ resolved) (resolves notSurface)
      (generates notCore) (by rwa [target, library])

/-- Where a project cannot be loaded, a compilation fails whatever is asked for. -/
theorem exists_ends_of_unloaded (o : Options) (openable : Openable fs entry)
    (unloaded : Unloaded fs entry) : ∃ f, Ends fs o entry (.error f) := by
  obtain ⟨e, failed⟩ := unloaded
  cases there : fs.has entry with
  | false => exact ⟨_, .missing there⟩
  | true => exact ⟨_, .unloaded ⟨there, openable there⟩ failed⟩

/-- A check says that all is well just if there is a script. -/
theorem make_check_ok (o : Options) : make fs { o with goal := .check } entry = .ok "OK" ↔
    ∃ script, make fs { o with goal := .script, output := none } entry = .ok script := by
  simp only [make_eq_iff]
  constructor
  · intro ends
    generalize "OK" = text at ends
    cases ends with
    | surface _ _ goal | core _ _ _ goal | generated _ _ _ goal => cases goal
    | checked there loaded resolved _ made =>
      exact ⟨_, .generated there loaded resolved rfl made⟩
  · rintro ⟨script, ends⟩
    cases ends with
    | surface _ _ goal | core _ _ _ goal | checked _ _ _ goal => cases goal
    | generated there loaded resolved _ made => exact .checked there loaded resolved rfl made

theorem not_refused (openable : Openable fs entry) {fault : FileFault}
    (there : fs.has entry = true) (refused : fs.refuses entry = some fault) : False :=
  Option.some_ne_none fault (refused.symm.trans (openable there))

/-- What is made for one goal agrees with what is made for the others. -/
theorem make_agrees (fs : FileSystem) (entry : Path) (openable : Openable fs entry) :
    Agrees fs entry (make fs · entry) where
  check_ok := make_check_ok
  check_error o f := by
    simp only [make_eq_iff]
    exact ⟨.error_mono rfl rfl nofun nofun, .error_mono rfl rfl nofun nofun⟩
  core_fails o := by
    simp only [make_eq_iff]
    constructor
    · rintro ⟨f, ends⟩
      cases ends with
      | missing none => exact .inl (unloaded_of_missing none)
      | refused there refused => exact (not_refused openable there refused).elim
      | unloaded _ failed => exact .inl ⟨_, failed⟩
      | unresolved _ loaded _ failed => exact .inr ⟨_, _, loaded, failed⟩
      | ungenerated _ _ _ _ notCore => exact absurd rfl notCore
    · rintro (unloaded | ⟨p, d, loaded, failed⟩)
      · exact exists_ends_of_unloaded _ openable unloaded
      · exact ⟨_, .unresolved (opens_of_load openable loaded) loaded nofun failed⟩
  core_error o f := by
    simp only [make_eq_iff]
    exact .error_mono rfl rfl nofun nofun
  surface_fails o := by
    simp only [make_eq_iff]
    constructor
    · rintro ⟨f, ends⟩
      cases ends with
      | missing none => exact .inr none
      | refused there refused => exact (not_refused openable there refused).elim
      | unloaded _ failed => exact .inl ⟨_, failed⟩
      | unresolved _ _ goal | ungenerated _ _ _ goal => exact absurd rfl goal
    · rintro (unloaded | none)
      · exact exists_ends_of_unloaded _ openable unloaded
      · exact ⟨_, .missing none⟩
  surface_error o f := by
    simp only [make_eq_iff]
    exact .error_mono rfl rfl nofun nofun
  code_source o f := by
    simp only [make_eq_iff]
    constructor
    · rintro ⟨ends, code⟩
      cases ends with
      | missing | refused | ungenerated => cases code
      | unloaded opens failed => exact ⟨opens.1, _, .loading failed, rfl⟩
      | unresolved opens loaded goal failed =>
        exact ⟨opens.1, _, .resolving goal loaded failed, rfl⟩
    · rintro ⟨there, d, diagnosed, rfl⟩
      have opens : Opens fs entry := ⟨there, openable there⟩
      cases diagnosed with
      | loading failed => exact ⟨.unloaded opens failed, rfl⟩
      | resolving goal loaded failed => exact ⟨.unresolved opens loaded goal failed, rfl⟩
  code_generation o f := by
    simp only [make_eq_iff]
    constructor
    · rintro ⟨ends, code⟩
      cases ends with
      | missing | refused | unloaded | unresolved => cases code
      | ungenerated opens loaded resolved notSurface notCore failed =>
        exact ⟨notSurface, notCore, _, ⟨_, _, loaded, resolved, failed⟩, rfl⟩
    · rintro ⟨notSurface, notCore, e, ⟨p, m, loaded, resolved, failed⟩, rfl⟩
      have opens := opens_of_load openable loaded
      exact ⟨.ungenerated opens loaded resolved notSurface notCore failed, rfl⟩
  code_file o f := by
    simp only [make_eq_iff]
    intro ends code
    cases ends with
    | missing none => exact .inl ⟨none, rfl⟩
    | refused there refused => exact (not_refused openable there refused).elim
    | unloaded | unresolved | ungenerated => cases code

/-! ## Files -/

/-- A file is written only with a script, and where one is named. -/
theorem Options.written?_eq_some {path : Path} :
    o.written? = some path ↔ o.goal = .script ∧ o.output = some path := by
  unfold Options.written?
  split
  case isTrue goal => exact (and_iff_right goal).symm
  case isFalse goal => exact iff_of_false nofun fun h => goal h.1

/-- How a build in a tree of files goes, with what it returns and leaves. -/
inductive Course (t : Tree) (home : List String) (o : Options) (entry : Path) :
    Except Failure String × Tree → Prop
  | failed {f : Failure} : make (t.toFileSystem home) o entry = .error f →
    Course t home o entry (.error f, t)
  | shown {text : String} : make (t.toFileSystem home) o entry = .ok text → o.written? = none →
    Course t home o entry (.ok text, t)
  | unwritable {text : String} {path : Path} {fault : FileFault} :
    make (t.toFileSystem home) o entry = .ok text → o.written? = some path →
    t.write home path text o.executable = .error fault →
    Course t home o entry (.error (.unwritable path fault), t)
  | written {text : String} {path : Path} {t' : Tree} :
    make (t.toFileSystem home) o entry = .ok text → o.written? = some path →
    t.write home path text o.executable = .ok t' → Course t home o entry (.ok text, t')

/-- What a build does: it makes the text, and writes it if it is to be written. -/
theorem build_course (t : Tree) (home : List String) (o : Options) (entry : Path) :
    Course t home o entry (build t home o entry) := by
  unfold build
  split
  case h_1 f failed => exact .failed failed
  case h_2 text made =>
    split
    case h_1 none => exact .shown made none
    case h_2 path asked =>
      split
      case h_1 fault failed => exact .unwritable made asked failed
      case h_2 t' done => exact .written made asked done

/-- One result comes from another by what is done after the last stage: a script that was made
can still fail to be written. -/
structure AddsWriting (result result' : Options → Except Failure String) : Prop where
  unasked (o : Options) : o.written? = none → result' o = result o
  kept (o : Options) (f : Failure) : result o = .error f → result' o = .error f
  fails (o : Options) (f : Failure) : result' o = .error f → result o = .error f ∨
    ∃ path fault, o.written? = some path ∧ f = .unwritable path fault

/-- Writing adds no fault but its own. -/
theorem AddsWriting.error_iff {result result' : Options → Except Failure String}
    (adds : AddsWriting result result') (other : f.code ≠ 1) :
    result' o = .error f ↔ result o = .error f := by
  refine ⟨fun failed => ?_, adds.kept o f⟩
  rcases adds.fails o f failed with failed | ⟨path, fault, _, rfl⟩
  · exact failed
  · exact absurd rfl other

/-- What agrees before writing agrees after it. -/
theorem Agrees.of_addsWriting {result result' : Options → Except Failure String}
    (h : Agrees fs entry result) (adds : AddsWriting result result') :
    Agrees fs entry result' where
  check_ok o := by
    rw [adds.unasked _ rfl, adds.unasked _ rfl]
    exact h.check_ok o
  check_error o f := by
    rw [adds.unasked _ rfl, adds.unasked _ rfl]
    exact h.check_error o f
  core_fails o := by
    rw [adds.unasked _ rfl]
    exact h.core_fails o
  core_error o f := by
    rw [adds.unasked { o with goal := .core } rfl]
    exact fun failed => adds.kept _ f (h.core_error o f failed)
  surface_fails o := by
    rw [adds.unasked _ rfl]
    exact h.surface_fails o
  surface_error o f := by
    rw [adds.unasked { o with goal := .surface } rfl]
    exact fun failed => adds.kept _ f (h.surface_error o f failed)
  code_source o f := by
    rw [← h.code_source]
    exact and_congr_left fun code => adds.error_iff (by omega)
  code_generation o f := by
    rw [← h.code_generation]
    exact and_congr_left fun code => adds.error_iff (by omega)
  code_file o f failed code := by
    rcases adds.fails o f failed with failed | ⟨path, fault, asked, same⟩
    · exact h.code_file o f failed code
    · obtain ⟨goal, output⟩ := Options.written?_eq_some.mp asked
      exact .inr ⟨path, fault, goal, output, same⟩

/-- A build is a compilation with writing added. -/
theorem build_addsWriting (t : Tree) (home : List String) (entry : Path) :
    AddsWriting (make (t.toFileSystem home) · entry) fun o => (build t home o entry).1 where
  unasked o unasked := by
    have course := build_course t home o entry
    generalize build t home o entry = r at course
    cases course with
    | failed failed => exact failed.symm
    | shown made => exact made.symm
    | unwritable _ asked | written _ asked => cases unasked.symm.trans asked
  kept o f failed := by
    unfold build
    rw [failed]
  fails o f := by
    have course := build_course t home o entry
    generalize build t home o entry = r at course
    intro ends
    cases course with
    | failed failed => exact .inl (failed.trans ends)
    | shown | written => cases ends
    | unwritable _ asked => exact .inr ⟨_, _, asked, (Except.error.inj ends).symm⟩

/-- What a build does to the files: it writes a script that is complete, to the file that was
asked for, or nothing. -/
structure KeepsFiles (t : Tree) (home : List String) (o : Options) (entry : Path)
    (result : Except Failure String) (t' : Tree) : Prop where
  failed (f : Failure) : result = .error f → t' = t
  changed : t' ≠ t → o.goal = .script ∧ o.output.isSome ∧
    ∃ script, Generates (t.toFileSystem home) o entry script
  written (path : Path) (text : String) : o.goal = .script → o.output = some path →
    result = .ok text → Generates (t.toFileSystem home) o entry text ∧
      t'.readText home path = .ok text
  others (path : Path) (place : List String) : o.output = some path →
    t.destination home path ≠ .ok place → t'.node? place = t.node? place
  unwritable (path : Path) (fault : FileFault) : result = .error (.unwritable path fault) →
    o.goal = .script ∧ o.output = some path ∧
    ∃ text, Generates (t.toFileSystem home) o entry text ∧
      t.write home path text o.executable = .error fault

theorem make_script {script : String} (goal : o.goal = .script)
    (made : make fs o entry = .ok script) :
    Generates fs o entry script := by
  cases make_eq_iff.mp made with
  | surface _ _ other | core _ _ _ other | checked _ _ _ other => cases goal.symm.trans other
  | generated _ loaded resolved _ made => exact ⟨_, _, loaded, resolved, made⟩

/-- A build changes no file but the one it is to write. -/
theorem build_keepsFiles (t : Tree) (home : List String) (o : Options) (entry : Path) :
    KeepsFiles t home o entry (build t home o entry).1 (build t home o entry).2 := by
  have course := build_course t home o entry
  generalize build t home o entry = r at course
  cases course with
  | failed failed =>
    refine ⟨fun _ _ => rfl, absurd rfl, nofun, fun _ _ _ _ => rfl, fun path fault same => ?_⟩
    cases same
    cases make_eq_iff.mp failed
  | shown made unasked =>
    refine ⟨nofun, absurd rfl, fun path text goal output _ => ?_, fun _ _ _ _ => rfl, nofun⟩
    cases unasked.symm.trans (Options.written?_eq_some.mpr ⟨goal, output⟩)
  | unwritable made asked failed =>
    obtain ⟨goal, output⟩ := Options.written?_eq_some.mp asked
    refine ⟨fun _ _ => rfl, absurd rfl, nofun, fun _ _ _ _ => rfl, fun path fault same => ?_⟩
    cases same
    exact ⟨goal, output, _, make_script goal made, failed⟩
  | written made asked done =>
    obtain ⟨goal, output⟩ := Options.written?_eq_some.mp asked
    refine ⟨nofun, fun _ => ⟨goal, output ▸ rfl, _, make_script goal made⟩, ?_, ?_, nofun⟩
    · intro path text _ output' same
      cases same
      cases output.symm.trans output'
      exact ⟨make_script goal made, Tree.readText_write done⟩
    · intro path place output' ne
      cases output.symm.trans output'
      exact Tree.node?_write_of_ne done ne

end Shellwright.Project

namespace Shellwright.CommandLine

open Project

/-- A script is asked for just if nothing else is. -/
theorem Request.goal_eq_script {r : Request} :
    r.goal = .script ↔ r.check = false ∧ r.surface = false ∧ r.core = false := by
  unfold goal
  cases r.check <;> cases r.surface <;> cases r.core <;> decide

/-- What a request does to the files: it writes a script that is complete, and only if nothing
else is asked for and a file is named. -/
theorem Request.run_changed {r : Request} {t : Tree} {home : List String}
    (changed : (r.run t home).2 ≠ t) :
    r.check = false ∧ r.surface = false ∧ r.core = false ∧ r.output.isSome = true ∧
      ∃ input script, r.input = some input ∧
        Generates (t.toFileSystem home) r.options input script := by
  unfold Request.run at changed
  split at changed
  case h_1 => exact absurd rfl changed
  case h_2 input given =>
    obtain ⟨goal, output, script, made⟩ :=
      (build_keepsFiles t home r.options input).changed changed
    obtain ⟨check, surface, core⟩ := goal_eq_script.mp goal
    refine ⟨check, surface, core, ?_, input, script, given, made⟩
    unfold options at output
    dsimp only at output
    split at output
    · exact output
    · cases output

/-- However arguments are read, a call with such a flag changes no file. -/
theorem runWith_of_flag {read : List String → Except Response Request} (heeds : HeedsFlags read)
    {t : Tree} {home args : List String} {arg : String}
    (isFlag : arg ∈ ["--check", "--emit-ast", "--emit-ir"])
    (given : arg ∈ args.takeWhile (· ≠ "--")) : (runWith read t home args).2 = t := by
  unfold runWith
  split
  case h_1 => rfl
  case h_2 r isRead =>
    by_contra changed
    obtain ⟨check, surface, core, -⟩ := Request.run_changed changed
    simp only [List.mem_cons, List.not_mem_nil, or_false] at isFlag
    rcases isFlag with rfl | rfl | rfl
    · exact Bool.false_ne_true (check.symm.trans (heeds.check isRead given))
    · exact Bool.false_ne_true (surface.symm.trans (heeds.surface isRead given))
    · exact Bool.false_ne_true (core.symm.trans (heeds.core isRead given))

/-- The goals of a build agree in every file system in which the entry file can be opened if it
is there, and in a tree of files also when a script is written. A build changes the tree only by
writing a complete script to the file that was asked for. A request changes it only if it asks
for a script and names a file; so however arguments are read, if no flag is lost, a call with a
flag that asks for something else than a script changes nothing. -/
theorem builds_agree :
    (∀ fs entry, Openable fs entry → Agrees fs entry (make fs · entry)) ∧
    (∀ t home entry, Agrees (t.toFileSystem home) entry fun o => (build t home o entry).1) ∧
    (∀ t home o entry,
      KeepsFiles t home o entry (build t home o entry).1 (build t home o entry).2) ∧
    (∀ t home (r : Request), (r.run t home).2 ≠ t →
      r.check = false ∧ r.surface = false ∧ r.core = false ∧ r.output.isSome = true ∧
        ∃ input script, r.input = some input ∧
          Generates (t.toFileSystem home) r.options input script) ∧
    ∀ read, HeedsFlags read → ∀ t home args arg, arg ∈ ["--check", "--emit-ast", "--emit-ir"] →
      arg ∈ args.takeWhile (· ≠ "--") → (runWith read t home args).2 = t := by
  have openable (t : Tree) (home : List String) (entry : Path) :
      Openable (t.toFileSystem home) entry := fun _ => rfl
  refine ⟨make_agrees, fun t home entry => ?_, build_keepsFiles,
    fun t home r changed => Request.run_changed changed,
    fun read heeds t home args arg isFlag given => runWith_of_flag heeds isFlag given⟩
  exact (make_agrees _ entry (openable t home entry)).of_addsWriting
    (build_addsWriting t home entry)

/-- The text of a file that imports nothing. -/
def aloneText : String := "x = 1; @(echo $x);"

/-- A tree with that file and nothing else. -/
def aloneTree : Tree := ⟨[(["main.bish"], .file aloneText.toUTF8 false)]⟩

/-- The file as a project of its own. -/
def aloneProgram (program : Surface.Program) : Surface.Program :=
  ⟨program.functions, program.topLevel, .zero, [("/main.bish", ⟨aloneText⟩)], "/main.bish"⟩

theorem aloneTree_read : (aloneTree.toFileSystem []).read ⟨"/main.bish"⟩ = .ok aloneText := by
  have located : aloneTree.locate [] ⟨"/main.bish"⟩ = .ok ["main.bish"] := rfl
  have node : aloneTree.node? ["main.bish"] = some (.file aloneText.toUTF8 false) := rfl
  show aloneTree.readText [] ⟨"/main.bish"⟩ = _
  unfold Tree.readText
  rw [located]
  simp only [node, Tree.fromUTF8?_toUTF8]

theorem exists_aloneTree_generates :
    ∃ script, Generates (aloneTree.toFileSystem []) {} ⟨"main.bish"⟩ script := by
  have runs : ((parseFile ⟨"/main.bish"⟩ ⟨aloneText⟩).toOption.any fun program =>
      ((nestedImport? program).isNone && (pathsOf ⟨"/main.bish"⟩ program).isEmpty &&
        program.functions.isEmpty) &&
      (resolve false (aloneProgram program)).toOption.any fun m =>
        (Script.generate .bash false m).isOk) = true := by decide +kernel
  obtain ⟨program, parsed, runs⟩ := exists_ok_of_any runs
  obtain ⟨plain, runs⟩ := Bool.and_eq_true_iff.mp runs
  obtain ⟨m, resolved, made⟩ := exists_ok_of_any runs
  obtain ⟨script, made⟩ := exists_ok_of_isOk made
  refine ⟨script, aloneProgram program, m, load_eq_ok.mpr ?_, resolved, made⟩
  simp only [Bool.and_eq_true, Option.isNone_iff_eq_none, List.isEmpty_iff] at plain
  obtain ⟨⟨noNested, noImports⟩, noFunctions⟩ := plain
  refine ⟨⟨"/main.bish"⟩, program, ⟨aloneText⟩, Loading.start.enter ⟨"/main.bish"⟩ ⟨aloneText⟩,
    rfl, ⟨openFile_eq_ok.mpr ⟨aloneTree_read, parsed, noNested⟩, noImports ▸ .nil, ?_⟩, rfl⟩
  constructor
  case distinct => exact noFunctions ▸ List.nodup_nil
  case apart => exact fun _ _ _ known => absurd known List.not_mem_nil
  case plain => exact fun imported => absurd imported (by decide)

/-- A file is built, checked and shown; and what a request and a call of the program
do to the tree. -/
theorem builds_agree_alone :
    ∃ script, (build aloneTree [] { output := some ⟨"out.sh"⟩ } ⟨"main.bish"⟩).1 = .ok script ∧
      (build aloneTree [] { output := some ⟨"out.sh"⟩ } ⟨"main.bish"⟩).2.readText [] ⟨"out.sh"⟩
        = .ok script ∧
      make (aloneTree.toFileSystem []) { goal := .check } ⟨"main.bish"⟩ = .ok "OK" ∧
      (build aloneTree [] { goal := .check } ⟨"main.bish"⟩).1 = .ok "OK" ∧
      (Request.run { input := some ⟨"main.bish"⟩, output := some ⟨"out.sh"⟩, plainFile := true }
        aloneTree []).2.readText [] ⟨"out.sh"⟩ = .ok script ∧
      (Request.run { input := some ⟨"main.bish"⟩, output := some ⟨"out.sh"⟩, core := true }
        aloneTree []).2 = aloneTree ∧
      (run aloneTree [] ["main.bish", "-o", "out.sh", "--check"]).2 = aloneTree := by
  obtain ⟨agree, agrees, keeps, asked, unchanged⟩ := builds_agree
  obtain ⟨script, p, m, loaded, resolved, made⟩ := exists_aloneTree_generates
  have makes (output : Option Path) :
      make (aloneTree.toFileSystem []) { output } ⟨"main.bish"⟩ = .ok script :=
    make_eq_iff.mpr (.generated ⟨rfl, rfl⟩ loaded resolved rfl made)
  have written : (build aloneTree [] { output := some ⟨"out.sh"⟩ } ⟨"main.bish"⟩).1 =
      .ok script := by
    unfold build
    rw [makes]
    rfl
  have shown : (build aloneTree [] {} ⟨"main.bish"⟩).1 = .ok script := by
    unfold build
    rw [makes]
    rfl
  have holds := ((keeps _ _ _ _).written _ _ rfl rfl written).2
  refine ⟨script, written, holds, ?_, ?_, holds, ?_, ?_⟩
  · exact ((agree _ _ fun _ => rfl).check_ok {}).mpr ⟨script, makes none⟩
  · exact ((agrees _ _ _).check_ok {}).mpr ⟨script, shown⟩
  · by_contra changed
    exact Bool.false_ne_true (asked _ _ _ changed).2.2.1.symm
  · exact unchanged readArgs readArgs_heedsFlags _ _ _ "--check" (by decide) (by decide)

end Shellwright.CommandLine
