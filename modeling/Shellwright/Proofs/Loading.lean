import Mathlib.Logic.Relation
import Shellwright.Project.Load
import Shellwright.Proofs.Scopes

/-!
# Loading along imports

A load follows the imports of files. What it can do is said once, by a relation with a
rule for each thing that may happen to a path, and all that is known about loads that
succeed is derived from it.

* `Imports fs q r`, `Reaches fs q r`: one file imports another, directly or on some way.
* `gather_eq_ok`: when a file can add what it defines, and what comes of it.
* `Loads fs l paths l'`: from one state, loading the files that paths lead to comes to another.
* `loadFile_loads`, `loadImports_loads`: loading does nothing else.
* `Loads.loadImports`: and all that it can do, it does.
* `Grounded fs files`, `Loads.grounded`: each loaded file comes after all it imports, so that
  none imports itself on some way.
-/

namespace Shellwright.Project

open Surface

/-! ## The graph of imports -/

/-- The program of the file at a place. -/
def program? (fs : FileSystem) (place : Path) : Option Program :=
  match fs.read place with
  | .error _ => none
  | .ok text => (parseFile place ⟨text⟩).toOption

/-- The program of a file was read from its text. -/
theorem exists_parse_of_program? {fs : FileSystem} {q : Path} {program : Program}
    (h : program? fs q = some program) :
    ∃ (s : Source) (ts : List Token),
      Token.scan s.chars = .ok ts ∧ Program.parse q.text ts = .ok program := by
  rw [program?] at h
  split at h
  case h_1 => cases h
  case h_2 text _ =>
    rw [parseFile] at h
    split at h
    case h_1 => cases h
    case h_2 ts scanned =>
      split at h
      case h_1 => cases h
      case h_2 parsed =>
        cases h
        exact ⟨⟨text⟩, ts, scanned, parsed⟩

/-- The paths that a program imports, as seen from its file. -/
def pathsOf (place : Path) (program : Program) : List Path :=
  (importsOf program.topLevel).map fun i => importPath place i.module

/-- One file imports another. -/
def Imports (fs : FileSystem) (q r : Path) : Prop :=
  ∃ program, program? fs q = some program ∧ ∃ path ∈ pathsOf q program, fs.find path = .ok r

/-- The files met from a file by following imports: itself, those it imports, those they
import, and so on. -/
abbrev Reaches (fs : FileSystem) : Path → Path → Prop := Relation.ReflTransGen (Imports fs)

/-- A file is opened just if it can be read, is a program, and has no import inside another
statement. -/
theorem openFile_eq_ok {fs : FileSystem} {place : Path} {program : Program} {source : Source} :
    openFile fs place = .ok (program, source) ↔
      fs.read place = .ok source.text ∧ parseFile place source = .ok program ∧
        nestedImport? program = none := by
  rw [openFile]
  cases fs.read place with
  | error fault => exact iff_of_false nofun nofun
  | ok text =>
    constructor
    · intro h
      obtain ⟨parsed, parses, h⟩ := bind_eq_ok.mp h
      split at h
      case h_1 => cases h
      case h_2 none =>
        cases h
        exact ⟨rfl, parses, none⟩
    · rintro ⟨⟨⟩, parses, none⟩
      refine bind_eq_ok.mpr ⟨program, parses, ?_⟩
      rw [none]
      rfl

/-- A file that is opened has its program. -/
theorem program?_of_openFile {fs : FileSystem} {place : Path} {program : Program}
    {source : Source} (h : openFile fs place = .ok (program, source)) :
    program? fs place = some program := by
  obtain ⟨reads, parses, -⟩ := openFile_eq_ok.mp h
  rw [program?, reads]
  dsimp only
  rw [parses]
  rfl

/-! ## Adding what a file defines -/

/-- Functions are joined just if no name comes twice. -/
theorem joinFunctions_eq_ok {l : Loading} {known fs all : List Function} :
    l.joinFunctions known fs = .ok all ↔
      all = known ++ fs ∧ (fs.map (·.name)).Nodup ∧ ∀ f ∈ fs, ∀ g ∈ known, g.name ≠ f.name := by
  induction fs generalizing known with
  | nil =>
    rw [Loading.joinFunctions, List.append_nil, Except.ok.injEq, eq_comm]
    exact (and_iff_left ⟨List.nodup_nil, nofun⟩).symm
  | cons f rest ih =>
    rw [Loading.joinFunctions]
    cases clash : known.find? (·.name = f.name) with
    | some g =>
      refine iff_of_false nofun ?_
      rintro ⟨-, -, apart⟩
      exact apart f (.head _) g (List.mem_of_find?_eq_some clash)
        (by simpa using List.find?_some clash)
    | none =>
      have new : ∀ g ∈ known, g.name ≠ f.name := by simpa [List.find?_eq_none] using clash
      dsimp only
      rw [ih, List.append_assoc, List.singleton_append, List.map_cons, List.nodup_cons,
        List.forall_mem_cons]
      simp only [List.mem_append, List.mem_singleton, List.mem_map, not_exists, not_and]
      constructor
      · rintro ⟨whole, distinct, apart⟩
        exact ⟨whole, ⟨fun g mem same => apart g mem f (.inr rfl) same.symm, distinct⟩, new,
          fun g mem h inKnown => apart g mem h (.inl inKnown)⟩
      · rintro ⟨whole, ⟨first, distinct⟩, -, apart⟩
        refine ⟨whole, distinct, fun g mem h => ?_⟩
        rintro (inKnown | rfl)
        · exact apart g mem h inKnown
        · exact fun same => first g mem same.symm

/-- The assignments among the statements outside functions. -/
def assignments (ts : List TopLevel) : List TopLevel := ts.filter fun t => !t.stmt.isLoad

/-- Statements of an imported file are joined just if they are assignments and imports. -/
theorem joinGlobals_eq_ok {l : Loading} {known ts all : List TopLevel} :
    l.joinGlobals known ts = .ok all ↔
      all = known ++ assignments ts ∧ ∀ t ∈ ts, t.leads = true := by
  induction ts generalizing known with
  | nil =>
    rw [Loading.joinGlobals, assignments, List.filter_nil, List.append_nil, Except.ok.injEq,
      eq_comm]
    exact (and_iff_left nofun).symm
  | cons t rest ih =>
    obtain ⟨stmt, file⟩ := t
    cases stmt with
    | load | assign =>
      rw [Loading.joinGlobals, ih]
      simp [assignments, Stmt.isLoad, TopLevel.leads]
    | _ => simp [Loading.joinGlobals, TopLevel.leads]

/-- A load with what a file defines. -/
def Loading.adding (l : Loading) (isEntry : Bool) (program : Program) : Loading :=
  { l with
    functions := l.functions ++ program.functions
    globals := if isEntry then l.globals else l.globals ++ assignments program.topLevel
    statements := if isEntry then program.topLevel else l.statements }

/-- A file can add what it defines: its functions have names of their own, and unless it is the
entry file it has no statements but assignments and imports outside them. -/
structure Loading.Admits (l : Loading) (isEntry : Bool) (program : Program) : Prop where
  distinct : (program.functions.map (·.name)).Nodup
  apart : ∀ f ∈ program.functions, ∀ g ∈ l.functions, g.name ≠ f.name
  plain : isEntry = false → ∀ t ∈ program.topLevel, t.leads = true

/-- What a file defines is added just if it is admitted. -/
theorem gather_eq_ok {l : Loading} {isEntry : Bool} {program : Program} {whole : l.Later} :
    l.gather isEntry program = .ok whole ↔
      whole.1 = l.adding isEntry program ∧ l.Admits isEntry program := by
  rw [Loading.gather, bind_eq_ok]
  simp only [joinFunctions_eq_ok]
  cases isEntry with
  | true =>
    constructor
    · rintro ⟨functions, ⟨rfl, distinct, apart⟩, h⟩
      cases h
      exact ⟨rfl, distinct, apart, nofun⟩
    · rintro ⟨same, distinct, apart, -⟩
      exact ⟨_, ⟨rfl, distinct, apart⟩, congrArg Except.ok (Subtype.ext same.symm)⟩
  | false =>
    constructor
    · rintro ⟨functions, ⟨rfl, distinct, apart⟩, h⟩
      obtain ⟨globals, joined, h⟩ := bind_eq_ok.mp h
      obtain ⟨rfl, plain⟩ := joinGlobals_eq_ok.mp joined
      cases h
      exact ⟨rfl, distinct, apart, fun _ => plain⟩
    · rintro ⟨same, distinct, apart, plain⟩
      refine ⟨_, ⟨rfl, distinct, apart⟩,
        bind_eq_ok.mpr ⟨_, joinGlobals_eq_ok.mpr ⟨rfl, plain rfl⟩, ?_⟩⟩
      exact congrArg Except.ok (Subtype.ext same.symm)

/-! ## What loading can do -/

/-- What a load can do: from this state, the files that the paths lead to are loaded in their
order, and then that state is reached. -/
inductive Loads (fs : FileSystem) : Loading → List Path → Loading → Prop
  | nil {l : Loading} : Loads fs l [] l
  | known {l l' : Loading} {path place : Path} {rest : List Path} :
    fs.find path = .ok place → place ∈ l.loaded → Loads fs l rest l' →
    Loads fs l (path :: rest) l'
  | file {l inner l' : Loading} {path place : Path} {rest : List Path} {program : Program}
      {source : Source} :
    fs.find path = .ok place → place ∉ l.loaded → place ∉ l.visiting →
      openFile fs place = .ok (program, source) →
      Loads fs (l.enter place source) (pathsOf place program) inner →
      inner.Admits l.stack.isEmpty program →
      Loads fs ((inner.adding l.stack.isEmpty program).leave place) rest l' →
      Loads fs l (path :: rest) l'

/-- Paths are loaded one after the other. -/
theorem Loads.append {fs : FileSystem} {l l' l'' : Loading} {ps qs : List Path}
    (h : Loads fs l ps l') (h' : Loads fs l' qs l'') : Loads fs l (ps ++ qs) l'' := by
  induction h with
  | nil => exact h'
  | known found there _ ih => exact .known found there (ih h')
  | file found new free opened inner admits _ _ ih =>
    exact .file found new free opened inner admits (ih h')

/-- Imports are loaded as paths are, if files are. -/
theorem loadImports_loads_of {fs : FileSystem} {importer : Path} {imports : List Import}
    {l : Loading} {l' : l.Later}
    (files : ∀ l₁ : Loading, l₁.visiting = l.visiting → ∀ path site (l₂ : l₁.Later),
      loadFile fs l₁ path site = .ok l₂ → Loads fs l₁ [path] l₂.1)
    (h : loadImports fs l importer imports = .ok l') :
    Loads fs l (imports.map fun i => importPath importer i.module) l'.1 := by
  induction imports generalizing l with
  | nil =>
    rw [loadImports] at h
    cases h
    exact .nil
  | cons i rest ih =>
    rw [loadImports] at h
    obtain ⟨⟨next, same⟩, first, h⟩ := bind_eq_ok.mp h
    obtain ⟨⟨last, same'⟩, others, h⟩ := bind_eq_ok.mp h
    cases h
    have later := ih (fun l₁ eq => files l₁ (eq.trans same)) others
    exact (files l rfl _ _ _ first).append later

/-- Loading a file does what the rules say. The induction is on the places that
are not being loaded. -/
theorem loadFile_loads {fs : FileSystem} {l : Loading} {path : Path} {site : Option Site}
    {l' : l.Later} (h : loadFile fs l path site = .ok l') : Loads fs l [path] l'.1 := by
  rw [loadFile] at h
  split at h
  case h_1 => cases h
  case h_2 place found =>
    split at h
    case isTrue there =>
      cases h
      exact .known found there .nil
    case isFalse new =>
      split at h
      case isTrue => cases h
      case isFalse free =>
        obtain ⟨⟨program, source⟩, opened, h⟩ := bind_eq_ok.mp h
        obtain ⟨⟨inner, same⟩, imported, h⟩ := bind_eq_ok.mp h
        obtain ⟨whole, gathered, h⟩ := bind_eq_ok.mp h
        cases h
        obtain ⟨isWhole, admits⟩ := gather_eq_ok.mp gathered
        have fewer : openPlaces fs (l.enter place source).visiting < openPlaces fs l.visiting :=
          openPlaces_cons_lt (fs.mem_places found) free
        refine .file found new free opened ?_ admits (isWhole ▸ .nil)
        exact loadImports_loads_of (fun l₁ eq path site l₂ => loadFile_loads) imported
termination_by openPlaces fs l.visiting
decreasing_by
  rw [eq]
  exact fewer

theorem loadImports_loads {fs : FileSystem} {l : Loading} {importer : Path}
    {imports : List Import} {l' : l.Later} (h : loadImports fs l importer imports = .ok l') :
    Loads fs l (imports.map fun i => importPath importer i.module) l'.1 :=
  loadImports_loads_of (fun _ _ _ _ _ => loadFile_loads) h

/-! ## What a load leaves as it is -/

namespace Loads

variable {fs : FileSystem} {l l' : Loading} {paths : List Path}

/-- A load that is over has left the files that are being loaded as it found them. -/
theorem visiting_eq (h : Loads fs l paths l') : l'.visiting = l.visiting := by
  induction h with
  | nil => rfl
  | known _ _ _ ih => exact ih
  | file _ _ _ _ _ _ _ ihInner ihRest =>
    simpa [Loading.leave, Loading.adding, Loading.enter, ihInner] using ihRest

/-- So it has the stack. -/
theorem stack_eq (h : Loads fs l paths l') : l'.stack = l.stack := by
  induction h with
  | nil => rfl
  | known _ _ _ ih => exact ih
  | file _ _ _ _ _ _ _ ihInner ihRest =>
    simpa [Loading.leave, Loading.adding, Loading.enter, ihInner] using ihRest

theorem visiting_leave {place : Path} {source : Source}
    (h : Loads fs (l.enter place source) paths l') (isEntry : Bool) (program : Program) :
    ((l'.adding isEntry program).leave place).visiting = l.visiting := by
  simp [Loading.leave, Loading.adding, h.visiting_eq, Loading.enter]

theorem stack_leave {place : Path} {source : Source}
    (h : Loads fs (l.enter place source) paths l') (isEntry : Bool) (program : Program) :
    ((l'.adding isEntry program).leave place).stack = l.stack := by
  simp [Loading.leave, Loading.adding, h.stack_eq, Loading.enter]

/-- No file that is being loaded is finished on the way. -/
theorem loaded_or_free (h : Loads fs l paths l') {q : Path} (mem : q ∈ l'.loaded) :
    q ∈ l.loaded ∨ q ∉ l.visiting := by
  induction h with
  | nil => exact .inl mem
  | known _ _ _ ih => exact ih mem
  | file _ _ free _ loads _ _ ihInner ihRest =>
    rcases ihRest mem with there | other
    · rcases List.mem_cons.mp there with rfl | there
      · exact .inr free
      · exact (ihInner there).imp_right fun out isIn => out (.tail _ isIn)
    · exact .inr (loads.visiting_leave _ _ ▸ other)

/-- A file is not among the loaded ones while it is being loaded. -/
theorem notMem {place : Path} {source : Source} (h : Loads fs (l.enter place source) paths l')
    (new : place ∉ l.loaded) : place ∉ l'.loaded := fun mem =>
  (h.loaded_or_free mem).elim new fun free => free (.head _)

/-- What was loaded stays loaded. -/
theorem subset (h : Loads fs l paths l') : l.loaded ⊆ l'.loaded := by
  induction h with
  | nil => exact List.Subset.refl _
  | known _ _ _ ih => exact ih
  | file _ _ _ _ _ _ _ ihInner ihRest => exact fun q mem => ihRest (.tail _ (ihInner mem))

/-- All the paths lead somewhere, and what they lead to is loaded in the end. -/
theorem found (h : Loads fs l paths l') {path : Path} (mem : path ∈ paths) :
    ∃ place, fs.find path = .ok place ∧ place ∈ l'.loaded := by
  induction h with
  | nil => cases mem
  | known found there rest ih =>
    rcases List.mem_cons.mp mem with rfl | mem
    · exact ⟨_, found, rest.subset there⟩
    · exact ih mem
  | file found _ _ _ _ _ rest _ ih =>
    rcases List.mem_cons.mp mem with rfl | mem
    · exact ⟨_, found, rest.subset (.head _)⟩
    · exact ih mem

end Loads

/-! ## What a load can do, it does -/

/-- Where a path leads to a file, the load goes on with that file. -/
theorem loadFile_of_find {fs : FileSystem} {l : Loading} {path place : Path}
    {site : Option Site} (found : fs.find path = .ok place) :
    loadFile fs l path site =
      if place ∈ l.loaded then .ok ⟨l, rfl⟩
      else if place ∈ l.visiting then .error (l.cycle place site)
      else do
        let opened ← openFile fs place
        let inner ← loadImports fs (l.enter place opened.2) place (importsOf opened.1.topLevel)
        let whole ← inner.1.gather l.stack.isEmpty opened.1
        return ⟨whole.1.leave place, by
          simp [Loading.leave, whole.2, inner.2, Loading.enter]⟩ := by
  rw [loadFile]
  split
  case h_1 fault missing => cases found.symm.trans missing
  case h_2 place' found' =>
    cases found.symm.trans found'
    rfl

/-- A file that is loaded is not loaded again. -/
theorem loadFile_of_known {fs : FileSystem} {l : Loading} {path place : Path}
    {site : Option Site} (found : fs.find path = .ok place) (there : place ∈ l.loaded) :
    loadFile fs l path site = .ok ⟨l, rfl⟩ := by
  rw [loadFile_of_find found, if_pos there]

/-- A new file is opened, its imports are loaded, and what it defines is added. -/
theorem loadFile_of_file {fs : FileSystem} {l : Loading} {path place : Path} {site : Option Site}
    {program : Program} {source : Source} {inner : (l.enter place source).Later}
    (found : fs.find path = .ok place) (new : place ∉ l.loaded) (free : place ∉ l.visiting)
    (opened : openFile fs place = .ok (program, source))
    (imported : loadImports fs (l.enter place source) place (importsOf program.topLevel) =
      .ok inner)
    (admits : inner.1.Admits l.stack.isEmpty program) :
    ∃ same, loadFile fs l path site =
      .ok ⟨(inner.1.adding l.stack.isEmpty program).leave place, same⟩ := by
  have gathered : inner.1.gather l.stack.isEmpty program =
      .ok ⟨inner.1.adding l.stack.isEmpty program, rfl⟩ := gather_eq_ok.mpr ⟨rfl, admits⟩
  have same : ((inner.1.adding l.stack.isEmpty program).leave place).visiting = l.visiting :=
    (loadImports_loads imported).visiting_leave _ _
  refine ⟨same, ?_⟩
  rw [loadFile_of_find found, if_neg new, if_neg free]
  exact bind_eq_ok.mpr ⟨_, opened,
    bind_eq_ok.mpr ⟨_, imported, bind_eq_ok.mpr ⟨_, gathered, rfl⟩⟩⟩

/-- What the rules say is what loading imports does. -/
theorem Loads.loadImports {fs : FileSystem} {l l' : Loading} {paths : List Path}
    (h : Loads fs l paths l') (importer : Path) (imports : List Import)
    (leads : (imports.map fun i => importPath importer i.module) = paths) :
    ∃ same, loadImports fs l importer imports = .ok ⟨l', same⟩ := by
  induction h generalizing importer imports with
  | nil =>
    cases List.map_eq_nil_iff.mp leads
    exact ⟨rfl, by rw [Project.loadImports]⟩
  | known found there _ ih =>
    obtain ⟨i, rest, rfl, rfl, others⟩ := List.map_eq_cons_iff.mp leads
    obtain ⟨same, later⟩ := ih importer rest others
    refine ⟨same, ?_⟩
    rw [Project.loadImports]
    exact bind_eq_ok.mpr ⟨_, loadFile_of_known found there, bind_eq_ok.mpr ⟨_, later, rfl⟩⟩
  | file found new free opened loads admits _ ihInner ihRest =>
    obtain ⟨i, rest, rfl, rfl, others⟩ := List.map_eq_cons_iff.mp leads
    obtain ⟨_, imported⟩ := ihInner _ _ rfl
    obtain ⟨same, first⟩ := loadFile_of_file found new free opened imported admits
    obtain ⟨same', later⟩ := ihRest importer rest others
    refine ⟨same'.trans same, ?_⟩
    rw [Project.loadImports]
    exact bind_eq_ok.mpr ⟨_, first, bind_eq_ok.mpr ⟨_, later, rfl⟩⟩

/-! ## Files in the order of their loading -/

/-- Of these files, the last one first, each imports only earlier ones, and none is there
twice. -/
def Grounded (fs : FileSystem) : List Path → Prop
  | [] => True
  | q :: earlier => q ∉ earlier ∧ (∀ r, Imports fs q r → r ∈ earlier) ∧ Grounded fs earlier

namespace Grounded

variable {fs : FileSystem} {files : List Path} {q r : Path}

theorem nodup (h : Grounded fs files) : files.Nodup := by
  induction files with
  | nil => exact List.nodup_nil
  | cons q earlier ih => exact List.nodup_cons.mpr ⟨h.1, ih h.2.2⟩

/-- What a file imports is among the files too. -/
theorem closed (h : Grounded fs files) (mem : q ∈ files) (imports : Imports fs q r) :
    r ∈ files := by
  induction files with
  | nil => cases mem
  | cons first earlier ih =>
    rcases List.mem_cons.mp mem with rfl | mem
    · exact .tail _ (h.2.1 r imports)
    · exact .tail _ (ih h.2.2 mem)

/-- Files that import only files before them reach no others. -/
theorem reaches (h : Grounded fs files) (mem : q ∈ files)
    (reach : Reaches fs q r) : r ∈ files := by
  induction reach with
  | refl => exact mem
  | tail _ imports ih => exact h.closed ih imports

/-- No file is imported by itself, directly or through others. -/
theorem acyclic (h : Grounded fs files) (mem : q ∈ files) :
    ¬Relation.TransGen (Imports fs) q q := by
  induction files with
  | nil => cases mem
  | cons first earlier ih =>
    intro cycle
    rcases List.mem_cons.mp mem with rfl | mem
    · obtain ⟨r, imports, back⟩ := Relation.TransGen.head'_iff.mp cycle
      exact h.1 (h.2.2.reaches (h.2.1 r imports) back)
    · exact ih h.2.2 mem cycle

/-- What a file imports comes before it. -/
theorem before (h : Grounded fs files) (mem : q ∈ files) (imports : Imports fs q r) :
    ∃ xs ys zs, files.reverse = xs ++ r :: ys ++ q :: zs := by
  induction files with
  | nil => cases mem
  | cons first earlier ih =>
    rw [List.reverse_cons]
    rcases List.mem_cons.mp mem with rfl | mem
    · obtain ⟨xs, ys, split⟩ := List.append_of_mem (List.mem_reverse.mpr (h.2.1 r imports))
      exact ⟨xs, ys, [], by rw [split]⟩
    · obtain ⟨xs, ys, zs, split⟩ := ih h.2.2 mem
      exact ⟨xs, ys, zs ++ [first], by rw [split]; simp⟩

end Grounded

/-- A file can be added to the loaded ones once all it imports is. -/
theorem Grounded.file {fs : FileSystem} {l inner : Loading} {place : Path} {program : Program}
    {source : Source} (new : place ∉ l.loaded)
    (opened : openFile fs place = .ok (program, source))
    (loads : Loads fs (l.enter place source) (pathsOf place program) inner)
    (grounded : Grounded fs inner.loaded) : Grounded fs (place :: inner.loaded) := by
  refine ⟨loads.notMem new, ?_, grounded⟩
  rintro r ⟨program', isProgram, path, mem, leads⟩
  rw [program?_of_openFile opened] at isProgram
  cases isProgram
  obtain ⟨place', leads', there⟩ := loads.found mem
  rw [leads] at leads'
  cases leads'
  exact there

/-- Loading keeps files in an order in which each comes after those it imports. -/
theorem Loads.grounded {fs : FileSystem} {l l' : Loading} {paths : List Path}
    (h : Loads fs l paths l') (grounded : Grounded fs l.loaded) : Grounded fs l'.loaded := by
  induction h with
  | nil => exact grounded
  | known _ _ _ ih => exact ih grounded
  | file _ new _ opened loads _ _ ihInner ihRest =>
    have next := Grounded.file new opened loads (ihInner grounded)
    exact ihRest next

end Shellwright.Project
