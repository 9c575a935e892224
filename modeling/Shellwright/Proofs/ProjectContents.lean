import Mathlib.Data.List.Nodup
import Shellwright.Proofs.ImportCycles
import Shellwright.Proofs.Scoping

/-!
# What a project contains

The files of a project stand in an order that can be read off the graph of imports alone: follow
the imports of the entry file in their order, and those of each file so met, put every file after
all that was met from it, and keep each file where it first occurs. A project can be loaded
exactly if each of its files can be used, none imports itself on some way, and no two functions
have one name; the program is then what the files define, in that order.

* `Loads.loaded_eq`: files are loaded in the order of the graph.
* `Loads.functions_eq`, `Loads.globals_eq`: what is collected is what the loaded files define.
* `not_fails`: whatever a call fails for is a fault of the project.
* `load_yields`: which projects can be loaded, and what their programs are.
-/

namespace Shellwright.Surface

/-! ## Imports inside other statements -/

/-- No import stands inside a function or inside another statement. -/
structure Program.ImportsOutside (p : Program) : Prop where
  functions : ∀ f ∈ p.functions, ∀ body ∈ f.body, ∀ s ∈ stmtsNested false body,
    s.2.isLoad = false
  statements : ∀ t ∈ p.topLevel, ∀ s ∈ (t.stmt.nested false).tail, s.2.isLoad = false

/-- The first of the statements in a statement is the statement itself. -/
theorem Stmt.nested_eq_cons (inLoop : Bool) (s : Stmt) :
    s.nested inLoop = (inLoop, s) :: (s.nested inLoop).tail := by
  cases s <;> rfl

end Shellwright.Surface

namespace Shellwright.Project

open Surface

mutual

/-- No import is found inside a statement just if none of the statements in it is one. -/
theorem importWithin?_eq_none (inLoop : Bool) : ∀ s : Stmt,
    importWithin? s = none ↔ ∀ x ∈ (s.nested inLoop).tail, x.2.isLoad = false
  | .branch _ _ body otherwise => by
    rw [importWithin?, Option.orElse_eq_orElse, Option.orElse_eq_or, Option.or_eq_none_iff,
      importAmong?_eq_none inLoop body, importInElse?_eq_none inLoop otherwise, Stmt.nested,
      List.tail_cons, List.forall_mem_append]
  | .loop _ _ _ _ body => by
    rw [importWithin?, importAmong?_eq_none true body, Stmt.nested, List.tail_cons]
  | .assign .. | .ret .. | .jump .. | .load .. | .expr .. => iff_of_true rfl nofun

theorem importAmong?_eq_none (inLoop : Bool) : ∀ ss : List Stmt,
    importAmong? ss = none ↔ ∀ x ∈ stmtsNested inLoop ss, x.2.isLoad = false
  | [] => iff_of_true rfl nofun
  | s :: rest => by
    rw [stmtsNested, List.forall_mem_append, Stmt.nested_eq_cons, List.forall_mem_cons,
      ← importWithin?_eq_none inLoop s, ← importAmong?_eq_none inLoop rest]
    cases s <;> simp [importAmong?, Stmt.isLoad]

theorem importInElse?_eq_none (inLoop : Bool) : ∀ c : ElseChain,
    importInElse? c = none ↔ ∀ x ∈ c.nested inLoop, x.2.isLoad = false
  | .done => iff_of_true rfl nofun
  | .elseIf _ body otherwise => by
    rw [importInElse?, Option.orElse_eq_orElse, Option.orElse_eq_or, Option.or_eq_none_iff,
      importAmong?_eq_none inLoop body, importInElse?_eq_none inLoop otherwise, ElseChain.nested,
      List.forall_mem_append]
  | .final body => by
    rw [importInElse?, importAmong?_eq_none inLoop body, ElseChain.nested]

end

/-- No import is found in a program just if all stand outside other statements. -/
theorem nestedImport?_eq_none {p : Program} : nestedImport? p = none ↔ p.ImportsOutside := by
  rw [nestedImport?, Option.orElse_eq_orElse, Option.orElse_eq_or, Option.or_eq_none_iff,
    List.findSome?_eq_none_iff, List.findSome?_eq_none_iff]
  simp only [Option.bind_eq_none_iff, importAmong?_eq_none false, importWithin?_eq_none false]
  exact ⟨fun ⟨functions, statements⟩ => ⟨functions, statements⟩,
    fun ⟨functions, statements⟩ => ⟨functions, statements⟩⟩

/-! ## The order of files -/

/-- The places that paths lead to. -/
def placesOf (fs : FileSystem) (paths : List Path) : List Path :=
  paths.filterMap fun path => (fs.find path).toOption

/-- The files that a file imports, in the order of its imports. -/
def targets (fs : FileSystem) (q : Path) : List Path :=
  ((program? fs q).map fun program => placesOf fs (pathsOf q program)).getD []

/-- All files met from a file by going at most so many files deep: those met from what it
imports, and then the file itself. -/
def walk (fs : FileSystem) : Nat → Path → List Path
  | 0, _ => []
  | n + 1, q => (targets fs q).flatMap (walk fs n) ++ [q]

/-- The files of the project with this entry file, each where it is first met. As no way
along imports is longer than there are places, unless it leads in a circle, the walk
need not go deeper. -/
def importOrder (fs : FileSystem) (place : Path) : List Path :=
  (walk fs fs.places.length place).eraseDups

/-- The places of paths are those that the paths lead to. -/
theorem mem_placesOf {fs : FileSystem} {paths : List Path} {r : Path} :
    r ∈ placesOf fs paths ↔ ∃ path ∈ paths, fs.find path = .ok r := by
  rw [placesOf, List.mem_filterMap]
  refine exists_congr fun path => and_congr_right fun _ => ?_
  cases fs.find path <;> simp [Except.toOption]

/-- The targets of a file are the files it imports. -/
theorem mem_targets {fs : FileSystem} {q r : Path} : r ∈ targets fs q ↔ Imports fs q r := by
  rw [targets, Imports]
  cases program? fs q <;> simp [mem_placesOf]

/-- The targets of a file that can be read are those of its paths. -/
theorem targets_eq {fs : FileSystem} {q : Path} {program : Program}
    (h : program? fs q = some program) : targets fs q = placesOf fs (pathsOf q program) := by
  rw [targets, h]
  rfl

/-- The files met from a file are those it imports, directly or through others, and itself. -/
theorem reaches_of_mem_walk {fs : FileSystem} {n : Nat} {q r : Path} (h : r ∈ walk fs n q) :
    Reaches fs q r := by
  induction n generalizing q with
  | zero => cases h
  | succ n ih =>
    rcases List.mem_append.mp h with deeper | here
    · obtain ⟨t, mem, deeper⟩ := List.mem_flatMap.mp deeper
      exact .head (mem_targets.mp mem) (ih deeper)
    · exact List.mem_singleton.mp here ▸ .refl

theorem nodup_eraseDups (xs : List Path) : xs.eraseDups.Nodup := by
  induction xs using (measure List.length).wf.induction with
  | _ xs ih =>
    cases xs with
    | nil => exact List.nodup_nil
    | cons x xs =>
      rw [List.eraseDups_cons, List.nodup_cons, List.mem_eraseDups]
      exact ⟨by simp, ih _ (Nat.lt_succ_of_le (List.length_filter_le _ _))⟩

theorem eraseDups_eq_self {xs : List Path} (h : xs.Nodup) : xs.eraseDups = xs := by
  induction xs with
  | nil => rfl
  | cons x xs ih =>
    obtain ⟨new, rest⟩ := List.nodup_cons.mp h
    rw [List.eraseDups_cons, List.filter_eq_self.mpr, ih rest]
    intro y mem
    simpa using fun same : y = x => new (same ▸ mem)

theorem removeAll_append_of_subset {xs ys zs : List Path} (h : ys ⊆ xs) :
    (ys ++ zs).removeAll xs = zs.removeAll xs := by
  have none : ys.filter (fun y => !xs.elem y) = [] :=
    List.filter_eq_nil_iff.mpr fun y mem => by simpa using h mem
  rw [List.removeAll, List.filter_append, none, List.nil_append, List.removeAll]

/-- What has come before does not come again. -/
theorem eraseDups_append_of_subset {xs ys zs : List Path} (h : ys ⊆ xs) :
    (xs ++ (ys ++ zs)).eraseDups = (xs ++ zs).eraseDups := by
  rw [List.eraseDups_append, List.eraseDups_append, removeAll_append_of_subset h]

/-- Repetitions can be left out at once or at the end. -/
theorem eraseDups_eraseDups_append (xs ys : List Path) :
    (xs.eraseDups ++ ys).eraseDups = (xs ++ ys).eraseDups := by
  have same : ys.removeAll xs.eraseDups = ys.removeAll xs :=
    List.filter_congr fun y _ => by simp [List.mem_eraseDups]
  rw [List.eraseDups_append, List.eraseDups_append, same, eraseDups_eq_self (nodup_eraseDups xs)]

/-- Files are loaded in the order in which they are met, if the walk goes deep enough. -/
theorem Loads.loaded_eq {fs : FileSystem} {l l' : Loading} {paths : List Path}
    (h : Loads fs l paths l') (grounded : Grounded fs l.loaded) {n : Nat}
    (deep : openPlaces fs l.visiting ≤ n) :
    l'.loaded.reverse =
      (l.loaded.reverse ++ (placesOf fs paths).flatMap (walk fs n)).eraseDups := by
  induction h generalizing n with
  | nil =>
    rw [placesOf, List.filterMap_nil, List.flatMap_nil, List.append_nil]
    exact (eraseDups_eq_self (List.nodup_reverse.mpr grounded.nodup)).symm
  | @known l _ path place rest found there _ ih =>
    -- nothing is met from a loaded file that is not loaded too
    have old : walk fs n place ⊆ l.loaded.reverse := fun q mem =>
      List.mem_reverse.mpr (grounded.reaches there (reaches_of_mem_walk mem))
    have split : placesOf fs (path :: rest) = place :: placesOf fs rest := by
      simp [placesOf, found, Except.toOption]
    rw [split, List.flatMap_cons, eraseDups_append_of_subset old, ih grounded deep]
  | @file l inner _ path place rest program source found new free opened loads _ _ ihInner
      ihRest =>
    have split : placesOf fs (path :: rest) = place :: placesOf fs rest := by
      simp [placesOf, found, Except.toOption]
    have fewer := openPlaces_cons_lt (fs.mem_places found) free
    obtain ⟨m, rfl⟩ : ∃ m, n = m + 1 := ⟨n - 1, by omega⟩
    have inside := ihInner grounded (n := m) (by simp only [Loading.enter]; omega)
    have next := Grounded.file new opened loads (loads.grounded grounded)
    have whole := ihRest next ((loads.visiting_leave _ _).symm ▸ deep)
    have isInner : ((inner.adding l.stack.isEmpty program).leave place).loaded.reverse =
        inner.loaded.reverse ++ [place] := List.reverse_cons
    rw [whole, isInner, inside, List.append_assoc, eraseDups_eraseDups_append, split,
      List.flatMap_cons, walk, targets_eq (program?_of_openFile opened)]
    simp only [List.append_assoc]
    rfl

/-! ## What files define -/

/-- The functions of a file. -/
def functionsAt (fs : FileSystem) (q : Path) : List Function :=
  ((program? fs q).map (·.functions)).getD []

/-- The statements of a file outside its functions. -/
def topLevelAt (fs : FileSystem) (q : Path) : List TopLevel :=
  ((program? fs q).map (·.topLevel)).getD []

/-- The functions at a place are those of the program that can be read there. -/
theorem functionsAt_eq {fs : FileSystem} {q : Path} {program : Program}
    (h : program? fs q = some program) : functionsAt fs q = program.functions := by
  rw [functionsAt, h]
  rfl

theorem topLevelAt_eq {fs : FileSystem} {q : Path} {program : Program}
    (h : program? fs q = some program) : topLevelAt fs q = program.topLevel := by
  rw [topLevelAt, h]
  rfl

/-- A function at a place is one of the program there. -/
theorem exists_program_of_functionsAt {fs : FileSystem} {q : Path} {f : Function}
    (mem : f ∈ functionsAt fs q) :
    ∃ program, program? fs q = some program ∧ f ∈ program.functions := by
  rw [functionsAt] at mem
  cases h : program? fs q with
  | none =>
    rw [h] at mem
    cases mem
  | some program =>
    rw [h] at mem
    exact ⟨program, rfl, mem⟩

theorem exists_program_of_topLevelAt {fs : FileSystem} {q : Path} {t : TopLevel}
    (mem : t ∈ topLevelAt fs q) :
    ∃ program, program? fs q = some program ∧ t ∈ program.topLevel := by
  rw [topLevelAt] at mem
  cases h : program? fs q with
  | none =>
    rw [h] at mem
    cases mem
  | some program =>
    rw [h] at mem
    exact ⟨program, rfl, mem⟩

/-- What is admitted brings no name a second time. -/
theorem Loading.Admits.nodup {l : Loading} {isEntry : Bool} {program : Program}
    (h : l.Admits isEntry program) (before : (l.functions.map (·.name)).Nodup) :
    ((l.functions ++ program.functions).map (·.name)).Nodup := by
  rw [List.map_append]
  refine List.nodup_append.mpr ⟨before, h.distinct, ?_⟩
  rintro _ old _ new
  obtain ⟨g, isOld, rfl⟩ := List.mem_map.mp old
  obtain ⟨f, isNew, rfl⟩ := List.mem_map.mp new
  exact h.apart f isNew g isOld

namespace Loads

variable {fs : FileSystem} {l l' : Loading} {paths : List Path}

/-- The functions are those of the loaded files, in their order. -/
theorem functions_eq (h : Loads fs l paths l')
    (before : l.functions = l.loaded.reverse.flatMap (functionsAt fs)) :
    l'.functions = l'.loaded.reverse.flatMap (functionsAt fs) := by
  induction h with
  | nil => exact before
  | known _ _ _ ih => exact ih before
  | file _ _ _ opened _ _ _ ihInner ihRest =>
    refine ihRest ?_
    simp only [Loading.leave, Loading.adding, List.reverse_cons, List.flatMap_append,
      List.flatMap_singleton, functionsAt_eq (program?_of_openFile opened)]
    rw [ihInner before]

/-- The global variables are those of the loaded files, as long as the entry
file is being loaded. -/
theorem globals_eq (h : Loads fs l paths l') (inside : l.stack ≠ [])
    (before : l.globals = l.loaded.reverse.flatMap fun q => assignments (topLevelAt fs q)) :
    l'.globals = l'.loaded.reverse.flatMap fun q => assignments (topLevelAt fs q) := by
  induction h with
  | nil => exact before
  | known _ _ _ ih => exact ih inside before
  | @file l inner _ _ place _ program source _ _ _ opened loads _ _ ihInner ihRest =>
    have isInside : l.stack.isEmpty = false := List.isEmpty_eq_false_iff.mpr inside
    have back : ((inner.adding l.stack.isEmpty program).leave place).stack = l.stack :=
      loads.stack_leave _ _
    refine ihRest (back ▸ inside) ?_
    simp only [Loading.leave, Loading.adding, isInside, Bool.false_eq_true, if_false,
      List.reverse_cons, List.flatMap_append, List.flatMap_singleton,
      topLevelAt_eq (program?_of_openFile opened)]
    rw [ihInner (by simp [Loading.enter]) before]

/-- No two functions have one name. -/
theorem distinct (h : Loads fs l paths l') (before : (l.functions.map (·.name)).Nodup) :
    (l'.functions.map (·.name)).Nodup := by
  induction h with
  | nil => exact before
  | known _ _ _ ih => exact ih before
  | file _ _ _ _ _ admits _ ihInner ihRest =>
    exact ihRest (admits.nodup (ihInner before))

/-- Only files are loaded that can be met from the entry file. -/
theorem reachable (h : Loads fs l paths l') {first : Path}
    (before : ∀ q ∈ l.loaded, Reaches fs first q)
    (next : ∀ path ∈ paths, ∀ r, fs.find path = .ok r → Reaches fs first r) :
    ∀ q ∈ l'.loaded, Reaches fs first q := by
  induction h with
  | nil => exact before
  | known _ _ _ ih => exact ih before fun path mem => next path (.tail _ mem)
  | @file l inner _ _ place _ program source found _ _ opened _ _ _ ihInner ihRest =>
    have here := next _ (.head _) place found
    refine ihRest (List.forall_mem_cons.mpr ⟨here, ihInner before fun path mem r leads => ?_⟩)
      fun path mem => next path (.tail _ mem)
    exact here.tail ⟨program, program?_of_openFile opened, path, mem, leads⟩

end Loads

/-! ## Projects that can be loaded -/

/-- A file can be part of a project: it can be read as a program, whose imports stand outside
functions and other statements and lead somewhere, and which has only assignments and imports
outside its functions unless it is the entry file. -/
structure Usable (fs : FileSystem) (entry q : Path) (program : Program) : Prop where
  reads : program? fs q = some program
  outside : program.ImportsOutside
  found : ∀ path ∈ pathsOf q program, ∃ r, fs.find path = .ok r
  plain : q ≠ entry → ∀ t ∈ program.topLevel, t.leads = true

/-- What a project needs in order to be loaded. -/
structure Loadable (fs : FileSystem) (entry : Path) : Prop where
  usable : ∀ q, Reaches fs entry q → ∃ program, Usable fs entry q program
  acyclic : ∀ q, Reaches fs entry q → ¬Relation.TransGen (Imports fs) q q
  distinct : ∀ q, Reaches fs entry q →
    ((functionsAt fs q).map (·.name)).Nodup
  apart : ∀ q r, Reaches fs entry q →
    Reaches fs entry r → q ≠ r →
      ∀ f ∈ functionsAt fs q, ∀ g ∈ functionsAt fs r, f.name ≠ g.name

/-- In a project that can be loaded each file that is reached can be used. -/
theorem Loadable.usable_of_reads {fs : FileSystem} {entry q : Path} {program : Program}
    (h : Loadable fs entry) (reach : Reaches fs entry q) (reads : program? fs q = some program) :
    Usable fs entry q program := by
  obtain ⟨program', usable⟩ := h.usable q reach
  obtain rfl : program' = program := Option.some.inj (usable.reads.symm.trans reads)
  exact usable

/-- A file that can be used can be opened. -/
theorem Usable.opened {fs : FileSystem} {entry q : Path} {program : Program}
    (h : Usable fs entry q program) : ∃ source, openFile fs q = .ok (program, source) := by
  have reads := h.reads
  rw [program?] at reads
  split at reads
  case h_1 => cases reads
  case h_2 text isText =>
    refine ⟨⟨text⟩, openFile_eq_ok.mpr ⟨isText, ?_, nestedImport?_eq_none.mpr h.outside⟩⟩
    cases parses : parseFile q ⟨text⟩ with
    | error => rw [parses] at reads; cases reads
    | ok => rw [parses] at reads; cases reads; rfl

/-! ## Projects that are loaded can be -/

/-- A file whose imports are loaded can be used. -/
theorem Usable.of_loads {fs : FileSystem} {l inner : Loading} {entry place : Path}
    {program : Program} {source : Source} (opened : openFile fs place = .ok (program, source))
    (loads : Loads fs l (pathsOf place program) inner)
    (plain : place ≠ entry → ∀ t ∈ program.topLevel, t.leads = true) :
    Usable fs entry place program where
  reads := program?_of_openFile opened
  outside := nestedImport?_eq_none.mp (openFile_eq_ok.mp opened).2.2
  found path mem := by
    obtain ⟨r, found, -⟩ := loads.found mem
    exact ⟨r, found⟩
  plain := plain

/-- Every file that is loaded can be used. -/
theorem Loads.usable {fs : FileSystem} {l l' : Loading} {paths : List Path} {entry : Path}
    (h : Loads fs l paths l') (inside : l.stack ≠ [])
    (before : ∀ q ∈ l.loaded, ∃ program, Usable fs entry q program) :
    ∀ q ∈ l'.loaded, ∃ program, Usable fs entry q program := by
  induction h with
  | nil => exact before
  | known _ _ _ ih => exact ih inside before
  | @file l inner _ _ place _ program source _ _ _ opened loads admits _ ihInner ihRest =>
    have back : ((inner.adding l.stack.isEmpty program).leave place).stack = l.stack :=
      loads.stack_leave _ _
    have here : Usable fs entry place program :=
      .of_loads opened loads fun _ => admits.plain (List.isEmpty_eq_false_iff.mpr inside)
    exact ihRest (back ▸ inside)
      (List.forall_mem_cons.mpr ⟨⟨program, here⟩, ihInner (by simp [Loading.enter]) before⟩)

/-- How a load goes that succeeds: the entry file is opened, all it imports is loaded, and what
it defines is added. -/
structure Loading.Completes (fs : FileSystem) (place : Path) (program : Program)
    (source : Source) (inner : Loading) : Prop where
  opened : openFile fs place = .ok (program, source)
  loads : Loads fs (Loading.start.enter place source) (pathsOf place program) inner
  admits : inner.Admits true program

/-- A project is loaded just if its entry file is found and completed. -/
theorem load_eq_ok {fs : FileSystem} {entry : Path} {p : Program} :
    load fs entry = .ok p ↔ ∃ place program source inner, fs.find entry = .ok place ∧
      Loading.Completes fs place program source inner ∧
      p = ⟨inner.functions ++ program.functions, inner.globals ++ program.topLevel, .zero,
        inner.sources, place.text⟩ := by
  constructor
  · intro h
    rw [load] at h
    obtain ⟨⟨outer, same⟩, loaded, h⟩ := bind_eq_ok.mp h
    cases loadFile_loads loaded with
    | known _ there _ => cases there
    | @file _ inner _ _ place _ program source found _ _ opened loads admits rest =>
      cases rest
      rw [found] at h
      cases h
      exact ⟨place, program, source, inner, found, ⟨opened, loads, admits⟩, rfl⟩
  · rintro ⟨place, program, source, inner, found, completes, rfl⟩
    obtain ⟨same, imported⟩ := completes.loads.loadImports place (importsOf program.topLevel) rfl
    obtain ⟨same', loaded⟩ :=
      loadFile_of_file (l := .start) found List.not_mem_nil List.not_mem_nil completes.opened
        imported completes.admits
    rw [load]
    refine bind_eq_ok.mpr ⟨_, loaded, ?_⟩
    rw [found]
    rfl

theorem completes_of_load {fs : FileSystem} {entry : Path} {p : Program}
    (h : load fs entry = .ok p) :
    ∃ place program source inner, fs.find entry = .ok place ∧
      Loading.Completes fs place program source inner ∧
      p.functions = inner.functions ++ program.functions ∧
      p.topLevel = inner.globals ++ program.topLevel := by
  obtain ⟨place, program, source, inner, found, completes, rfl⟩ := load_eq_ok.mp h
  exact ⟨place, program, source, inner, found, completes, rfl, rfl⟩

namespace Loading.Completes

variable {fs : FileSystem} {place : Path} {program : Program} {source : Source} {inner : Loading}
  {path : Path}

/-- The files of a completed load import only files of it, none of them in a circle. -/
theorem grounded (h : Completes fs place program source inner) :
    Grounded fs (place :: inner.loaded) :=
  .file (l := .start) nofun h.opened h.loads (h.loads.grounded trivial)

/-- The loaded files are those that the entry file imports, directly or through others. -/
theorem mem_iff (h : Completes fs place program source inner) {q : Path} :
    q ∈ place :: inner.loaded ↔ Reaches fs place q := by
  refine ⟨fun mem => ?_, fun reach => h.grounded.reaches (.head _) reach⟩
  rcases List.mem_cons.mp mem with rfl | mem
  · exact .refl
  · refine h.loads.reachable nofun (fun path mem r leads => ?_) q mem
    exact .single ⟨program, program?_of_openFile h.opened, path, mem, leads⟩

/-- The functions of a completed load are those of its files, in the order in
which they were done. -/
theorem functions_eq (h : Completes fs place program source inner) :
    inner.functions ++ program.functions =
      (place :: inner.loaded).reverse.flatMap (functionsAt fs) := by
  rw [h.loads.functions_eq rfl, List.reverse_cons, List.flatMap_append, List.flatMap_singleton,
    functionsAt_eq (program?_of_openFile h.opened)]

/-- The entry file comes last, and it does not matter how much deeper the walk goes
than it needs to. -/
theorem eraseDups_walk (h : Completes fs place program source inner)
    (found : fs.find path = .ok place) {n : Nat} (deep : fs.places.length ≤ n) :
    (walk fs n place).eraseDups = inner.loaded.reverse ++ [place] := by
  have all : Loads fs .start [path] ((inner.adding true program).leave place) :=
    .file found nofun nofun h.opened h.loads h.admits .nil
  have deepEnough : openPlaces fs Loading.start.visiting ≤ n := List.countP_le_length.trans deep
  have order := all.loaded_eq trivial deepEnough
  have only : placesOf fs [path] = [place] := by simp [placesOf, found, Except.toOption]
  rw [only, List.flatMap_singleton] at order
  rw [← List.reverse_cons]
  exact order.symm

/-- No two functions of a completed load have the same name. -/
theorem distinct (h : Completes fs place program source inner) :
    ((inner.functions ++ program.functions).map (·.name)).Nodup :=
  h.admits.nodup (h.loads.distinct List.nodup_nil)

/-- Each file of a completed load can be used. -/
theorem usable (h : Completes fs place program source inner) {q : Path}
    (mem : q ∈ place :: inner.loaded) : ∃ program, Usable fs place q program := by
  rcases List.mem_cons.mp mem with rfl | mem
  · exact ⟨program, .of_loads h.opened h.loads fun other => absurd rfl other⟩
  · exact h.loads.usable (by simp [Loading.enter]) nofun q mem

/-- What has been loaded can be. -/
theorem loadable (h : Completes fs place program source inner) : Loadable fs place := by
  have names := h.distinct
  rw [h.functions_eq, List.map_flatMap, List.nodup_flatMap] at names
  have isFile : ∀ q, Reaches fs place q → q ∈ (place :: inner.loaded).reverse :=
    fun q reach => List.mem_reverse.mpr (h.mem_iff.mpr reach)
  refine ⟨fun q reach => h.usable (h.mem_iff.mpr reach),
    fun q reach => h.grounded.acyclic (h.mem_iff.mpr reach),
    fun q reach => names.1 q (isFile q reach),
    fun q r reachQ reachR differ f isF g isG same => ?_⟩
  have symmetric : Std.Symm (Function.onFun List.Disjoint fun q =>
      (functionsAt fs q).map (·.name)) :=
    ⟨fun _ _ disjoint _ here there => disjoint there here⟩
  refine names.2.forall (isFile q reachQ) (isFile r reachR) differ (List.mem_map_of_mem isF) ?_
  exact same ▸ List.mem_map_of_mem isG

end Loading.Completes

/-! ## Projects that can be loaded are -/

/-- A chain of imports leads from its first file to its last one. -/
theorem reaches_of_isChain {r : Path → Path → Prop} {files : List Path} {first last : Path}
    (chain : files.IsChain r) (head : files.head? = some first)
    (isLast : files.getLast? = some last) : Relation.ReflTransGen r first last := by
  have some : files ≠ [] := List.ne_nil_of_mem (List.mem_of_head? head)
  have reach := List.relationReflTransGen_of_exists_isChain files chain some
  rwa [(List.head_eq_iff_head?_eq_some some).mpr head,
    (List.getLast_eq_iff_getLast?_eq_some some).mpr isLast] at reach

/-- A chain that comes back to where it has been leads around. -/
theorem transGen_of_isChain {r : Path → Path → Prop} {files : List Path} {again : Path}
    (chain : (files ++ [again]).IsChain r) (mem : again ∈ files) :
    Relation.TransGen r again again := by
  obtain ⟨before, after, rfl⟩ := List.append_of_mem mem
  rw [List.append_assoc, List.cons_append] at chain
  have around := (List.isChain_append.mp chain).2.1
  cases after with
  | nil => exact .single (List.isChain_cons_cons.mp around).1
  | cons next after =>
    obtain ⟨step, around⟩ := List.isChain_cons_cons.mp around
    have isLast : (next :: after ++ [again]).getLast? = some again := List.getLast?_concat
    exact .head' step (reaches_of_isChain around rfl isLast)

/-- What a call has to load can be met from the entry file. -/
theorem Call.Placed.reaches {fs : FileSystem} {entry first place : Path} {c : Call}
    (placed : c.Placed fs entry) (isFirst : fs.find entry = .ok first)
    (found : fs.find c.path = .ok place) : Reaches fs first place := by
  obtain ⟨first', isFirst', head⟩ := placed.head found
  rw [isFirst] at isFirst'
  cases isFirst'
  exact reaches_of_isChain (placed.chain found) head List.getLast?_concat

/-- What a call finds collected is what the files define that are loaded, all of which can be met
from the entry file. -/
theorem Call.collected {fs : FileSystem} {entry first : Path} {c : Call}
    (isFirst : fs.find entry = .ok first)
    (calls : Relation.ReflTransGen (Invokes fs) (.first entry) c) :
    c.before.functions = c.before.loaded.reverse.flatMap (functionsAt fs) ∧
      ∀ q ∈ c.before.loaded, Reaches fs first q := by
  induction calls with
  | refl => exact ⟨rfl, nofun⟩
  | @tail c d calls invokes ih =>
    obtain @⟨place, program, source, earlier, later, i, l, opens, split, before⟩ := invokes
    have loads := loadImports_loads before
    have here := (Call.placed_of_calls calls).reaches isFirst opens.found
    refine ⟨loads.functions_eq ih.1, loads.reachable ih.2 fun path mem r leads => ?_⟩
    refine here.tail ⟨program, program?_of_openFile opens.opened, path, ?_, leads⟩
    rw [pathsOf, split, List.map_append]
    exact List.mem_append_left _ mem

/-- In a project that can be loaded, what a file defines can be added to what it imports. -/
theorem Call.Opens.admits {fs : FileSystem} {entry first place : Path} {c : Call}
    {program : Program} {source : Source} {inner : Loading} (isFirst : fs.find entry = .ok first)
    (loadable : Loadable fs first) (calls : Relation.ReflTransGen (Invokes fs) (.first entry) c)
    (opens : c.Opens fs place program source)
    (loads : Loads fs (c.before.enter place source) (pathsOf place program) inner) :
    inner.Admits c.before.stack.isEmpty program := by
  have placed := Call.placed_of_calls calls
  have here := placed.reaches isFirst opens.found
  have reads := program?_of_openFile opens.opened
  obtain ⟨collected, reachable⟩ := Call.collected isFirst calls
  refine ⟨functionsAt_eq reads ▸ loadable.distinct place here, fun f isF g isG => ?_,
    fun inside => ?_⟩
  · rw [loads.functions_eq collected] at isG
    obtain ⟨q, mem, isG⟩ := List.mem_flatMap.mp isG
    have mem := List.mem_reverse.mp mem
    have reach := loads.reachable reachable (fun path isPath r leads => here.tail
      ⟨program, reads, path, isPath, leads⟩) q mem
    have other : q ≠ place := fun same => loads.notMem opens.new (same ▸ mem)
    exact loadable.apart q place reach here other g isG f (functionsAt_eq reads ▸ isF)
  · refine (loadable.usable_of_reads here reads).plain ?_
    -- the entry file is on the stack, and this one is not
    rintro rfl
    rcases placed.origin with ⟨empty, -⟩ | ⟨first', _, _, isFirst', head, -⟩
    · rw [empty] at inside
      cases inside
    · rw [isFirst] at isFirst'
      cases isFirst'
      exact opens.free ((placed.consistent.visiting_iff _).mpr (List.mem_of_head? head))

/-- No call fails in a project that can be loaded. -/
theorem not_fails {fs : FileSystem} {entry first : Path} {c : Call} {e : LoadError}
    (isFirst : fs.find entry = .ok first) (loadable : Loadable fs first)
    (calls : Relation.ReflTransGen (Invokes fs) (.first entry) c) : ¬Fails fs c e := by
  have placed := Call.placed_of_calls calls
  intro fails
  -- each reason to fail is something that the project has no place for
  cases fails with
  | missing missing =>
    rcases placed.origin with ⟨-, isEntry⟩ |
      ⟨first', last, program, isFirst', head, isLast, reads, mem⟩
    · rw [isEntry, isFirst] at missing
      cases missing
    · rw [isFirst] at isFirst'
      cases isFirst'
      have reach := reaches_of_isChain placed.consistent.chain head isLast
      obtain ⟨r, found⟩ := (loadable.usable_of_reads reach reads).found _ mem
      rw [missing] at found
      cases found
  | cycle found _ there =>
    have onStack := (placed.consistent.visiting_iff _).mp there
    exact loadable.acyclic _ (placed.reaches isFirst found)
      (transGen_of_isChain (placed.chain found) onStack)
  | unopened found _ _ unopened =>
    obtain ⟨program, usable⟩ := loadable.usable _ (placed.reaches isFirst found)
    obtain ⟨source, opened⟩ := usable.opened
    rw [opened] at unopened
    cases unopened
  | @ungathered place program source inner _ opens imported ungathered =>
    have admits := opens.admits isFirst loadable calls (loadImports_loads imported)
    have gathered : inner.1.gather c.before.stack.isEmpty program =
        .ok ⟨inner.1.adding c.before.stack.isEmpty program, rfl⟩ :=
          gather_eq_ok.mpr ⟨rfl, admits⟩
    rw [gathered] at ungathered
    cases ungathered

/-- A project is loaded just if it can be. -/
theorem exists_load_iff (fs : FileSystem) (entry : Path) :
    (∃ p, load fs entry = .ok p) ↔ ∃ place, fs.find entry = .ok place ∧ Loadable fs place := by
  constructor
  · rintro ⟨p, h⟩
    obtain ⟨place, _, _, _, found, completes, -⟩ := completes_of_load h
    exact ⟨place, found, completes.loadable⟩
  · rintro ⟨place, found, loadable⟩
    cases h : load fs entry with
    | ok p => exact ⟨p, rfl⟩
    | error e =>
      obtain ⟨c, calls, fails⟩ := exists_fails (.first entry) (load_eq_error h)
      exact absurd fails (not_fails found loadable calls)

/-! ## What a load yields -/

/-- What a file adds to the statements outside functions: all that it has if it is the entry
file, and its assignments otherwise. -/
def statementsAt (fs : FileSystem) (entry q : Path) : List TopLevel :=
  if q = entry then topLevelAt fs q else assignments (topLevelAt fs q)

/-- In a list made of pieces, the pieces of two places come one after the other. -/
theorem flatMap_split {α : Type} (f : Path → List α) {files xs ys zs : List Path} {q r : Path}
    (h : files = xs ++ r :: ys ++ q :: zs) :
    ∃ as bs cs, files.flatMap f = as ++ f r ++ bs ++ f q ++ cs :=
  ⟨xs.flatMap f, ys.flatMap f, zs.flatMap f, by simp [h]⟩

/-- The program consists of what the files of the project define, each file once, in the
order of the imports. -/
structure Joins (fs : FileSystem) (entry : Path) (p : Program) : Prop where
  functions : p.functions = (importOrder fs entry).flatMap (functionsAt fs)
  topLevel : p.topLevel = ((importOrder fs entry).filter (· ≠ entry)).flatMap
    (fun q => assignments (topLevelAt fs q)) ++ topLevelAt fs entry
  /-- The walk goes as deep as it needs to. -/
  deep : ∀ n, fs.places.length ≤ n → (walk fs n entry).eraseDups = importOrder fs entry
  nodup : (importOrder fs entry).Nodup
  mem_iff : ∀ q, q ∈ importOrder fs entry ↔ Reaches fs entry q
  after : ∀ q r, Reaches fs entry q → Imports fs q r →
    (∃ xs ys zs, p.functions = xs ++ functionsAt fs r ++ ys ++ functionsAt fs q ++ zs) ∧
    ∃ xs ys zs, p.topLevel = xs ++ statementsAt fs entry r ++ ys ++ statementsAt fs entry q ++ zs

/-- A completed load has joined the files that are reached. -/
theorem Loading.Completes.joins {fs : FileSystem} {path place : Path} {program p : Program}
    {source : Source} {inner : Loading} (h : Completes fs place program source inner)
    (found : fs.find path = .ok place)
    (functions : p.functions = inner.functions ++ program.functions)
    (topLevel : p.topLevel = inner.globals ++ program.topLevel) : Joins fs place p := by
  have order : importOrder fs place = inner.loaded.reverse ++ [place] :=
    h.eraseDups_walk found (Nat.le_refl _)
  have grounded := h.grounded
  have isTop := topLevelAt_eq (program?_of_openFile h.opened)
  have others : ∀ q ∈ inner.loaded.reverse, q ≠ place := fun q mem same =>
    grounded.1 (same ▸ List.mem_reverse.mp mem)
  have globals := h.loads.globals_eq (by simp [Loading.enter]) rfl
  have imported : (importOrder fs place).filter (· ≠ place) = inner.loaded.reverse := by
    rw [order, List.filter_append, List.filter_eq_self.mpr (by simpa using others)]
    simp
  have isFunctions : p.functions = (importOrder fs place).flatMap (functionsAt fs) := by
    rw [functions, h.functions_eq, order, List.reverse_cons]
  have isTopLevel : p.topLevel = (importOrder fs place).flatMap (statementsAt fs place) := by
    have each : inner.loaded.reverse.flatMap (statementsAt fs place) =
        inner.loaded.reverse.flatMap fun q => assignments (topLevelAt fs q) :=
      List.flatMap_congr fun q mem => if_neg (others q mem)
    rw [topLevel, globals, order, List.flatMap_append, List.flatMap_singleton, each,
      statementsAt, if_pos rfl, isTop]
  refine ⟨isFunctions, ?_, fun n deep => ?_, nodup_eraseDups _, fun q => ?_,
    fun q r reach imports => ?_⟩
  · rw [imported, isTop, topLevel, globals]
  · rw [h.eraseDups_walk found deep, order]
  · rw [order, ← List.reverse_cons, List.mem_reverse, h.mem_iff]
  · obtain ⟨xs, ys, zs, split⟩ := grounded.before (h.mem_iff.mpr reach) imports
    rw [← List.reverse_cons] at order
    have split := order.trans split
    exact ⟨isFunctions ▸ flatMap_split _ split, isTopLevel ▸ flatMap_split _ split⟩

/-- A project can be loaded exactly if the entry file is found, every file met from it can be
used, none imports itself on some way, and no two functions have one name. The program then
consists of what these files define, each file once, after everything that the files it imports
define. The statements of the entry file come at the end, as they are. -/
theorem load_yields (fs : FileSystem) (entry : Path) :
    ((∃ p, load fs entry = .ok p) ↔ ∃ place, fs.find entry = .ok place ∧ Loadable fs place) ∧
    ∀ p, load fs entry = .ok p → ∃ place, fs.find entry = .ok place ∧ Joins fs place p := by
  refine ⟨exists_load_iff fs entry, fun p h => ?_⟩
  obtain ⟨place, program, source, inner, found, completes, functions, topLevel⟩ :=
    completes_of_load h
  exact ⟨place, found, completes.joins found functions topLevel⟩

end Shellwright.Project
