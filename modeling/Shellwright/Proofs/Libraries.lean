import Shellwright.Compile
import Shellwright.Proofs.Parameters
import Shellwright.Proofs.Relocation

/-!
# Libraries and scripts that are run

Whether a program is a library is asked twice: when an entry function may have to be made, and
when the script may have to call one. The two answers fit together. The script that is run is the
text of the library and a call, and where the library has nothing to call, a function that does
nothing stands between its functions and its global variables.

* `Module.Executes`: the module of a program that is to be run, beside that of the library.
* `Module.ofProgram_executes`: a program can be resolved as the one just if it can as the other.
* `generate_executable`: the script that is run, from the text of the library.
-/

namespace Shellwright.Core

open Shellwright.Script

/-! ## Resolving -/

/-- How the module of a program that is to be run relates to that of the same
program as a library. -/
inductive Module.Executes (lib : Module) : Module → Prop
  /-- They are the same, whether or not there is an entry function. -/
  | same : lib.Executes lib
  /-- An entry function is made that does nothing. -/
  | added {body : List Stmt} : lib.main = none → body.all Stmt.isLoad = true →
    lib.Executes ⟨lib.functions ++ [⟨entryName, [], some body⟩], lib.globals, some entryName⟩

/-- Imports alone can always be resolved. -/
theorem resolveEntry_of_loads {ts : List Surface.TopLevel}
    (loads : ∀ t ∈ ts, t.stmt.isLoad = true) (s : Scope) :
    ∃ body s', resolveEntry s ts = .ok (body, s') ∧ body.all Stmt.isLoad = true := by
  induction ts generalizing s with
  | nil => exact ⟨[], s, rfl, rfl⟩
  | cons t rest ih =>
    obtain ⟨first, others⟩ := List.forall_mem_cons.mp loads
    obtain ⟨stmt, file⟩ := t
    cases stmt with
    | load span module =>
      obtain ⟨body, s', resolved, all⟩ := ih others { s with file }
      refine ⟨.load module :: body, s', ?_, all⟩
      rw [resolveEntry]
      exact bind_eq_ok.mpr ⟨_, rfl, bind_eq_ok.mpr ⟨_, resolved, rfl⟩⟩
    | _ => cases first

/-- The flag has no say where there are statements outside functions, or a function with the name
of the entry function. -/
theorem Module.ofProgram_eq {p : Surface.Program}
    (settled : isLoose p = true ∨ (p.functions.find? (·.name = entryName)).isNone = false) :
    Module.ofProgram true p = Module.ofProgram false p := by
  unfold Module.ofProgram
  rw [divide_topLevel]
  dsimp only
  rcases settled with loose | given
  · rw [isLoose] at loose
    simp only [loose, Bool.true_or]
  · simp only [given, Bool.false_and]

/-- Otherwise an entry function is made for a program that is to be run, and it has nothing
but imports to run. -/
theorem Module.ofProgram_added {p : Surface.Program} (tidy : isLoose p = false)
    (absent : p.functions.find? (·.name = entryName) = none) :
    Alike Eq Module.Executes (Module.ofProgram true p) (Module.ofProgram false p) := by
  have loads : ∀ t ∈ entryStatements p, t.stmt.isLoad = true := by
    simpa [isLoose] using tidy
  rw [isLoose] at tidy
  unfold Module.ofProgram
  rw [divide_topLevel, absent]
  simp only [tidy, Bool.false_or, Option.isNone_none, Bool.true_and, Bool.not_true,
    Bool.not_false, Bool.false_eq_true, if_false, if_true]
  refine (Alike.refl _).bind fun signatures _ same => ?_
  cases same
  refine (Alike.refl _).bind fun globals _ same => ?_
  cases same
  refine (Alike.refl _).bind fun functions _ same => ?_
  cases same
  obtain ⟨body, s, resolved, all⟩ :=
    resolveEntry_of_loads loads (functions.2.enter p.entryFile [])
  rw [resolved]
  exact .ok (.added rfl all)

theorem Module.ofProgram_executes (p : Surface.Program) :
    Alike Eq Module.Executes (Module.ofProgram true p) (Module.ofProgram false p) := by
  cases loose : isLoose p with
  | true =>
    rw [Module.ofProgram_eq (.inl loose)]
    exact (Alike.refl _).imp fun _ _ same => same ▸ .same
  | false =>
    cases user : p.functions.find? (·.name = entryName) with
    | some f =>
      rw [Module.ofProgram_eq (.inr (by rw [user]; rfl))]
      exact (Alike.refl _).imp fun _ _ same => same ▸ .same
    | none => exact Module.ofProgram_added loose user

/-- No entry function has another name. -/
theorem Module.main_of_ofProgram {library : Bool} {p : Surface.Program} {m : Module}
    {name : String} (resolved : Module.ofProgram library p = .ok m)
    (isMain : m.main = some name) :
    name = entryName := by
  cases resolvesProgram_iff.mp resolved with
  | made =>
    cases isMain
    rfl
  | kept =>
    obtain ⟨f, found, rfl⟩ := Option.map_eq_some_iff.mp isMain
    obtain ⟨found, -⟩ := Option.filter_eq_some_iff.mp found
    have isNamed := List.find?_some found
    exact of_decide_eq_true isNamed

/-! ## Writing -/

theorem stmtsText_of_loads {stmts : List Stmt} (loads : stmts.all Stmt.isLoad = true)
    (m : Mode) :
    stmtsText m stmts = .ok "" := by
  induction stmts with
  | nil => rw [stmtsText]
  | cons stmt rest ih =>
    obtain ⟨first, others⟩ := Bool.and_eq_true_iff.mp loads
    cases stmt with
    | load module =>
      rw [stmtsText]
      exact ih others
    | _ => cases first

/-- The text of an entry function that does nothing. -/
def emptyEntry : String := "function main () \x7b\n    : # Empty function\n\x7d\n\n"

theorem functionText_of_loads {body : List Stmt} (loads : body.all Stmt.isLoad = true) :
    functionText .initial ⟨entryName, [], some body⟩ = .ok emptyEntry := by
  have margin : (Change.deeper.apply Mode.initial).margin = "    " := rfl
  simp only [functionText, stmtsText_of_loads loads, blockText, placeholder, loads,
    if_true, margin]
  rfl

theorem moduleText_eq_ok {m : Mode} {library : Bool} {module : Module} {t : String}
    (h : moduleText m library module = .ok t) :
    ∃ functions globals entry, functionsText m module.functions = .ok functions ∧
      globalsText m module.globals = .ok globals ∧ entryCall library module = .ok entry ∧
      t = functions ++ globals ++ entry := by
  obtain ⟨functions, areFunctions, h⟩ := bind_eq_ok.mp h
  obtain ⟨globals, areGlobals, h⟩ := bind_eq_ok.mp h
  obtain ⟨entry, isEntry, h⟩ := bind_eq_ok.mp h
  cases h
  exact ⟨functions, globals, entry, areFunctions, areGlobals, isEntry, rfl⟩

/-- A script that is run ends with the call of its entry function. -/
theorem entryCall_eq_ok {module : Module} {entry : String}
    (h : entryCall false module = .ok entry) :
    ∃ main, module.main = some main ∧ entry = main ++ ";\n" := by
  rw [entryCall, if_neg Bool.false_ne_true] at h
  split at h
  · cases h
  case h_2 main isMain =>
    split at h
    · cases h
      exact ⟨main, isMain, rfl⟩
    · cases h

/-- The script of a program that is run, beside the text of the library. -/
theorem Module.Executes.script {lib exe : Module} (executes : lib.Executes exe)
    (named : ∀ name, lib.main = some name → name = entryName) {target : Target}
    {text script : String} (written : generate target true lib = .ok text)
    (written' : generate target false exe = .ok script) :
    ∃ functions globals, functionsText .initial lib.functions = .ok functions ∧
      globalsText .initial lib.globals = .ok globals ∧
      text = target.shebang ++ "\n" ++ functions ++ globals ∧
      script = target.shebang ++ "\n" ++ functions ++
        (if lib.main.isSome then "" else emptyEntry) ++ globals ++ "main;\n" := by
  obtain ⟨t, isText, rfl⟩ := generate_eq_ok written
  obtain ⟨t', isText', rfl⟩ := generate_eq_ok written'
  obtain ⟨functions, globals, _, areFunctions, areGlobals, ⟨⟩, rfl⟩ := moduleText_eq_ok isText
  obtain ⟨functions', globals', entry, areFunctions', areGlobals', isEntry, rfl⟩ :=
    moduleText_eq_ok isText'
  obtain ⟨main, isMain, rfl⟩ := entryCall_eq_ok isEntry
  refine ⟨functions, globals, areFunctions, areGlobals, by simp [String.append_assoc], ?_⟩
  cases executes with
  | same =>
    cases areFunctions.symm.trans areFunctions'
    cases areGlobals.symm.trans areGlobals'
    rw [named main isMain, isMain]
    simp [entryName, String.append_assoc]
  | added none all =>
    cases areGlobals.symm.trans areGlobals'
    cases isMain
    rw [functionsText_append, areFunctions, functionsText, functionText_of_loads all]
      at areFunctions'
    cases areFunctions'
    rw [none]
    simp [entryName, String.append_assoc]

end Shellwright.Core

namespace Shellwright

open Shellwright.Core
open Shellwright.Script (generate functionsText globalsText)

theorem resolve_executes (p : Surface.Program) :
    Alike Eq Module.Executes (resolve true p) (resolve false p) := by
  refine (Module.ofProgram_executes p).mapError fun e _ same => ?_
  rw [same]

/-- A program can be resolved as a library just if it can be resolved to be run, and otherwise
the same is said about it. Where both have a script, the one that is run is that of the library
and a call of the entry function; and if the library has none, an empty one stands after its
functions and before its global variables. -/
theorem generate_executable (target : Target) (p : Surface.Program) :
    ((∃ lib, resolve true p = .ok lib) ↔ ∃ exe, resolve false p = .ok exe) ∧
    (∀ d, resolve true p = .error d ↔ resolve false p = .error d) ∧
    ∀ lib exe text script, resolve true p = .ok lib → resolve false p = .ok exe →
      generate target true lib = .ok text → generate target false exe = .ok script →
      (lib.main.isSome = true → script = text ++ "main;\n") ∧
      (lib.main = none → ∃ functions globals,
        functionsText .initial lib.functions = .ok functions ∧
        globalsText .initial lib.globals = .ok globals ∧
        text = target.shebang ++ "\n" ++ functions ++ globals ∧
        script = target.shebang ++ "\n" ++ functions
          ++ "function main () \x7b\n    : # Empty function\n\x7d\n\n" ++ globals ++
            "main;\n") := by
  have alike := resolve_executes p
  refine ⟨alike.exists_ok_iff, fun d => alike.eq_error_iff,
    fun lib exe text script asLibrary asExecutable written written' => ?_⟩
  rw [asLibrary, asExecutable] at alike
  cases alike with
  | ok executes =>
    have named (name : String) (isMain : lib.main = some name) : name = entryName :=
      Module.main_of_ofProgram (mapError_eq_ok.mp asLibrary) isMain
    obtain ⟨functions, globals, areFunctions, areGlobals, isText, isScript⟩ :=
      executes.script named written written'
    refine ⟨fun hasEntry => ?_, fun noEntry => ?_⟩
    · rw [isScript, isText, if_pos hasEntry, String.append_empty]
    · rw [noEntry] at isScript
      exact ⟨functions, globals, areFunctions, areGlobals, isText, isScript⟩

/-- A program with a function, an import, and a global variable. -/
def quietSample : Surface.Program :=
  ⟨[⟨"f", [], some [.ret .zero (.int .zero 1)], .zero, "a"⟩],
    [⟨.load .zero "b", "a"⟩, ⟨.assign .zero "x" (.int .zero 2), "a"⟩], .zero, [], "a"⟩

/-- The same program with a command to run. -/
def loudSample : Surface.Program :=
  { quietSample with
    topLevel := quietSample.topLevel ++
      [⟨.expr .zero (.command .zero [.text "ls"]), "a"⟩] }

/-- Both flags on one program: it is resolved, and there are scripts. -/
theorem exists_both (p : Surface.Program) (asked : Module → Bool)
    (asLibrary : ((resolve true p).toOption.any fun lib =>
      asked lib && (generate .bash true lib).isOk) = true)
    (asExecutable : ((resolve false p).toOption.any fun exe =>
      (generate .bash false exe).isOk) = true) :
    ∃ lib exe text script, resolve true p = .ok lib ∧ resolve false p = .ok exe ∧
      generate .bash true lib = .ok text ∧ generate .bash false exe = .ok script ∧
      asked lib = true := by
  obtain ⟨lib, isLibrary, holds⟩ := exists_ok_of_any asLibrary
  obtain ⟨holds, written⟩ := Bool.and_eq_true_iff.mp holds
  obtain ⟨text, isText⟩ := exists_ok_of_isOk written
  obtain ⟨exe, isExecutable, written'⟩ := exists_ok_of_any asExecutable
  obtain ⟨script, isScript⟩ := exists_ok_of_isOk written'
  exact ⟨lib, exe, text, script, isLibrary, isExecutable, isText, isScript, holds⟩

/-- Only the second of these programs has an entry function as a library, and both have
scripts. -/
theorem generate_executable_samples :
    (∃ lib exe text script functions globals, resolve true quietSample = .ok lib ∧
      resolve false quietSample = .ok exe ∧ generate .bash true lib = .ok text ∧
      generate .bash false exe = .ok script ∧ lib.main = none ∧
      text = Target.bash.shebang ++ "\n" ++ functions ++ globals ∧
      script = Target.bash.shebang ++ "\n" ++ functions
        ++ "function main () \x7b\n    : # Empty function\n\x7d\n\n" ++ globals ++ "main;\n") ∧
    ∃ lib exe text script, resolve true loudSample = .ok lib ∧
      resolve false loudSample = .ok exe ∧
      generate .bash true lib = .ok text ∧ generate .bash false exe = .ok script ∧
      lib.main.isSome = true ∧ script = text ++ "main;\n" := by
  constructor
  · obtain ⟨lib, exe, text, script, asLibrary, asExecutable, written, written', noEntry⟩ :=
      exists_both quietSample (·.main.isNone) (by decide +kernel) (by decide +kernel)
    have noEntry := Option.isNone_iff_eq_none.mp noEntry
    obtain ⟨functions, globals, -, -, isText, isScript⟩ :=
      ((generate_executable .bash quietSample).2.2 lib exe text script asLibrary asExecutable
        written written').2 noEntry
    exact ⟨lib, exe, text, script, functions, globals, asLibrary, asExecutable, written,
      written', noEntry, isText, isScript⟩
  · obtain ⟨lib, exe, text, script, asLibrary, asExecutable, written, written', hasEntry⟩ :=
      exists_both loudSample (·.main.isSome) (by decide +kernel) (by decide +kernel)
    exact ⟨lib, exe, text, script, asLibrary, asExecutable, written, written', hasEntry,
      ((generate_executable .bash loudSample).2.2 lib exe text script asLibrary asExecutable
        written written').1 hasEntry⟩

end Shellwright
