import Mathlib.Data.List.Chain
import Mathlib.Data.List.Perm.Subperm
import Shellwright.Proofs.Loading

/-!
# Cycles of imports

Loading calls itself for every import of a file. Here a call is what loading is called with, and
what holds at every call is derived from what holds at the first one and is passed on from a call
to those it makes.

* `Invokes fs c d`: in the course of the call `c`, loading is called as `d`.
* `wellFounded_invokes`: calls do not nest without end.
* `loadFile_eq_error_iff`: a load fails just if it does so in some call, for one of the
  reasons that `Fails` lists.
* `Call.Placed.step`: which files every call finds being loaded, and how they import each other.
* `load_cycles`: loading ends, a cycle is never overlooked, and none is reported
  that is not there.
-/

namespace Shellwright.Project

open Surface

/-! ## Calls -/

/-- What loading is called with: how far the load has come, the path to be loaded, and
where it is imported. -/
structure Call where
  before : Loading
  path : Path
  site : Option Site

/-- The call that a load begins with. -/
def Call.first (entry : Path) : Call := ⟨.start, entry, none⟩

/-- The call comes to read the program of a file that was not met before. -/
structure Call.Opens (fs : FileSystem) (c : Call) (place : Path) (program : Program)
    (source : Source) : Prop where
  found : fs.find c.path = .ok place
  new : place ∉ c.before.loaded
  free : place ∉ c.before.visiting
  opened : openFile fs place = .ok (program, source)

/-- In the course of one call the other is made: for an import of the file that is read, after
the imports before it were loaded. -/
inductive Invokes (fs : FileSystem) : Call → Call → Prop
  | intro {c : Call} {place : Path} {program : Program} {source : Source}
      {earlier later : List Import} {i : Import} {l : (c.before.enter place source).Later} :
    c.Opens fs place program source → importsOf program.topLevel = earlier ++ i :: later →
      loadImports fs (c.before.enter place source) place earlier = .ok l →
      Invokes fs c ⟨l.1, importPath place i.module, some ⟨place, i.span, i.module⟩⟩

/-- The call itself fails, not one that it makes. -/
inductive Fails (fs : FileSystem) : Call → LoadError → Prop
  | missing {c : Call} {fault : FileFault} :
    fs.find c.path = .error fault → Fails fs c (c.before.missing c.path fault c.site)
  | cycle {c : Call} {place : Path} :
    fs.find c.path = .ok place → place ∉ c.before.loaded → place ∈ c.before.visiting →
      Fails fs c (c.before.cycle place c.site)
  | unopened {c : Call} {place : Path} {e : LoadError} :
    fs.find c.path = .ok place → place ∉ c.before.loaded → place ∉ c.before.visiting →
      openFile fs place = .error e → Fails fs c e
  | ungathered {c : Call} {place : Path} {program : Program} {source : Source}
      {inner : (c.before.enter place source).Later} {e : LoadError} :
    c.Opens fs place program source →
      loadImports fs (c.before.enter place source) place (importsOf program.topLevel) =
        .ok inner →
      inner.1.gather c.before.stack.isEmpty program = .error e → Fails fs c e

/-- A call has fewer places left than the one that made it. -/
theorem Invokes.fewer {fs : FileSystem} {c d : Call} (h : Invokes fs c d) :
    openPlaces fs d.before.visiting < openPlaces fs c.before.visiting := by
  obtain @⟨place, _, _, _, _, _, l, opens, -, -⟩ := h
  rw [l.2]
  exact openPlaces_cons_lt (fs.mem_places opens.found) opens.free

/-- Calls do not nest without end. -/
theorem wellFounded_invokes (fs : FileSystem) : WellFounded fun d c : Call => Invokes fs c d :=
  Subrelation.wf (fun h => h.fewer) (measure fun c : Call => openPlaces fs c.before.visiting).wf

/-! ## Where a load fails -/

/-- Where the imports of a file cannot be loaded, one of them fails after those before it were
loaded. -/
theorem loadImports_eq_error {fs : FileSystem} {importer : Path} {imports : List Import}
    {l : Loading} {e : LoadError} (h : loadImports fs l importer imports = .error e) :
    ∃ earlier i later, imports = earlier ++ i :: later ∧
      ∃ l' : l.Later, loadImports fs l importer earlier = .ok l' ∧
        loadFile fs l'.1 (importPath importer i.module) (some ⟨importer, i.span, i.module⟩) =
          .error e := by
  induction imports generalizing l with
  | nil =>
    rw [loadImports] at h
    cases h
  | cons i rest ih =>
    rw [loadImports] at h
    rcases bind_eq_error.mp h with first | ⟨⟨next, same⟩, first, h⟩
    · exact ⟨[], i, rest, rfl, ⟨l, rfl⟩, by rw [loadImports], first⟩
    · rcases bind_eq_error.mp h with others | ⟨_, _, h⟩
      · obtain ⟨earlier, j, later, rfl, l', before, fails⟩ := ih others
        refine ⟨i :: earlier, j, later, rfl, ⟨l'.1, l'.2.trans same⟩, ?_, fails⟩
        rw [loadImports]
        exact bind_eq_ok.mpr ⟨_, first, bind_eq_ok.mpr ⟨_, before, rfl⟩⟩
      · cases h

/-- A load that fails does so in some call. -/
theorem exists_fails {fs : FileSystem} (c : Call) {e : LoadError}
    (h : loadFile fs c.before c.path c.site = .error e) :
    ∃ d, Relation.ReflTransGen (Invokes fs) c d ∧ Fails fs d e := by
  induction c using (wellFounded_invokes fs).induction with
  | _ c ih =>
    rw [loadFile] at h
    split at h
    case h_1 fault missing =>
      cases h
      exact ⟨c, .refl, .missing missing⟩
    case h_2 place found =>
      split at h
      case isTrue => cases h
      case isFalse new =>
        split at h
        case isTrue again =>
          cases h
          exact ⟨c, .refl, .cycle found new again⟩
        case isFalse free =>
          rcases bind_eq_error.mp h with unopened | ⟨⟨program, source⟩, opened, h⟩
          · exact ⟨c, .refl, .unopened found new free unopened⟩
          have opens : c.Opens fs place program source := ⟨found, new, free, opened⟩
          rcases bind_eq_error.mp h with failed | ⟨inner, imported, h⟩
          · obtain ⟨earlier, i, later, split, l, before, fails⟩ := loadImports_eq_error failed
            have invokes := Invokes.intro opens split before
            obtain ⟨d, calls, reason⟩ := ih _ invokes fails
            exact ⟨d, .head invokes calls, reason⟩
          rcases bind_eq_error.mp h with ungathered | ⟨_, _, h⟩
          · exact ⟨c, .refl, .ungathered opens imported ungathered⟩
          · cases h

/-- A call that reads a file fails where its imports or what it defines cannot be added. -/
theorem Call.Opens.loadFile_eq {fs : FileSystem} {c : Call} {place : Path} {program : Program}
    {source : Source} {e : LoadError} (opens : c.Opens fs place program source)
    (failed : loadImports fs (c.before.enter place source) place (importsOf program.topLevel) =
        .error e ∨
      ∃ inner, loadImports fs (c.before.enter place source) place (importsOf program.topLevel) =
        .ok inner ∧ inner.1.gather c.before.stack.isEmpty program = .error e) :
    loadFile fs c.before c.path c.site = .error e := by
  rw [loadFile_of_find opens.found, if_neg opens.new, if_neg opens.free]
  refine bind_eq_error.mpr (.inr ⟨_, opens.opened, bind_eq_error.mpr ?_⟩)
  rcases failed with failed | ⟨inner, imported, failed⟩
  · exact .inl failed
  · exact .inr ⟨inner, imported, bind_eq_error.mpr (.inl failed)⟩

/-- A call that fails by itself ends the load with its fault. -/
theorem Fails.loadFile_eq {fs : FileSystem} {c : Call} {e : LoadError} (h : Fails fs c e) :
    loadFile fs c.before c.path c.site = .error e := by
  cases h with
  | ungathered opens imported ungathered =>
    exact opens.loadFile_eq (.inr ⟨_, imported, ungathered⟩)
  | missing missing =>
    rw [loadFile]
    split
    case h_1 fault missing' =>
      cases missing.symm.trans missing'
      rfl
    case h_2 place found => cases missing.symm.trans found
  | cycle found new again => rw [loadFile_of_find found, if_neg new, if_pos again]
  | unopened found new free unopened =>
    rw [loadFile_of_find found, if_neg new, if_neg free]
    exact bind_eq_error.mpr (.inl unopened)

/-- Where an import cannot be loaded after those before it were, neither can all of them. -/
theorem loadImports_append_error {fs : FileSystem} {importer : Path} {i : Import}
    {earlier later : List Import} {l : Loading} {l' : l.Later} {e : LoadError}
    (before : loadImports fs l importer earlier = .ok l')
    (failed : loadFile fs l'.1 (importPath importer i.module)
      (some ⟨importer, i.span, i.module⟩) =
      .error e) : loadImports fs l importer (earlier ++ i :: later) = .error e := by
  induction earlier generalizing l with
  | nil =>
    rw [loadImports] at before
    cases before
    rw [List.nil_append, loadImports]
    exact bind_eq_error.mpr (.inl failed)
  | cons j earlier ih =>
    rw [loadImports] at before
    obtain ⟨next, first, before⟩ := bind_eq_ok.mp before
    obtain ⟨last, others, before⟩ := bind_eq_ok.mp before
    cases before
    rw [List.cons_append, loadImports]
    exact bind_eq_error.mpr (.inr ⟨next, first, bind_eq_error.mpr (.inl (ih others failed))⟩)

/-- A call fails with the ones that it makes. -/
theorem Invokes.error {fs : FileSystem} {c d : Call} {e : LoadError} (h : Invokes fs c d)
    (failed : loadFile fs d.before d.path d.site = .error e) :
    loadFile fs c.before c.path c.site = .error e := by
  obtain @⟨place, program, source, earlier, later, i, l, opens, split, before⟩ := h
  refine opens.loadFile_eq (.inl ?_)
  rw [split]
  exact loadImports_append_error before failed

/-- A load fails just with the fault of some call that it makes. -/
theorem loadFile_eq_error_iff {fs : FileSystem} {c : Call} {e : LoadError} :
    loadFile fs c.before c.path c.site = .error e ↔
      ∃ d, Relation.ReflTransGen (Invokes fs) c d ∧ Fails fs d e := by
  refine ⟨exists_fails c, ?_⟩
  rintro ⟨d, calls, fails⟩
  induction calls using Relation.ReflTransGen.head_induction_on with
  | refl => exact fails.loadFile_eq
  | head invokes _ ih => exact invokes.error ih

/-! ## What every call finds -/

/-- The files that are being loaded are those on the stack, each of which imports the next one;
none is there twice, and none is loaded already. -/
structure Loading.Consistent (fs : FileSystem) (l : Loading) : Prop where
  visiting_iff : ∀ q, q ∈ l.visiting ↔ q ∈ l.stack
  nodup : l.stack.Nodup
  places : l.stack ⊆ fs.places
  disjoint : ∀ q ∈ l.visiting, q ∉ l.loaded
  chain : l.stack.IsChain (Imports fs)

/-- The call is the first one, or loads what the last file of a stack imports that begins
with the entry file. -/
structure Call.Placed (fs : FileSystem) (entry : Path) (c : Call) : Prop where
  consistent : c.before.Consistent fs
  origin : c.before.stack = [] ∧ c.path = entry ∨
    ∃ first last program, fs.find entry = .ok first ∧ c.before.stack.head? = some first ∧
      c.before.stack.getLast? = some last ∧ program? fs last = some program ∧
      c.path ∈ pathsOf last program

theorem Call.placed_first (fs : FileSystem) (entry : Path) :
    (Call.first entry).Placed fs entry :=
  ⟨⟨fun _ => .rfl, List.nodup_nil, nofun, nofun, .nil⟩, .inl ⟨rfl, rfl⟩⟩

/-- The file that a call is to load is imported by the last one on the stack. -/
theorem Call.Placed.imports {fs : FileSystem} {entry : Path} {c : Call}
    (placed : c.Placed fs entry) {place : Path} (found : fs.find c.path = .ok place) :
    ∀ last ∈ c.before.stack.getLast?, Imports fs last place := by
  intro last isLast
  rcases placed.origin with ⟨empty, -⟩ | ⟨_, last', program, -, -, isLast', isProgram, mem⟩
  · rw [empty] at isLast
    cases isLast
  · rw [isLast'] at isLast
    cases isLast
    exact ⟨program, isProgram, c.path, mem, found⟩

/-- The stack of a call and the file it asks for import each other in turn. -/
theorem Call.Placed.chain {fs : FileSystem} {entry : Path} {c : Call}
    (placed : c.Placed fs entry) {place : Path} (found : fs.find c.path = .ok place) :
    (c.before.stack ++ [place]).IsChain (Imports fs) := by
  refine List.isChain_append.mpr ⟨placed.consistent.chain, .singleton _, ?_⟩
  rintro last isLast _ ⟨⟩
  exact placed.imports found last isLast

/-- The stack begins with the entry file once there is something on it. -/
theorem Call.Placed.head {fs : FileSystem} {entry : Path} {c : Call} (placed : c.Placed fs entry)
    {place : Path} (found : fs.find c.path = .ok place) :
    ∃ first, fs.find entry = .ok first ∧ (c.before.stack ++ [place]).head? = some first := by
  rcases placed.origin with ⟨empty, isEntry⟩ | ⟨first, _, _, isFirst, head, -⟩
  · exact ⟨place, isEntry ▸ found, by rw [empty]; rfl⟩
  · exact ⟨first, isFirst, by rw [List.head?_append, head]; rfl⟩

/-- What holds at a call holds at the calls it makes. -/
theorem Call.Placed.step {fs : FileSystem} {entry : Path} {c d : Call}
    (placed : c.Placed fs entry) (invokes : Invokes fs c d) : d.Placed fs entry := by
  obtain @⟨place, program, source, earlier, later, i, l, opens, split, before⟩ := invokes
  have loads := loadImports_loads before
  have stack : l.1.stack = c.before.stack ++ [place] := loads.stack_eq
  have visiting : l.1.visiting = place :: c.before.visiting := l.2
  have known := placed.consistent.visiting_iff
  -- the imports loaded before leave the stack as the file found it, with the file itself on top
  refine ⟨⟨fun q => ?_, ?_, ?_, fun q mem loaded => ?_, ?_⟩, .inr ?_⟩
  · rw [stack, visiting, List.mem_cons, known, List.mem_append, List.mem_singleton, or_comm]
  · rw [stack]
    refine List.nodup_append.mpr ⟨placed.consistent.nodup, List.pairwise_singleton _ _, ?_⟩
    rintro q mem _ isPlace rfl
    exact opens.free ((known place).mpr (List.mem_singleton.mp isPlace ▸ mem))
  · rw [stack]
    refine List.append_subset.mpr ⟨placed.consistent.places, List.forall_mem_singleton.mpr ?_⟩
    exact fs.mem_places opens.found
  · rw [visiting] at mem
    rcases loads.loaded_or_free loaded with already | free
    · rcases List.mem_cons.mp mem with rfl | mem
      · exact opens.new already
      · exact placed.consistent.disjoint q mem already
    · exact free mem
  · exact stack ▸ placed.chain opens.found
  · obtain ⟨first, isFirst, head⟩ := placed.head opens.found
    refine ⟨first, place, program, isFirst, stack ▸ head, by rw [stack, List.getLast?_concat],
      program?_of_openFile opens.opened, ?_⟩
    exact List.mem_map.mpr ⟨i, by simp [split], rfl⟩

/-- Every call that a load makes is placed, by induction on the calls that lead to it. -/
theorem Call.placed_of_calls {fs : FileSystem} {entry : Path} {c : Call}
    (calls : Relation.ReflTransGen (Invokes fs) (.first entry) c) : c.Placed fs entry := by
  induction calls with
  | refl => exact Call.placed_first fs entry
  | tail _ invokes ih => exact ih.step invokes

/-- Calls nest no deeper than there are places. -/
theorem Loading.Consistent.length_le {fs : FileSystem} {l : Loading} (h : l.Consistent fs) :
    l.stack.length ≤ fs.places.length :=
  (h.nodup.subperm h.places).length_le

/-! ## Reports of cycles -/

/-- The text that a report of a cycle begins with. -/
def cycleHeading : String := "Import cycle detected: "

/-- The first two characters of a text are not those of the heading. -/
def BeginsOtherwise (s : String) : Prop :=
  2 ≤ s.toList.length ∧ s.toList.take 2 ≠ cycleHeading.toList.take 2

instance (s : String) : Decidable (BeginsOtherwise s) := inferInstanceAs (Decidable (_ ∧ _))

theorem BeginsOtherwise.append {s : String} (h : BeginsOtherwise s) (t : String) :
    BeginsOtherwise (s ++ t) := by
  rw [BeginsOtherwise, String.toList_append, List.take_append_of_le_length h.1,
    List.length_append]
  exact ⟨Nat.le_add_right_of_le h.1, h.2⟩

theorem BeginsOtherwise.ne {s : String} (h : BeginsOtherwise s) (rest : String) :
    s ≠ cycleHeading ++ rest := by
  rintro rfl
  refine h.2 ?_
  rw [String.toList_append, List.take_append_of_le_length (by decide)]

theorem beginsOtherwise_lexFault (fault : LexFault) : BeginsOtherwise fault.message := by
  cases fault with
  | strayCharacter c => exact .append (.append (by decide) _) _
  | _ => decide

theorem beginsOtherwise_parseFault (fault : ParseFault) : BeginsOtherwise fault.message := by
  cases fault with
  | expected wanted got => exact .append (.append (.append (by decide) _) _) _
  | expectedExpr got => exact .append (by decide) _
  | expectedName role => exact .append (by decide) _
  | duplicateParam name => exact .append (.append (by decide) _) _
  | _ => decide

/-- No other fault is reported as a cycle. -/
theorem LoadFault.exists_cycle_of_message {fault : LoadFault} {rest : String}
    (h : fault.message = cycleHeading ++ rest) : ∃ stack again, fault = .cycle stack again := by
  suffices other : BeginsOtherwise fault.message ∨ ∃ stack again, fault = .cycle stack again from
    other.resolve_left fun begins => begins.ne rest h
  cases fault with
  | cycle stack again => exact .inr ⟨stack, again, rfl⟩
  | lex fault => exact .inl (beginsOtherwise_lexFault fault)
  | parse fault => exact .inl (beginsOtherwise_parseFault fault)
  | unresolved path fault => exact .inl (.append (.append (.append (by decide) _) _) _)
  | unreadable place fault => exact .inl (.append (.append (.append (by decide) _) _) _)
  | missingModule module path => exact .inl (.append (.append (by decide) _) _)
  | functionConflict name file => exact .inl (.append (.append (.append (by decide) _) _) _)
  | nestedImport | strayStatement => exact .inl (by decide)

theorem LoadFault.message_cycle (stack : List Path) (again : Path) :
    (LoadFault.cycle stack again).message =
      cycleHeading ++ " -> ".intercalate ((stack ++ [again]).map (·.text)) := by
  have chain : String.join (stack.map (·.text ++ " -> ")) ++ again.text =
      " -> ".intercalate ((stack ++ [again]).map (·.text)) := by
    induction stack with
    | nil => simp
    | cons p rest ih =>
      rw [List.map_cons, List.cons_append, List.map_cons]
      rw [String.intercalate_cons_of_ne_nil (by simp), ← ih]
      rw [String.join_cons, String.append_assoc, String.append_assoc]
  rw [← chain, ← String.append_assoc]
  rfl

theorem joinFunctions_fault {l : Loading} {known fs : List Function} {e : LoadError}
    (h : l.joinFunctions known fs = .error e) :
    ∃ name file, e.fault = .functionConflict name file := by
  induction fs generalizing known with
  | nil => cases h
  | cons f rest ih =>
    rw [Loading.joinFunctions] at h
    split at h
    case h_1 =>
      cases h
      exact ⟨_, _, rfl⟩
    case h_2 => exact ih h

theorem joinGlobals_fault {l : Loading} {known ts : List TopLevel} {e : LoadError}
    (h : l.joinGlobals known ts = .error e) : e.fault = .strayStatement := by
  fun_induction Loading.joinGlobals l known ts with
  | case1 => cases h
  | case2 _ _ _ _ _ ih => exact ih h
  | case3 _ _ _ _ _ _ ih => exact ih h
  | case4 =>
    cases h
    rfl

/-- Adding definitions reports no cycle. -/
theorem gather_fault {l : Loading} {isEntry : Bool} {program : Program} {e : LoadError}
    (h : l.gather isEntry program = .error e) (stack : List Path) (again : Path) :
    e.fault ≠ .cycle stack again := by
  intro isCycle
  rw [Loading.gather] at h
  rcases bind_eq_error.mp h with joined | ⟨_, _, h⟩
  · obtain ⟨_, _, isConflict⟩ := joinFunctions_fault joined
    cases isConflict.symm.trans isCycle
  · split at h
    case isTrue => cases h
    case isFalse =>
      rcases bind_eq_error.mp h with joined | ⟨_, _, h⟩
      · cases (joinGlobals_fault joined).symm.trans isCycle
      · cases h

/-- Nor does opening a file. -/
theorem openFile_fault {fs : FileSystem} {place : Path} {e : LoadError}
    (h : openFile fs place = .error e) (stack : List Path) (again : Path) :
    e.fault ≠ .cycle stack again := by
  intro isCycle
  rw [openFile] at h
  split at h
  case h_1 =>
    cases h
    cases isCycle
  case h_2 =>
    rcases bind_eq_error.mp h with unparsed | ⟨_, _, h⟩
    · rw [parseFile] at unparsed
      split at unparsed
      case h_1 =>
        cases unparsed
        cases isCycle
      case h_2 =>
        split at unparsed <;> cases unparsed
        cases isCycle
    · split at h <;> cases h
      cases isCycle

/-- A cycle is reported where a path leads to a file on the stack, and with that stack. -/
theorem Fails.of_cycle {fs : FileSystem} {c : Call} {e : LoadError} (h : Fails fs c e)
    {stack : List Path} {again : Path} (isCycle : e.fault = .cycle stack again) :
    stack = c.before.stack ∧ fs.find c.path = .ok again ∧ again ∈ c.before.visiting := by
  cases h with
  | missing =>
    obtain ⟨_, _, _ | site⟩ := c <;> cases isCycle
  | cycle found _ there =>
    obtain ⟨_, _, _ | site⟩ := c <;> cases isCycle <;> exact ⟨rfl, found, there⟩
  | unopened _ _ _ unopened => exact absurd isCycle (openFile_fault unopened _ _)
  | ungathered _ _ ungathered => exact absurd isCycle (gather_fault ungathered _ _)

/-! ## Cycles and loads -/

/-- A load begins as the first call. -/
theorem load_eq_error {fs : FileSystem} {entry : Path} {e : LoadError}
    (h : load fs entry = .error e) : loadFile fs .start entry none = .error e := by
  rw [load] at h
  rcases bind_eq_error.mp h with failed | ⟨l, loaded, h⟩
  · exact failed
  · obtain ⟨place, found, -⟩ := (loadFile_loads loaded).found (.head _)
    rw [found] at h
    cases h

/-- No file of a project that can be loaded imports itself, directly or through others. -/
theorem acyclic_of_load {fs : FileSystem} {entry first q : Path} {p : Program}
    (h : load fs entry = .ok p) (found : fs.find entry = .ok first)
    (reach : Reaches fs first q) :
    ¬Relation.TransGen (Imports fs) q q := by
  rw [load] at h
  obtain ⟨l, loaded, -⟩ := bind_eq_ok.mp h
  have loads := loadFile_loads loaded
  have grounded := loads.grounded trivial
  obtain ⟨place, leads, there⟩ := loads.found (.head _)
  rw [found] at leads
  cases leads
  exact grounded.acyclic (grounded.reaches there reach)

/-- Loading ends on every graph of imports. At each of its calls the files being loaded are those
on the stack, without repetition, apart from what is loaded already, and each imports the next
one, so that calls nest no deeper than there are places. Where a file that the entry file
imports, directly or through others, imports itself in this way, loading fails; and where it
reports a cycle, the files named form one: the entry file comes first, each imports the next one,
and the last is one of those before it. -/
theorem load_cycles (fs : FileSystem) (entry : Path) :
    WellFounded (fun d c : Call => Invokes fs c d) ∧
    (∀ c, Relation.ReflTransGen (Invokes fs) (.first entry) c →
      c.before.Consistent fs ∧ c.before.stack.length ≤ fs.places.length) ∧
    (∀ first q, fs.find entry = .ok first → Reaches fs first q →
      Relation.TransGen (Imports fs) q q → ∃ e, load fs entry = .error e) ∧
    ∀ e rest, load fs entry = .error e → e.diagnostic.message = cycleHeading ++ rest →
      ∃ files again, rest = " -> ".intercalate ((files ++ [again]).map (·.text)) ∧
        (∃ first, fs.find entry = .ok first ∧ (files ++ [again]).head? = some first) ∧
        (files ++ [again]).IsChain (Imports fs) ∧ again ∈ files := by
  refine ⟨wellFounded_invokes fs, fun c calls => ?_, fun first q found reach cycle => ?_,
    fun e rest failed isReport => ?_⟩
  · have placed := Call.placed_of_calls calls
    exact ⟨placed.consistent, placed.consistent.length_le⟩
  · cases loaded : load fs entry with
    | error e => exact ⟨e, rfl⟩
    | ok p => exact absurd cycle (acyclic_of_load loaded found reach)
  · obtain ⟨stack, again, isCycle⟩ := LoadFault.exists_cycle_of_message isReport
    obtain ⟨c, calls, fails⟩ := exists_fails (.first entry) (load_eq_error failed)
    obtain ⟨rfl, found, there⟩ := fails.of_cycle isCycle
    have placed := Call.placed_of_calls calls
    refine ⟨c.before.stack, again, ?_, placed.head found, placed.chain found,
      (placed.consistent.visiting_iff again).mp there⟩
    have text : cycleHeading ++ rest = _ :=
      isReport.symm.trans ((congrArg LoadFault.message isCycle).trans
        (LoadFault.message_cycle _ _))
    exact (String.append_right_inj _).mp text

/-- Two files that import each other. -/
def mutualFiles : FileSystem where
  places := [⟨"/a.bish"⟩, ⟨"/b.bish"⟩]
  find path := if path ∈ [(⟨"/a.bish"⟩ : Path), ⟨"/b.bish"⟩] then .ok path else .error .notFound
  mem_places := by
    intro path place h
    split at h
    case isTrue mem =>
      cases h
      exact mem
    case isFalse => cases h
  read place := .ok (if place.text = "/a.bish" then "import \"b\";" else "import \"a\";")

/-- A file with one import calls for it. -/
theorem exists_invokes {fs : FileSystem} {c : Call} {place next : Path} {module : String}
    (found : fs.find c.path = .ok place) (new : place ∉ c.before.loaded)
    (free : place ∉ c.before.visiting)
    (reads : ((openFile fs place).toOption.any fun r =>
      (importsOf r.1.topLevel).map (·.module) = [module]) = true)
    (leads : fs.find (importPath place module) = .ok next) :
    Imports fs place next ∧ ∃ source site,
      Invokes fs c ⟨c.before.enter place source, importPath place module, some site⟩ := by
  obtain ⟨⟨program, source⟩, opened, holds⟩ := exists_ok_of_any reads
  obtain ⟨i, only, rfl⟩ := List.map_eq_singleton_iff.mp (of_decide_eq_true holds)
  have before : loadImports fs (c.before.enter place source) place [] = .ok ⟨_, rfl⟩ := by
    rw [loadImports]
  refine ⟨⟨program, program?_of_openFile opened, _, ?_, leads⟩, source, _,
    .intro ⟨found, new, free, opened⟩ only before⟩
  rw [pathsOf, only]
  exact .head _

/-- The cycle of two files is found, and the report names it. -/
theorem load_cycles_mutual :
    ∃ e files again, Relation.TransGen (Imports mutualFiles) ⟨"/a.bish"⟩ ⟨"/a.bish"⟩ ∧
      load mutualFiles ⟨"/a.bish"⟩ = .error e ∧
      e.diagnostic.message = cycleHeading ++ "/a.bish -> /b.bish -> /a.bish" ∧
      "/a.bish -> /b.bish -> /a.bish" = " -> ".intercalate ((files ++ [again]).map (·.text)) ∧
      (files ++ [again]).head? = some ⟨"/a.bish"⟩ ∧
      (files ++ [again]).IsChain (Imports mutualFiles) ∧ again ∈ files := by
  have toB : importPath ⟨"/a.bish"⟩ "b" = ⟨"/b.bish"⟩ := by decide
  have toA : importPath ⟨"/b.bish"⟩ "a" = ⟨"/a.bish"⟩ := by decide
  obtain ⟨there, sourceA, siteA, first⟩ : Imports mutualFiles ⟨"/a.bish"⟩ ⟨"/b.bish"⟩ ∧
      ∃ source site, Invokes mutualFiles (.first ⟨"/a.bish"⟩)
        ⟨Loading.start.enter ⟨"/a.bish"⟩ source, importPath ⟨"/a.bish"⟩ "b", some site⟩ :=
    exists_invokes rfl nofun nofun (by decide +kernel) (by rw [toB]; rfl)
  rw [toB] at first
  obtain ⟨back, sourceB, siteB, second⟩ : Imports mutualFiles ⟨"/b.bish"⟩ ⟨"/a.bish"⟩ ∧
      ∃ source site, Invokes mutualFiles
        ⟨Loading.start.enter ⟨"/a.bish"⟩ sourceA, ⟨"/b.bish"⟩, some siteA⟩
        ⟨(Loading.start.enter ⟨"/a.bish"⟩ sourceA).enter ⟨"/b.bish"⟩ source,
          importPath ⟨"/b.bish"⟩ "a", some site⟩ :=
    exists_invokes rfl nofun (by simp [Loading.enter, Loading.start]) (by decide +kernel)
      (by rw [toA]; rfl)
  rw [toA] at second
  -- The third call is for the file of the first one.
  have fails : Fails mutualFiles
      ⟨(Loading.start.enter ⟨"/a.bish"⟩ sourceA).enter ⟨"/b.bish"⟩ sourceB, ⟨"/a.bish"⟩,
      some siteB⟩
      _ := .cycle rfl nofun (by simp [Loading.enter])
  have failed : loadFile mutualFiles .start ⟨"/a.bish"⟩ none = .error _ :=
    (loadFile_eq_error_iff (c := .first _)).mpr ⟨_, .tail (.single first) second, fails⟩
  have cycle : Relation.TransGen (Imports mutualFiles) ⟨"/a.bish"⟩ ⟨"/a.bish"⟩ :=
    .tail (.single there) back
  obtain ⟨-, -, found, reported⟩ := load_cycles mutualFiles ⟨"/a.bish"⟩
  obtain ⟨e, isError⟩ := found ⟨"/a.bish"⟩ ⟨"/a.bish"⟩ rfl .refl cycle
  cases (load_eq_error isError).symm.trans failed
  have message : LoadFault.message (.cycle [⟨"/a.bish"⟩, ⟨"/b.bish"⟩] ⟨"/a.bish"⟩) =
      cycleHeading ++ "/a.bish -> /b.bish -> /a.bish" := by decide +kernel
  obtain ⟨files, again, isText, ⟨_, ⟨⟩, isFirst⟩, chain, repeated⟩ :=
    reported _ _ isError message
  exact ⟨_, files, again, cycle, isError, message, isText, isFirst, chain, repeated⟩

end Shellwright.Project
