import Tarkib.Proofs.Command.Targets
import Tarkib.Proofs.Loader.Bundling
import Tarkib.Proofs.Project.Writing
import Tarkib.Proofs.Service.Shutdown

/-!
# What is written into an output directory

Modules are written one after the other, so after a run every file holds the code of the last module
that was written to its place (`Wrote`). A module loses its code if another one is written to the
same place: one whose name differs in the extension only, or one whose target leads there by links
that were in the output directory before. These are the only ways.
-/

namespace Tarkib.Command

open List

open Project (Grows Prepared)

variable {m : Compiled} {failure : Failure} {p project : Project} {s : Service}
  {place : List String} {path : Path} {l : Loader}

/-! ## One module -/

section Step

variable {o o' : Output} {root outDir : Path}

/-- What writing a module with a target does to the project. -/
structure Put (p p' : Project) (target : Path) (code : String) (place : List String) : Prop where
  tree : p'.IsTree
  grows : Grows p p'
  located : p'.locate target = .ok place
  there : p'.node? place = some (.file code.toUTF8)
  others : ∀ other content, other ≠ place → p.node? other = some (.file content) →
    p'.node? other = some (.file content)

theorem prepare_eq_ok (tree : o.project.IsTree) (prepared : o.prepare path = .ok o') :
    Prepared o.project o'.project := by
  unfold Output.prepare at prepared
  split at prepared
  · cases prepared
    exact .refl tree
  · next parent above =>
      have made := Prepared.createAlong tree parent.ancestors
      split at prepared
      · next project created =>
          cases prepared
          rw [Project.createDirectory] at created
          rw [created] at made
          exact made
      · cases prepared

theorem write_eq_ok {text : String} (written : o.write path text = .ok o') :
    o.project.write path text.toUTF8 = .ok o'.project := by
  unfold Output.write at written
  split at written
  · next project done =>
      cases written
      exact done
  · cases written

/-- A step puts the code of a module at the place that its target leads to and changes no other
file. -/
theorem writeModule_eq_ok (tree : o.project.IsTree)
    (written : writeModule root outDir o m = .ok o') :
    (target? root outDir m = none ∧ o'.project = o.project) ∨
      ∃ target place, target? root outDir m = some target ∧
        Put o.project o'.project target m.code place := by
  unfold writeModule at written
  cases inside : target? root outDir m with
  | none =>
    rw [inside] at written
    cases written
    exact .inl ⟨rfl, rfl⟩
  | some target =>
    rw [inside] at written
    dsimp only at written
    obtain ⟨o₁, prepared, written⟩ := bind_eq_ok written
    obtain ⟨o₂, done, written⟩ := bind_eq_ok written
    cases written
    have first := prepare_eq_ok tree prepared
    obtain ⟨tree', grows, place, located, nodes⟩ := first.tree.write_spec (write_eq_ok done)
    refine .inr ⟨target, place, rfl, tree', first.grows.trans grows, located, ?_, ?_⟩
    · exact (nodes place).trans (if_pos rfl)
    · intro other content differs there
      refine (nodes other).trans ?_
      rw [if_neg differs]
      exact first.files other content there

theorem unreadable_of_writeModule (tree : o.project.IsTree)
    (failed : writeModule root outDir o m = .error (o', failure)) :
    ∃ target, target? root outDir m = some target ∧
      ∀ content, o'.project.read target ≠ .ok content := by
  unfold writeModule at failed
  cases inside : target? root outDir m with
  | none =>
    rw [inside] at failed
    cases failed
  | some target =>
    rw [inside] at failed
    dsimp only at failed
    refine ⟨target, rfl, ?_⟩
    rcases bind_eq_error failed with unprepared | ⟨o₁, _, failed⟩
    · unfold Output.prepare at unprepared
      split at unprepared
      · cases unprepared
      · next parent above =>
          split at unprepared
          · cases unprepared
          · next project fault created =>
              cases unprepared
              exact tree.read_of_createDirectory above created
    · rcases bind_eq_error failed with unwritten | ⟨o₂, _, failed⟩
      · unfold Output.write at unwritten
        split at unwritten
        · cases unwritten
        · next fault refused =>
            cases unwritten
            exact Project.read_of_write refused
      · cases failed

end Step

/-! ## All modules -/

/-- The modules whose targets lead to the place. -/
def writers (p : Project) (root outDir : Path) (modules : List Compiled) (place : List String) :
    List Compiled :=
  modules.filter fun m => (target? root outDir m).any fun target => p.locate target = .ok place

theorem mem_writers {root outDir : Path} {modules : List Compiled} :
    m ∈ writers p root outDir modules place ↔ m ∈ modules ∧
      ∃ target, target? root outDir m = some target ∧ p.locate target = .ok place := by
  rw [writers, mem_filter]
  cases target? root outDir m <;> simp

section Run

variable {o o' : Output} {root outDir : Path} {modules : List Compiled}

/-- A run of writing: the tree grows, and what a file holds in the end is the code of the last
module that was written to its place, or what it held before if there is none. -/
structure Wrote (p p' : Project) (root outDir : Path) (modules : List Compiled) : Prop where
  tree : p'.IsTree
  grows : Grows p p'
  last : ∀ place m, (writers p' root outDir modules place).getLast? = some m →
    p'.node? place = some (.file m.code.toUTF8)
  kept : ∀ place content, writers p' root outDir modules place = [] →
    p.node? place = some (.file content) → p'.node? place = some (.file content)
  located : ∀ m ∈ modules, ∀ target, target? root outDir m = some target →
    ∃ place, p'.locate target = .ok place

theorem Wrote.nil (tree : p.IsTree) : Wrote p p root outDir [] where
  tree := tree
  grows := .refl p
  last place m found := by cases found
  kept place content _ there := there
  located m member := by cases member

theorem Wrote.skip {p p' : Project} (outside : target? root outDir m = none)
    (later : Wrote p p' root outDir modules) : Wrote p p' root outDir (m :: modules) := by
  have same (place : List String) :
      writers p' root outDir (m :: modules) place = writers p' root outDir modules place := by
    simp [writers, outside]
  refine ⟨later.tree, later.grows, ?_, ?_, ?_⟩
  · simpa only [same] using later.last
  · simpa only [same] using later.kept
  · intro n member target inside
    rcases mem_cons.mp member with rfl | member
    · rw [outside] at inside
      cases inside
    · exact later.located n member target inside

theorem Wrote.put {p p₁ p' : Project} {target : Path} (inside : target? root outDir m = some target)
    (first : Put p p₁ target m.code place) (later : Wrote p₁ p' root outDir modules) :
    Wrote p p' root outDir (m :: modules) := by
  have located := later.grows.locate first.located
  have own : writers p' root outDir (m :: modules) place =
      m :: writers p' root outDir modules place := by
    simp [writers, inside, located]
  have other {place' : List String} (differs : place' ≠ place) :
      writers p' root outDir (m :: modules) place' = writers p' root outDir modules place' := by
    simp [writers, inside, located, Ne.symm differs]
  refine ⟨later.tree, first.grows.trans later.grows, ?_, ?_, ?_⟩
  · intro place' n found
    by_cases here : place' = place
    · subst here
      rw [own, getLast?_cons] at found
      cases last : (writers p' root outDir modules place').getLast? with
      | some n' =>
        rw [last] at found
        cases found
        exact later.last place' _ last
      | none =>
        rw [last] at found
        cases found
        exact later.kept place' _ (getLast?_eq_none_iff.mp last) first.there
    · rw [other here] at found
      exact later.last place' n found
  · intro place' content none there
    have here : place' ≠ place := by
      rintro rfl
      rw [own] at none
      cases none
    rw [other here] at none
    exact later.kept place' content none (first.others place' content here there)
  · intro n member target' inside'
    rcases mem_cons.mp member with rfl | member
    · rw [inside] at inside'
      cases inside'
      exact ⟨place, located⟩
    · exact later.located n member target' inside'

/-- Every file holds the code of the last module that was written to its place. -/
theorem wrote_of_foldlM (tree : o.project.IsTree)
    (written : modules.foldlM (writeModule root outDir) o = .ok o') :
    Wrote o.project o'.project root outDir modules := by
  induction modules generalizing o with
  | nil =>
    cases written
    exact .nil tree
  | cons m modules ih =>
    rw [foldlM_cons] at written
    obtain ⟨o₁, step, written⟩ := bind_eq_ok written
    rcases writeModule_eq_ok tree step with ⟨outside, same⟩ | ⟨target, place, inside, first⟩
    · have later := ih (same ▸ tree) written
      rw [same] at later
      exact .skip outside later
    · exact .put inside first (ih first.tree written)

/-- If a step fails, the target of its module cannot be read afterwards. -/
theorem exists_unreadable (tree : o.project.IsTree)
    (failed : modules.foldlM (writeModule root outDir) o = .error (o', failure)) :
    ∃ m ∈ modules, ∃ target, target? root outDir m = some target ∧
      ∀ content, o'.project.read target ≠ .ok content := by
  induction modules generalizing o with
  | nil => cases failed
  | cons m modules ih =>
    rw [foldlM_cons] at failed
    rcases bind_eq_error failed with step | ⟨o₁, step, failed⟩
    · exact ⟨m, mem_cons_self, unreadable_of_writeModule tree step⟩
    · have tree₁ : o₁.project.IsTree := by
        rcases writeModule_eq_ok tree step with ⟨_, same⟩ | ⟨_, _, _, first⟩
        · exact same ▸ tree
        · exact first.tree
      obtain ⟨n, member, found⟩ := ih tree₁ failed
      exact ⟨n, mem_cons_of_mem _ member, found⟩

end Run

/-! ## The result of a command -/

/-- Every module in the directory of the entry has a file of its own: different modules have
different targets, and the file at the target of a module holds its code. -/
structure Kept (p : Project) (c : Compilation) (outDir : Path) : Prop where
  apart : ∀ m ∈ c.modules, ∀ n ∈ c.modules, m.id.same n.id = false → ∀ t u,
    target? (rootOf c) outDir m = some t → target? (rootOf c) outDir n = some u →
      t.same u = false
  own : ∀ m ∈ c.modules, LiesIn (rootOf c) m →
    ∃ t, target? (rootOf c) outDir m = some t ∧ p.read t = .ok m.code.toUTF8

theorem project_warnAll (o : Output) (texts : List String) :
    (o.warnAll texts).project = o.project := by
  induction texts generalizing o with
  | nil => rfl
  | cons text texts ih => exact ih (o.warn text)

section Compilation

variable {o o' : Output} {c : Compilation} {outDir : Path}

theorem Laid.wrote (laid : Laid o.project c)
    (written : showCompilation (some outDir) c o = .ok o') :
    Wrote o.project o'.project (rootOf c) outDir c.modules := by
  have same := project_warnAll o c.warnings
  rw [← same]
  exact wrote_of_foldlM (same ▸ laid.tree) written

/-- The target of a module can be read, and holds the code of the last module that was written
there. -/
theorem Laid.read_target (laid : Laid o.project c)
    (written : showCompilation (some outDir) c o = .ok o') (member : m ∈ c.modules)
    (inside : LiesIn (rootOf c) m) :
    ∃ t place n, target? (rootOf c) outDir m = some t ∧ o'.project.locate t = .ok place ∧
      (writers o'.project (rootOf c) outDir c.modules place).getLast? = some n ∧
      o'.project.read t = .ok n.code.toUTF8 := by
  have wrote := laid.wrote written
  obtain ⟨t, own⟩ :=
    Option.isSome_iff_exists.mp ((laid.target?_isSome_iff member outDir).mpr inside)
  obtain ⟨place, located⟩ := wrote.located m member t own
  have listed : m ∈ writers o'.project (rootOf c) outDir c.modules place :=
    mem_writers.mpr ⟨member, t, own, located⟩
  obtain ⟨n, last⟩ :=
    Option.isSome_iff_exists.mp (getLast?_isSome.mpr (ne_nil_of_mem listed))
  refine ⟨t, place, n, own, located, last, ?_⟩
  simp [Project.read, located, wrote.last place n last, bind, Except.bind, pure, Except.pure]

/-- No two modules in the directory of the entry differ in their extensions only. -/
def NoTwins (c : Compilation) : Prop :=
  ∀ m ∈ c.modules, ∀ n ∈ c.modules, LiesIn (rootOf c) m → LiesIn (rootOf c) n →
    m.id.same n.id = false → ¬ m.id.Twins n.id

/-- No two modules in the directory of the entry differ in their extensions only, and modules whose
targets lead to one place have the same code. -/
structure Parted (p : Project) (c : Compilation) (outDir : Path) : Prop where
  twins : NoTwins c
  places : ∀ m ∈ c.modules, ∀ n ∈ c.modules, ∀ t u place,
    target? (rootOf c) outDir m = some t → target? (rootOf c) outDir n = some u →
      p.locate t = .ok place → p.locate u = .ok place → m.code = n.code

/-- Every module keeps a file of its own exactly if the modules are parted. -/
theorem Laid.kept_iff (laid : Laid o.project c)
    (written : showCompilation (some outDir) c o = .ok o') :
    Kept o'.project c outDir ↔ Parted o'.project c outDir := by
  constructor
  · intro kept
    refine ⟨?_, ?_⟩
    · intro m first n second inside inside' differ twins
      obtain ⟨t, own, _⟩ := kept.own m first inside
      obtain ⟨u, other, _⟩ := kept.own n second inside'
      have same := (laid.same_target_iff first second own other).mpr twins
      rw [kept.apart m first n second differ t u own other] at same
      cases same
    · intro m first n second t u place own other located located'
      have reads {m : Compiled} (member : m ∈ c.modules) {t : Path}
          (own : target? (rootOf c) outDir m = some t) :
          o'.project.read t = .ok m.code.toUTF8 := by
        have inside := (laid.target?_isSome_iff member outDir).mp (by rw [own]; rfl)
        obtain ⟨t', own', found⟩ := kept.own m member inside
        rw [own] at own'
        cases own'
        exact found
      have found := reads first own
      have found' := reads second other
      rw [Project.read, located] at found
      rw [Project.read, located', found] at found'
      exact String.toByteArray_inj.mp (Except.ok.inj found')
  · intro parted
    refine ⟨?_, ?_⟩
    · intro m first n second differ t u own other
      rw [← Bool.not_eq_true, laid.same_target_iff first second own other]
      exact parted.twins m first n second
        ((laid.target?_isSome_iff first outDir).mp (by rw [own]; rfl))
        ((laid.target?_isSome_iff second outDir).mp (by rw [other]; rfl)) differ
    · intro m member inside
      obtain ⟨t, place, n, own, located, last, found⟩ := laid.read_target written member inside
      refine ⟨t, own, ?_⟩
      obtain ⟨second, u, other, leads⟩ := mem_writers.mp (mem_of_getLast? last)
      rw [parted.places m member n second t u place own other located leads]
      exact found

/-- Without links the modules are parted exactly if no two names differ in the extension only. -/
theorem Laid.parted_iff (laid : Laid o.project c) (tree : p.IsTree) (plain : p.NoLinks) :
    Parted p c outDir ↔ NoTwins c := by
  refine ⟨Parted.twins, fun noTwins => ⟨noTwins, ?_⟩⟩
  intro m first n second t u place own other located located'
  have same := laid.same_of_locate first second own other tree plain located located'
  have twins := (laid.same_target_iff first second own other).mp same
  by_contra differ
  refine noTwins m first n second ((laid.target?_isSome_iff first outDir).mp (by rw [own]; rfl))
    ((laid.target?_isSome_iff second outDir).mp (by rw [other]; rfl)) ?_ twins
  have symmetric : Std.Symm fun m n : Compiled => m.id.same n.id = false :=
    ⟨fun m n apart => by rwa [Path.same_comm]⟩
  exact laid.distinct.forall first second fun equal => differ (congrArg _ equal)

/-- A run that fails loses a module. -/
theorem Laid.not_kept (laid : Laid o.project c)
    (failed : showCompilation (some outDir) c o = .error (o', failure)) :
    ¬ Kept o'.project c outDir := by
  intro kept
  have stopped : ∃ m ∈ c.modules, ∃ t, target? (rootOf c) outDir m = some t ∧
      ∀ content, o'.project.read t ≠ .ok content :=
    exists_unreadable (project_warnAll o c.warnings ▸ laid.tree) failed
  obtain ⟨m, member, t, own, unreadable⟩ := stopped
  have inside := (laid.target?_isSome_iff member outDir).mp (by rw [own]; rfl)
  obtain ⟨t', own', found⟩ := kept.own m member inside
  rw [own] at own'
  cases own'
  exact unreadable _ found

end Compilation

/-! ## Command lines -/

theorem cache_of_start {config : Config} {monitoring : Bool}
    (started : Service.start config monitoring = .ok s) : s.loader.cache = [] := by
  obtain ⟨_, rfl⟩ := Service.start_eq_ok_iff.mp started
  rfl

theorem cache_of_startService {given : Option Path} (started : startService project given = .ok s) :
    s.loader.cache = [] := by
  unfold startService at started
  simp only [bind, Except.bind, pure, Except.pure] at started
  split at started
  · split at started
    · next begun =>
        cases started
        exact cache_of_start begun
    · cases started
  · split at started
    · split at started
      · next begun =>
          cases started
          exact cache_of_start begun
      · cases started
    · cases started

theorem sample_spec (s : Service) (memory : Option Nat) (empty : s.loader.cache = []) :
    (s.sample memory).1.loader.cache = [] ∧ (s.sample memory).1.config = s.config := by
  unfold Service.sample
  split
  · exact ⟨empty, rfl⟩
  · dsimp only
    split
    · exact ⟨empty, rfl⟩
    · refine ⟨?_, rfl⟩
      dsimp only
      split
      · exact Loader.cache_clear _
      · exact empty

theorem runInvocation_compile {memory : Option Nat} {i : Invocation}
    (started : startService project i.config = .ok s) {file outDir : Path} {out : Option Path}
    (command : i.command = .compile file out)
    (directory : out.or (s.sample memory).1.config.compilation.outDir = some outDir)
    {c : Compilation} (compiled : ((s.sample memory).1.compile project 0 file).2 = .ok c) :
    (∃ o, showCompilation (some outDir) c { project } = .ok o ∧
        (runInvocation project memory i).exit = 0 ∧
        (runInvocation project memory i).project = o.project) ∨
      ∃ o failure, showCompilation (some outDir) c { project } = .error (o, failure) ∧
        (runInvocation project memory i).exit = 1 ∧
        (runInvocation project memory i).project = o.project := by
  unfold runInvocation
  rw [started, command]
  dsimp only [runWith]
  rcases answer : (s.sample memory).1.compile project 0 file with ⟨s', result⟩
  rw [answer] at compiled
  cases compiled
  dsimp only
  rw [directory]
  cases shown : showCompilation (some outDir) c { project } with
  | ok o => exact .inl ⟨o, rfl, rfl, rfl⟩
  | error e =>
    obtain ⟨o, failure⟩ := e
    exact .inr ⟨o, failure, rfl, rfl, rfl⟩

/-- **What compiling into a directory keeps.** Let a command line compile an entry with everything
it depends on and ask for an output directory, in a project that is a tree and whose working
directory is a list of names. If all modules could be written, the file at the target of a module in
the directory of the entry holds the code of the last module whose target leads to the same place.
Every module there has a file of its own, with another target than the other modules and with its
own code, if and only if all could be written, no two of them differ in their extensions only, and
those whose targets lead to one place have the same code. Without links the last condition follows
from the others. -/
theorem kept_runInvocation_iff {project : Project} (tree : project.IsTree)
    (placed : project.WellPlaced) {memory : Option Nat} {i : Invocation} {s : Service}
    (started : startService project i.config = .ok s) {file outDir : Path} {out : Option Path}
    (command : i.command = .compile file out)
    (directory : out.or s.config.compilation.outDir = some outDir) {c : Compilation}
    (compiled : ((s.sample memory).1.compile project 0 file).2 = .ok c) :
    let result := runInvocation project memory i
    (result.exit = 0 → ∀ m ∈ c.modules, LiesIn (rootOf c) m →
      ∃ t place n, target? (rootOf c) outDir m = some t ∧ result.project.locate t = .ok place ∧
        (writers result.project (rootOf c) outDir c.modules place).getLast? = some n ∧
        result.project.read t = .ok n.code.toUTF8) ∧
    (Kept result.project c outDir ↔ result.exit = 0 ∧ Parted result.project c outDir) ∧
    (project.NoLinks → (Kept result.project c outDir ↔ result.exit = 0 ∧ NoTwins c)) := by
  intro result
  obtain ⟨fresh, config⟩ := sample_spec s memory (cache_of_startService started)
  have laid : Laid ({ project } : Output).project c :=
    ⟨Service.stored_of_compile placed fresh compiled, tree⟩
  rcases runInvocation_compile started command (config ▸ directory) compiled with
    ⟨o, shown, succeeded, same⟩ | ⟨o, failure, shown, failed, same⟩
  · have wrote := laid.wrote shown
    refine ⟨fun _ m member inside => ?_, ?_, fun plain => ?_⟩
    · rw [same]
      exact laid.read_target shown member inside
    · rw [same, laid.kept_iff shown, and_iff_right succeeded]
    · rw [same, laid.kept_iff shown, laid.parted_iff wrote.tree (wrote.grows.noLinks plain),
        and_iff_right succeeded]
  · have lost : ¬ Kept result.project c outDir := by
      rw [same]
      exact laid.not_kept shown
    have stopped : result.exit ≠ 0 := by
      rw [failed]
      exact Nat.one_ne_zero
    exact ⟨fun succeeded => absurd succeeded stopped, iff_of_false lost fun both => stopped both.1,
      fun _ => iff_of_false lost fun both => stopped both.1⟩

/-! ## Two files of one name -/

section Twins

open Loader
open Config.Resolution (file?_of_locate resolve_of_absolute resolve_of_relative)

/-- Two files whose names differ in their extensions only. -/
def twinsWith (first second : ByteArray) : Project where
  nodes := [(["a.js"], .file first), (["a"], .file second)]

/-- The first file needs the other. -/
def twinProject : Project :=
  twinsWith "require(\"./a\")".toUTF8 "".toUTF8

def twinUser : Module where
  id := ⟨"/a.js"⟩
  source := "require(\"./a\")"
  code := "require(\"./a\")"
  dependencies := [⟨"./a", .file ⟨"/a"⟩⟩]

def twinUsed : Module where
  id := ⟨"/a"⟩
  source := ""
  code := ""
  loadedAt := 1

section Lookup

variable {first second : ByteArray}

theorem locate_user : (twinsWith first second).locate ⟨"/a.js"⟩ = .ok ["a.js"] :=
  Project.locate_of_file (by decide) rfl

theorem locate_used : (twinsWith first second).locate ⟨"/a"⟩ = .ok ["a"] :=
  Project.locate_of_file (by decide) rfl

theorem locate_dotted : (twinsWith first second).locate ⟨"/./a"⟩ = .ok ["a"] := by
  have spelled : Project.steps "/./a" = [".", "a"] := by decide
  have allowed : Project.checkPath ⟨"/./a"⟩ = .ok () := by
    rw [Project.checkPath, String.contains_char_eq]
    decide
  have entry : Project.IsEntry "a" := ⟨by decide, by decide, by decide⟩
  rw [Project.locate_eq allowed rfl, spelled, Project.follow_dot, Project.follow_name entry]
  rfl

theorem locate_defaultConfig :
    (twinsWith first second).locate defaultConfig = .error .notFound := by
  have alone : Project.steps "somon.json" = ["somon.json"] := by decide
  have allowed : Project.checkPath defaultConfig = .ok () := by
    rw [Project.checkPath, String.contains_char_eq]
    decide
  have entry : Project.IsEntry "somon.json" := ⟨by decide, by decide, by decide⟩
  rw [Project.locate_eq allowed rfl, defaultConfig, alone, Project.follow_name entry]
  rfl

end Lookup

theorem resolve_user :
    Config.Resolution.resolve {} twinProject "/a.js" ⟨"/"⟩ = .ok (.file ⟨"/a.js"⟩) :=
  resolve_of_absolute (by decide +kernel) (file?_of_locate (by decide) locate_user rfl)

theorem resolve_used :
    Config.Resolution.resolve {} twinProject "./a" ⟨"/"⟩ = .ok (.file ⟨"/a"⟩) := by
  have joined : (Path.mk "/").join "./a" = ⟨"/./a"⟩ := by decide
  refine resolve_of_relative (by decide +kernel) ?_
  rw [joined]
  exact file?_of_locate (by decide) locate_dotted rfl

theorem build_user (resolution : l.resolution = {}) (options : l.options = {})
    (time : l.clock l.readings = 0) :
    l.build twinProject ⟨"/a.js"⟩ "require(\"./a\")" = .ok twinUser := by
  have scanned : Token.scan "require(\"./a\")" = Compile.callTokens "./a" "\"./a\"" := by
    decide +kernel
  have listed : Require.specifiers "require(\"./a\")" = ["./a"] := by decide +kernel
  have above : (Path.mk "/a.js").parent? = some ⟨"/"⟩ := by decide
  have needs : dependencies l.resolution twinProject ⟨"/a.js"⟩ "require(\"./a\")" =
      .ok [⟨"./a", .file ⟨"/a"⟩⟩] := by
    rw [dependencies, listed, resolution, above]
    simp only [Option.getD_some, mapM_cons, mapM_nil, resolve_used]
    rfl
  have built := build_of_compile options (by decide) (Compile.compile_call scanned) needs
  rwa [time] at built

theorem build_used (options : l.options = {}) (time : l.clock l.readings = 1) :
    l.build twinProject ⟨"/a"⟩ "" = .ok twinUsed := by
  have listed : Require.specifiers "" = [] := by decide +kernel
  have needs : dependencies l.resolution twinProject ⟨"/a"⟩ "" = .ok [] := by
    rw [dependencies, listed]
    rfl
  have kind : Compile.SourceKind.ofPath ⟨"/a"⟩ = .somon := by decide
  have built : l.build twinProject ⟨"/a"⟩ "" = _ :=
    build_of_compile options kind (by decide +kernel) needs
  rwa [time] at built

def plainLoader : Loader := .ofConfig {}

theorem loadGraph_user :
    (plainLoader.loadGraph twinProject 0 ⟨"/a.js"⟩).2 =
      .ok ⟨twinUser, [twinUsed, twinUser], [], []⟩ := by
  have first : plainLoader.loadFile twinProject 0 ⟨"/a.js"⟩ = _ :=
    loadFile_of_build rfl rfl rfl rfl (readSource_of_locate locate_user rfl)
      (build_user rfl rfl rfl)
  have second : ((plainLoader.readClock.commit twinUser).settle ⟨"/a.js"⟩).loadFile twinProject 0
      ⟨"/a"⟩ = _ :=
    loadFile_of_build rfl rfl rfl (by decide) (readSource_of_locate locate_used rfl)
      (build_used rfl rfl)
  have asks : Walk.advance ({} : Config.Loading).cyclePolicy
      ((Walk.start ⟨"/a.js"⟩).enter twinUser) =
        .need ⟨"/a"⟩ ⟨[⟨twinUser, []⟩], [⟨"/a"⟩, ⟨"/a.js"⟩], [], [], []⟩ := by
    decide +kernel
  have ends : Walk.advance ({} : Config.Loading).cyclePolicy
      (Walk.enter ⟨[⟨twinUser, []⟩], [⟨"/a"⟩, ⟨"/a.js"⟩], [], [], []⟩ twinUsed) =
        .over ⟨[], [⟨"/a"⟩, ⟨"/a.js"⟩], [twinUsed, twinUser], [], []⟩ := by
    decide +kernel
  have loading : ((plainLoader.readClock.commit twinUser).settle ⟨"/a.js"⟩).loading = {} := rfl
  have fuel : ((plainLoader.readClock.commit twinUser).settle ⟨"/a.js"⟩).reach twinProject =
      3 + 1 := rfl
  rw [loadGraph, first]
  dsimp only
  rw [Walk.finish, loading, asks]
  dsimp only
  rw [fuel]
  dsimp only
  rw [second]
  dsimp only
  rw [Walk.finish, ends]
  rfl

def plainService : Service where
  config := {}
  loader := plainLoader

theorem startService_twinProject : startService twinProject none = .ok plainService := by
  have noConfig : configPath? twinProject none = none := by
    rw [configPath?, Project.isFile, Project.target?, twinProject, locate_defaultConfig]
    rfl
  have begun : Service.start {} true = .ok plainService :=
    Service.start_eq_ok_iff.mpr ⟨by decide +kernel, rfl⟩
  rw [startService, noConfig]
  dsimp only [pure, Except.pure, bind, Except.bind]
  rw [begun]

theorem exists_compile_twinProject :
    ∃ c, (plainService.compile twinProject 0 ⟨"/a.js"⟩).2 = .ok c ∧ c.entry = ⟨"/a.js"⟩ ∧
      c.modules = [⟨⟨"/a"⟩, "", []⟩, ⟨⟨"/a.js"⟩, "require(\"./a\")", ["./a"]⟩] := by
  have graph := loadGraph_user
  have asked : plainLoader.ask (Specifier.key "/a.js" ⟨"/"⟩) 0 = (plainLoader, .ok none) := rfl
  have reported : plainLoader.report none true 0 = plainLoader := rfl
  have resolution : plainLoader.resolution = {} := rfl
  have loaded : (plainLoader.load twinProject 0 "/a.js" ⟨"/"⟩).2 =
      .ok (.graph ⟨twinUser, [twinUsed, twinUser], [], []⟩) := by
    rw [load, resolve, asked]
    dsimp only
    rw [resolution, resolve_user]
    dsimp only
    rw [reported]
    rcases answer : plainLoader.loadGraph twinProject 0 ⟨"/a.js"⟩ with ⟨l, result⟩
    rw [answer] at graph
    cases graph
    rfl
  have absolute : Service.absolute twinProject ⟨"/a.js"⟩ = .ok ⟨"/a.js"⟩ :=
    if_pos (by decide)
  have above : (Path.mk "/a.js").parent? = some ⟨"/"⟩ := by decide
  rw [Service.compile, Service.work, if_neg (by decide), Service.loadEntry, absolute]
  dsimp only [plainService]
  rw [above, Option.getD_some]
  rcases answer : plainLoader.load twinProject 0 "/a.js" ⟨"/"⟩ with ⟨l, result⟩
  rw [answer] at loaded
  cases loaded
  exact ⟨_, rfl, rfl, rfl⟩

/-- Compiling one of two files of one name loses the other. -/
theorem kept_runInvocation_iff_twins :
    ∃ s c, startService twinProject none = .ok s ∧
      ((s.sample none).1.compile twinProject 0 ⟨"/a.js"⟩).2 = .ok c ∧
      ¬ Kept (runInvocation twinProject none
        ⟨none, .compile ⟨"/a.js"⟩ (some ⟨"/o"⟩)⟩).project c ⟨"/o"⟩ := by
  obtain ⟨c, compiled, entry, modules⟩ := exists_compile_twinProject
  have tree : twinProject.IsTree := Project.isTree_of_flat (by simp [twinProject, twinsWith]) rfl
  have placed : twinProject.WellPlaced := Project.wellPlaced_of_root rfl
  refine ⟨plainService, c, startService_twinProject, compiled, fun kept => ?_⟩
  have started : startService twinProject
      (Invocation.mk none (.compile ⟨"/a.js"⟩ (some ⟨"/o"⟩))).config = .ok plainService :=
    startService_twinProject
  have parted := ((kept_runInvocation_iff tree placed started rfl rfl compiled).2.1.mp kept).2
  have root : rootOf c = ⟨"/"⟩ := by
    rw [rootOf, entry]
    decide +kernel
  have top : (Path.mk "/").components = [.root] := by decide +kernel
  have inside (m : Compiled) (absolute : m.id.isAbsolute = true) : LiesIn (rootOf c) m := by
    obtain ⟨rest, parts⟩ := head?_eq_some_iff.mp (Path.isAbsolute_iff.mp absolute)
    rw [LiesIn, root, top, parts]
    exact ⟨rest, rfl⟩
  exact parted.twins ⟨⟨"/a"⟩, "", []⟩ (by simp [modules])
    ⟨⟨"/a.js"⟩, "require(\"./a\")", ["./a"]⟩ (by simp [modules]) (inside _ (by decide +kernel))
    (inside _ (by decide +kernel)) (by decide +kernel) ⟨by decide +kernel, by decide +kernel⟩

end Twins

end Tarkib.Command
