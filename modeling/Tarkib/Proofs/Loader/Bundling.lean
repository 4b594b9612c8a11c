import Tarkib.Proofs.Bundle.Outcome
import Tarkib.Proofs.Compile.Translation
import Tarkib.Proofs.Loader.Arising
import Tarkib.Proofs.Loader.Graph
import Tarkib.Proofs.Module.Closed
import Tarkib.Proofs.Project.Following

/-!
# When an entry can be bundled

The entry of a graph has a canonical path, so there is a way to each of its modules from the
directory of the entry, and nothing is missing in the graph. So whether the entry can be bundled is
decided by the calls in the codes alone.
-/

namespace Tarkib.Loader

variable {g : Graph} {project : Project} {path : Path} {m : Module} {l : Loader}

/-- What is known of a module of a graph. -/
def Found (m : Module) : Prop :=
  m.WellBuilt ∧ m.id.isAbsolute = true

namespace Reliable

variable {now : Nat}

theorem found_of_loadFile (reliable : l.Reliable) (absolute : path.isAbsolute = true)
    (loaded : (l.loadFile project now path).2 = .ok m) : Found m ∧ m.id.same path = true := by
  obtain ⟨built, same⟩ := reliable.of_loadFile loaded
  refine ⟨⟨built, ?_⟩, same⟩
  rw [Path.isAbsolute_iff, Path.same_iff.mp same]
  exact Path.isAbsolute_iff.mp absolute

/-- The modules of a graph are well built, and every file that they refer to is among them. -/
theorem graph (reliable : l.Reliable) {entry : Path} (absolute : entry.isAbsolute = true)
    (loaded : (l.loadGraph project now entry).2 = .ok g) :
    (∀ m ∈ g.modules, Found m) ∧
      (∀ m ∈ g.modules, ∀ path ∈ m.localTargets, ∃ n ∈ g.modules, n.id.same path = true) ∧
      entry.components ≠ [.root] := by
  have kept := reliable.loadFile project now entry
  unfold Loader.loadGraph at loaded
  rcases answer : l.loadFile project now entry with ⟨l', e | first⟩
  · rw [answer] at loaded
    cases loaded
  · rw [answer] at loaded kept
    obtain ⟨found, own⟩ :=
      reliable.found_of_loadFile absolute (congrArg Prod.snd answer)
    have loads (s : Loader) (m : Module) (path : Path) (still : s.Reliable) (user : Found m)
        (target : path ∈ m.localTargets) : (s.loadFile project now path).1.Reliable ∧
          ∀ n, (s.loadFile project now path).2 = .ok n → Found n ∧ n.id.same path = true :=
      ⟨still.loadFile project now path,
        fun n => still.found_of_loadFile (user.1.absolute path target)⟩
    obtain ⟨last, closed, ended, rfl⟩ :=
      Walk.Closed.finish (Q := Reliable) loads kept (.start found own) loaded
    obtain ⟨every, listed⟩ := closed.listed_of_over ended
    refine ⟨every, listed, ?_⟩
    rw [← Path.same_iff.mp own]
    exact found.1.below

/-- Nothing is missing in the graph. -/
theorem complete (reliable : l.Reliable) (placed : project.WellPlaced) {path entry : Path}
    (canonical : project.canonical path = .ok entry)
    (loaded : (l.loadGraph project now entry).2 = .ok g) :
    ∃ root, entry.parent? = some root ∧ Bundle.Complete root g.modules := by
  have absolute := Project.isAbsolute_of_canonical canonical
  obtain ⟨every, listed, deep⟩ := reliable.graph absolute loaded
  obtain ⟨place, names⟩ := Project.components_of_canonical placed canonical
  obtain ⟨root, above, components⟩ := Path.exists_parent? absolute deep
  refine ⟨root, above, ?_, fun m member => (every m member).1.specifiers, listed⟩
  intro m member
  -- Both paths start at the root, and the directory is written without dots.
  have some : place ≠ [] := by
    rintro rfl
    exact deep names
  have base : root.components = [.root] ++ (place.map Component.name).dropLast := by
    rw [components, names, List.dropLast_cons_of_ne_nil (by simpa using some)]
    rfl
  have straight : .up ∉ (place.map Component.name).dropLast := by
    intro inside
    simpa using List.dropLast_subset _ inside
  obtain ⟨rest, start⟩ : ∃ rest, m.id.components = [.root] ++ rest :=
    List.head?_eq_some_iff.mp (Path.isAbsolute_iff.mp (every m member).2)
  obtain ⟨way, found⟩ := Option.isSome_iff_exists.mp (Path.isSome_wayBetween false rest straight)
  rw [Bundle.id?_eq, Path.relativeTo?_eq_wayBetween rfl start base, found]
  exact ⟨_, rfl⟩

end Reliable

/-- Bundling an entry is loading its graph and putting it together. -/
theorem bundle_eq_mapError {now : Nat} {request : Bundle.Request}
    (format : request.format = "commonjs") {entry root : Path}
    (canonical : project.canonical request.entry = .ok entry) (above : entry.parent? = some root)
    (loaded : (l.loadGraph project now entry).2 = .ok g) :
    (l.bundle project now request).2 = (Bundle.ofGraph root request g).mapError .bundle := by
  unfold Loader.bundle
  rw [if_neg (not_not_intro format), canonical]
  dsimp only
  rw [above]
  rcases answer : l.loadGraph project now entry with ⟨l', result⟩
  rw [answer] at loaded
  cases loaded
  dsimp only
  cases Bundle.ofGraph root request g <;> rfl

/-- **Bundling fails only for declared reasons.** Let a loader that can arise load the graph of the
canonical entry of a request that asks for the known format and no shortening. There is a bundle if
and only if every call in the code of every module has a literal argument, and those that mean a
library mean a declared one. If there is none, the fault is that of such a call: its argument is
computed, has substitutions, or means a library that was not declared. In particular a specifier is
never found to be unresolved, nor a file to be missing. What is asked of the working directory
matters for relative entries only. -/
theorem bundle_ok_iff_calls_admitted {l : Loader} (arises : l.Arises) {project : Project}
    (placed : project.WellPlaced) {now : Nat} {request : Bundle.Request}
    (format : request.format = "commonjs") (plain : request.minify = false) {entry : Path}
    (canonical : project.canonical request.entry = .ok entry) {g : Graph}
    (loaded : (l.loadGraph project now entry).2 = .ok g) :
    ((∃ b, (l.bundle project now request).2 = .ok b) ↔
        ∀ m ∈ g.modules, ∀ call ∈ Require.calls m.code, Bundle.Admits request.externals m call) ∧
      (∀ e, (l.bundle project now request).2 = .error e →
        ∃ fault, e = .bundle fault ∧ ∃ root, entry.parent? = some root ∧
          ∃ m ∈ g.modules, ∃ id, Bundle.id? root m.id = some id ∧
            ∃ call ∈ Require.calls m.code, Bundle.Blocks request.externals m id call fault) ∧
      ∀ specifier id,
        (l.bundle project now request).2 ≠ .error (.bundle (.neverResolved specifier id)) ∧
        (l.bundle project now request).2 ≠ .error (.bundle (.notLoaded specifier id)) := by
  obtain ⟨root, above, complete⟩ := arises.reliable.complete placed canonical loaded
  have result := bundle_eq_mapError format canonical above loaded
  have blamed (e : Error) (failed : (l.bundle project now request).2 = .error e) :
      ∃ fault, e = .bundle fault ∧ ∃ root, entry.parent? = some root ∧
        ∃ m ∈ g.modules, ∃ id, Bundle.id? root m.id = some id ∧
          ∃ call ∈ Require.calls m.code, Bundle.Blocks request.externals m id call fault := by
    cases made : Bundle.ofGraph root request g with
    | ok b =>
      rw [result, made] at failed
      cases failed
    | error fault =>
      rw [result, made] at failed
      cases failed
      exact ⟨fault, rfl, root, above, complete.ofGraph_eq_error plain made⟩
  refine ⟨?_, blamed, ?_⟩
  · rw [← complete.exists_ofGraph_iff plain, result]
    cases Bundle.ofGraph root request g <;> simp [Except.mapError]
  · intro specifier id
    constructor
    all_goals
      intro failed
      obtain ⟨fault, same, _, _, _, _, _, _, _, _, blocks⟩ := blamed _ failed
      cases same
      cases blocks

theorem loadGraph_of_over {source : String} {w : Walk}
    (readable : readSource project path = .ok source)
    (built : (Loader.count {} .cacheMisses).build project path source = .ok m)
    (ended : Walk.advance ({} : Config.Loading).cyclePolicy ((Walk.start path).enter m) = .over w) :
    (Loader.loadGraph {} project 0 path).2 = .ok (w.graph m) := by
  have first : Loader.loadFile {} project 0 path = _ :=
    loadFile_of_build rfl rfl rfl rfl readable built
  have loading := loading_loadFile {} project 0 path
  rw [first] at loading
  unfold loadGraph
  rw [first]
  dsimp only at loading ⊢
  rw [loading, Walk.finish, ended]

theorem locate_lone {content : ByteArray} :
    ({ nodes := [(["a.js"], .file content)] } : Project).locate ⟨"/a.js"⟩ = .ok ["a.js"] :=
  Project.locate_of_file (by decide) rfl

theorem readSource_lone (source : String) :
    readSource { nodes := [(["a.js"], .file source.toUTF8)] } ⟨"/a.js"⟩ = .ok source :=
  readSource_of_locate locate_lone rfl

/-- A module that needs a library. -/
def reader : Module where
  id := ⟨"/a.js"⟩
  source := "require(\"fs\")"
  code := "require(\"fs\")"
  dependencies := [⟨"fs", .external "fs"⟩]

/-- The project with its file alone. -/
def readerProject : Project where
  nodes := [(["a.js"], .file "require(\"fs\")".toUTF8)]

theorem scan_reader : Token.scan "require(\"fs\")" = Compile.callTokens "fs" "\"fs\"" := by
  decide +kernel

theorem specifiers_reader : Require.specifiers "require(\"fs\")" = ["fs"] := by decide +kernel

theorem build_reader (resolution : l.resolution = {}) (options : l.options = {})
    (time : l.clock l.readings = 0) :
    l.build readerProject ⟨"/a.js"⟩ "require(\"fs\")" = .ok reader := by
  have kind : Specifier.kind "fs" = .bare := by decide +kernel
  have above : (Path.mk "/a.js").parent? = some ⟨"/"⟩ := by decide
  have resolved : Config.Resolution.resolve {} readerProject "fs" ⟨"/"⟩ = .ok (.external "fs") := by
    have nowhere : (Config.Resolution.modulePaths {} "fs" ⟨"/"⟩).findSome?
        (Config.Resolution.file? {} readerProject) = none := by decide +kernel
    have unaliased : Config.Resolution.aliasTargets? {} "fs" = none := by
      simp [Config.Resolution.aliasTargets?]
    rw [Config.Resolution.resolve, kind]
    dsimp only
    rw [Config.Resolution.resolveBare, unaliased]
    dsimp only
    rw [nowhere]
  have needs : dependencies l.resolution readerProject ⟨"/a.js"⟩ "require(\"fs\")" =
      .ok [⟨"fs", .external "fs"⟩] := by
    rw [dependencies, specifiers_reader, resolution, above]
    simp only [Option.getD_some, List.mapM_cons, List.mapM_nil, resolved]
    rfl
  have built := build_of_compile options (by decide) (Compile.compile_call scan_reader) needs
  rwa [time] at built

theorem loadGraph_reader :
    (Loader.loadGraph {} readerProject 0 ⟨"/a.js"⟩).2 = .ok ⟨reader, [reader], ["fs"], []⟩ := by
  have ended : Walk.advance ({} : Config.Loading).cyclePolicy
      ((Walk.start ⟨"/a.js"⟩).enter reader) =
        .over ⟨[], [⟨"/a.js"⟩], [reader], ["fs"], []⟩ := by decide +kernel
  exact loadGraph_of_over (readSource_lone _) (build_reader rfl rfl rfl) ended

/-- A module that needs a library is bundled exactly if the library is declared. -/
theorem bundle_ok_iff_calls_admitted_library :
    (∃ b, (Loader.bundle {} readerProject 0 { entry := ⟨"/a.js"⟩, externals := ["fs"] }).2 =
        .ok b) ∧
      ¬ ∃ b, (Loader.bundle {} readerProject 0 { entry := ⟨"/a.js"⟩ }).2 = .ok b := by
  have placed : readerProject.WellPlaced := Project.wellPlaced_of_root rfl
  have canonical : readerProject.canonical ⟨"/a.js"⟩ = .ok ⟨"/a.js"⟩ := by
    rw [Project.canonical, readerProject, locate_lone]
    rfl
  have calls : Require.calls "require(\"fs\")" = [⟨.literal "fs", 8, 12, ⟨1, 1⟩⟩] := by
    decide +kernel
  have decides (externals : List String) :
      (∃ b, (Loader.bundle {} readerProject 0 { entry := ⟨"/a.js"⟩, externals }).2 = .ok b) ↔
        "fs" ∈ externals := by
    refine (bundle_ok_iff_calls_admitted (.new rfl) placed rfl rfl canonical
      loadGraph_reader).1.trans ?_
    simp [reader, calls, Bundle.Admits]
  exact ⟨(decides ["fs"]).mpr (by decide), mt (decides []).mp (by decide)⟩

end Tarkib.Loader
