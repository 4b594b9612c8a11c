import Tarkib.Proofs.Bundle.Mapped
import Tarkib.Proofs.Loader.Bundling

/-!
# When the map of a bundle stays inside the sources

The sources of a map are those of the modules, and every segment names one of them. The line it
names is the number of a line of the linked code, and this code has the lines of the source, those
that compiling adds, and fewer for each argument of several lines that linking replaces.
-/

namespace Tarkib

open Text

/-- The source that an origin points to. -/
def SourceMap.Origin.sourceIn? (sources : List Source) (origin : Origin) : Option Source :=
  if 0 ≤ origin.source then sources[origin.source.toNat]? else none

/-- There is a source with the number of the origin, and it has the line of the origin. -/
def SourceMap.Origin.LiesIn (sources : List Source) (origin : Origin) : Prop :=
  ∃ source, origin.sourceIn? sources = some source ∧
    0 ≤ origin.line ∧ origin.line < lineFeedCount source.content + 1

/-- Compiling adds at most as many lines to the module as linking removes. -/
def Module.GainsNoLines (m : Module) : Prop :=
  ∀ options, m.CompiledWith options → options.kind ≠ .json →
    Compile.addedFeeds options m.source ≤ Bundle.removedFeeds m

theorem Module.WellBuilt.gainsNoLines_iff {m : Module} (built : m.WellBuilt) :
    m.GainsNoLines ↔ lineFeedCount m.code ≤ lineFeedCount m.source + Bundle.removedFeeds m := by
  have gained {options : Compile.Options} (compiled : m.CompiledWith options)
      (other : options.kind ≠ .json) : lineFeedCount m.code =
        lineFeedCount m.source + Compile.addedFeeds options m.source := by
    rw [compiled.2, Compile.lineFeedCount_compile other]
  constructor
  · intro few
    obtain ⟨options, compiled⟩ := built.compiled
    by_cases json : options.kind = .json
    · have kept : lineFeedCount m.code ≤ lineFeedCount m.source := by
        rw [compiled.2]
        exact Compile.lineFeedCount_compile_json json
      omega
    · have bound := few options compiled json
      rw [gained compiled json]
      omega
  · intro bound options compiled other
    rw [gained compiled other] at bound
    omega

namespace Loader

variable {l : Loader} {project : Project} {now : Nat} {request : Bundle.Request}

/-- A bundle is made from the graph of its entry. -/
theorem exists_ofGraph_of_bundle {entry : Path}
    (canonical : project.canonical request.entry = .ok entry) {g : Graph}
    (loaded : (l.loadGraph project now entry).2 = .ok g) {b : Bundle}
    (made : (l.bundle project now request).2 = .ok b) :
    ∃ root, Bundle.ofGraph root request g = .ok b := by
  by_cases format : request.format = "commonjs"
  · cases above : entry.parent? with
    | none =>
      unfold Loader.bundle at made
      rw [if_neg (not_not_intro format), canonical] at made
      dsimp only at made
      rw [above] at made
      cases made
    | some root =>
      rw [bundle_eq_mapError format canonical above loaded] at made
      cases result : Bundle.ofGraph root request g with
      | error fault =>
        rw [result] at made
        cases made
      | ok own =>
        rw [result] at made
        cases made
        exact ⟨root, result⟩
  · unfold Loader.bundle at made
    rw [if_pos format] at made
    cases made

/-- **When a source map stays inside the sources.** Let a loader that can arise bundle an entry with
a source map, and let the number of modules and their numbers of lines fit into 63 bits. Then the
map can be read, its sources are those of the modules, and every segment names one of them. Every
segment names a line that its source has if and only if compiling adds at most as many lines to each
module as linking removes. JSON modules never gain lines, all others gain one for each name that is
exported by a line at the end, and more if the specifier of a declaration that is replaced is
written over several lines. -/
theorem bundle_map_inside_iff (arises : l.Arises) {entry : Path}
    (canonical : project.canonical request.entry = .ok entry) {g : Graph}
    (loaded : (l.loadGraph project now entry).2 = .ok g) {b : Bundle}
    (made : (l.bundle project now request).2 = .ok b) (mapped : request.sourceMaps = true)
    (few : g.modules.length ≤ 2 ^ 63) (short : ∀ m ∈ g.modules, lineFeedCount m.code < 2 ^ 63) :
    ∃ map lines, b.map = some (SourceMap.render map request.inlineSources) ∧
      SourceMap.read? map.mappings = some lines ∧
      map.sources.map SourceMap.Source.content = g.modules.map Module.source ∧
      (∀ segment ∈ lines.flatten, ∃ origin source,
        segment.origin = some origin ∧ origin.sourceIn? map.sources = some source) ∧
      ((∀ segment ∈ lines.flatten, ∀ origin, segment.origin = some origin →
          origin.LiesIn map.sources) ↔
        ∀ m ∈ g.modules, m.GainsNoLines) := by
  obtain ⟨root, graph⟩ := exists_ofGraph_of_bundle canonical loaded made
  obtain ⟨map, rendered, contents, within, reached⟩ := Bundle.exists_map_of_ofGraph graph mapped
  obtain ⟨every, _, _⟩ :=
    arises.reliable.graph (Project.isAbsolute_of_canonical canonical) loaded
  have small : ∀ n place, map.placeAt n = some place → place.IsSmall := by
    intro n place held
    obtain ⟨m, found, last⟩ := within n place held
    have inside := (List.getElem?_eq_some_iff.mp found).1
    have lines := short m (List.mem_of_getElem? found)
    exact ⟨by omega, by omega⟩
  obtain ⟨lines, read, segments⟩ := SourceMap.exists_read?_mappings small
  -- The source with the number of a module has its text.
  have source {i : Nat} {m : Module} (found : g.modules[i]? = some m) :
      ∃ source, map.sources[i]? = some source ∧ source.content = m.source := by
    have same := congrArg (·[i]?) contents
    simpa [found] using same
  refine ⟨map, lines, rendered, read, contents, ?_, ?_⟩
  · intro segment member
    obtain ⟨n, place, held, rfl⟩ := (SourceMap.mem_flatten_iff segments).mp member
    obtain ⟨m, found, _⟩ := within n place held
    obtain ⟨own, there, _⟩ := source found
    exact ⟨_, own, rfl, by simpa [SourceMap.Origin.sourceIn?] using there⟩
  · constructor
    · intro inside m member
      obtain ⟨i, found⟩ := List.mem_iff_getElem?.mp member
      obtain ⟨n, line, held, last⟩ := reached i m found
      obtain ⟨own, there, same⟩ := source found
      have segment := (SourceMap.mem_flatten_iff segments).mpr ⟨n, _, held, rfl⟩
      obtain ⟨other, here, _, bound⟩ := inside _ segment _ rfl
      have again : some own = some other := by
        rw [← there, ← here]
        simp [SourceMap.Origin.sourceIn?]
      cases again
      rw [same] at bound
      dsimp only at bound
      rw [(every m member).1.gainsNoLines_iff]
      omega
    · intro none segment member origin points
      obtain ⟨n, place, held, rfl⟩ := (SourceMap.mem_flatten_iff segments).mp member
      cases points
      obtain ⟨m, found, last⟩ := within n place held
      obtain ⟨own, there, same⟩ := source found
      have inside := List.mem_of_getElem? found
      have bound := (every m inside).1.gainsNoLines_iff.mp (none m inside)
      refine ⟨own, by simpa [SourceMap.Origin.sourceIn?] using there, Int.natCast_nonneg _, ?_⟩
      rw [same]
      dsimp only
      omega

def exporter : Module where
  id := ⟨"/a.js"⟩
  source := "export \x7ba\x7d"
  code := "Object.defineProperty(exports, \"__esModule\", \x7b value: true \x7d); \nexports.a = a;"
  dependencies := []

/-- The project with its file alone. -/
def exporterProject : Project where
  nodes := [(["a.js"], .file exporter.source.toUTF8)]

theorem exporter_computed :
    Compile.SourceKind.ofPath exporter.id = .javascript ∧
      Compile.compile { kind := .javascript } exporter.source = ⟨exporter.code, [], []⟩ ∧
      Require.calls exporter.code = [] ∧
      Walk.advance ({} : Config.Loading).cyclePolicy ((Walk.start exporter.id).enter exporter) =
        .over ⟨[], [exporter.id], [exporter], [], []⟩ ∧
      lineFeedCount exporter.source = 0 ∧ lineFeedCount exporter.code = 1 := by
  decide +kernel

theorem build_exporter {l : Loader} (options : l.options = {}) (time : l.clock l.readings = 0) :
    l.build exporterProject exporter.id exporter.source = .ok exporter := by
  obtain ⟨kind, compiled, calls, _⟩ := exporter_computed
  have listed : Require.specifiers exporter.code = [] := by
    rw [Require.specifiers, calls]
    rfl
  have needs : dependencies l.resolution exporterProject exporter.id exporter.code = .ok [] := by
    rw [dependencies, listed]
    rfl
  have built := build_of_compile options kind compiled needs
  rwa [time] at built

theorem loadGraph_exporter :
    (Loader.loadGraph {} exporterProject 0 exporter.id).2 = .ok ⟨exporter, [exporter], [], []⟩ := by
  obtain ⟨_, _, _, ended, _⟩ := exporter_computed
  exact loadGraph_of_over (readSource_lone _) (build_exporter rfl rfl) ended

theorem not_gainsNoLines_exporter : ¬ exporter.GainsNoLines := by
  obtain ⟨kind, compiled, calls, _, sourceFeeds, codeFeeds⟩ := exporter_computed
  have lines : lineFeedCount (Compile.compile { kind := .javascript } exporter.source).code =
      lineFeedCount exporter.source + Compile.addedFeeds { kind := .javascript } exporter.source :=
    Compile.lineFeedCount_compile (by decide)
  have removed : Bundle.removedFeeds exporter = 0 := by
    rw [Bundle.removedFeeds, calls]
    rfl
  rw [compiled, sourceFeeds, codeFeeds] at lines
  intro none
  have bound := none { kind := .javascript } ⟨kind.symm, by rw [compiled]⟩ (by decide)
  omega

/-- The line that exports the name comes from no line of the source, and the map names one that is
not there. -/
theorem bundle_map_inside_iff_exporter :
    ∃ b map lines,
      (Loader.bundle {} exporterProject 0 { entry := ⟨"/a.js"⟩, sourceMaps := true }).2 = .ok b ∧
      b.map = some (SourceMap.render map false) ∧ SourceMap.read? map.mappings = some lines ∧
      map.sources.map SourceMap.Source.content = ["export \x7ba\x7d"] ∧
      ∃ segment ∈ lines.flatten, ∃ origin, segment.origin = some origin ∧
        ¬ origin.LiesIn map.sources := by
  obtain ⟨_, _, calls, _, _, feeds⟩ := exporter_computed
  have placed : exporterProject.WellPlaced := Project.wellPlaced_of_root rfl
  have canonical : exporterProject.canonical ⟨"/a.js"⟩ = .ok ⟨"/a.js"⟩ := by
    rw [Project.canonical, exporterProject, locate_lone]
    rfl
  have arises : Loader.Arises {} := .new rfl
  obtain ⟨root, above, complete⟩ := arises.reliable.complete placed canonical loadGraph_exporter
  obtain ⟨b, made⟩ : ∃ b, (Loader.bundle {} exporterProject 0
      { entry := ⟨"/a.js"⟩, sourceMaps := true }).2 = .ok b := by
    have whole : ∃ b, Bundle.ofGraph root { entry := ⟨"/a.js"⟩, sourceMaps := true }
        ⟨exporter, [exporter], [], []⟩ = .ok b := by
      refine (complete.exists_ofGraph_iff rfl).mpr ?_
      simp [calls]
    obtain ⟨b, whole⟩ := whole
    refine ⟨b, ?_⟩
    rw [bundle_eq_mapError rfl canonical above loadGraph_exporter, whole]
    rfl
  have short : ∀ m ∈ [exporter], lineFeedCount m.code < 2 ^ 63 := by
    intro m member
    rw [List.mem_singleton.mp member, feeds]
    decide
  obtain ⟨map, lines, rendered, read, contents, _, inside⟩ :=
    bundle_map_inside_iff arises canonical loadGraph_exporter made rfl (by decide) short
  have outside := mt inside.mp (by simpa using not_gainsNoLines_exporter)
  push Not at outside
  exact ⟨b, map, lines, made, rendered, read, contents, outside⟩

end Loader

end Tarkib
