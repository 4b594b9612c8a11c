import Tarkib.Proofs.Loader.Accounting
import Tarkib.Proofs.Module.Answered
import Tarkib.Proofs.Project.Canonical

/-!
# The files that a loader can come to

A module that is kept may have been built for a project that has changed since. All files that a
walk can come to are therefore among those of the project and those that kept modules refer to
(`reachable`). There are fewer of them than the loader is ready to load for one graph.
-/

namespace Tarkib

open List

variable {project p : Project} {path : Path} {place : List String} {content : ByteArray}

/-! ## Files of the project -/

theorem Project.mem_of_node? (found : p.node? place = some (.file content)) :
    place ∈ p.nodes.map Prod.fst := by
  unfold Project.node? at found
  split at found
  · cases found
  · obtain ⟨before, after, split, _⟩ := List.lookup_eq_some_iff.mp found
    simp [split]

/-- The components of the paths of all places of a project. -/
def Project.files (p : Project) : List Key :=
  p.nodes.map fun node => (Project.pathOf node.1).components

theorem Project.mem_files_of_canonical {path file : Path} (isFile : p.isFile path = true)
    (canonical : p.canonical path = .ok file) : file.components ∈ p.files := by
  obtain ⟨place, content, _, there, rfl⟩ := Project.exists_place_of_canonical isFile canonical
  obtain ⟨node, member, rfl⟩ := mem_map.mp (Project.mem_of_node? there)
  exact mem_map_of_mem member

namespace Config.Resolution

variable {c : Resolution} {directory file : Path} {specifier : String}

theorem exists_candidate_of_file? (found : c.file? project path = some file) :
    ∃ candidate ∈ c.candidates project path,
      project.isFile candidate = true ∧ project.canonical candidate = .ok file := by
  obtain ⟨candidate, member, here⟩ := exists_of_findSome?_eq_some found
  split at here
  · next isFile =>
      cases canonical : project.canonical candidate with
      | error fault =>
        rw [canonical] at here
        cases here
      | ok path =>
        rw [canonical] at here
        cases here
        exact ⟨candidate, member, isFile, canonical⟩
  · cases here

theorem file?_of_locate (allowed : c.allowsFile path = true)
    (located : project.locate path = .ok place)
    (there : project.node? place = some (.file content)) :
    c.file? project path = some (Project.pathOf place) := by
  have isFile : project.isFile path = true := by
    rw [Project.isFile, Project.target?, located]
    dsimp only
    rw [there]
  rw [file?, candidates, if_pos allowed, singleton_append, findSome?_cons, if_pos isFile,
    Project.canonical, located]
  rfl

theorem resolve_of_absolute (kind : Specifier.kind specifier = .absolute)
    (found : c.file? project ⟨specifier⟩ = some file) :
    c.resolve project specifier directory = .ok (.file file) := by
  rw [resolve, kind]
  dsimp only
  rw [resolvePath, found]

theorem resolve_of_relative (kind : Specifier.kind specifier = .relative)
    (found : c.file? project (directory.join specifier) = some file) :
    c.resolve project specifier directory = .ok (.file file) := by
  rw [resolve, kind]
  dsimp only
  rw [resolvePath, found]

theorem file?_of_resolvePath
    (resolved : c.resolvePath project path specifier directory = .ok (.file file)) :
    c.file? project path = some file := by
  unfold resolvePath at resolved
  split at resolved
  · next found =>
      cases resolved
      exact found
  · cases resolved

theorem exists_path_of_resolveBare
    (resolved : c.resolveBare project specifier directory = .ok (.file file)) :
    ∃ path, c.file? project path = some file := by
  unfold resolveBare at resolved
  split at resolved
  · split at resolved
    · next found =>
        cases resolved
        obtain ⟨target, _, here⟩ := exists_of_findSome?_eq_some found
        exact ⟨_, here⟩
    · cases resolved
  · split at resolved
    · next found =>
        cases resolved
        obtain ⟨path, _, here⟩ := exists_of_findSome?_eq_some found
        exact ⟨path, here⟩
    · cases resolved

variable (resolved : c.resolve project specifier directory = .ok (.file file))
include resolved

theorem exists_path_of_resolve : ∃ path, c.file? project path = some file := by
  unfold resolve at resolved
  split at resolved
  · exact ⟨_, file?_of_resolvePath resolved⟩
  · exact ⟨_, file?_of_resolvePath resolved⟩
  · exact exists_path_of_resolveBare resolved

theorem exists_canonical_of_resolve :
    ∃ candidate, project.isFile candidate = true ∧ project.canonical candidate = .ok file := by
  obtain ⟨path, found⟩ := exists_path_of_resolve resolved
  obtain ⟨candidate, _, there⟩ := exists_candidate_of_file? found
  exact ⟨candidate, there⟩

/-- Specifiers are resolved to files of the project. -/
theorem mem_files_of_resolve : file.components ∈ project.files := by
  obtain ⟨candidate, isFile, canonical⟩ := exists_canonical_of_resolve resolved
  exact Project.mem_files_of_canonical isFile canonical

end Config.Resolution

namespace Loader

open Walk (Tied)

/-! ## Modules that are built -/

theorem dependencies_eq_ok {c : Config.Resolution} {code : String} {found : List Dependency}
    (resolved : dependencies c project path code = .ok found) :
    found.map Dependency.specifier = Require.specifiers code ∧
      ∀ d ∈ found, c.resolve project d.specifier (path.parent?.getD path) = .ok d.target := by
  unfold dependencies at resolved
  have each : List.Forall₂ (fun specifier d => d.specifier = specifier ∧
      c.resolve project specifier (path.parent?.getD path) = .ok d.target)
      (Require.specifiers code) found := by
    refine (mapM_eq_ok_iff.mp resolved).imp fun specifier d here => ?_
    split at here
    · next target leads =>
        cases here
        exact ⟨rfl, leads⟩
    · cases here
  constructor
  · have names := each.flip.imp fun d specifier here => here.1
    exact forall₂_eq_eq_eq ▸ forall₂_map_left_iff.mpr names
  · intro d member
    obtain ⟨specifier, _, rfl, leads⟩ := exists_of_mem_left each.flip d member
    exact leads

variable {l : Loader} {m : Module} {now : Nat}

/-- A module that is built refers to files of the project only. -/
theorem tied_of_build {source : String} (built : l.build project path source = .ok m) :
    Tied project.files m := by
  obtain ⟨_, _, _, resolved⟩ := build_eq_ok built
  intro target listed
  obtain ⟨d, member, leads⟩ := Module.mem_localTargets.mp listed
  have means := (dependencies_eq_ok resolved).2 d member
  rw [leads] at means
  exact Config.Resolution.mem_files_of_resolve means

theorem tied_of_attempt (loaded : (l.attempt project now path).2 = .ok m) :
    Tied project.files m := by
  obtain ⟨_, _, _, _, built⟩ := attempt_eq_ok loaded
  exact tied_of_build built

/-! ## Modules that are kept -/

theorem cache_invalidate_subset (l : Loader) (p : Path) : (l.invalidate p).1.cache ⊆ l.cache := by
  unfold invalidate
  split
  · exact List.Subset.refl _
  · rw [cache_forget]
    exact filter_sublist.subset

theorem cache_settle_subset (l : Loader) (keep : Path) : (l.settle keep).cache ⊆ l.cache := by
  refine of_settle (P := fun l' => l'.cache ⊆ l.cache) ?_ keep (List.Subset.refl _)
  exact fun l' m subset => List.Subset.trans (cache_invalidate_subset l' m.id) subset

/-- The modules that are kept refer to known files. -/
def Kept (known : List Key) (l : Loader) : Prop :=
  ∀ m ∈ l.cache, Tied known m

theorem loadFile_eq_ok (loaded : (l.loadFile project now path).2 = .ok m) :
    m.id.same path = true ∧ (m ∈ l.cache ∨ ∃ l', l.attempt project now path = (l', .ok m)) := by
  unfold Loader.loadFile at loaded
  split at loaded
  · next found =>
      cases loaded
      obtain ⟨member, same⟩ := cached?_eq_some found
      exact ⟨same, .inl member⟩
  · split at loaded
    · next l' built attempted =>
        cases loaded
        refine ⟨?_, .inr ⟨l', attempted⟩⟩
        rw [id_of_attempt attempted]
        exact Path.same_refl path
    · cases loaded

theorem tied_or_mem_of_loadFile (loaded : (l.loadFile project now path).2 = .ok m) :
    Tied project.files m ∨ m ∈ l.cache ∧ m ∈ (l.loadFile project now path).1.cache := by
  unfold Loader.loadFile at loaded ⊢
  split at loaded
  · next found =>
      cases loaded
      have member := (cached?_eq_some found).1
      exact .inr ⟨member, member⟩
  · split at loaded
    · next attempted =>
        cases loaded
        exact .inl (tied_of_attempt (by rw [attempted]))
    · cases loaded

theorem mem_cache_loadFile (member : m ∈ (l.loadFile project now path).1.cache) :
    m ∈ l.cache ∨ (l.loadFile project now path).2 = .ok m := by
  have caches := cache_attempt l project now path
  unfold Loader.loadFile at member ⊢
  cases found : l.cached? path with
  | some kept =>
    rw [found] at member
    exact .inl member
  | none =>
    rw [found] at member
    dsimp only at member ⊢
    rcases attempted : l.attempt project now path with ⟨l', e | loaded⟩
    · rw [attempted] at member caches
      exact .inl (caches ▸ member)
    · rw [attempted] at member caches
      have committed := cache_settle_subset _ _ member
      unfold commit at committed
      dsimp only at committed
      split at committed
      · rcases mem_append.mp committed with old | new
        · exact .inl (caches ▸ old)
        · rw [mem_singleton.mp new]
          exact .inr rfl
      · exact .inl (caches ▸ committed)

/-- Loading a file does not add to the files that can be reached. -/
theorem Kept.loadFile {known : List Key} (kept : Kept known l) (files : project.files ⊆ known)
    (now : Nat) (path : Path) :
    Kept known (l.loadFile project now path).1 ∧
      ∀ m, (l.loadFile project now path).2 = .ok m → Tied known m := by
  have tied (m : Module) (loaded : (l.loadFile project now path).2 = .ok m) : Tied known m := by
    rcases tied_or_mem_of_loadFile loaded with built | ⟨member, _⟩
    · exact fun target listed => files (built target listed)
    · exact kept m member
  refine ⟨?_, tied⟩
  intro m member
  rcases mem_cache_loadFile member with old | loaded
  · exact kept m old
  · exact tied m loaded

/-- The files that a walk can come to. -/
def reachable (l : Loader) (project : Project) : List Key :=
  project.files ++ (l.cache.flatMap Module.localTargets).map Path.components

theorem kept_reachable (l : Loader) (project : Project) : Kept (l.reachable project) l := by
  intro m member target listed
  refine mem_append_right _ (mem_map_of_mem ?_)
  exact mem_flatMap.mpr ⟨m, member, listed⟩

/-- The walk may load one file more than can be reached. -/
theorem length_reachable (l : Loader) (project : Project) :
    (l.reachable project).length + 1 = l.reach project := by
  simp [reachable, reach, Project.files]

end Loader

end Tarkib
