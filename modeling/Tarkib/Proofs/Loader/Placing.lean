import Tarkib.Proofs.Loader.Arising
import Tarkib.Proofs.Module.Closed
import Tarkib.Service

/-!
# Where the files of a compilation are

A service that keeps nothing yet compiles an entry from the files of the project as it is. The
modules of the result are therefore different files of this project, known by paths that are
absolute and have neither dots nor links in them.
-/

namespace Tarkib

variable {project : Project} {path : Path} {now : Nat} {g : Graph} {specifier : String}

/-- The path is the plain path of a file of the project. -/
def Project.Stores (p : Project) (path : Path) : Prop :=
  ∃ place content, path.components = .root :: place.map .name ∧
    (∀ name ∈ place, (Component.name name).IsStep) ∧ p.node? place = some (.file content)

theorem Project.stores_of_canonical {p : Project} (placed : p.WellPlaced) {path file : Path}
    (isFile : p.isFile path = true) (canonical : p.canonical path = .ok file) : p.Stores file := by
  obtain ⟨place, content, located, there, rfl⟩ := exists_place_of_canonical isFile canonical
  have steps := isStep_of_locate placed located
  exact ⟨place, content, components_pathOf steps, steps, there⟩

/-- Specifiers are resolved to such paths. -/
theorem Config.Resolution.stores_of_resolve {c : Config.Resolution} (placed : project.WellPlaced)
    {directory file : Path} (resolved : c.resolve project specifier directory = .ok (.file file)) :
    project.Stores file := by
  obtain ⟨candidate, isFile, canonical⟩ := exists_canonical_of_resolve resolved
  exact Project.stores_of_canonical placed isFile canonical

/-- The module is a file of the project, and so are the files that it refers to. -/
structure Module.Stored (project : Project) (m : Module) : Prop where
  own : project.Stores m.id
  targets : ∀ path ∈ m.localTargets, project.Stores path

/-- The modules of the graph are different files of the project. -/
structure Graph.Stored (project : Project) (g : Graph) : Prop where
  entry : project.Stores g.entry.id
  modules : ∀ m ∈ g.modules, project.Stores m.id
  distinct : g.modules.Pairwise fun m n => m.id.same n.id = false

/-- The modules of the compilation are different files of the project. -/
structure Compilation.Stored (project : Project) (c : Compilation) : Prop where
  entry : project.Stores c.entry
  modules : ∀ m ∈ c.modules, project.Stores m.id
  distinct : c.modules.Pairwise fun m n => m.id.same n.id = false

namespace Loader

theorem stored_of_attempt {l : Loader} (placed : project.WellPlaced) (stores : project.Stores path)
    {m : Module} (loaded : (l.attempt project now path).2 = .ok m) : m.Stored project := by
  obtain ⟨_, _, _, _, built⟩ := attempt_eq_ok loaded
  obtain ⟨rfl, _, _, resolved⟩ := build_eq_ok built
  refine ⟨stores, fun target listed => ?_⟩
  obtain ⟨d, member, leads⟩ := Module.mem_localTargets.mp listed
  have means := (dependencies_eq_ok resolved).2 d member
  rw [leads] at means
  exact Config.Resolution.stores_of_resolve placed means

/-- The modules that are kept are files of the project. -/
def Stocked (project : Project) (l : Loader) : Prop :=
  ∀ m ∈ l.cache, m.Stored project

namespace Stocked

variable {l l' : Loader} (stocked : l.Stocked project)
include stocked

theorem of_store (stores : l'.store = l.store) : l'.Stocked project := by
  have caches : l'.cache = l.cache := congrArg Store.cache stores
  intro m member
  exact stocked m (caches ▸ member)

variable (placed : project.WellPlaced)
include placed

/-- The modules at these paths refer to others by such paths. -/
theorem loadFile (now : Nat) (stores : project.Stores path) :
    (l.loadFile project now path).1.Stocked project ∧
      ∀ m, (l.loadFile project now path).2 = .ok m → m.Stored project ∧ m.id.same path = true := by
  have loads (m : Module) (loaded : (l.loadFile project now path).2 = .ok m) :
      m.Stored project ∧ m.id.same path = true := by
    obtain ⟨same, member | ⟨l', attempted⟩⟩ := loadFile_eq_ok loaded
    · exact ⟨stocked m member, same⟩
    · exact ⟨stored_of_attempt placed stores (congrArg Prod.snd attempted), same⟩
  refine ⟨fun m member => ?_, loads⟩
  rcases mem_cache_loadFile member with old | loaded
  · exact stocked m old
  · exact (loads m loaded).1

theorem loadGraph (stores : project.Stores path)
    (loaded : (l.loadGraph project now path).2 = .ok g) : g.Stored project := by
  have first := stocked.loadFile placed now stores
  unfold Loader.loadGraph at loaded
  rcases answer : l.loadFile project now path with ⟨l', e | entry⟩
  · rw [answer] at loaded
    cases loaded
  · rw [answer] at loaded first
    obtain ⟨stocked', holds⟩ := first
    obtain ⟨stored, own⟩ := holds entry rfl
    obtain ⟨last, closed, ended, rfl⟩ :=
      Walk.Closed.finish (Q := Stocked project)
        (fun s m path still user target => still.loadFile placed now (user.targets path target))
        stocked' (.start stored own) loaded
    refine ⟨stored.own, fun m member => ((closed.listed_of_over ended).1 m member).own, ?_⟩
    have distinct := closed.distinct
    rwa [Walk.Closed.nodes_of_over ended] at distinct

theorem load {directory : Path}
    (loaded : (l.load project now specifier directory).2 = .ok (.graph g)) : g.Stored project := by
  have kept := store_ask l (Specifier.key specifier directory) now
  unfold Loader.load Loader.resolve at loaded
  rcases answer : l.ask (Specifier.key specifier directory) now with ⟨l', e | ticket⟩
  · rw [answer] at loaded
    cases loaded
  · rw [answer] at loaded kept
    dsimp only at loaded
    cases resolved : l'.resolution.resolve project specifier directory with
    | error e =>
      rw [resolved] at loaded
      cases loaded
    | ok target =>
      rw [resolved] at loaded
      cases target with
      | external name => cases loaded
      | file path =>
        dsimp only at loaded
        have reported : (l'.report ticket true now).Stocked project :=
          stocked.of_store ((store_report l' ticket true now).trans kept)
        rcases found : (l'.report ticket true now).loadGraph project now path
          with ⟨l'', e | g'⟩
        · rw [found] at loaded
          cases loaded
        · rw [found] at loaded
          cases loaded
          exact reported.loadGraph placed
            (Config.Resolution.stores_of_resolve placed resolved) (congrArg Prod.snd found)

end Stocked

end Loader

namespace Service

theorem load_of_loadEntry {l l' : Loader} (loaded : loadEntry project now path l = (l', .ok g)) :
    ∃ specifier directory, (l.load project now specifier directory).2 = .ok (.graph g) := by
  unfold loadEntry at loaded
  split at loaded
  · cases loaded
  · dsimp only at loaded
    split at loaded
    · cases loaded
    · next answer =>
        cases loaded
        exact ⟨_, _, congrArg Prod.snd answer⟩
    · cases loaded

/-- So the modules of a result are known by them. -/
theorem stored_of_compile {s : Service} (placed : project.WellPlaced) (fresh : s.loader.cache = [])
    {c : Compilation} (compiled : (s.compile project now path).2 = .ok c) : c.Stored project := by
  have stocked : s.loader.Stocked project := by
    intro m member
    rw [fresh] at member
    cases member
  unfold compile work at compiled
  split at compiled
  · cases compiled
  · dsimp only at compiled
    split at compiled
    · cases compiled
    · next l' g answer =>
        cases compiled
        obtain ⟨specifier, directory, loaded⟩ := load_of_loadEntry answer
        have graph := stocked.load placed loaded
        refine ⟨graph.entry, fun m member => ?_, List.pairwise_map.mpr graph.distinct⟩
        obtain ⟨loadedModule, inside, rfl⟩ := List.mem_map.mp member
        exact graph.modules loadedModule inside

end Service

end Tarkib
