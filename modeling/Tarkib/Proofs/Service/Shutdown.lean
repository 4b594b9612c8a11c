import Tarkib.Proofs.Loader.Lasting
import Tarkib.Service

/-!
# Shutting down

A service is asked for one thing after the other, and the project may change in any way in between.
Before it is shut down its loader may hold anything, with a cache or without one; but what is
registered is kept, if modules are kept at all (`Loader.Covered`).
-/

namespace Tarkib

variable {s : Service} {monitoring : Bool} {config : Config} {l : Loader}

/-! ## Loaders that hold nothing -/

/-- Nothing is kept or registered, no unit for a module is taken, and there are no breakers. -/
structure Loader.IsEmpty (l : Loader) : Prop where
  registry : l.registry = {}
  cache : l.cache = []
  modules : ∀ limiter ∈ l.limiter, limiter.modules = 0
  breakers : ∀ breakers ∈ l.breakers, breakers.entries = []

namespace Loader.IsEmpty

theorem count (empty : l.IsEmpty) (c : Counter) : (l.count c).IsEmpty :=
  ⟨empty.registry, empty.cache, empty.modules, empty.breakers⟩

theorem observe (empty : l.IsEmpty) (operation : String) : (l.observe operation).IsEmpty :=
  ⟨empty.registry, empty.cache, empty.modules, empty.breakers⟩

theorem invalidate (empty : l.IsEmpty) (path : Path) : (l.invalidate path).1 = l := by
  simp [Loader.invalidate, cached?, empty.cache]

theorem clear (empty : l.IsEmpty) : l.clear.1 = l := by
  obtain ⟨resolution, loading, options, cache, registry, limiter, breakers, metrics, _, _, _⟩ := l
  obtain ⟨rfl, rfl, -, -⟩ := empty
  exact ite_self _

end Loader.IsEmpty

namespace Service

/-! ## Requests -/

/-- What a service can be asked for. -/
inductive Request where
  | compile (path : Path)
  | bundle (request : Bundle.Request)
  | load (specifier : String) (directory : Path)
  | watch (path : Path)
  | hear (signals : List Watch.Signal)
  | closeSession (number : Nat)
  | stopWatching
  | invalidate (path : Path)
  | clear
  | validate
  | statistics
  /-- The health, given the memory in use, if it is known. -/
  | health (memory : Option Nat)
  /-- A regular sample of the memory in use. -/
  | sample (memory : Option Nat)
  | serve
  | shutDown

/-- A request, and the project and the time it meets. -/
structure Occasion where
  project : Project
  now : Nat
  request : Request

/-- The service after a request, whether it succeeded or failed. -/
def perform (s : Service) (o : Occasion) : Service :=
  match o.request with
  | .compile path => (s.compile o.project o.now path).1
  | .bundle request => (s.bundle o.project o.now request).1
  | .load specifier directory => (s.load o.project o.now specifier directory).1
  | .watch path => (s.watch o.project o.now path).1
  | .hear signals => s.hear signals
  | .closeSession number => (s.closeSession number).1
  | .stopWatching => s.stopWatching.1
  | .invalidate path => (s.invalidate path).1
  | .clear => s.clear.1
  -- The problems and the statistics are only looked at.
  | .validate | .statistics => s
  | .health memory => (s.health o.project o.now memory).1
  | .sample memory => (s.sample memory).1
  | .serve => s.serve.toOption.getD s
  | .shutDown => s.shutDown

/-- The service after a number of requests, one after the other. -/
def run (s : Service) (occasions : List Occasion) : Service :=
  occasions.foldl perform s

theorem run_induction {P : Service → Prop} (step : ∀ s o, P s → P (s.perform o)) (start : P s)
    (occasions : List Occasion) : P (s.run occasions) := by
  induction occasions generalizing s with
  | nil => exact start
  | cons o occasions ih => exact ih (step s o start)

/-! ## What a request does to the loader -/

theorem loader_work {α : Type} {P : Loader → Prop} {f : Loader → Loader × Except Error α}
    (works : P s.loader → P (f s.loader).1) (h : P s.loader) : P (s.work f).1.loader := by
  unfold work
  split
  · exact h
  · exact works h

section Lasting

open Loader (Lasting)

variable {P : Loader → Prop} (lasting : Lasting P)
include lasting

theorem lasting_loadEntry (project : Project) (now : Nat) (path : Path) (h : P l) :
    P (loadEntry project now path l).1 := by
  unfold loadEntry
  split
  · exact h
  · next path _ =>
      have loaded := lasting.upheld.load project now path.text (path.parent?.getD path) h
      dsimp only
      rcases outcome : l.load project now path.text (path.parent?.getD path) with
        ⟨l', e | graph | name⟩
      all_goals rw [outcome] at loaded; exact loaded

theorem lasting_bundle (project : Project) (now : Nat) (request : Bundle.Request) (h : P l) :
    P (l.bundle project now request).1 := by
  unfold Loader.bundle
  split
  · exact h
  · split
    · exact h
    · next entry _ =>
        split
        · exact h
        · have loaded := lasting.upheld.loadGraph project now entry h
          rcases graph : l.loadGraph project now entry with ⟨l', e | g⟩
          · rw [graph] at loaded
            exact loaded
          · rw [graph] at loaded
            dsimp only
            split <;> exact loaded

theorem lasting_sample (memory : Option Nat) (h : P s.loader) : P (s.sample memory).1.loader := by
  unfold sample
  split
  · exact h
  · next limiter _ =>
      have sampled : P { s.loader with limiter := some (limiter.sample memory).1 } :=
        lasting.of_store (l := s.loader) rfl h
      dsimp only
      split
      · exact sampled
      · dsimp only
        split
        · exact lasting.clear sampled
        · exact sampled

/-- A lasting property of the loader survives every request. -/
theorem lasting_perform (o : Occasion) (h : P s.loader) : P (s.perform o).loader := by
  obtain ⟨project, now, request⟩ := o
  cases request with
  | compile path =>
    refine loader_work (fun h => ?_) h
    have loaded := lasting_loadEntry lasting project now path h
    dsimp only
    split <;> next outcome => rw [outcome] at loaded; exact loaded
  | bundle request =>
    have bundled : P (s.work fun l => l.bundle project now request).1.loader :=
      loader_work (fun h => lasting_bundle lasting project now request h) h
    unfold perform bundle
    dsimp only
    rcases outcome : s.work fun l => l.bundle project now request with ⟨s', e | b⟩
    all_goals rw [outcome] at bundled; exact lasting.of_store (l := s'.loader) rfl bundled
  | load specifier directory =>
    exact loader_work (fun h => lasting.upheld.load project now specifier directory h) h
  | watch path =>
    have listed : P (s.work (watchPaths project now path)).1.loader := by
      refine loader_work (fun h => ?_) h
      have loaded := lasting_loadEntry lasting project now path h
      unfold watchPaths
      split <;> next outcome => rw [outcome] at loaded; exact loaded
    unfold perform watch
    dsimp only
    split <;> next outcome => rw [outcome] at listed; exact listed
  | hear signals => exact h
  | closeSession number =>
    unfold perform closeSession
    dsimp only
    split <;> exact h
  | stopWatching => exact h
  | invalidate path => exact lasting.invalidate path h
  | clear => exact lasting.clear h
  | validate => exact h
  | statistics => exact h
  | health memory | sample memory => exact lasting_sample lasting memory h
  | serve =>
    unfold perform serve
    dsimp only
    split
    · exact h
    · split <;> exact h
  | shutDown => exact lasting.of_store (l := s.loader.clear.1) rfl (lasting.clear h)

end Lasting

theorem start_eq_ok_iff :
    start config monitoring = .ok s ↔ Config.violations config.encode = [] ∧
      s = { config, loader := .ofConfig config
            monitoring := monitoring && config.resourceLimits.isSome } := by
  unfold start Config.check Config.refuse
  cases Config.violations config.encode with
  | nil => simp [bind, Except.bind, pure, Except.pure, eq_comm]
  | cons violation violations => simp [bind, Except.bind]

theorem covered_run (started : start config monitoring = .ok s) (occasions : List Occasion) :
    (s.run occasions).loader.Covered := by
  have first : s.loader.Covered := by
    obtain ⟨_, rfl⟩ := start_eq_ok_iff.mp started
    intro _ p registered
    cases registered
  exact run_induction (P := fun s => s.loader.Covered)
    (fun s o h => lasting_perform Loader.Covered.lasting o h) first occasions

/-! ## Services that hold nothing -/

/-- The service was shut down, its loader holds nothing, and there are no sessions. -/
structure IsEmpty (s : Service) : Prop where
  down : s.isShutDown = true
  loader : s.loader.IsEmpty
  sessions : s.sessions = []

/-- Shutting down leaves nothing behind. -/
theorem isEmpty_shutDown (covered : s.loader.Covered) : s.shutDown.IsEmpty := by
  refine ⟨rfl, ⟨covered.registry_clear, Loader.cache_clear s.loader, ?_, ?_⟩, rfl⟩
  · intro limiter found
    obtain ⟨before, _, rfl⟩ := Option.mem_map.mp found
    rfl
  · intro breakers found
    obtain ⟨before, _, rfl⟩ := Option.mem_map.mp found
    rfl

/-- The work is refused and leaves the parts of the loader as they are. -/
def Refuses {α : Type} (s : Service) (answer : Service × Except Error α) : Prop :=
  answer.2 = .error .shutDown ∧
    answer.1.loader.registry = s.loader.registry ∧ answer.1.loader.cache = s.loader.cache ∧
    answer.1.loader.limiter = s.loader.limiter ∧ answer.1.loader.breakers = s.loader.breakers

namespace IsEmpty

variable (empty : s.IsEmpty)
include empty

theorem work {α : Type} (f : Loader → Loader × Except Error α) :
    s.work f = (s, .error .shutDown) := by
  rw [Service.work, if_pos empty.down]

theorem sample (memory : Option Nat) : (s.sample memory).1.IsEmpty := by
  unfold Service.sample
  split
  · exact empty
  · next limiter found =>
      have untaken : (limiter.sample memory).1.modules = 0 := by
        unfold Limiter.sample
        split <;> exact empty.loader.modules limiter found
      have sampled :
          Loader.IsEmpty { s.loader with limiter := some (limiter.sample memory).1 } := by
        refine ⟨empty.loader.registry, empty.loader.cache, ?_, empty.loader.breakers⟩
        rintro _ ⟨⟩
        exact untaken
      dsimp only
      split
      · exact ⟨empty.down, sampled, empty.sessions⟩
      · refine ⟨empty.down, ?_, empty.sessions⟩
        dsimp only
        split
        · rw [sampled.clear]
          exact sampled
        · exact sampled

/-- Nothing comes back: work is refused, and all else drops what is not there. -/
theorem perform (o : Occasion) : (s.perform o).IsEmpty := by
  obtain ⟨project, now, request⟩ := o
  cases request with
  | compile path =>
    simp only [Service.perform, Service.compile, empty.work]
    exact empty
  | bundle request =>
    simp only [Service.perform, Service.bundle, empty.work]
    exact ⟨empty.down, (empty.loader.count _).observe _, empty.sessions⟩
  | load specifier directory =>
    simp only [Service.perform, Service.load, empty.work]
    exact empty
  | watch path =>
    simp only [Service.perform, Service.watch, empty.work]
    exact empty
  | hear signals =>
    refine ⟨empty.down, empty.loader, ?_⟩
    simp [Service.perform, Service.hear, empty.sessions]
  | closeSession number =>
    simp only [Service.perform, Service.closeSession, empty.sessions, List.lookup_nil]
    exact empty
  | stopWatching => exact ⟨empty.down, empty.loader, rfl⟩
  | invalidate path =>
    refine ⟨empty.down, ?_, empty.sessions⟩
    show (s.loader.invalidate path).1.IsEmpty
    rw [empty.loader.invalidate]
    exact empty.loader
  | clear =>
    refine ⟨empty.down, ?_, empty.sessions⟩
    show s.loader.clear.1.IsEmpty
    rw [empty.loader.clear]
    exact empty.loader
  | validate => exact empty
  | statistics => exact empty
  | health memory | sample memory => exact empty.sample memory
  | serve =>
    simp only [Service.perform, Service.serve, empty.down, if_true]
    exact empty
  | shutDown =>
    refine isEmpty_shutDown fun _ p registered => ?_
    rw [empty.loader.registry] at registered
    cases registered

theorem run (occasions : List Occasion) : (s.run occasions).IsEmpty :=
  run_induction (fun _ o h => h.perform o) empty occasions

theorem refuses_compile (project : Project) (now : Nat) (path : Path) :
    Refuses s (s.compile project now path) := by
  rw [Service.compile, empty.work]
  exact ⟨rfl, rfl, rfl, rfl, rfl⟩

theorem refuses_bundle (project : Project) (now : Nat) (request : Bundle.Request) :
    Refuses s (s.bundle project now request) := by
  rw [Service.bundle, empty.work]
  exact ⟨rfl, rfl, rfl, rfl, rfl⟩

theorem refuses_load (project : Project) (now : Nat) (specifier : String) (directory : Path) :
    Refuses s (s.load project now specifier directory) := by
  rw [Service.load, empty.work]
  exact ⟨rfl, rfl, rfl, rfl, rfl⟩

theorem refuses_watch (project : Project) (now : Nat) (path : Path) :
    Refuses s (s.watch project now path) := by
  rw [Service.watch, empty.work]
  exact ⟨rfl, rfl, rfl, rfl, rfl⟩

end IsEmpty

/-! ## Every run -/

/-- **Shutting down is final and leaves nothing behind.** Let a service be started with a
configuration that is in order, be asked for anything, be shut down, and be asked for anything
again, whatever becomes of the project in between. Then nothing is registered or kept, the limiter
has counted no module, and there is no breaker and no session. Compiling, bundling, loading and
watching are refused because the service was shut down, and change neither the registry nor the
cache, the limiter or the breakers. -/
theorem shutDown_is_final {config : Config} {monitoring : Bool} {s : Service}
    (started : start config monitoring = .ok s) (before after : List Occasion)
    (project : Project) (now : Nat) :
    let later := s.run (before ++ ⟨project, now, .shutDown⟩ :: after)
    later.IsEmpty ∧
      ∀ (project : Project) (now : Nat),
        (∀ path, Refuses later (later.compile project now path)) ∧
        (∀ request, Refuses later (later.bundle project now request)) ∧
        (∀ specifier directory, Refuses later (later.load project now specifier directory)) ∧
        ∀ path, Refuses later (later.watch project now path) := by
  intro later
  have empty : later.IsEmpty := by
    have down : (s.run before).shutDown.IsEmpty := isEmpty_shutDown (covered_run started before)
    have split : later = (s.run before).shutDown.run after := by
      simp only [later, run, List.foldl_append, List.foldl_cons]
      rfl
    rw [split]
    exact down.run after
  exact ⟨empty, fun project now => ⟨empty.refuses_compile project now,
    empty.refuses_bundle project now, empty.refuses_load project now,
    empty.refuses_watch project now⟩⟩

/-- A service with a limiter and breakers that loads and watches a module, is shut down, and is then
asked to compile the module and to tell its health. -/
theorem shutDown_is_final_watching :
    let config : Config := { resourceLimits := some {}, circuitBreakers := true, metrics := true }
    let project : Project := { nodes := [(["a.som"], .file "f();".toUTF8)] }
    ∃ s, start config true = .ok s ∧
      let later := s.run
        [⟨project, 0, .load "./a" ⟨"/"⟩⟩, ⟨project, 3, .watch ⟨"/a.som"⟩⟩, ⟨{}, 5, .shutDown⟩,
          ⟨project, 7, .compile ⟨"/a.som"⟩⟩, ⟨project, 9, .health (some 1000)⟩]
      later.IsEmpty ∧ Refuses later (later.compile project 11 ⟨"/a.som"⟩) := by
  intro config project
  have sound : Config.violations config.encode = [] := by decide +kernel
  obtain ⟨s, started⟩ : ∃ s, start config true = .ok s := ⟨_, start_eq_ok_iff.mpr ⟨sound, rfl⟩⟩
  obtain ⟨empty, refuses⟩ := shutDown_is_final started
    [⟨project, 0, .load "./a" ⟨"/"⟩⟩, ⟨project, 3, .watch ⟨"/a.som"⟩⟩]
    [⟨project, 7, .compile ⟨"/a.som"⟩⟩, ⟨project, 9, .health (some 1000)⟩] {} 5
  exact ⟨s, started, empty, (refuses project 11).1 ⟨"/a.som"⟩⟩

end Service

end Tarkib
