import Tarkib.Proofs.Loader.Events
import Tarkib.Proofs.Loader.Graph

/-!
# Metrics that agree with what happened

Over a run the counters of a loader can be compared with what was asked of it (`Reconciled`). Every
load of a file is a hit or a miss, and every miss is a module or a failure, also inside the load of
a graph. The modules that are kept are those that were loaded, less those that were evicted and
those that were dropped on request.
-/

namespace Tarkib

open List

/-- Whether a result is an error. -/
def failed {α : Type} : Except Error α → Bool
  | .ok _ => false
  | .error _ => true

@[simp] theorem failed_ok {α : Type} (a : α) : failed (.ok a) = false := rfl

@[simp] theorem failed_error {α : Type} (e : Error) : failed (.error e : Except Error α) = true :=
  rfl

namespace Walk

/-- A walk that has enough fuel is not cut short, so each of its failures is counted. -/
theorem finish_failures {σ : Type} {P : σ → Prop} (failures : σ → Nat)
    {load : σ → Path → σ × Except Error Module} {refuse : σ → σ} {known : List Key}
    {policy : CyclePolicy} {entry : Module}
    (loads : ∀ s path, P s → P (load s path).1 ∧
      (∀ m, (load s path).2 = .ok m → Tied known m) ∧
      failures (load s path).1 = failures s + (failed (load s path).2).toNat)
    (refuses : ∀ s, P s → failures (refuse s) = failures s + 1)
    {fuel : Nat} {w : Walk} {s : σ} (start : P s) (within : Within known w)
    (enough : known.length ≤ w.visited.length + fuel) :
    failures (finish policy load refuse entry fuel w s).1 =
      failures s + (failed (finish policy load refuse entry fuel w s).2).toNat := by
  fun_induction finish policy load refuse entry fuel w s with
  | case1 => rfl
  | case2 fuel w s ids pause => exact refuses s start
  | case3 w s path next pause =>
    -- All known files were asked for, and yet another one is needed.
    obtain ⟨further, more⟩ := within.advance pause
    have room := further.length_le
    omega
  | case4 w s path next pause fuel s' e answer =>
    have counted := (loads s path start).2.2
    rw [answer] at counted
    exact counted
  | case5 w s path next pause fuel s' m answer ih =>
    obtain ⟨kept, tied, counted⟩ := loads s path start
    rw [answer] at kept tied counted
    obtain ⟨further, grown⟩ := within.advance pause
    have more : known.length ≤ (next.enter m).visited.length + fuel := by
      simp only [Walk.enter]
      omega
    have rest := ih kept (further.enter (tied m rfl)) more
    rw [counted] at rest
    exact rest

end Walk

namespace Loader

/-! ## What happened -/

/-- The files that a request makes a loader load, one after the other, and what each of them
gives. -/
def fileLoads (l : Loader) (o : Occasion) : List Walk.Call :=
  match o.request with
  | .loadFile path => [(path, (l.loadFile o.project o.now path).2)]
  | .loadGraph path => l.calls o.project o.now path
  | .load specifier directory =>
    match l.resolve o.project o.now specifier directory with
    | (l, .ok (.file path)) => l.calls o.project o.now path
    | _ => []
  | .invalidate _ => []
  | .clear => []

/-- The modules that are no longer kept because a request says so. -/
def dropped (l : Loader) (o : Occasion) : List Module :=
  match o.request with
  | .invalidate _ | .clear => l.cache.filter fun m => m ∉ (l.perform o).cache
  | _ => []

/-- Whether a request to load something returns an error. -/
def fails (l : Loader) (o : Occasion) : Bool :=
  match o.request with
  | .loadFile path => failed (l.loadFile o.project o.now path).2
  | .loadGraph path => failed (l.loadGraph o.project o.now path).2
  | .load specifier directory => failed (l.load o.project o.now specifier directory).2
  | _ => false

/-- What is noted about each request of a run, one after the other. -/
def history {α : Type} (note : Loader → Occasion → List α) : Loader → List Occasion → List α
  | _, [] => []
  | l, o :: occasions => note l o ++ history note (l.perform o) occasions

/-! ## Failures -/

theorem measured_loadFile (l : Loader) (project : Project) (now : Nat) (path : Path) :
    (l.loadFile project now path).1.metrics.isSome = l.metrics.isSome := by
  rcases loadFile_cases l project now path with
    ⟨l', m, outcome, notes, _⟩ | ⟨l', e, outcome, notes, _⟩ | ⟨l', m, n, outcome, notes, _⟩
  all_goals rw [outcome]; exact notes.measured

theorem tally_loadFailures_loadFile {l : Loader} (measured : l.metrics.isSome = true)
    (project : Project) (now : Nat) (path : Path) :
    (l.loadFile project now path).1.tally .loadFailures =
      l.tally .loadFailures + (failed (l.loadFile project now path).2).toNat := by
  rcases loadFile_cases l project now path with
    ⟨l', m, outcome, notes, _⟩ | ⟨l', e, outcome, notes, _⟩ | ⟨l', m, n, outcome, notes, _⟩
  all_goals
    rw [outcome, notes.tally measured]
    simp [count_replicate]

theorem tally_loadFailures_loadGraph {l : Loader} (measured : l.metrics.isSome = true)
    (project : Project) (now : Nat) (path : Path) :
    (l.loadGraph project now path).1.tally .loadFailures =
      l.tally .loadFailures + (failed (l.loadGraph project now path).2).toNat := by
  have entered := tally_loadFailures_loadFile measured project now path
  have still := measured_loadFile l project now path
  unfold loadGraph
  rcases first : l.loadFile project now path with ⟨l', e | entry⟩
  · rw [first] at entered
    exact entered
  · rw [first] at entered still
    dsimp only
    have uncounted : l'.tally .loadFailures = l.tally .loadFailures := entered
    rw [← uncounted]
    refine Walk.finish_failures (P := fun l => Kept (l'.around project path) l ∧
        l.metrics.isSome = true) (fun l => l.tally .loadFailures) ?_ ?_
      ⟨kept_around l' project path, still.trans measured⟩ (within_start first)
      (length_around_le l' project path entry)
    · rintro l path ⟨kept, measured⟩
      obtain ⟨keeps, tied⟩ := kept.loadFile (files_subset_around l' project _) now path
      exact ⟨⟨keeps, (measured_loadFile l project now path).trans measured⟩, tied,
        tally_loadFailures_loadFile measured project now path⟩
    · rintro l ⟨_, measured⟩
      exact (Notes.count l .loadFailures).tally measured .loadFailures

theorem notes_resolve (l : Loader) (project : Project) (now : Nat) (specifier : String)
    (directory : Path) :
    match l.resolve project now specifier directory with
    | (l', .ok _) => Notes l [] l'
    | (l', .error _) => Notes l [.loadFailures] l' := by
  have asked := metrics_ask l (Specifier.key specifier directory) now
  unfold resolve
  rcases answer : l.ask (Specifier.key specifier directory) now with ⟨l', e | ticket⟩
  · rw [answer] at asked
    exact (Notes.of_metrics asked).trans (.count l' .loadFailures)
  · rw [answer] at asked
    have told (success : Bool) : Notes l [] (l'.report ticket success now) :=
      .of_metrics ((metrics_report l' ticket success now).trans asked)
    dsimp only
    cases l'.resolution.resolve project specifier directory with
    | ok target => exact told true
    | error e => exact (told false).trans (.count _ .loadFailures)

theorem tally_loadFailures_load {l : Loader} (measured : l.metrics.isSome = true)
    (project : Project) (now : Nat) (specifier : String) (directory : Path) :
    (l.load project now specifier directory).1.tally .loadFailures =
      l.tally .loadFailures + (failed (l.load project now specifier directory).2).toNat := by
  have resolved := notes_resolve l project now specifier directory
  unfold load
  rcases found : l.resolve project now specifier directory with ⟨l', e | target⟩
  · rw [found] at resolved
    exact resolved.tally measured .loadFailures
  · rw [found] at resolved
    have uncounted : l'.tally .loadFailures = l.tally .loadFailures :=
      resolved.tally measured .loadFailures
    cases target with
    | external name => exact uncounted
    | file path =>
      have loaded :=
        tally_loadFailures_loadGraph (resolved.measured.trans measured) project now path
      rw [uncounted] at loaded
      dsimp only
      rcases graph : l'.loadGraph project now path with ⟨l'', e | g⟩
      · rw [graph] at loaded
        exact loaded
      · rw [graph] at loaded
        exact (tally_observe l'' "load" .loadFailures).trans loaded

/-- A request that fails is counted once, however deep the failure lies. -/
theorem tally_loadFailures_perform {l : Loader} (measured : l.metrics.isSome = true)
    (o : Occasion) :
    (l.perform o).tally .loadFailures = l.tally .loadFailures + (l.fails o).toNat := by
  unfold perform fails
  cases o.request with
  | loadFile path => exact tally_loadFailures_loadFile measured _ _ path
  | loadGraph path => exact tally_loadFailures_loadGraph measured _ _ path
  | load specifier directory => exact tally_loadFailures_load measured _ _ specifier directory
  | invalidate path =>
    exact (Notes.of_metrics (metrics_invalidate l path)).tally measured .loadFailures
  | clear => exact (Notes.of_metrics (metrics_clear l)).tally measured .loadFailures

/-! ## The other counters -/

/-- The counters agree with the files that were loaded and the modules that were dropped. -/
structure Reconciled (calls : List Walk.Call) (dropped : List Module) (l : Loader) : Prop where
  measured : l.metrics.isSome = true
  asked : l.tally .cacheHits + l.tally .cacheMisses = calls.length
  missed : l.tally .cacheMisses =
    l.tally .modulesLoaded + calls.countP fun call => failed call.2
  distinct : Distinct l
  kept : l.loading.cache = true →
    l.cache.length + l.tally .cacheEvictions + dropped.length = l.tally .modulesLoaded

namespace Reconciled

variable {calls : List Walk.Call} {gone : List Module} {l l' : Loader}
  (r : Reconciled calls gone l)
include r

theorem of_notes {n : Nat} (notes : Notes l (.replicate n .loadFailures) l')
    (stores : l'.store = l.store) :
    Reconciled calls gone l' := by
  have caches : l'.cache = l.cache := congrArg Store.cache stores
  have loading : l'.loading = l.loading := congrArg Store.loading stores
  have same (c : Counter) (other : c ≠ .loadFailures) : l'.tally c = l.tally c := by
    rw [notes.tally r.measured, count_replicate]
    simp [other.symm]
  refine ⟨notes.measured.trans r.measured, ?_, ?_, r.distinct.of_cache caches, ?_⟩
  · rw [same _ (by decide), same _ (by decide)]
    exact r.asked
  · rw [same _ (by decide), same _ (by decide)]
    exact r.missed
  · rw [loading, caches, same _ (by decide), same _ (by decide)]
    exact r.kept

theorem loadFile (project : Project) (now : Nat) (path : Path) :
    Reconciled (calls ++ [(path, (l.loadFile project now path).2)]) gone
      (l.loadFile project now path).1 := by
  have loading := loading_loadFile l project now path
  have asked := r.asked
  have missed := r.missed
  rcases loadFile_cases l project now path with
    ⟨l', m, outcome, notes, caches⟩ | ⟨l', e, outcome, notes, caches⟩ |
      ⟨l', m, n, outcome, notes, keeps⟩
  · have tally := notes.tally r.measured
    simp only [outcome] at loading ⊢
    refine ⟨notes.measured.trans r.measured, ?_, ?_, r.distinct.of_cache caches, fun caching => ?_⟩
    · have total : l.tally .cacheHits + 1 + l.tally .cacheMisses = calls.length + 1 := by omega
      simpa [tally] using total
    · simpa [tally] using missed
    · simpa [tally, caches] using r.kept (loading ▸ caching)
  · have tally := notes.tally r.measured
    simp only [outcome] at loading ⊢
    refine ⟨notes.measured.trans r.measured, ?_, ?_, r.distinct.of_cache caches, fun caching => ?_⟩
    · have total : l.tally .cacheHits + (l.tally .cacheMisses + 1) = calls.length + 1 := by omega
      simpa [tally] using total
    · have total : l.tally .cacheMisses + 1 =
          l.tally .modulesLoaded + (calls.countP (fun call => failed call.2) + 1) := by omega
      simpa [tally] using total
    · simpa [tally, caches] using r.kept (loading ▸ caching)
  · have tally := notes.tally r.measured
    obtain ⟨distinct, grows⟩ := keeps r.distinct
    simp only [outcome] at loading ⊢
    refine ⟨notes.measured.trans r.measured, ?_, ?_, distinct, fun caching => ?_⟩
    · have total : l.tally .cacheHits + (l.tally .cacheMisses + 1) = calls.length + 1 := by omega
      simpa [tally, count_replicate] using total
    · have total : l.tally .cacheMisses + 1 =
          l.tally .modulesLoaded + 1 + calls.countP fun call => failed call.2 := by omega
      simpa [tally, count_replicate] using total
    · have kept := r.kept (loading ▸ caching)
      have room := grows (loading ▸ caching)
      have total : l'.cache.length + (l.tally .cacheEvictions + n) + gone.length =
          l.tally .modulesLoaded + 1 := by omega
      simpa [tally, count_replicate] using total

theorem loadGraph (project : Project) (now : Nat) (path : Path) :
    Reconciled (calls ++ l.calls project now path) gone (l.loadGraph project now path).1 := by
  have entered := r.loadFile project now path
  unfold Loader.loadGraph Loader.calls
  rcases first : l.loadFile project now path with ⟨l', e | entry⟩
  · rw [first] at entered
    exact entered
  · rw [first] at entered
    dsimp only
    -- The walk is followed with its calls noted, which changes nothing else.
    rw [← (Walk.finish_logged _ _ _ _ _ _ (l', [(path, .ok entry)])).1]
    refine finish_induction (P := fun s : Loader × List Walk.Call =>
      Reconciled (calls ++ s.2) gone s.1) ?_ ?_ entry _ _ entered
    · intro s path r
      simp only [Walk.logged, ← append_assoc]
      exact r.loadFile project now path
    · intro s r
      exact r.of_notes (n := 1) (.count s.1 .loadFailures) rfl

theorem load (project : Project) (now : Nat) (specifier : String) (directory : Path) :
    Reconciled (calls ++ l.fileLoads ⟨project, now, .load specifier directory⟩) gone
      (l.load project now specifier directory).1 := by
  have resolved := notes_resolve l project now specifier directory
  have stores := store_resolve l project now specifier directory
  unfold Loader.load fileLoads
  dsimp only
  rcases found : l.resolve project now specifier directory with ⟨l', e | target⟩
  · rw [found] at resolved stores
    rw [append_nil]
    exact r.of_notes (n := 1) resolved stores
  · rw [found] at resolved stores
    have reached : Reconciled calls gone l' := r.of_notes (n := 0) resolved stores
    cases target with
    | external name =>
      rw [append_nil]
      exact reached
    | file path =>
      have loaded := reached.loadGraph project now path
      dsimp only
      rcases graph : l'.loadGraph project now path with ⟨l'', e | g⟩
      · rw [graph] at loaded
        exact loaded
      · rw [graph] at loaded
        exact loaded.of_notes (n := 0) (.observe l'' "load") rfl

theorem drop {p : Module → Bool} (metrics : l'.metrics = l.metrics)
    (loading : l'.loading = l.loading) (caches : l'.cache = l.cache.filter p) :
    Reconciled calls (gone ++ l.cache.filter fun m => m ∉ l'.cache) l' := by
  have notes : Notes l [] l' := .of_metrics metrics
  have tally (c : Counter) : l'.tally c = l.tally c := notes.tally r.measured c
  have others : (l.cache.filter fun m => m ∉ l'.cache) = l.cache.filter fun m => !p m := by
    refine filter_congr fun m member => ?_
    simp [caches, member]
  refine ⟨notes.measured.trans r.measured, ?_, ?_, ?_, fun caching => ?_⟩
  · rw [tally, tally]
    exact r.asked
  · rw [tally, tally]
    exact r.missed
  · unfold Distinct keptIds
    rw [caches]
    exact r.distinct.sublist (filter_sublist.map Module.id)
  · have kept := r.kept (loading ▸ caching)
    have parts := length_eq_length_filter_add (l := l.cache) p
    rw [others, tally, tally, length_append, caches]
    omega

/-- A request keeps the counters in agreement. -/
theorem perform (o : Occasion) :
    Reconciled (calls ++ l.fileLoads o) (gone ++ l.dropped o) (l.perform o) := by
  obtain ⟨project, now, request⟩ := o
  have loading (request : Request) :
      (l.perform ⟨project, now, request⟩).loading = l.loading :=
    (stable_loading l.loading).run [⟨project, now, request⟩] rfl
  cases request with
  | loadFile path =>
    rw [dropped, append_nil]
    exact r.loadFile project now path
  | loadGraph path =>
    rw [dropped, append_nil]
    exact r.loadGraph project now path
  | load specifier directory =>
    rw [dropped, append_nil]
    exact r.load project now specifier directory
  | invalidate path =>
    rw [fileLoads, append_nil]
    exact r.drop (metrics_invalidate l path) (loading _) (cache_invalidate l path)
  | clear =>
    rw [fileLoads, append_nil]
    refine r.drop (p := fun _ => false) (metrics_clear l) (loading _) ?_
    rw [filter_false]
    exact cache_clear l

theorem run (occasions : List Occasion) :
    Reconciled (calls ++ l.history fileLoads occasions) (gone ++ l.history dropped occasions)
      (l.run occasions) := by
  induction occasions generalizing calls gone l with
  | nil =>
    rw [history, history, append_nil, append_nil]
    exact r
  | cons o occasions ih =>
    rw [history, history, ← append_assoc, ← append_assoc]
    exact ih (r.perform o)

end Reconciled

theorem reconciled_start {l : Loader} (empty : l.cache = []) (fresh : l.metrics = some {}) :
    Reconciled [] [] l := by
  have nothing (c : Counter) : l.tally c = 0 := by simp [tally, fresh]
  refine ⟨by rw [fresh]; rfl, by simp [nothing], by simp [nothing], ?_, by simp [nothing, empty]⟩
  simp [Distinct, keptIds, empty]

/-! ## Every run -/

/-- **Metrics agree with what happened.** Let a loader with metrics keep nothing and have counted
nothing yet, and let it be asked for anything. Then hits and misses together are the loads of files,
including those inside the loads of graphs. The misses are the modules that were loaded and the
loads of files that failed. Each request to load a file, a graph or a specifier raises the failed
loads by one if it returns an error, and by nothing otherwise. If modules are kept, their number is
that of the modules that were loaded, less those that were evicted and those that were dropped on
request. -/
theorem tally_run {l : Loader} (empty : l.cache = []) (fresh : l.metrics = some {})
    (occasions : List Occasion) :
    (l.run occasions).metrics.isSome = true ∧
    (l.run occasions).tally .cacheHits + (l.run occasions).tally .cacheMisses =
      (l.history fileLoads occasions).length ∧
    (l.run occasions).tally .cacheMisses = (l.run occasions).tally .modulesLoaded +
      (l.history fileLoads occasions).countP (fun call => failed call.2) ∧
    (∀ before o after, occasions = before ++ o :: after →
      ((l.run before).perform o).tally .loadFailures =
        (l.run before).tally .loadFailures + ((l.run before).fails o).toNat) ∧
    (l.loading.cache = true →
      (l.run occasions).cache.length =
        (l.run occasions).tally .modulesLoaded - (l.run occasions).tally .cacheEvictions -
          (l.history dropped occasions).length ∧
      (l.run occasions).tally .cacheEvictions + (l.history dropped occasions).length ≤
        (l.run occasions).tally .modulesLoaded) := by
  have start : Reconciled [] [] l := reconciled_start empty fresh
  have final := start.run occasions
  rw [nil_append, nil_append] at final
  refine ⟨final.measured, final.asked, final.missed, ?_, fun caching => ?_⟩
  · intro before o after _
    exact tally_loadFailures_perform (start.run before).measured o
  · have loading : (l.run occasions).loading = l.loading :=
      (stable_loading l.loading).run occasions rfl
    have kept := final.kept (loading ▸ caching)
    omega

/-- A loader with room for one module that loads two files, misses one of them, meets a kept module,
is told to drop one and at last all of them. -/
theorem tally_run_narrow :
    let l : Loader := { loading := { maxCacheSize := some 1 }, metrics := some {} }
    let both : Project :=
      { nodes := [(["a.som"], .file "import \"./b\";".toUTF8), (["b.som"], .file "f();".toUTF8)] }
    let one : Project := { nodes := [(["a.som"], .file "import \"./b\";".toUTF8)] }
    let occasions : List Occasion :=
      [⟨both, 0, .load "./a" ⟨"/"⟩⟩, ⟨one, 5, .loadGraph ⟨"/a.som"⟩⟩,
        ⟨both, 5, .loadFile ⟨"/b.som"⟩⟩, ⟨one, 7, .invalidate ⟨"//a.som"⟩⟩,
        ⟨both, 9, .load "./a.som" ⟨"/"⟩⟩, ⟨both, 9, .clear⟩]
    (l.run occasions).tally .cacheHits + (l.run occasions).tally .cacheMisses =
      (l.history fileLoads occasions).length ∧
    (l.run occasions).tally .cacheMisses = (l.run occasions).tally .modulesLoaded +
      (l.history fileLoads occasions).countP (fun call => failed call.2) ∧
    (l.run occasions).cache.length =
      (l.run occasions).tally .modulesLoaded - (l.run occasions).tally .cacheEvictions -
        (l.history dropped occasions).length := by
  intro l both one occasions
  obtain ⟨_, asked, missed, _, kept⟩ := tally_run (l := l) rfl rfl occasions
  exact ⟨asked, missed, (kept rfl).1⟩

end Loader

end Tarkib
