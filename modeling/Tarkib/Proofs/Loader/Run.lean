import Tarkib.Loader.Load

/-!
# Runs of a loader

Whoever uses a loader asks it for one thing after the other: to load a file, a graph or a specifier,
to drop one module, or to drop them all. Between two requests the project may change in any way and
time may pass, so each request comes with the project and the time it meets.
-/

namespace Tarkib.Loader

/-- What a loader can be asked to do. -/
inductive Request where
  | loadFile (path : Path)
  | loadGraph (path : Path)
  | load (specifier : String) (directory : Path)
  | invalidate (path : Path)
  | clear

/-- A request, and the project and the time it meets. -/
structure Occasion where
  project : Project
  now : Nat
  request : Request

/-- The loader after a request, whether it succeeded or failed. -/
def perform (l : Loader) (o : Occasion) : Loader :=
  match o.request with
  | .loadFile path => (l.loadFile o.project o.now path).1
  | .loadGraph path => (l.loadGraph o.project o.now path).1
  | .load specifier directory => (l.load o.project o.now specifier directory).1
  | .invalidate path => (l.invalidate path).1
  | .clear => l.clear.1

/-- The loader after a number of requests, one after the other. -/
def run (l : Loader) (occasions : List Occasion) : Loader :=
  occasions.foldl perform l

theorem run_cons (l : Loader) (o : Occasion) (occasions : List Occasion) :
    l.run (o :: occasions) = (l.perform o).run occasions := rfl

/-- A property that every request preserves holds after every run. -/
theorem run_induction {P : Loader → Prop} (step : ∀ l o, P l → P (l.perform o)) {l : Loader}
    (start : P l) (occasions : List Occasion) : P (l.run occasions) := by
  induction occasions generalizing l with
  | nil => exact start
  | cons o occasions ih => exact ih (step l o start)

/-! ## Walks

A walk hands its loader from one file to the next. What the loading of each file preserves, and the
refusal of a circle too, the whole walk preserves. -/

/-- A walk loads files only. -/
theorem finish_induction {σ : Type} {P : σ → Prop} {policy : CyclePolicy}
    {load : σ → Path → σ × Except Error Module} {refuse : σ → σ}
    (loads : ∀ s path, P s → P (load s path).1) (refuses : ∀ s, P s → P (refuse s))
    (entry : Module) (fuel : Nat) (w : Walk) {s : σ} (start : P s) :
    P (Walk.finish policy load refuse entry fuel w s).1 := by
  fun_induction Walk.finish policy load refuse entry fuel w s with
  | case1 => exact start
  | case2 => exact refuses _ start
  | case3 => exact start
  | case4 w s path w' _ fuel s' e eq =>
    have loaded := loads s path start
    rwa [eq] at loaded
  | case5 w s path w' _ fuel s' m eq ih =>
    have loaded := loads s path start
    rw [eq] at loaded
    exact ih loaded

/-! ## Requests -/

/-- The property survives what the requests are made of: loading a file, resolving a specifier,
noting how a load ended, and dropping one module or all. -/
structure Upheld (P : Loader → Prop) : Prop where
  loadFile : ∀ {l : Loader} (project : Project) (now : Nat) (path : Path),
    P l → P (l.loadFile project now path).1
  resolve : ∀ {l : Loader} (project : Project) (now : Nat) (specifier : String) (directory : Path),
    P l → P (l.resolve project now specifier directory).1
  count : ∀ {l : Loader} (c : Counter), P l → P (l.count c)
  observe : ∀ {l : Loader} (operation : String), P l → P (l.observe operation)
  invalidate : ∀ {l : Loader} (path : Path), P l → P (l.invalidate path).1
  clear : ∀ {l : Loader}, P l → P l.clear.1

namespace Upheld

variable {P : Loader → Prop} (upheld : Upheld P) {l : Loader}
include upheld

theorem loadGraph (project : Project) (now : Nat) (path : Path) (h : P l) :
    P (l.loadGraph project now path).1 := by
  have entered := upheld.loadFile project now path h
  unfold Loader.loadGraph
  rcases first : l.loadFile project now path with ⟨l', e | entry⟩
  · rw [first] at entered
    exact entered
  · rw [first] at entered
    exact finish_induction (fun _ path h => upheld.loadFile project now path h)
      (fun _ h => upheld.count _ h) entry _ _ entered

theorem load (project : Project) (now : Nat) (specifier : String) (directory : Path) (h : P l) :
    P (l.load project now specifier directory).1 := by
  have resolved := upheld.resolve project now specifier directory h
  unfold Loader.load
  rcases found : l.resolve project now specifier directory with ⟨l', e | target⟩
  · rw [found] at resolved
    exact resolved
  · rw [found] at resolved
    cases target with
    | external name => exact resolved
    | file path =>
      have loaded := upheld.loadGraph project now path resolved
      dsimp only
      rcases graph : l'.loadGraph project now path with ⟨l'', e | g⟩
      · rw [graph] at loaded
        exact loaded
      · rw [graph] at loaded
        exact upheld.observe _ loaded

/-- A property need only be checked for files, since all else is loaded file by file. -/
theorem perform (o : Occasion) (h : P l) : P (l.perform o) := by
  unfold Loader.perform
  split
  · exact upheld.loadFile _ _ _ h
  · exact upheld.loadGraph _ _ _ h
  · exact upheld.load _ _ _ _ h
  · exact upheld.invalidate _ h
  · exact upheld.clear h

theorem run (occasions : List Occasion) (h : P l) : P (l.run occasions) :=
  run_induction (fun _ o h => upheld.perform o h) h occasions

end Upheld

/-! ## Modules that are dropped -/

theorem cache_forget (l : Loader) (p : Path) : (l.forget p).cache = l.cache := by
  unfold forget
  dsimp only
  split <;> rfl

theorem cache_foldl_forget (modules : List Module) (l : Loader) :
    (modules.foldl (fun l m => l.forget m.id) l).cache = l.cache :=
  List.foldlRecOn (motive := fun l' => l'.cache = l.cache) modules _ rfl
    fun l' same m _ => (cache_forget l' m.id).trans same

theorem cache_clear (l : Loader) : l.clear.1.cache = [] := by
  unfold clear
  dsimp only
  split <;> exact cache_foldl_forget _ _

theorem of_settle {P : Loader → Prop} (evicted : ∀ l m, P l → P (l.evict m)) {l : Loader}
    (keep : Path) (h : P l) : P (l.settle keep) := by
  unfold settle
  split
  · exact List.foldlRecOn _ _ h fun l h m _ => evicted l m h
  · exact h

/-! ## Elementary changes -/

/-- The property survives every elementary change of a loader: counting, reading the clock, taking
units and giving them back, asking breakers and telling them outcomes, and any change of what is
kept and registered. -/
structure Stable (P : Loader → Prop) : Prop where
  count : ∀ {l : Loader} (c : Counter), P l → P (l.count c)
  observe : ∀ {l : Loader} (operation : String), P l → P (l.observe operation)
  readClock : ∀ {l : Loader}, P l → P l.readClock
  limit : ∀ {l : Loader} (f : Limiter → Limiter), P l → P (l.limit f)
  takeUnits : ∀ {l l' : Loader}, l.takeUnits = .ok l' → P l → P l'
  ask : ∀ {l : Loader} (key : String) (now : Nat), P l → P (l.ask key now).1
  report : ∀ {l : Loader} (ticket : Option Breakers.Ticket) (success : Bool) (now : Nat),
    P l → P (l.report ticket success now)
  keep : ∀ {l : Loader} (cache : List Module) (registry : Registry),
    P l → P { l with cache, registry }

namespace Stable

variable {P : Loader → Prop} (stable : Stable P) {l : Loader}
include stable

theorem unreserve (h : P l) : P l.unreserve := by
  unfold Loader.unreserve
  split
  · exact stable.limit _ h
  · exact h

theorem forget (id : Path) (h : P l) : P (l.forget id) := by
  have struck : P { l with registry := l.registry.unregister id } := stable.keep _ _ h
  unfold Loader.forget
  dsimp only
  split
  · exact stable.limit _ struck
  · exact struck

theorem invalidate (path : Path) (h : P l) : P (l.invalidate path).1 := by
  unfold Loader.invalidate
  split
  · exact h
  · exact stable.forget _ (stable.keep _ l.registry h)

theorem foldl_forget (modules : List Module) (h : P l) :
    P (modules.foldl (fun l m => l.forget m.id) l) :=
  List.foldlRecOn modules _ h fun _ h m _ => stable.forget m.id h

theorem clear (h : P l) : P l.clear.1 := by
  have emptied : P { l with cache := [] } := stable.keep _ l.registry h
  have forgotten := stable.foldl_forget l.cache emptied
  unfold Loader.clear
  dsimp only
  split
  · exact forgotten
  · exact stable.keep _ _ forgotten

theorem settle (keep : Path) (h : P l) : P (l.settle keep) :=
  of_settle (fun _ m h => stable.count _ (stable.invalidate m.id h)) keep h

theorem commit (m : Module) (h : P l) : P (l.commit m) := by
  unfold Loader.commit
  dsimp only
  split
  · exact stable.keep _ _ h
  · exact stable.keep l.cache _ h

theorem attempt (project : Project) (now : Nat) (path : Path) (h : P l) :
    P (l.attempt project now path).1 := by
  unfold Loader.attempt Loader.beginAttempt
  dsimp only
  cases taken : (l.count .cacheMisses).takeUnits with
  | error e => exact stable.count _ h
  | ok l' =>
    have asked := stable.ask path.text now (stable.takeUnits taken (stable.count _ h))
    dsimp only
    rcases answer : l'.ask path.text now with ⟨l'', _ | ticket⟩
    · rw [answer] at asked
      exact stable.unreserve (stable.limit _ asked)
    · rw [answer] at asked
      dsimp only
      generalize (do l''.build project path (← readSource project path)) = result
      cases result with
      | error e => exact stable.unreserve (stable.report _ _ _ (stable.limit _ asked))
      | ok m =>
        have told := stable.report ticket true now (stable.limit Limiter.closeFile asked)
        exact stable.observe _ (stable.count _ (stable.readClock told))

theorem loadFile (project : Project) (now : Nat) (path : Path) (h : P l) :
    P (l.loadFile project now path).1 := by
  have tried := stable.attempt project now path h
  unfold Loader.loadFile
  split
  · exact stable.count _ h
  · rcases outcome : l.attempt project now path with ⟨l', e | m⟩
    · rw [outcome] at tried
      exact stable.count _ tried
    · rw [outcome] at tried
      exact stable.settle path (stable.commit m tried)

theorem resolve (project : Project) (now : Nat) (specifier : String) (directory : Path) (h : P l) :
    P (l.resolve project now specifier directory).1 := by
  have asked := stable.ask (Specifier.key specifier directory) now h
  unfold Loader.resolve
  rcases answer : l.ask (Specifier.key specifier directory) now with ⟨l', e | ticket⟩
  · rw [answer] at asked
    exact stable.count _ asked
  · rw [answer] at asked
    dsimp only
    split
    · exact stable.report _ _ _ asked
    · exact stable.count _ (stable.report _ _ _ asked)

/-- One that does not care what is kept need only be checked for the elementary changes of a loader.
-/
theorem upheld : Upheld P where
  loadFile project now path h := stable.loadFile project now path h
  resolve project now specifier directory h := stable.resolve project now specifier directory h
  count c h := stable.count c h
  observe operation h := stable.observe operation h
  invalidate path h := stable.invalidate path h
  clear h := stable.clear h

theorem run (occasions : List Occasion) (h : P l) : P (l.run occasions) :=
  stable.upheld.run occasions h

end Stable

end Tarkib.Loader
