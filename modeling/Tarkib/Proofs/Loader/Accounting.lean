import Mathlib.Data.Finset.Card
import Mathlib.Data.List.Pairwise
import Tarkib.Proofs.Fallible
import Tarkib.Proofs.Loader.Run
import Tarkib.Proofs.Module.Registry

/-!
# The books of a loader

A loader that keeps modules and has a limiter writes every module down three times: in its cache, in
its registry, and as a unit taken from the limiter. The books are described for a loader at work,
who has taken further units for modules that are not kept yet and has files open (`Balanced`). Each
stage of an attempt moves these two numbers by one, and they are back at zero when the loader has
answered.
-/

namespace Tarkib.Loader

open List

variable {l : Loader} {limits : Limits} {ids : List Path}

/-! ## What loading leaves alone -/

/-- The parts of a loader that an attempt does not touch unless it reads the clock: what is kept and
registered, how the loader was set up, and the clock. -/
structure Store where
  cache : List Module
  registry : Registry
  loading : Config.Loading
  resolution : Config.Resolution
  options : Compile.Options
  listing : Listing
  clock : Nat → Nat
  readings : Nat

/-- What a loader keeps, the settings that decide what it keeps, and the clock. -/
def store (l : Loader) : Store :=
  ⟨l.cache, l.registry, l.loading, l.resolution, l.options, l.listing, l.clock, l.readings⟩

section Store

variable (l : Loader)

@[simp] theorem store_count (c : Counter) : (l.count c).store = l.store := rfl

@[simp] theorem store_observe (operation : String) : (l.observe operation).store = l.store := rfl

@[simp] theorem store_limit (f : Limiter → Limiter) : (l.limit f).store = l.store := rfl

@[simp] theorem store_closeFile : l.closeFile.store = l.store := rfl

@[simp]
theorem store_unreserve : l.unreserve.store = l.store := by
  unfold unreserve
  split <;> rfl

@[simp]
theorem store_report (ticket : Option Breakers.Ticket) (success : Bool) (now : Nat) :
    (l.report ticket success now).store = l.store := by
  cases ticket <;> rfl

@[simp]
theorem store_ask (key : String) (now : Nat) : (l.ask key now).1.store = l.store := by
  unfold ask
  split
  · rfl
  · split <;> rfl

theorem store_readClock {l' : Loader} (stores : l'.store = l.store) :
    l'.readClock.store = l.readClock.store :=
  congrArg (fun s : Store => { s with readings := s.readings + 1 }) stores

end Store

theorem store_reserve {l l' : Loader} (h : l.reserve = .ok l') : l'.store = l.store := by
  unfold reserve at h
  split at h
  · cases h
    rfl
  · split at h
    · split at h
      · cases h
        rfl
      · cases h
    · cases h
      rfl

theorem store_openFile {l l' : Loader} (h : l.openFile = .ok l') : l'.store = l.store := by
  unfold openFile at h
  split at h
  · cases h
    rfl
  · split at h
    · cases h
      rfl
    · cases h

theorem takeUnits_eq_ok {l l' : Loader} (h : l.takeUnits = .ok l') :
    ∃ between, l.reserve = .ok between ∧ between.openFile = .ok l' := by
  unfold takeUnits at h
  cases reserved : l.reserve with
  | error e => rw [reserved] at h; cases h
  | ok between => rw [reserved] at h; exact ⟨between, rfl, h⟩

theorem store_takeUnits {l l' : Loader} (h : l.takeUnits = .ok l') : l'.store = l.store := by
  obtain ⟨between, first, second⟩ := takeUnits_eq_ok h
  exact (store_openFile second).trans (store_reserve first)

/-! ## The books -/

/-- The paths of the modules that are kept, in the order in which they were loaded. -/
def keptIds (l : Loader) : List Path :=
  l.cache.map Module.id

/-- The limiter has these limits and counts this many modules and open files. -/
def Counted (limits : Limits) (modules files : Nat) (l : Loader) : Prop :=
  ∃ limiter, l.limiter = some limiter ∧ limiter.limits = limits ∧
    limiter.modules = modules ∧ limiter.files = files

namespace Counted

variable {modules files : Nat} {l' : Loader}

theorem reserve (c : Counted limits modules files l) (caching : l.loading.cache = true)
    (h : l.reserve = .ok l') :
    modules < limits.maxCachedModules ∧ Counted limits (modules + 1) files l' := by
  obtain ⟨limiter, found, rfl, rfl, rfl⟩ := c
  simp only [Loader.reserve, found, caching, if_true, Limiter.reserveModule?, Limiter.acquire?] at h
  by_cases room : limiter.modules < limiter.limits.maxCachedModules
  · simp only [room, if_true, Option.map_some, Except.ok.injEq] at h
    subst h
    exact ⟨room, _, rfl, rfl, rfl, rfl⟩
  · simp [room] at h

theorem openFile (c : Counted limits modules files l) (h : l.openFile = .ok l') :
    Counted limits modules (files + 1) l' := by
  obtain ⟨limiter, found, rfl, rfl, rfl⟩ := c
  simp only [Loader.openFile, found, Limiter.openFile?, Limiter.acquire?] at h
  by_cases room : limiter.files < limiter.limits.maxFileHandles
  · simp only [room, if_true, Option.map_some, Except.ok.injEq] at h
    subst h
    exact ⟨_, rfl, rfl, rfl, rfl⟩
  · simp [room] at h

theorem closeFile (c : Counted limits modules (files + 1) l) :
    Counted limits modules files l.closeFile := by
  obtain ⟨limiter, found, limited, counted, opened⟩ := c
  refine ⟨limiter.closeFile, by simp [Loader.closeFile, limit, found], limited, counted, ?_⟩
  rw [Limiter.closeFile, opened, Nat.add_sub_cancel]

theorem release (c : Counted limits (modules + 1) files l) :
    Counted limits modules files (l.limit Limiter.releaseModule) := by
  obtain ⟨limiter, found, limited, counted, opened⟩ := c
  refine ⟨limiter.releaseModule, by simp [limit, found], limited, ?_, opened⟩
  rw [Limiter.releaseModule, counted, Nat.add_sub_cancel]

end Counted

/-- The books of a loader at work. The registry holds `ids`, no two of which are the same, and the
limiter has counted them, `reserved` further modules and `opened` files. -/
structure Balanced (limits : Limits) (ids : List Path) (reserved opened : Nat) (l : Loader) :
    Prop where
  caching : l.loading.cache = true
  distinct : ids.Pairwise fun p q => p.same q = false
  registered : l.registry.ids.Perm ids
  counted : Counted limits (ids.length + reserved) opened l
  ceiling : ids.length + reserved ≤ limits.maxCachedModules

namespace Balanced

variable {reserved opened : Nat} {l' : Loader}

section Changes

variable (b : Balanced limits ids reserved opened l)
include b

theorem of_same (stores : l'.store = l.store) (limiters : l'.limiter = l.limiter) :
    Balanced limits ids reserved opened l' := by
  have loading : l'.loading = l.loading := congrArg Store.loading stores
  have registry : l'.registry = l.registry := congrArg Store.registry stores
  have counted : Counted limits (ids.length + reserved) opened l' := by
    obtain ⟨limiter, found, rest⟩ := b.counted
    exact ⟨limiter, limiters.trans found, rest⟩
  exact ⟨loading ▸ b.caching, b.distinct, registry ▸ b.registered, counted, b.ceiling⟩

theorem count (c : Counter) : Balanced limits ids reserved opened (l.count c) :=
  b.of_same rfl rfl

theorem observe (operation : String) : Balanced limits ids reserved opened (l.observe operation) :=
  b.of_same rfl rfl

theorem readClock : Balanced limits ids reserved opened l.readClock :=
  ⟨b.caching, b.distinct, b.registered, b.counted, b.ceiling⟩

theorem report (ticket : Option Breakers.Ticket) (success : Bool) (now : Nat) :
    Balanced limits ids reserved opened (l.report ticket success now) :=
  b.of_same (store_report l ticket success now) (by cases ticket <;> rfl)

theorem ask (key : String) (now : Nat) : Balanced limits ids reserved opened (l.ask key now).1 := by
  refine b.of_same (store_ask l key now) ?_
  unfold Loader.ask
  split
  · rfl
  · split <;> rfl

/-! ### Units -/

/-- Taking units notes one module and one file more. -/
theorem takeUnits (h : l.takeUnits = .ok l') :
    Balanced limits ids (reserved + 1) (opened + 1) l' := by
  obtain ⟨between, first, second⟩ := takeUnits_eq_ok h
  obtain ⟨room, taken⟩ := b.counted.reserve b.caching first
  have stores : l'.store = l.store := (store_openFile second).trans (store_reserve first)
  have loading : l'.loading = l.loading := congrArg Store.loading stores
  have registry : l'.registry = l.registry := congrArg Store.registry stores
  exact ⟨loading ▸ b.caching, b.distinct, registry ▸ b.registered, taken.openFile second, room⟩

end Changes

theorem closeFile (b : Balanced limits ids reserved (opened + 1) l) :
    Balanced limits ids reserved opened l.closeFile :=
  ⟨b.caching, b.distinct, b.registered, b.counted.closeFile, b.ceiling⟩

theorem unreserve (b : Balanced limits ids (reserved + 1) opened l) :
    Balanced limits ids reserved opened l.unreserve := by
  rw [Loader.unreserve, if_pos b.caching]
  exact ⟨b.caching, b.distinct, b.registered, b.counted.release, Nat.le_of_succ_le b.ceiling⟩

/-! ### Dropping modules -/

/-- Paths of which no two are the same lose one when a path is dropped. -/
theorem length_filter_same (distinct : ids.Pairwise fun p q => p.same q = false) {p : Path}
    (found : ∃ q ∈ ids, q.same p = true) :
    (ids.filter fun q => !q.same p).length + 1 = ids.length := by
  induction ids with
  | nil => simp at found
  | cons q ids ih =>
    obtain ⟨others, distinct⟩ := pairwise_cons.mp distinct
    by_cases here : q.same p = true
    · have rest : (ids.filter fun r => !r.same p) = ids := by
        refine filter_eq_self.mpr fun r hr => ?_
        rw [← Path.same_congr_right here, Path.same_comm, others r hr]
        rfl
      simp [here, rest]
    · obtain ⟨r, hr, same⟩ := found
      have later : ∃ r ∈ ids, r.same p = true := by
        rcases mem_cons.mp hr with rfl | hr
        · exact absurd same here
        · exact ⟨r, hr, same⟩
      simp [here, ih distinct later]

/-- Dropping a module strikes it out in all three places. -/
theorem forget (b : Balanced limits ids reserved opened l) {p : Path}
    (found : ∃ q ∈ ids, q.same p = true) :
    Balanced limits (ids.filter fun q => !q.same p) reserved opened (l.forget p) := by
  have known : (l.registry.find? p).isSome = true := by
    obtain ⟨q, hq, same⟩ := found
    exact (Registry.find?_isSome_iff _ _).mpr ⟨q, b.registered.mem_iff.mpr hq, same⟩
  have lost := length_filter_same b.distinct found
  have ceiling := b.ceiling
  have counted :
      Counted limits ((ids.filter fun q => !q.same p).length + reserved + 1) opened l := by
    have sum : (ids.filter fun q => !q.same p).length + reserved + 1 = ids.length + reserved := by
      omega
    exact sum ▸ b.counted
  simp only [Loader.forget, known, b.caching, Bool.and_self, if_true]
  refine ⟨b.caching, b.distinct.filter _, ?_, counted.release, by omega⟩
  show (l.registry.unregister p).ids.Perm _
  rw [Registry.ids_unregister]
  exact b.registered.filter _

end Balanced

/-! ## Dropping modules -/

@[simp]
theorem keptIds_forget (l : Loader) (p : Path) : (l.forget p).keptIds = l.keptIds :=
  congrArg (List.map Module.id) (cache_forget l p)

variable {p path : Path} {m : Module} {project : Project} {now : Nat}

theorem cached?_eq_some (h : l.cached? p = some m) : m ∈ l.cache ∧ m.id.same p = true := by
  unfold cached? at h
  have same := find?_some h
  exact ⟨mem_of_find?_eq_some h, same⟩

theorem cached?_eq_none (h : l.cached? p = none) : ∀ q ∈ l.keptIds, q.same p = false := by
  intro q hq
  obtain ⟨m, hm, rfl⟩ := mem_map.mp hq
  simpa using find?_eq_none.mp h m hm

/-- The books of a loader that has answered: what it keeps is registered and counted. -/
def Settled (limits : Limits) (l : Loader) : Prop :=
  Balanced limits l.keptIds 0 0 l

namespace Settled

theorem of_store {l' : Loader} (b : Balanced limits l.keptIds 0 0 l')
    (stores : l'.store = l.store) : Settled limits l' := by
  have ids : l'.keptIds = l.keptIds := congrArg (fun s => s.cache.map Module.id) stores
  unfold Settled
  rwa [ids]

theorem count (b : Settled limits l) (c : Counter) : Settled limits (l.count c) :=
  Balanced.count b c

theorem invalidate (b : Settled limits l) (p : Path) : Settled limits (l.invalidate p).1 := by
  unfold Loader.invalidate
  split
  · exact b
  · next m found =>
      obtain ⟨member, same⟩ := cached?_eq_some found
      have kept : m.id ∈ l.keptIds := mem_map_of_mem member
      have ids : ({ l with cache := l.cache.filter fun m => !m.id.same p } : Loader).keptIds =
          l.keptIds.filter fun q => !q.same m.id := by
        simp only [keptIds, filter_map, Function.comp_def, Path.same_congr_right same]
      have emptied : Balanced limits l.keptIds 0 0
          { l with cache := l.cache.filter fun m => !m.id.same p } :=
        ⟨b.caching, b.distinct, b.registered, b.counted, b.ceiling⟩
      -- The cache has lost the module already; the books still list it until it is forgotten.
      show Balanced limits _ 0 0 _
      rw [keptIds_forget, ids]
      exact emptied.forget ⟨m.id, kept, Path.same_refl m.id⟩

theorem evict (b : Settled limits l) (m : Module) : Settled limits (l.evict m) :=
  (b.invalidate m.id).count _

theorem settle (b : Settled limits l) (keep : Path) : Settled limits (l.settle keep) :=
  of_settle (P := Settled limits) (fun _ m b => evict b m) keep b

theorem foldl_forget {modules : List Module} (b : Balanced limits (modules.map Module.id) 0 0 l) :
    Balanced limits [] 0 0 (modules.foldl (fun l m => l.forget m.id) l) := by
  induction modules generalizing l with
  | nil => exact b
  | cons m modules ih =>
    have others := (pairwise_cons.mp b.distinct).1
    have rest : (List.map Module.id (m :: modules)).filter (fun q => !q.same m.id) =
        modules.map Module.id := by
      rw [map_cons, filter_cons_of_neg (by simp)]
      refine filter_eq_self.mpr fun q hq => ?_
      rw [Path.same_comm, others q hq]
      rfl
    refine ih (rest ▸ b.forget ⟨m.id, ?_, Path.same_refl m.id⟩)
    exact mem_cons_self

theorem clear (b : Settled limits l) : Settled limits l.clear.1 := by
  have emptied : Balanced limits (l.cache.map Module.id) 0 0 { l with cache := [] } :=
    ⟨b.caching, b.distinct, b.registered, b.counted, b.ceiling⟩
  have cleared := foldl_forget emptied
  simp only [Loader.clear, cleared.caching, if_true]
  show Balanced limits _ 0 0 _
  rw [keptIds, cache_foldl_forget]
  exact cleared

end Settled

/-! ## Attempts -/

theorem Balanced.beginAttempt (b : Balanced limits ids 0 0 l) (now : Nat) (path : Path) :
    match l.beginAttempt now path with
    | (l', .ok _) => Balanced limits ids 1 1 l'
    | (l', .error _) => Balanced limits ids 0 0 l' := by
  unfold Loader.beginAttempt
  dsimp only
  cases taken : (l.count .cacheMisses).takeUnits with
  | error e => exact b.count _
  | ok l' =>
    have holding := (b.count _).takeUnits taken
    have asked := holding.ask path.text now
    dsimp only
    rcases answer : l'.ask path.text now with ⟨l'', _ | _⟩
    · rw [answer] at asked
      exact asked.closeFile.unreserve
    · rw [answer] at asked
      exact asked

/-- An attempt ends with a unit for the module, or with none if it failed. -/
theorem Balanced.attempt (b : Balanced limits ids 0 0 l) (project : Project) (now : Nat)
    (path : Path) :
    match l.attempt project now path with
    | (l', .ok _) => Balanced limits ids 1 0 l'
    | (l', .error _) => Balanced limits ids 0 0 l' := by
  have begun := b.beginAttempt now path
  unfold Loader.attempt
  rcases start : l.beginAttempt now path with ⟨l', _ | a⟩
  · rw [start] at begun
    exact begun
  · rw [start] at begun
    dsimp only
    generalize (do l'.build project path (← readSource project path)) = result
    cases result with
    | error e => exact (begun.closeFile.report _ _ _).unreserve
    | ok m => exact ((begun.closeFile.report _ _ _).readClock.count _).observe _

@[simp]
theorem store_resolve (l : Loader) (project : Project) (now : Nat) (specifier : String)
    (directory : Path) : (l.resolve project now specifier directory).1.store = l.store := by
  have stores := store_ask l (Specifier.key specifier directory) now
  unfold resolve
  rcases answer : l.ask (Specifier.key specifier directory) now with ⟨l', e | ticket⟩
  · rw [answer] at stores
    exact stores
  · rw [answer] at stores
    dsimp only
    cases l'.resolution.resolve project specifier directory with
    | ok target => exact (store_report l' ticket true now).trans stores
    | error e => exact (store_report l' ticket false now).trans stores

theorem store_beginAttempt (l : Loader) (now : Nat) (path : Path) :
    (l.beginAttempt now path).1.store = l.store := by
  unfold beginAttempt
  dsimp only
  cases taken : (l.count .cacheMisses).takeUnits with
  | error e => rfl
  | ok l' =>
    obtain ⟨between, first, second⟩ := takeUnits_eq_ok taken
    have stores : l'.store = (l.count .cacheMisses).store :=
      (store_openFile second).trans (store_reserve first)
    have asked := store_ask l' path.text now
    dsimp only
    rcases answer : l'.ask path.text now with ⟨l'', _ | _⟩
    · rw [answer] at asked
      simpa using asked.trans stores
    · rw [answer] at asked
      exact asked.trans stores

/-- An attempt reads the clock if it succeeds, and leaves the store alone otherwise. -/
theorem store_attempt (l : Loader) (project : Project) (now : Nat) (path : Path) :
    (l.attempt project now path).1.store =
      match (l.attempt project now path).2 with
      | .ok _ => l.readClock.store
      | .error _ => l.store := by
  have begun := store_beginAttempt l now path
  unfold attempt
  rcases start : l.beginAttempt now path with ⟨l', _ | a⟩
  · rw [start] at begun
    exact begun
  · rw [start] at begun
    dsimp only
    generalize (do l'.build project path (← readSource project path)) = result
    have told (success : Bool) : (l'.closeFile.report a.ticket success now).store = l.store :=
      (store_report l'.closeFile a.ticket success now).trans begun
    cases result with
    | ok m => exact store_readClock l (told true)
    | error e => exact (store_unreserve _).trans (told false)

theorem store_of_attempt_ok {l' : Loader} (succeeded : l.attempt project now path = (l', .ok m)) :
    l'.store = l.readClock.store := by
  have stores := store_attempt l project now path
  rw [succeeded] at stores
  exact stores

/-- An attempt that fails leaves the store as it is. -/
theorem store_of_attempt_error {l' : Loader} {e : Error}
    (failed : l.attempt project now path = (l', .error e)) : l'.store = l.store := by
  have stores := store_attempt l project now path
  rw [failed] at stores
  exact stores

theorem cache_attempt (l : Loader) (project : Project) (now : Nat) (path : Path) :
    (l.attempt project now path).1.cache = l.cache := by
  have stores := store_attempt l project now path
  split at stores <;> exact congrArg Store.cache stores

theorem store_loadFile_of_error {e : Error} (failed : (l.loadFile project now path).2 = .error e) :
    (l.loadFile project now path).1.store = l.store := by
  unfold loadFile at failed ⊢
  split at failed
  · cases failed
  · rcases outcome : l.attempt project now path with ⟨l', e' | m⟩
    · exact (store_count l' .loadFailures).trans (store_of_attempt_error outcome)
    · rw [outcome] at failed
      cases failed

theorem build_eq_ok {source : String} (built : l.build project path source = .ok m) :
    m.id = path ∧ m.source = source ∧
      m.code = (Compile.compile { l.options with kind := .ofPath path } source).code ∧
      dependencies l.resolution project path m.code = .ok m.dependencies := by
  unfold build at built
  dsimp only at built
  split at built
  · cases built
  · obtain ⟨found, resolved, built⟩ := bind_eq_ok built
    cases built
    exact ⟨rfl, rfl, rfl, resolved⟩

/-- A module shows the time of the reading that follows those before it was built. -/
theorem loadedAt_of_build {source : String} (built : l.build project path source = .ok m) :
    m.loadedAt = l.clock l.readings := by
  unfold build at built
  dsimp only at built
  split at built
  · cases built
  · obtain ⟨found, resolved, built⟩ := bind_eq_ok built
    cases built
    rfl

/-- A module that an attempt gives was built from what the file holds. -/
theorem attempt_eq_ok (loaded : (l.attempt project now path).2 = .ok m) :
    ∃ (l' : Loader) (source : String), l'.store = l.store ∧
      readSource project path = .ok source ∧ l'.build project path source = .ok m := by
  have begun := store_beginAttempt l now path
  unfold attempt at loaded
  split at loaded
  · cases loaded
  · next l' a start =>
      rw [start] at begun
      cases source : readSource project path with
      | error e =>
        rw [source] at loaded
        cases loaded
      | ok text =>
        rw [source] at loaded
        exact ⟨l', text, begun, rfl, loaded⟩

theorem loadedAt_of_attempt (loaded : (l.attempt project now path).2 = .ok m) :
    m.loadedAt = l.clock l.readings := by
  obtain ⟨_, _, begun, _, built⟩ := attempt_eq_ok loaded
  rw [loadedAt_of_build built]
  exact congrArg (fun s => s.clock s.readings) begun

theorem id_of_attempt {l l' : Loader} (h : l.attempt project now path = (l', .ok m)) :
    m.id = path := by
  obtain ⟨_, _, _, _, built⟩ := attempt_eq_ok (congrArg Prod.snd h)
  exact (build_eq_ok built).1

/-! ## Loading -/

/-- Keeping a module writes down the unit that was taken for it. -/
theorem Balanced.commit (b : Balanced limits l.keptIds 1 0 l)
    (absent : ∀ q ∈ l.keptIds, q.same m.id = false) : Settled limits (l.commit m) := by
  have unknown : ¬ l.registry.Holds m.id := by
    rintro ⟨q, hq, same⟩
    rw [absent q (b.registered.mem_iff.mp hq)] at same
    cases same
  have kept : (l.commit m).keptIds = l.keptIds ++ [m.id] := by
    simp [Loader.commit, b.caching, keptIds]
  have count : (l.keptIds ++ [m.id]).length + 0 = l.keptIds.length + 1 := by simp
  unfold Settled
  rw [kept]
  simp only [Loader.commit, b.caching, if_true]
  refine ⟨b.caching, ?_, ?_, count ▸ b.counted, count ▸ b.ceiling⟩
  · refine pairwise_append.mpr ⟨b.distinct, pairwise_singleton _ _, ?_⟩
    intro p hp q hq
    rw [mem_singleton.mp hq]
    exact absent p hp
  · refine (Registry.ids_register_perm unknown).trans ?_
    exact (b.registered.cons m.id).trans (perm_append_singleton _ _).symm

namespace Settled

theorem loadFile (b : Settled limits l) (project : Project) (now : Nat) (path : Path) :
    Settled limits (l.loadFile project now path).1 := by
  unfold Loader.loadFile
  split
  · exact b.count _
  · next missing =>
      have tried := Balanced.attempt b project now path
      rcases outcome : l.attempt project now path with ⟨l', e | m⟩
      · rw [outcome] at tried
        exact (of_store tried (store_of_attempt_error outcome)).count _
      · rw [outcome] at tried
        have ids : l'.keptIds = l.keptIds :=
          congrArg (fun s => s.cache.map Module.id) (store_of_attempt_ok outcome)
        have absent : ∀ q ∈ l'.keptIds, q.same m.id = false := by
          rw [ids, id_of_attempt outcome]
          exact cached?_eq_none missing
        refine Settled.settle (Balanced.commit ?_ absent) path
        rwa [ids]

theorem resolve (b : Settled limits l) (project : Project) (now : Nat) (specifier : String)
    (directory : Path) : Settled limits (l.resolve project now specifier directory).1 := by
  have asked := Balanced.ask b (Specifier.key specifier directory) now
  have stores := store_ask l (Specifier.key specifier directory) now
  unfold Loader.resolve
  rcases answer : l.ask (Specifier.key specifier directory) now with ⟨l', e | ticket⟩
  · rw [answer] at asked stores
    exact (of_store asked stores).count _
  · rw [answer] at asked stores
    have reported (success : Bool) : Settled limits (l'.report ticket success now) :=
      of_store (asked.report ticket success now)
        ((store_report l' ticket success now).trans stores)
    dsimp only
    cases l'.resolution.resolve project specifier directory with
    | ok target => exact reported true
    | error e => exact (reported false).count _

/-- Every load leaves the books settled. -/
theorem upheld : Upheld (Settled limits) where
  loadFile project now path b := b.loadFile project now path
  resolve project now specifier directory b := b.resolve project now specifier directory
  count c b := b.count c
  observe operation b := Balanced.observe b operation
  invalidate path b := b.invalidate path
  clear b := b.clear

end Settled

/-! ## Every run -/

/-- The paths of the modules that are kept. -/
def cachedIds (l : Loader) : Finset Path :=
  l.keptIds.toFinset

/-- The paths of the registered modules. -/
def registeredIds (l : Loader) : Finset Path :=
  l.registry.ids.toFinset

/-- A loader that has loaded nothing yet, with a limiter that has counted nothing yet. -/
structure IsNew (limits : Limits) (l : Loader) : Prop where
  cache : l.cache = []
  registry : l.registry = {}
  limited : Counted limits 0 0 l

theorem IsNew.settled (new : l.IsNew limits) (caching : l.loading.cache = true) :
    Settled limits l := by
  have ids : l.keptIds = [] := by simp [keptIds, new.cache]
  unfold Settled
  rw [ids]
  refine ⟨caching, List.Pairwise.nil, ?_, new.limited, Nat.zero_le _⟩
  rw [new.registry]
  exact List.Perm.refl _

/-- **The books agree after every run.** Whatever a loader with a cache and a limiter was asked to
do, and whatever became of the project in between: the cached and the registered paths are the same,
no two of them are spellings of one path, the limiter has counted each of them once and no more of
them than its ceiling, and no file is open. -/
theorem cachedIds_eq_registeredIds_of_run {limits : Limits} {l : Loader}
    (caching : l.loading.cache = true) (new : l.IsNew limits) (occasions : List Occasion) :
    (l.run occasions).cachedIds = (l.run occasions).registeredIds ∧
    (∀ p ∈ (l.run occasions).cachedIds, ∀ q ∈ (l.run occasions).cachedIds,
      p.same q = true → p = q) ∧
    ∃ limiter, (l.run occasions).limiter = some limiter ∧ limiter.limits = limits ∧
      limiter.modules = (l.run occasions).cachedIds.card ∧
      limiter.modules ≤ limits.maxCachedModules ∧ limiter.files = 0 := by
  have books : Settled limits (l.run occasions) :=
    Settled.upheld.run occasions (new.settled caching)
  generalize l.run occasions = l' at books
  have nodup : l'.keptIds.Nodup := books.distinct.imp fun {p q} different equal => by
    rw [equal, Path.same_refl] at different
    cases different
  obtain ⟨limiter, found, limited, modules, files⟩ := books.counted
  refine ⟨?_, ?_, limiter, found, limited, ?_, ?_, files⟩
  · exact (toFinset_eq_of_perm _ _ books.registered).symm
  · intro p hp q hq same
    by_contra different
    have symmetric : Std.Symm fun p q : Path => p.same q = false :=
      ⟨fun a b h => (Path.same_comm b a).trans h⟩
    have apart :=
      books.distinct.forall (mem_toFinset.mp hp) (mem_toFinset.mp hq) different
    rw [apart] at same
    cases same
  · rw [cachedIds, toFinset_card_of_nodup nodup]
    exact modules
  · rw [modules]
    exact books.ceiling

/-- A loader with room for one module that reads two files, then misses one of them, is told to drop
a module and at last all of them. -/
theorem cachedIds_eq_registeredIds_of_run_narrow :
    let l : Loader :=
      { loading := { maxCacheSize := some 1 }
        limiter := some { limits := { maxCachedModules := 2, maxFileHandles := 1 } }
        breakers := some { settings := { threshold := 1 } } }
    let both : Project :=
      { nodes := [(["a.som"], .file "import \"./b\";".toUTF8), (["b.som"], .file "f();".toUTF8)] }
    let one : Project := { nodes := [(["a.som"], .file "import \"./b\";".toUTF8)] }
    let occasions : List Occasion :=
      [⟨both, 0, .load "./a" ⟨"/"⟩⟩, ⟨one, 5, .loadGraph ⟨"/a.som"⟩⟩,
        ⟨one, 5, .loadFile ⟨"/b.som"⟩⟩, ⟨one, 7, .invalidate ⟨"//a.som"⟩⟩,
        ⟨both, 9, .load "./a.som" ⟨"/"⟩⟩, ⟨both, 9, .clear⟩]
    (l.run occasions).cachedIds = (l.run occasions).registeredIds ∧
    (∀ p ∈ (l.run occasions).cachedIds, ∀ q ∈ (l.run occasions).cachedIds,
      p.same q = true → p = q) ∧
    ∃ limiter, (l.run occasions).limiter = some limiter ∧
      limiter.limits = { maxCachedModules := 2, maxFileHandles := 1 } ∧
      limiter.modules = (l.run occasions).cachedIds.card ∧
      limiter.modules ≤ 2 ∧ limiter.files = 0 := by
  intro l both one occasions
  refine cachedIds_eq_registeredIds_of_run rfl ?_ occasions
  exact ⟨rfl, rfl, ⟨_, rfl, rfl, rfl, rfl⟩⟩

end Tarkib.Loader
