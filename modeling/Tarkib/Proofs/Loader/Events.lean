import Tarkib.Proofs.Loader.Lasting

/-!
# The events that a loader counts

A loader with metrics counts events. What a step of a loader counts is written down as the list of
its events (`Notes`).
-/

namespace Tarkib.Loader

open List

/-- How often an event was counted. -/
def tally (l : Loader) (c : Counter) : Nat :=
  (l.metrics.map (·.counts c)).getD 0

@[simp]
theorem tally_observe (l : Loader) (operation : String) (c : Counter) :
    (l.observe operation).tally c = l.tally c := by
  simp [tally, observe, Metrics.observe, Function.comp_def]

/-- From `l` to `l'` just these events were counted. -/
structure Notes (l : Loader) (events : List Counter) (l' : Loader) : Prop where
  measured : l'.metrics.isSome = l.metrics.isSome
  tally : l.metrics.isSome = true → ∀ c, l'.tally c = l.tally c + events.count c

namespace Notes

variable {l l' l'' : Loader} {events later : List Counter}

theorem of_metrics (same : l'.metrics = l.metrics) : Notes l [] l' := by
  refine ⟨by rw [same], fun _ c => ?_⟩
  rw [Loader.tally, same]
  rfl

theorem count (l : Loader) (c : Counter) : Notes l [c] (l.count c) := by
  refine ⟨Option.isSome_map, fun measured d => ?_⟩
  obtain ⟨m, found⟩ := Option.isSome_iff_exists.mp measured
  by_cases same : d = c
  · simp [Loader.tally, Loader.count, Metrics.increment, Metrics.add, found, same]
  · simp [Loader.tally, Loader.count, Metrics.increment, Metrics.add, found, same, Ne.symm same]

theorem observe (l : Loader) (operation : String) : Notes l [] (l.observe operation) :=
  ⟨Option.isSome_map, fun _ c => tally_observe l operation c⟩

/-- The events of steps that follow each other are put together. -/
theorem trans (first : Notes l events l') (second : Notes l' later l'') :
    Notes l (events ++ later) l'' := by
  refine ⟨second.measured.trans first.measured, fun measured c => ?_⟩
  rw [second.tally (first.measured.trans measured), first.tally measured, count_append,
    Nat.add_assoc]

end Notes

/-! ## Steps that count nothing -/

section Metrics

variable (l : Loader)

@[simp]
theorem metrics_unreserve : l.unreserve.metrics = l.metrics := by
  unfold unreserve
  split <;> rfl

@[simp]
theorem metrics_report (ticket : Option Breakers.Ticket) (success : Bool) (now : Nat) :
    (l.report ticket success now).metrics = l.metrics := by
  cases ticket <;> rfl

@[simp]
theorem metrics_ask (key : String) (now : Nat) : (l.ask key now).1.metrics = l.metrics := by
  unfold ask
  split
  · rfl
  · split <;> rfl

@[simp]
theorem metrics_forget (id : Path) : (l.forget id).metrics = l.metrics := by
  unfold forget
  dsimp only
  split <;> rfl

@[simp]
theorem metrics_invalidate (path : Path) : (l.invalidate path).1.metrics = l.metrics := by
  unfold invalidate
  split
  · rfl
  · exact metrics_forget _ _

@[simp]
theorem metrics_commit (m : Module) : (l.commit m).metrics = l.metrics := by
  unfold commit
  dsimp only
  split <;> rfl

@[simp]
theorem metrics_clear : l.clear.1.metrics = l.metrics := by
  have forgotten (modules : List Module) (l : Loader) :
      (modules.foldl (fun l m => l.forget m.id) l).metrics = l.metrics :=
    List.foldlRecOn (motive := fun l' => l'.metrics = l.metrics) modules _ rfl
      fun l' same m _ => (metrics_forget l' m.id).trans same
  unfold clear
  dsimp only
  split <;> exact forgotten _ _

end Metrics

theorem metrics_takeUnits {l l' : Loader} (taken : l.takeUnits = .ok l') :
    l'.metrics = l.metrics := by
  obtain ⟨between, first, second⟩ := takeUnits_eq_ok taken
  have reserved : between.metrics = l.metrics := by
    unfold reserve at first
    split at first
    · cases first
      rfl
    · split at first
      · split at first
        · cases first
          rfl
        · cases first
      · cases first
        rfl
  unfold openFile at second
  split at second
  · cases second
    exact reserved
  · split at second
    · cases second
      exact reserved
    · cases second

/-! ## Attempts -/

theorem notes_beginAttempt (l : Loader) (now : Nat) (path : Path) :
    Notes l [.cacheMisses] (l.beginAttempt now path).1 := by
  have missed := Notes.count l .cacheMisses
  unfold beginAttempt
  dsimp only
  cases taken : (l.count .cacheMisses).takeUnits with
  | error e => exact missed
  | ok l' =>
    have asked := metrics_ask l' path.text now
    dsimp only
    rcases answer : l'.ask path.text now with ⟨l'', e | ticket⟩
    · rw [answer] at asked
      refine missed.trans (.of_metrics ?_)
      exact (metrics_unreserve _).trans (asked.trans (metrics_takeUnits taken))
    · rw [answer] at asked
      exact missed.trans (.of_metrics (asked.trans (metrics_takeUnits taken)))

/-- An attempt counts a miss, and a failure if it fails. -/
theorem notes_attempt (l : Loader) (project : Project) (now : Nat) (path : Path) :
    match l.attempt project now path with
    | (l', .ok _) => Notes l [.cacheMisses, .modulesLoaded] l'
    | (l', .error _) => Notes l [.cacheMisses] l' := by
  have begun := notes_beginAttempt l now path
  unfold attempt
  rcases start : l.beginAttempt now path with ⟨l', e | a⟩
  · rw [start] at begun
    exact begun
  · rw [start] at begun
    dsimp only
    generalize (do l'.build project path (← readSource project path)) = result
    cases result with
    | error e =>
      refine begun.trans (.of_metrics ?_)
      exact (metrics_unreserve _).trans (metrics_report _ _ _ _)
    | ok m =>
      have told : Notes l' [] (l'.closeFile.report a.ticket true now).readClock :=
        .of_metrics (metrics_report _ _ _ _)
      exact begun.trans (told.trans ((Notes.count _ .modulesLoaded).trans (.observe _ _)))

/-! ## Evictions -/

/-- No two modules that are kept have the same path. -/
def Distinct (l : Loader) : Prop :=
  l.keptIds.Pairwise fun p q => p.same q = false

theorem Distinct.of_cache {l l' : Loader} (distinct : Distinct l) (same : l'.cache = l.cache) :
    Distinct l' := by
  unfold Distinct keptIds
  rw [same]
  exact distinct

theorem Distinct.invalidate {l : Loader} (distinct : Distinct l) (path : Path) :
    Distinct (l.invalidate path).1 := by
  unfold Distinct keptIds
  rw [cache_invalidate]
  exact distinct.sublist (filter_sublist.map Module.id)

/-- Exactly one module leaves the cache, because no two modules that are kept have the same path. -/
theorem Distinct.length_invalidate {l : Loader} (distinct : Distinct l) {m : Module}
    (member : m ∈ l.cache) : (l.invalidate m.id).1.cache.length + 1 = l.cache.length := by
  have lost := Balanced.length_filter_same distinct
    ⟨m.id, mem_map_of_mem member, Path.same_refl m.id⟩
  simpa [cache_invalidate, keptIds, filter_map, Function.comp_def] using lost

theorem evict_all (leaving : List Module) (l : Loader) :
    Notes l (.replicate leaving.length .cacheEvictions) (leaving.foldl evict l) ∧
      (Distinct l → Distinct (leaving.foldl evict l) ∧
        (leaving.Pairwise (fun m n => m.id.same n.id = false) → leaving ⊆ l.cache →
          (leaving.foldl evict l).cache.length + leaving.length = l.cache.length)) := by
  induction leaving generalizing l with
  | nil => exact ⟨.of_metrics rfl, fun distinct => ⟨distinct, fun _ _ => rfl⟩⟩
  | cons m leaving ih =>
    obtain ⟨notes, keeps⟩ := ih (l.evict m)
    have dropped : Notes l [] (l.invalidate m.id).1 := .of_metrics (metrics_invalidate l m.id)
    refine ⟨(dropped.trans (.count _ .cacheEvictions)).trans notes, fun distinct => ?_⟩
    obtain ⟨still, shrinks⟩ := keeps (distinct.invalidate m.id)
    refine ⟨still, fun different subset => ?_⟩
    obtain ⟨others, different⟩ := pairwise_cons.mp different
    obtain ⟨here, subset⟩ := cons_subset.mp subset
    -- The modules that have yet to go are other ones than `m` and are still kept.
    have remain : leaving ⊆ (l.evict m).cache := by
      intro n member
      show n ∈ (l.invalidate m.id).1.cache
      rw [cache_invalidate]
      refine mem_filter.mpr ⟨subset member, ?_⟩
      rw [Path.same_comm, others n member]
      rfl
    have one : (l.evict m).cache.length + 1 = l.cache.length := distinct.length_invalidate here
    have rest := shrinks different remain
    rw [length_cons, foldl_cons]
    omega

/-- The oldest module is one of those that are kept, and no other one has an earlier time. -/
theorem oldest?_spec {listing : Listing} {keep : Path} {modules : List Module} {m : Module}
    (found : oldest? keep (listing.list modules) = some m) :
    m ∈ modules ∧ m.id.same keep = false ∧
      ∀ other ∈ modules, other.id.same keep = false → m.loadedAt ≤ other.loadedAt := by
  have listed {other : Module} : other ∈ (listing.list modules).filter (fun m => !m.id.same keep) ↔
      other ∈ modules ∧ other.id.same keep = false := by
    rw [mem_filter, (listing.perm modules).mem_iff, Bool.not_eq_true']
  obtain ⟨member, apart⟩ := listed.mp (List.minOn?_mem found)
  refine ⟨member, apart, fun other kept different => ?_⟩
  have least := List.apply_get_minOn?_le_of_mem (f := Module.loadedAt)
    (listed.mpr ⟨kept, different⟩)
  unfold oldest? at found
  simpa only [found, Option.get_some] using least

/-- The modules that have to go are different ones out of those that are kept. -/
theorem victims_spec (c : Config.Loading) (listing : Listing) (keep : Path) (rounds : Nat)
    (modules : List Module) :
    victims c listing keep rounds modules ⊆ modules ∧
      (victims c listing keep rounds modules).Pairwise fun m n => m.id.same n.id = false := by
  fun_induction victims c listing keep rounds modules with
  | case1 | case2 | case3 => exact ⟨nil_subset _, .nil⟩
  | case4 rounds modules _ m found ih =>
    obtain ⟨subset, different⟩ := ih
    refine ⟨cons_subset.mpr ⟨(oldest?_spec found).1, ?_⟩, pairwise_cons.mpr ⟨?_, different⟩⟩
    · exact List.Subset.trans subset filter_sublist.subset
    · intro other later
      have left := (mem_filter.mp (subset later)).2
      rw [Path.same_comm]
      exact (Bool.not_eq_true' _).mp left

/-- Making room counts an eviction for every module that has to go. -/
theorem settle_cases (l : Loader) (keep : Path) :
    ∃ n, Notes l (.replicate n .cacheEvictions) (l.settle keep) ∧
      (Distinct l → Distinct (l.settle keep) ∧
        (l.settle keep).cache.length + n = l.cache.length) := by
  unfold settle
  split
  · obtain ⟨subset, different⟩ := victims_spec l.loading l.listing keep l.cache.length l.cache
    obtain ⟨notes, keeps⟩ := evict_all (victims l.loading l.listing keep l.cache.length l.cache) l
    refine ⟨_, notes, fun distinct => ?_⟩
    obtain ⟨still, shrinks⟩ := keeps distinct
    exact ⟨still, shrinks different subset⟩
  · exact ⟨0, .of_metrics rfl, fun distinct => ⟨distinct, rfl⟩⟩

/-! ## Loading a file -/

/-- A load is a hit, or a miss and a failure, or a miss, a module and the evictions that it causes.
-/
theorem loadFile_cases (l : Loader) (project : Project) (now : Nat) (path : Path) :
    (∃ l' m, l.loadFile project now path = (l', .ok m) ∧ Notes l [.cacheHits] l' ∧
        l'.cache = l.cache) ∨
      (∃ l' e, l.loadFile project now path = (l', .error e) ∧
        Notes l [.cacheMisses, .loadFailures] l' ∧ l'.cache = l.cache) ∨
      ∃ l' m n, l.loadFile project now path = (l', .ok m) ∧
        Notes l ([.cacheMisses, .modulesLoaded] ++ .replicate n .cacheEvictions) l' ∧
        (Distinct l → Distinct l' ∧
          (l.loading.cache = true → l'.cache.length + n = l.cache.length + 1)) := by
  have tried := notes_attempt l project now path
  unfold loadFile
  cases found : l.cached? path with
  | some m => exact .inl ⟨_, m, rfl, .count l .cacheHits, rfl⟩
  | none =>
    right
    dsimp only
    rcases outcome : l.attempt project now path with ⟨l', e | m⟩
    · rw [outcome] at tried
      refine .inl ⟨_, e, rfl, tried.trans (.count l' .loadFailures), ?_⟩
      exact congrArg Store.cache (store_of_attempt_error outcome)
    · rw [outcome] at tried
      have stores := store_of_attempt_ok outcome
      have caches : l'.cache = l.cache := congrArg Store.cache stores
      have loading : l'.loading = l.loading := congrArg Store.loading stores
      obtain ⟨n, evicted, keeps⟩ := settle_cases (l'.commit m) path
      have committed : Notes l' [] (l'.commit m) := .of_metrics (metrics_commit l' m)
      refine .inr ⟨_, m, n, rfl, tried.trans (committed.trans evicted), fun distinct => ?_⟩
      by_cases caching : l.loading.cache = true
      · have grown : (l'.commit m).cache = l.cache ++ [m] := by
          simp [commit, loading, caching, caches]
        have fresh : Distinct (l'.commit m) := by
          unfold Distinct keptIds
          rw [grown, map_append]
          refine pairwise_append.mpr ⟨distinct, pairwise_singleton _ _, ?_⟩
          intro p kept q new
          rw [mem_singleton.mp new, id_of_attempt outcome]
          exact cached?_eq_none found p kept
        obtain ⟨still, shrinks⟩ := keeps fresh
        rw [grown, length_append] at shrinks
        exact ⟨still, fun _ => shrinks⟩
      · have untouched : (l'.commit m).cache = l.cache := by
          simp [commit, loading, caching, caches]
        exact ⟨(keeps (distinct.of_cache untouched)).1, fun on => absurd on caching⟩

end Tarkib.Loader
