import Tarkib.Proofs.Loader.Arising
import Tarkib.Proofs.Loader.Events
import Tarkib.Proofs.Project.Following

/-!
# Evictions

While too much is kept, the module that shows the earliest time is evicted, but never the one that
was just loaded. This goes in rounds, until no more is kept than is allowed or only that module is
left.

The times are readings of the clock. If it never stands still and is never set back, they tell in
which order the modules were loaded.
-/

namespace Tarkib.Loader

open List

variable {l : Loader} {o : Occasion} {a b : Module}

/-! ## The rounds of eviction -/

/-- The module that has to go next: the oldest one except that at `keep`, if too much is kept. -/
def nextVictim? (l : Loader) (keep : Path) : Option Module :=
  if isOver l.loading l.cache then oldest? keep (l.listing.list l.cache) else none

/-- Modules are evicted one after the other until none has to go. -/
inductive Rounds (keep : Path) : Loader → List Module → Loader → Prop where
  | done {l : Loader} (ended : l.nextVictim? keep = none) : Rounds keep l [] l
  | round {l l' : Loader} {m : Module} {evicted : List Module}
      (next : l.nextVictim? keep = some m) (later : Rounds keep (l.evict m) evicted l') :
      Rounds keep l (m :: evicted) l'

variable {keep path : Path} {l' : Loader} {evicted ms ns : List Module} {m : Module}
  {project : Project} {now : Nat}

theorem stable_clock (clock : Nat → Nat) : Stable fun l => l.clock = clock :=
  stable_of_store (P := fun s => s.clock = clock) (fun _ _ _ h => h) fun _ h => h

theorem stable_readings (n : Nat) : Stable fun l => n ≤ l.readings :=
  stable_of_store (P := fun s => n ≤ s.readings) (fun _ _ _ h => h) fun _ h =>
    h.trans (Nat.le_succ _)

theorem loading_evict (l : Loader) (m : Module) : (l.evict m).loading = l.loading :=
  (stable_loading l.loading).invalidate m.id rfl

theorem listing_evict (l : Loader) (m : Module) : (l.evict m).listing = l.listing :=
  (stable_of_store (P := fun s => s.listing = l.listing) (fun _ _ _ h => h) fun _ h => h).invalidate
    m.id rfl

theorem cache_evict (l : Loader) (m : Module) :
    (l.evict m).cache = l.cache.filter fun other => !other.id.same m.id :=
  cache_invalidate l m.id

theorem Distinct.evict (distinct : Distinct l) (m : Module) : Distinct (l.evict m) :=
  distinct.invalidate m.id

theorem Distinct.eq_of_same (distinct : Distinct l) (first : a ∈ l.cache)
    (second : b ∈ l.cache) (same : a.id.same b.id = true) : a = b := by
  obtain ⟨front, back, split⟩ := append_of_mem first
  have apart : l.cache.Pairwise fun a b => a.id.same b.id = false := pairwise_map.mp distinct
  rw [split, pairwise_append, pairwise_cons] at apart
  rw [split, mem_append, mem_cons] at second
  rcases second with earlier | rfl | later
  · rw [Path.same_comm, apart.2.2 b earlier a mem_cons_self] at same
    cases same
  · rfl
  · rw [apart.2.1.1 b later] at same
    cases same

theorem nextVictim?_spec (next : l.nextVictim? keep = some m) :
    isOver l.loading l.cache = true ∧ oldest? keep (l.listing.list l.cache) = some m := by
  unfold nextVictim? at next
  split at next
  · next much => exact ⟨much, next⟩
  · cases next

/-- Dropping the oldest modules is evicting in rounds. -/
theorem rounds_victims (rounds : Nat) (enough : l.cache.length ≤ rounds) :
    Rounds keep l (victims l.loading l.listing keep rounds l.cache)
      ((victims l.loading l.listing keep rounds l.cache).foldl evict l) := by
  induction rounds generalizing l with
  | zero =>
    have empty : l.cache = [] := eq_nil_of_length_eq_zero (by omega)
    have none : l.nextVictim? keep = none := by
      cases next : l.nextVictim? keep with
      | none => rfl
      | some m =>
        have member := (oldest?_spec (nextVictim?_spec next).2).1
        rw [empty] at member
        cases member
    exact .done none
  | succ rounds ih =>
    cases next : l.nextVictim? keep with
    | none =>
      have idle : victims l.loading l.listing keep (rounds + 1) l.cache = [] := by
        unfold nextVictim? at next
        unfold victims
        cases much : isOver l.loading l.cache with
        | false => rfl
        | true =>
          rw [much] at next
          simp only [if_true] at next
          simp [next]
      rw [idle]
      exact .done next
    | some m =>
      obtain ⟨much, oldest⟩ := nextVictim?_spec next
      have first : victims l.loading l.listing keep (rounds + 1) l.cache =
          m :: victims (l.evict m).loading (l.evict m).listing keep rounds (l.evict m).cache := by
        rw [loading_evict, listing_evict, cache_evict, victims, much, oldest]
        rfl
      have fewer : (l.evict m).cache.length ≤ rounds := by
        have member := (oldest?_spec oldest).1
        have less : (l.evict m).cache.length < l.cache.length := by
          rw [cache_evict]
          exact length_filter_lt_length_iff_exists.mpr ⟨m, member, by simp⟩
        omega
      rw [first, foldl_cons]
      exact .round next (ih fewer)

theorem rounds_enforce (l : Loader) (keep : Path) :
    ∃ evicted, Rounds keep l evicted (l.enforce keep) :=
  ⟨_, rounds_victims l.cache.length (Nat.le_refl _)⟩

namespace Rounds

variable (rounds : Rounds keep l evicted l')
include rounds

theorem ended : l'.nextVictim? keep = none := by
  induction rounds with
  | done ended => exact ended
  | round _ _ ih => exact ih

theorem loading : l'.loading = l.loading := by
  induction rounds with
  | done => rfl
  | round _ _ ih => exact ih.trans (loading_evict _ _)

theorem readings : l.readings ≤ l'.readings := by
  induction rounds with
  | done => exact Nat.le_refl _
  | @round l _ m _ _ _ ih =>
    exact ((stable_readings l.readings).invalidate m.id (Nat.le_refl _)).trans ih

theorem sublist : l'.cache.Sublist l.cache := by
  induction rounds with
  | done => exact List.Sublist.refl _
  | @round l _ m _ _ _ ih =>
    rw [cache_evict] at ih
    exact ih.trans filter_sublist

/-- The module at `keep` is never evicted. -/
theorem keeps (member : m ∈ l.cache) (own : m.id.same keep = true) : m ∈ l'.cache := by
  induction rounds with
  | done => exact member
  | @round l _ victim _ next _ ih =>
    refine ih ?_
    have other := (oldest?_spec (nextVictim?_spec next).2).2.1
    rw [cache_evict]
    refine mem_filter.mpr ⟨member, ?_⟩
    rw [Path.same_comm, Path.same_congr_right own, other]
    rfl

/-- Each round takes one module away. -/
theorem length (distinct : Distinct l) : l'.cache.length + evicted.length = l.cache.length := by
  induction rounds with
  | done => rfl
  | @round l l' victim evicted next _ ih =>
    have member := (oldest?_spec (nextVictim?_spec next).2).1
    have one : (l.evict victim).cache.length + 1 = l.cache.length :=
      distinct.length_invalidate member
    have rest := ih (distinct.evict victim)
    rw [length_cons]
    omega

/-- A module that has gone does not show a later time than one that stays. -/
theorem loadedAt_le (distinct : Distinct l) (before : a ∈ l.cache)
    (gone : a ∉ l'.cache) (stays : b ∈ l'.cache) (other : b.id.same keep = false) :
    a.loadedAt ≤ b.loadedAt := by
  induction rounds with
  | done => exact absurd before gone
  | @round l l' victim evicted next later ih =>
    obtain ⟨member, _, least⟩ := oldest?_spec (nextVictim?_spec next).2
    by_cases still : a ∈ (l.evict victim).cache
    · exact ih (distinct.evict victim) still gone stays
    · have same : a.id.same victim.id = true := by
        rw [cache_evict, mem_filter] at still
        simpa [before] using still
      rw [distinct.eq_of_same before member same]
      have kept : b ∈ l.cache := (Rounds.round next later).sublist.subset stays
      exact least b kept other

end Rounds

/-! ## The limits of the cache -/

/-- The modules are within the limits. One module may be kept whatever its size. -/
structure Within (c : Config.Loading) (modules : List Module) : Prop where
  size : ∀ size ∈ c.maxCacheSize, modules.length ≤ max 1 size
  memory : ∀ memory ∈ c.maxCacheMemory, Module.totalSize modules ≤ memory ∨ modules.length ≤ 1

theorem totalSize_le_of_sublist (sub : ms.Sublist ns) :
    Module.totalSize ms ≤ Module.totalSize ns := by
  induction sub with
  | slnil => exact Nat.le_refl _
  | cons m _ ih => exact ih.trans (Nat.le_add_left _ _)
  | cons_cons m _ ih => exact Nat.add_le_add_left ih _

theorem Within.sublist {c : Config.Loading} (within : Within c ns) (sub : ms.Sublist ns) :
    Within c ms where
  size size limit := sub.length_le.trans (within.size size limit)
  memory memory limit :=
    (within.memory memory limit).imp (totalSize_le_of_sublist sub).trans sub.length_le.trans

/-- If no module has to go, the limits hold or only the module at `keep` is left. -/
theorem within_of_ended (distinct : Distinct l) (ended : l.nextVictim? keep = none) :
    Within l.loading l.cache := by
  unfold nextVictim? at ended
  split at ended
  · -- Too much is kept, so there is no other module.
    have alone : ∀ a ∈ l.cache, a.id.same keep = true := by
      intro a member
      by_contra other
      have listed : a ∈ (l.listing.list l.cache).filter fun m => !m.id.same keep :=
        mem_filter.mpr ⟨(l.listing.perm l.cache).mem_iff.mpr member, by simpa using other⟩
      have some := List.isSome_minOn?_of_mem (f := Module.loadedAt) listed
      unfold oldest? at ended
      rw [ended] at some
      cases some
    have single : l.cache.length ≤ 1 := by
      rcases kept : l.cache with _ | ⟨a, _ | ⟨b, rest⟩⟩
      · exact Nat.zero_le _
      · exact Nat.le_refl _
      · have apart := pairwise_map.mp distinct
        rw [kept] at apart alone
        have same := Path.same_trans (alone a (by simp)) (Path.same_symm (alone b (by simp)))
        rw [(pairwise_cons.mp apart).1 b mem_cons_self] at same
        cases same
    exact ⟨fun size _ => by omega, fun memory _ => .inr single⟩
  · next enough =>
      simp only [isOver, Bool.or_eq_true, not_or, Bool.not_eq_true] at enough
      obtain ⟨count, bytes⟩ := enough
      refine ⟨fun size limit => ?_, fun memory limit => .inl ?_⟩
      · rw [Option.mem_def.mp limit] at count
        have fits := Nat.not_lt.mp (of_decide_eq_false count)
        omega
      · rw [Option.mem_def.mp limit] at bytes
        exact Nat.not_lt.mp (of_decide_eq_false bytes)

/-- A file that is not kept is loaded by building its module, adding it and evicting in rounds. -/
theorem exists_rounds_loadFile (caching : l.loading.cache = true) (distinct : Distinct l)
    (new : l.cached? path = none) (loaded : (l.loadFile project now path).2 = .ok m) :
    ∃ committed evicted, m.id = path ∧ m.loadedAt = l.clock l.readings ∧
      committed.loading = l.loading ∧ committed.readings = l.readings + 1 ∧
      committed.cache = l.cache ++ [m] ∧ Distinct committed ∧
      Rounds path committed evicted (l.loadFile project now path).1 := by
  unfold loadFile at loaded ⊢
  rw [new] at loaded ⊢
  dsimp only at loaded ⊢
  rcases outcome : l.attempt project now path with ⟨l', e | built⟩
  · rw [outcome] at loaded
    cases loaded
  · rw [outcome] at loaded
    cases loaded
    have own : m.id = path := id_of_attempt outcome
    have stores := store_of_attempt_ok outcome
    have loading : l'.loading = l.loading := congrArg Store.loading stores
    have caches : l'.cache = l.cache := congrArg Store.cache stores
    have readings : l'.readings = l.readings + 1 := congrArg Store.readings stores
    have grown : (l'.commit m).cache = l.cache ++ [m] := by simp [commit, loading, caching, caches]
    have later : (l'.commit m).readings = l.readings + 1 := by
      simp [commit, loading, caching, readings]
    have kept : (l'.commit m).loading = l.loading := (stable_loading l.loading).commit m loading
    have apart : Distinct (l'.commit m) := by
      unfold Distinct keptIds
      rw [grown, map_append]
      refine pairwise_append.mpr ⟨distinct, pairwise_singleton _ _, ?_⟩
      intro p member q single
      rw [mem_singleton.mp single, own]
      exact cached?_eq_none new p member
    have enforced : (l'.commit m).settle path = (l'.commit m).enforce path := by
      simp [settle, kept, caching]
    have time := loadedAt_of_attempt (congrArg Prod.snd outcome)
    obtain ⟨evicted, rounds⟩ := rounds_enforce (l'.commit m) path
    dsimp only
    rw [enforced]
    exact ⟨l'.commit m, evicted, own, time, kept, later, grown, apart, rounds⟩

/-! ## The order of loads -/

/-- The request loads the file at the path: it is not kept, and loading it succeeds. -/
def Loads (l : Loader) (o : Occasion) (p : Path) : Prop :=
  ∃ q m, o.request = .loadFile q ∧ q.same p = true ∧ l.cached? q = none ∧
    (l.loadFile o.project o.now q).2 = .ok m

/-- The request with the given number loads the file at the path. -/
def LoadsAt (l : Loader) (occasions : List Occasion) (i : Nat) (p : Path) : Prop :=
  ∃ o, occasions[i]? = some o ∧ (l.run (occasions.take i)).Loads o p

/-- The last load of `p` came later than all loads of `q`. -/
def LoadedLater (l : Loader) (occasions : List Occasion) (p q : Path) : Prop :=
  ∃ j, l.LoadsAt occasions j p ∧ ∀ i, l.LoadsAt occasions i q → i < j

section Order

variable {occasions : List Occasion} {p q : Path} {i : Nat}

theorem LoadedLater.asymm (later : l.LoadedLater occasions p q) :
    ¬ l.LoadedLater occasions q p := by
  rintro ⟨i, here, before⟩
  obtain ⟨j, there, before'⟩ := later
  exact Nat.lt_asymm (before' i here) (before j there)

theorem run_append (l : Loader) (first second : List Occasion) :
    l.run (first ++ second) = (l.run first).run second :=
  foldl_append

theorem LoadsAt.lt_length (loads : l.LoadsAt occasions i p) : i < occasions.length := by
  obtain ⟨o, here, _⟩ := loads
  exact (List.getElem?_eq_some_iff.mp here).1

theorem loadsAt_append_singleton :
    l.LoadsAt (occasions ++ [o]) i p ↔
      l.LoadsAt occasions i p ∨ i = occasions.length ∧ (l.run occasions).Loads o p := by
  rcases Nat.lt_trichotomy i occasions.length with less | rfl | more
  · have earlier : (occasions ++ [o]).take i = occasions.take i :=
      take_append_of_le_length less.le
    simp [LoadsAt, getElem?_append_left less, earlier, less.ne]
  · simp [LoadsAt]
  · have beyond : (occasions ++ [o])[i]? = none := by
      rw [List.getElem?_eq_none_iff, length_append, length_singleton]
      omega
    have beyond' : occasions[i]? = none := List.getElem?_eq_none_iff.mpr more.le
    simp [LoadsAt, beyond, beyond', more.ne']

theorem LoadedLater.append (later : l.LoadedLater occasions p q)
    (other : ¬ (l.run occasions).Loads o q) : l.LoadedLater (occasions ++ [o]) p q := by
  obtain ⟨j, here, before⟩ := later
  refine ⟨j, loadsAt_append_singleton.mpr (.inl here), fun i loads => ?_⟩
  rcases loadsAt_append_singleton.mp loads with old | ⟨_, new⟩
  · exact before i old
  · exact absurd new other

theorem loadedLater_of_loads (loads : (l.run occasions).Loads o p)
    (other : ¬ (l.run occasions).Loads o q) : l.LoadedLater (occasions ++ [o]) p q := by
  refine ⟨occasions.length, loadsAt_append_singleton.mpr (.inr ⟨rfl, loads⟩), fun i before => ?_⟩
  rcases loadsAt_append_singleton.mp before with old | ⟨_, new⟩
  · exact old.lt_length
  · exact absurd new other

end Order

/-! ## Every run -/

/-- Requests that load at most one file. -/
def Request.isElementary : Request → Bool
  | .loadFile _ | .invalidate _ | .clear => true
  | .loadGraph _ | .load _ _ => false

/-- After the requests, no two kept modules have the same path, each kept module was loaded later
than those in front of it and shows the time of a reading of the clock, and the limits hold. If the
clock never stands still and is never set back, the later module shows the later time. -/
structure Aligned (l : Loader) (occasions : List Occasion) : Prop where
  distinct : Distinct (l.run occasions)
  ordered : (l.run occasions).cache.Pairwise fun a b => l.LoadedLater occasions b.id a.id
  timed : ∀ m ∈ (l.run occasions).cache,
    ∃ n < (l.run occasions).readings, m.loadedAt = l.clock n
  ascending : StrictMono l.clock →
    (l.run occasions).cache.Pairwise fun a b => a.loadedAt < b.loadedAt
  within : Within l.loading (l.run occasions).cache

namespace Aligned

variable {occasions : List Occasion}

theorem loading (l : Loader) (occasions : List Occasion) :
    (l.run occasions).loading = l.loading :=
  (stable_loading l.loading).run occasions rfl

theorem of_sublist (aligned : Aligned l occasions) (idle : ∀ p, ¬ (l.run occasions).Loads o p)
    (sub : ((l.run occasions).perform o).cache.Sublist (l.run occasions).cache) :
    Aligned l (occasions ++ [o]) := by
  have last : l.run (occasions ++ [o]) = (l.run occasions).perform o := run_append l occasions [o]
  refine ⟨?_, ?_, ?_, ?_, ?_⟩ <;> rw [last]
  · exact aligned.distinct.sublist (sub.map Module.id)
  · exact (aligned.ordered.imp fun later => later.append (idle _)).sublist sub
  · intro m member
    obtain ⟨n, earlier, time⟩ := aligned.timed m (sub.subset member)
    have readings := (stable_readings (l.run occasions).readings).upheld.perform o (Nat.le_refl _)
    exact ⟨n, earlier.trans_le readings, time⟩
  · intro clock
    exact (aligned.ascending clock).sublist sub
  · exact aligned.within.sublist sub

theorem of_loads (aligned : Aligned l occasions) (caching : l.loading.cache = true) {path : Path}
    {m : Module} (request : o.request = .loadFile path)
    (new : (l.run occasions).cached? path = none)
    (loaded : ((l.run occasions).loadFile o.project o.now path).2 = .ok m) :
    Aligned l (occasions ++ [o]) := by
  have last : l.run (occasions ++ [o]) = ((l.run occasions).loadFile o.project o.now path).1 := by
    rw [run_append]
    simp [run, perform, request]
  obtain ⟨committed, evicted, own, time, setup, counted, grown, apart, rounds⟩ :=
    exists_rounds_loadFile ((loading l occasions).symm ▸ caching) aligned.distinct new loaded
  rw [(stable_clock l.clock).run occasions rfl] at time
  have others : ∀ a ∈ (l.run occasions).cache, a.id.same path = false := fun a member =>
    cached?_eq_none new a.id (mem_map_of_mem member)
  have mine : (l.run occasions).Loads o m.id :=
    ⟨path, m, request, by rw [own]; exact Path.same_refl path, new, loaded⟩
  have idle : ∀ a ∈ (l.run occasions).cache, ¬ (l.run occasions).Loads o a.id := by
    rintro a member ⟨q, _, asked, same, _⟩
    cases request.symm.trans asked
    rw [Path.same_comm, others a member] at same
    cases same
  have sub := rounds.sublist
  have still : Distinct ((l.run occasions).loadFile o.project o.now path).1 :=
    apart.sublist (sub.map Module.id)
  rw [grown] at sub
  refine ⟨?_, ?_, ?_, ?_, ?_⟩ <;> rw [last]
  · exact still
  · refine List.Pairwise.sublist sub ?_
    refine pairwise_append.mpr ⟨?_, pairwise_singleton _ _, ?_⟩
    · exact aligned.ordered.imp_of_mem fun member _ later => later.append (idle _ member)
    · intro a member b single
      rw [mem_singleton.mp single]
      exact loadedLater_of_loads mine (idle a member)
  · intro a member
    have readings := rounds.readings
    rw [counted] at readings
    rcases mem_append.mp (sub.subset member) with old | single
    · obtain ⟨n, earlier, shown⟩ := aligned.timed a old
      exact ⟨n, by omega, shown⟩
    · rw [mem_singleton.mp single]
      exact ⟨_, by omega, time⟩
  · intro clock
    refine List.Pairwise.sublist sub ?_
    refine pairwise_append.mpr ⟨aligned.ascending clock, pairwise_singleton _ _, ?_⟩
    intro a member b single
    obtain ⟨n, earlier, shown⟩ := aligned.timed a member
    rw [mem_singleton.mp single, shown, time]
    exact clock earlier
  · have limits := within_of_ended still rounds.ended
    rwa [rounds.loading, setup, loading] at limits

theorem perform (aligned : Aligned l occasions) (caching : l.loading.cache = true) (o : Occasion)
    (elementary : o.request.isElementary = true) : Aligned l (occasions ++ [o]) := by
  have idle (other : ∀ path, o.request ≠ .loadFile path) (p : Path) :
      ¬ (l.run occasions).Loads o p := by
    rintro ⟨q, _, request, _⟩
    exact other q request
  cases request : o.request with
  | loadGraph | load => rw [request] at elementary; cases elementary
  | invalidate path =>
    refine aligned.of_sublist (idle (by simp [request])) ?_
    simp only [Loader.perform, request, cache_invalidate]
    exact filter_sublist
  | clear =>
    refine aligned.of_sublist (idle (by simp [request])) ?_
    simp only [Loader.perform, request, cache_clear]
    exact nil_sublist _
  | loadFile path =>
    cases found : (l.run occasions).cached? path with
    | some m =>
      refine aligned.of_sublist ?_ ?_
      · rintro p ⟨q, _, asked, _, new, _⟩
        cases request.symm.trans asked
        rw [found] at new
        cases new
      · simp only [Loader.perform, request, Loader.loadFile, found]
        exact List.Sublist.refl _
    | none =>
      cases result : ((l.run occasions).loadFile o.project o.now path).2 with
      | ok m => exact aligned.of_loads caching request found result
      | error e =>
        refine aligned.of_sublist ?_ ?_
        · rintro p ⟨q, _, asked, _, _, loaded⟩
          cases request.symm.trans asked
          rw [result] at loaded
          cases loaded
        · have caches :
              ((l.run occasions).loadFile o.project o.now path).1.cache =
                (l.run occasions).cache :=
            congrArg Store.cache (store_loadFile_of_error result)
          simp only [Loader.perform, request, caches]
          exact List.Sublist.refl _

theorem run (caching : l.loading.cache = true) (empty : l.cache = []) (occasions : List Occasion)
    (elementary : ∀ o ∈ occasions, o.request.isElementary = true) : Aligned l occasions := by
  induction occasions using List.reverseRecOn with
  | nil =>
    refine ⟨?_, ?_, ?_, ?_, ?_⟩
    · simp [Distinct, keptIds, Loader.run, empty]
    · simp [Loader.run, empty]
    · simp [Loader.run, empty]
    · simp [Loader.run, empty]
    · simp only [Loader.run, foldl_nil, empty]
      exact ⟨fun _ _ => Nat.zero_le _, fun _ _ => .inr (Nat.zero_le _)⟩
  | append_singleton occasions o ih =>
    obtain ⟨earlier, last⟩ := forall_mem_append.mp elementary
    exact (ih earlier).perform caching o (last o mem_cons_self)

end Aligned

theorem Aligned.loadFile {occasions : List Occasion} (aligned : Aligned l occasions)
    (caching : l.loading.cache = true)
    (loaded : ((l.run occasions).loadFile project now path).2 = .ok m) :
    ((l.run occasions).loadFile project now path).1.cached? path = some m ∧
      Within l.loading ((l.run occasions).loadFile project now path).1.cache ∧
      ∀ a ∈ (l.run occasions).cache, a ∉ ((l.run occasions).loadFile project now path).1.cache →
        ∀ b ∈ ((l.run occasions).loadFile project now path).1.cache, b.id.same path = false →
          b ∈ (l.run occasions).cache ∧ a.loadedAt ≤ b.loadedAt := by
  have setup := loading l occasions
  cases found : (l.run occasions).cached? path with
  | some kept =>
    have hit : (l.run occasions).loadFile project now path =
        ((l.run occasions).count .cacheHits, .ok kept) := by
      simp only [Loader.loadFile, found]
    rw [hit] at loaded ⊢
    cases loaded
    exact ⟨found, aligned.within, fun a member gone => absurd member gone⟩
  | none =>
    obtain ⟨committed, evicted, own, _, same, _, grown, apart, rounds⟩ :=
      exists_rounds_loadFile (setup.symm ▸ caching) aligned.distinct found loaded
    have others : ∀ a ∈ (l.run occasions).cache, a.id.same path = false := fun a member =>
      cached?_eq_none found a.id (mem_map_of_mem member)
    have limits := within_of_ended (apart.sublist (rounds.sublist.map Module.id)) rounds.ended
    rw [rounds.loading, same, setup] at limits
    have mine : m.id.same path = true := by rw [own]; exact Path.same_refl path
    refine ⟨?_, limits, ?_⟩
    · have stays := rounds.keeps (grown ▸ mem_append_right _ mem_cons_self) mine
      cases first : ((l.run occasions).loadFile project now path).1.cached? path with
      | none =>
        rw [cached?_eq_none first m.id (mem_map_of_mem stays)] at mine
        cases mine
      | some n =>
        obtain ⟨member, here⟩ := cached?_eq_some first
        have before := rounds.sublist.subset member
        rw [grown] at before
        rcases mem_append.mp before with old | single
        · rw [others n old] at here
          cases here
        · rw [mem_singleton.mp single]
    · intro a member gone b stays other
      have early : a ∈ committed.cache := grown ▸ mem_append_left _ member
      refine ⟨?_, rounds.loadedAt_le apart early gone stays other⟩
      have before := rounds.sublist.subset stays
      rw [grown] at before
      refine (mem_append.mp before).resolve_right fun single => ?_
      rw [mem_singleton.mp single, mine] at other
      cases other

/-- With a clock that never stands still and is never set back, the times of two kept modules tell
which one was loaded later. -/
theorem Aligned.loadedLater {occasions : List Occasion} (aligned : Aligned l occasions)
    (clock : StrictMono l.clock) (first : a ∈ (l.run occasions).cache)
    (second : b ∈ (l.run occasions).cache) (different : a ≠ b) (times : a.loadedAt ≤ b.loadedAt) :
    l.LoadedLater occasions b.id a.id := by
  have ordered := List.Pairwise.and aligned.ordered (aligned.ascending clock)
  obtain ⟨front, back, split⟩ := append_of_mem first
  rw [split, pairwise_append, pairwise_cons] at ordered
  rw [split, mem_append, mem_cons] at second
  rcases second with earlier | rfl | later
  · have less := (ordered.2.2 b earlier a mem_cons_self).2
    omega
  · exact absurd rfl different
  · exact (ordered.2.1.1 b later).1

/-- **The limits of the cache hold after every load.** Let a loader keep nothing at first, and let
it be asked to load files, to drop a module or to drop them all, in any order. If it then loads a
file, the module of the file is kept. No more modules are kept than allowed, or one. They take no
more memory than allowed, or the module is kept alone. None of the modules that had to go shows a
later time than another one that stays. If the clock always ascends, they were loaded before those.
The rounds of eviction come to an end. -/
theorem cache_limits_hold {l : Loader} (caching : l.loading.cache = true) (empty : l.cache = [])
    {occasions : List Occasion} (elementary : ∀ o ∈ occasions, o.request.isElementary = true)
    {project : Project} {now : Nat} {path : Path} {m : Module}
    (loaded : ((l.run occasions).loadFile project now path).2 = .ok m) :
    let before := l.run occasions
    let after := (before.loadFile project now path).1
    after.cached? path = some m ∧
      (∀ size ∈ l.loading.maxCacheSize, after.cache.length ≤ max 1 size) ∧
      (∀ memory ∈ l.loading.maxCacheMemory, after.cacheBytes ≤ memory ∨ after.cache = [m]) ∧
      (∀ a ∈ before.cache, a ∉ after.cache → ∀ b ∈ after.cache, b.id.same path = false →
        a.loadedAt ≤ b.loadedAt ∧
          (StrictMono l.clock → l.LoadedLater occasions b.id a.id ∧
            ¬ l.LoadedLater occasions a.id b.id)) ∧
      (before.cached? path = none → ∃ committed evicted, committed.cache = before.cache ++ [m] ∧
        Rounds path committed evicted after ∧ evicted.length ≤ before.cache.length) := by
  have aligned := Aligned.run caching empty occasions elementary
  obtain ⟨kept, limits, order⟩ := aligned.loadFile caching loaded
  intro before after
  have mine : m ∈ after.cache := (cached?_eq_some kept).1
  refine ⟨kept, limits.size, fun memory limit => ?_, fun a member gone b stays other => ?_,
    fun new => ?_⟩
  · refine (limits.memory memory limit).imp_right fun few => ?_
    have one : after.cache.length = 1 := Nat.le_antisymm few (length_pos_of_mem mine)
    obtain ⟨single, alone⟩ := length_eq_one_iff.mp one
    rw [alone, mem_singleton] at mine
    rw [alone, mine]
  · obtain ⟨kept, times⟩ := order a member gone b stays other
    refine ⟨times, fun clock => ?_⟩
    have different : a ≠ b := fun same => gone (same ▸ stays)
    have later := aligned.loadedLater clock member kept different times
    exact ⟨later, later.asymm⟩
  · obtain ⟨committed, evicted, _, _, _, _, grown, apart, rounds⟩ :=
      exists_rounds_loadFile ((Aligned.loading l occasions).symm ▸ caching) aligned.distinct new
        loaded
    have fewer : evicted.length ≤ before.cache.length := by
      have length : after.cache.length + evicted.length = before.cache.length + 1 :=
        (rounds.length apart).trans (by rw [grown, length_append, length_singleton])
      have some := length_pos_of_mem mine
      omega
    exact ⟨committed, evicted, grown, rounds, fewer⟩

/-- A project of three files without code. -/
def threeFiles : Project where
  nodes := [(["a.js"], .file "".toUTF8), (["b.js"], .file "".toUTF8), (["c.js"], .file "".toUTF8)]

/-- The module of a file without code. -/
def emptyModule (path : Path) (loadedAt : Nat) : Module where
  id := path
  source := ""
  code := ""
  warnings := []
  dependencies := []
  loadedAt

theorem locate_threeFiles {first second third : ByteArray} :
    let project : Project :=
      { nodes := [(["a.js"], .file first), (["b.js"], .file second), (["c.js"], .file third)] }
    project.locate ⟨"/a.js"⟩ = .ok ["a.js"] ∧ project.locate ⟨"/b.js"⟩ = .ok ["b.js"] ∧
      project.locate ⟨"/c.js"⟩ = .ok ["c.js"] := by
  refine ⟨?_, ?_, ?_⟩ <;> exact Project.locate_of_file (by decide) rfl

theorem build_emptyModule (options : l.options = {}) (project : Project)
    (kind : Compile.SourceKind.ofPath path = .javascript) :
    l.build project path "" = .ok (emptyModule path (l.clock l.readings)) := by
  have listed : Require.specifiers "" = [] := by decide +kernel
  refine build_of_compile options kind (by decide +kernel) ?_
  rw [dependencies, listed]
  rfl

theorem loadFile_threeFiles (limiter : l.limiter = none) (breakers : l.breakers = none)
    (metrics : l.metrics = none) (options : l.options = {}) (new : l.cached? path = none)
    (kind : Compile.SourceKind.ofPath path = .javascript)
    (source : readSource threeFiles path = .ok "") :
    l.loadFile threeFiles now path =
      ((l.readClock.commit (emptyModule path (l.clock l.readings))).settle path,
        .ok (emptyModule path (l.clock l.readings))) :=
  loadFile_of_build limiter breakers metrics new source (build_emptyModule options _ kind)

/-- A loader with room for two modules that loads three files. The first one has to go. -/
theorem cache_limits_hold_narrow :
    let l : Loader := { loading := { maxCacheSize := some 2 } }
    let occasions : List Occasion :=
      [⟨threeFiles, 0, .loadFile ⟨"/a.js"⟩⟩, ⟨threeFiles, 0, .loadFile ⟨"/b.js"⟩⟩]
    let after := ((l.run occasions).loadFile threeFiles 0 ⟨"/c.js"⟩).1
    after.cached? ⟨"/c.js"⟩ = some (emptyModule ⟨"/c.js"⟩ 2) ∧
      after.cache = [emptyModule ⟨"/b.js"⟩ 1, emptyModule ⟨"/c.js"⟩ 2] ∧
      l.LoadedLater occasions ⟨"/b.js"⟩ ⟨"/a.js"⟩ := by
  intro l occasions after
  let l₁ := (l.readClock.commit (emptyModule ⟨"/a.js"⟩ 0)).settle ⟨"/a.js"⟩
  let l₂ := (l₁.readClock.commit (emptyModule ⟨"/b.js"⟩ 1)).settle ⟨"/b.js"⟩
  let l₃ := (l₂.readClock.commit (emptyModule ⟨"/c.js"⟩ 2)).settle ⟨"/c.js"⟩
  have first : l.loadFile threeFiles 0 ⟨"/a.js"⟩ = (l₁, .ok (emptyModule ⟨"/a.js"⟩ 0)) :=
    loadFile_threeFiles rfl rfl rfl rfl (by decide) (by decide)
      (readSource_of_locate locate_threeFiles.1 rfl)
  have second : l₁.loadFile threeFiles 0 ⟨"/b.js"⟩ = (l₂, .ok (emptyModule ⟨"/b.js"⟩ 1)) :=
    loadFile_threeFiles rfl rfl rfl rfl (by decide) (by decide)
      (readSource_of_locate locate_threeFiles.2.1 rfl)
  have third : l₂.loadFile threeFiles 0 ⟨"/c.js"⟩ = (l₃, .ok (emptyModule ⟨"/c.js"⟩ 2)) :=
    loadFile_threeFiles rfl rfl rfl rfl (by decide) (by decide)
      (readSource_of_locate locate_threeFiles.2.2 rfl)
  have start : l.run occasions = l₂ := by
    show ((l.loadFile threeFiles 0 ⟨"/a.js"⟩).1.loadFile threeFiles 0 ⟨"/b.js"⟩).1 = l₂
    rw [first, second]
  have caches : l₂.cache = [emptyModule ⟨"/a.js"⟩ 0, emptyModule ⟨"/b.js"⟩ 1] ∧
      l₃.cache = [emptyModule ⟨"/b.js"⟩ 1, emptyModule ⟨"/c.js"⟩ 2] := by decide +kernel
  have ended : after = l₃ := by
    show ((l.run occasions).loadFile threeFiles 0 ⟨"/c.js"⟩).1 = l₃
    rw [start, third]
  have loaded : ((l.run occasions).loadFile threeFiles 0 ⟨"/c.js"⟩).2 =
      .ok (emptyModule ⟨"/c.js"⟩ 2) := by rw [start, third]
  have elementary : ∀ o ∈ occasions, o.request.isElementary = true := by
    simp [occasions, Request.isElementary]
  obtain ⟨kept, _, _, order, _⟩ := cache_limits_hold (l := l) rfl rfl elementary loaded
  have rest : after.cache = [emptyModule ⟨"/b.js"⟩ 1, emptyModule ⟨"/c.js"⟩ 2] := by
    rw [ended, caches.2]
  refine ⟨kept, rest, ?_⟩
  have gone : emptyModule ⟨"/a.js"⟩ 0 ∉ after.cache := by rw [rest]; decide
  have before : emptyModule ⟨"/a.js"⟩ 0 ∈ (l.run occasions).cache := by rw [start, caches.1]; simp
  exact ((order _ before gone (emptyModule ⟨"/b.js"⟩ 1) (by rw [rest]; simp) (by decide)).2
    strictMono_id).1

end Tarkib.Loader
