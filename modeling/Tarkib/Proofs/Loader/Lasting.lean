import Tarkib.Proofs.Loader.Reach

/-!
# Properties of what is kept and registered

Whatever a loader is asked for, its store changes in three ways only: a module at a new path is
committed, a path is dropped, or everything is dropped. A property of the store that survives these
changes is lasting (`Lasting`). One is that every module is registered because it is kept, if
modules are kept at all (`Covered`).
-/

namespace Tarkib.Loader

/-! ## What stays and what goes -/

/-- A property of the store is stable if it does not depend on what is kept and registered, and does
not get lost with time. -/
theorem stable_of_store {P : Store → Prop}
    (free : ∀ s cache registry, P s → P { s with cache, registry })
    (lasts : ∀ s, P s → P { s with readings := s.readings + 1 }) : Stable fun l => P l.store where
  count _ h := h
  observe _ h := h
  readClock h := lasts _ h
  limit _ h := h
  takeUnits taken h := by rwa [store_takeUnits taken]
  ask key now h := by rwa [store_ask]
  report ticket success now h := by rwa [store_report]
  keep cache registry h := free _ cache registry h

theorem stable_loading (c : Config.Loading) : Stable fun l => l.loading = c :=
  stable_of_store (P := fun s => s.loading = c) (fun _ _ _ h => h) fun _ h => h

theorem cache_invalidate (l : Loader) (path : Path) :
    (l.invalidate path).1.cache = l.cache.filter fun m => !m.id.same path := by
  unfold invalidate
  split
  · next missing =>
      refine (List.filter_eq_self.mpr fun m member => ?_).symm
      rw [cached?_eq_none missing m.id (List.mem_map_of_mem member)]
      rfl
  · exact cache_forget _ _

/-! ## Lasting properties -/

/-- The property is one of the store alone, and survives all changes of the store. -/
structure Lasting (P : Loader → Prop) : Prop where
  of_store : ∀ {l l' : Loader}, l'.store = l.store → P l → P l'
  readClock : ∀ {l : Loader}, P l → P l.readClock
  commit : ∀ {l : Loader} (m : Module), (∀ q ∈ l.keptIds, q.same m.id = false) → P l →
    P (l.commit m)
  invalidate : ∀ {l : Loader} (path : Path), P l → P (l.invalidate path).1
  clear : ∀ {l : Loader}, P l → P l.clear.1

namespace Lasting

variable {P : Loader → Prop} (lasting : Lasting P) {l : Loader}
include lasting

theorem settle (keep : Path) (h : P l) : P (l.settle keep) :=
  of_settle (fun _ m h => lasting.of_store (store_count _ _) (lasting.invalidate m.id h)) keep h

theorem loadFile (project : Project) (now : Nat) (path : Path) (h : P l) :
    P (l.loadFile project now path).1 := by
  unfold Loader.loadFile
  cases found : l.cached? path with
  | some m => exact lasting.of_store (store_count l _) h
  | none =>
    dsimp only
    rcases outcome : l.attempt project now path with ⟨l', e | m⟩
    · have stores := store_of_attempt_error outcome
      exact lasting.of_store (l := l) stores h
    · have stores := store_of_attempt_ok outcome
      have ids : l'.keptIds = l.keptIds := congrArg (fun s => s.cache.map Module.id) stores
      have absent : ∀ q ∈ l'.keptIds, q.same m.id = false := by
        rw [ids, id_of_attempt outcome]
        exact cached?_eq_none found
      exact lasting.settle path (lasting.commit m absent
        (lasting.of_store stores (lasting.readClock h)))

/-- A lasting property survives every load. -/
theorem upheld : Upheld P where
  loadFile project now path h := lasting.loadFile project now path h
  resolve project now specifier directory h :=
    lasting.of_store (store_resolve _ project now specifier directory) h
  count c h := lasting.of_store (store_count _ c) h
  observe operation h := lasting.of_store (store_observe _ operation) h
  invalidate path h := lasting.invalidate path h
  clear h := lasting.clear h

end Lasting

/-! ## Registered modules -/

/-- If modules are kept, then every registered path is that of a module that is kept. -/
def Covered (l : Loader) : Prop :=
  l.loading.cache = true → ∀ p ∈ l.registry.ids, ∃ q ∈ l.keptIds, q.same p = true

theorem mem_ids_forget {l : Loader} {p q : Path} :
    q ∈ (l.forget p).registry.ids ↔ q ∈ l.registry.ids ∧ q.same p = false := by
  have registry : (l.forget p).registry = l.registry.unregister p := by
    unfold forget
    dsimp only
    split <;> rfl
  rw [registry, Registry.ids_unregister, List.mem_filter, Bool.not_eq_true']

theorem mem_ids_foldl_forget (modules : List Module) {l : Loader} {q : Path} :
    q ∈ (modules.foldl (fun l m => l.forget m.id) l).registry.ids ↔
      q ∈ l.registry.ids ∧ ∀ m ∈ modules, q.same m.id = false := by
  induction modules generalizing l with
  | nil => simp
  | cons m modules ih =>
    rw [List.foldl_cons, ih, mem_ids_forget, List.forall_mem_cons, and_assoc]

namespace Covered

variable {l l' : Loader}

theorem of_store (covered : Covered l) (stores : l'.store = l.store) : Covered l' := by
  have loading : l'.loading = l.loading := congrArg Store.loading stores
  have registry : l'.registry = l.registry := congrArg Store.registry stores
  have ids : l'.keptIds = l.keptIds := congrArg (fun s => s.cache.map Module.id) stores
  unfold Covered
  rw [loading, registry, ids]
  exact covered

theorem commit (covered : Covered l) (m : Module) : Covered (l.commit m) := by
  intro caching
  have keeps : l.loading.cache = true := ((stable_loading l.loading).commit m rfl) ▸ caching
  have ids : (l.commit m).keptIds = l.keptIds ++ [m.id] := by simp [Loader.commit, keeps, keptIds]
  have registry : (l.commit m).registry = l.registry.register m := by simp [Loader.commit, keeps]
  rw [ids, registry]
  intro p registered
  rcases Registry.mem_ids_of_register registered with rfl | before
  · exact ⟨m.id, by simp, Path.same_refl m.id⟩
  · obtain ⟨q, kept, same⟩ := covered keeps p before
    exact ⟨q, List.mem_append_left _ kept, same⟩

theorem invalidate (covered : Covered l) (path : Path) : Covered (l.invalidate path).1 := by
  intro caching p registered
  have keeps : l.loading.cache = true :=
    ((stable_loading l.loading).invalidate path rfl) ▸ caching
  have ids : (l.invalidate path).1.keptIds = l.keptIds.filter fun q => !q.same path := by
    rw [keptIds, cache_invalidate, keptIds, List.filter_map]
    rfl
  rw [ids]
  unfold Loader.invalidate at registered
  split at registered
  · next missing =>
      obtain ⟨q, kept, same⟩ := covered keeps p registered
      exact ⟨q, List.mem_filter.mpr ⟨kept, by rw [cached?_eq_none missing q kept]; rfl⟩, same⟩
  · next m found =>
      obtain ⟨before, other⟩ := mem_ids_forget.mp registered
      obtain ⟨q, kept, same⟩ := covered keeps p before
      -- A kept path that is dropped is the same as that of `m`, and so would `p` be.
      have stays : q.same path = false := by
        rw [Path.same_comm, Path.same_congr_right same, Path.same_comm,
          ← Path.same_congr_right (cached?_eq_some found).2]
        exact other
      exact ⟨q, List.mem_filter.mpr ⟨kept, by rw [stays]; rfl⟩, same⟩

/-- Dropping everything leaves nothing registered, with a cache and without one. -/
theorem registry_clear (covered : Covered l) : l.clear.1.registry = {} := by
  have emptied : ({ l with cache := [] } : Loader).loading = l.loading := rfl
  have loading := (stable_loading l.loading).foldl_forget l.cache emptied
  unfold Loader.clear
  dsimp only
  split
  · next caching =>
      rw [loading] at caching
      refine Registry.eq_empty_of_ids (List.eq_nil_iff_forall_not_mem.mpr fun p left => ?_)
      obtain ⟨registered, others⟩ := (mem_ids_foldl_forget l.cache).mp left
      obtain ⟨q, kept, same⟩ := covered caching p registered
      obtain ⟨m, member, rfl⟩ := List.mem_map.mp kept
      rw [Path.same_comm, others m member] at same
      cases same
  · rfl

theorem lasting : Lasting Covered where
  of_store stores covered := covered.of_store stores
  readClock covered := covered
  commit m _ covered := covered.commit m
  invalidate path covered := covered.invalidate path
  clear covered := by
    intro _ p registered
    rw [covered.registry_clear] at registered
    cases registered

end Covered

end Tarkib.Loader
