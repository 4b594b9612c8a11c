import Tarkib.Loader.Together
import Tarkib.Proofs.Loader.Reach

/-!
# Modules as loaders build them

A module that a loader has built has the code that compiling its source gives, lists the specifiers
of this code, refers to files by absolute paths and is no root directory (`Module.WellBuilt`). What
is kept was built before, perhaps for another state of the project, so the property is one of all
loaders that can arise: those that keep nothing at first and are asked for one thing after the
other, or for several modules at once (`Arises`).
-/

namespace Tarkib

variable {project : Project} {l : Loader} {path : Path} {m : Module} {now : Nat}

/-- The code of the module is that of its source, which is of the kind that its path tells. -/
def Module.CompiledWith (m : Module) (options : Compile.Options) : Prop :=
  options.kind = .ofPath m.id ∧ m.code = (Compile.compile options m.source).code

/-- The module was built from its source: the source was compiled, the dependencies are those of the
code, in order, and the files among them have absolute paths. A module is a file, so it does not
stand at the root. -/
structure Module.WellBuilt (m : Module) : Prop where
  compiled : ∃ options, m.CompiledWith options
  specifiers : m.specifiers = Require.specifiers m.code
  absolute : ∀ path ∈ m.localTargets, path.isAbsolute = true
  below : m.id.components ≠ [.root]

theorem Project.isAbsolute_of_mem_files {p : Project} (member : path.components ∈ p.files) :
    path.isAbsolute = true := by
  obtain ⟨node, _, same⟩ := List.mem_map.mp member
  rw [Path.isAbsolute_iff, ← same, ← Path.isAbsolute_iff]
  exact isAbsolute_pathOf node.1

namespace Loader

/-! ## Building -/

variable {source : String}

/-- What is built is well built. -/
theorem wellBuilt_of_build (built : l.build project path source = .ok m)
    (below : path.components ≠ [.root]) : m.WellBuilt := by
  obtain ⟨own, rfl, code, resolved⟩ := build_eq_ok built
  refine ⟨⟨_, congrArg Compile.SourceKind.ofPath own.symm, code⟩, (dependencies_eq_ok resolved).1,
    ?_, own ▸ below⟩
  intro target listed
  exact Project.isAbsolute_of_mem_files (tied_of_build built target listed)

theorem components_of_readSource (readable : readSource project path = .ok source) :
    path.components ≠ [.root] := by
  unfold readSource at readable
  split at readable
  · cases readable
  · next bytes found => exact Project.components_of_read found

theorem wellBuilt_of_attempt {l l' : Loader} (loaded : l.attempt project now path = (l', .ok m)) :
    m.WellBuilt := by
  obtain ⟨_, source, _, readable, built⟩ := attempt_eq_ok (congrArg Prod.snd loaded)
  exact wellBuilt_of_build built (components_of_readSource readable)

theorem readSource_of_locate {place : List String} (located : project.locate path = .ok place)
    (there : project.node? place = some (.file source.toUTF8)) :
    readSource project path = .ok source := by
  have found : project.read path = .ok source.toUTF8 := by
    simp [Project.read, located, there, bind, Except.bind, pure, Except.pure]
  have text : String.fromUTF8? source.toUTF8 = some source := by
    rw [String.fromUTF8?, String.toUTF8_eq_toByteArray, dif_pos source.isValidUTF8]
    rfl
  rw [readSource, found]
  dsimp only
  rw [text]

/-- A source that compiles is built if the references in its code can be resolved. -/
theorem build_of_compile {kind : Compile.SourceKind} {source code : String}
    {needed : List Dependency} (options : l.options = {})
    (ofKind : Compile.SourceKind.ofPath path = kind)
    (compiled : Compile.compile { kind } source = ⟨code, [], []⟩)
    (resolved : dependencies l.resolution project path code = .ok needed) :
    l.build project path source = .ok { id := path, source, code, dependencies := needed
                                        loadedAt := l.clock l.readings } := by
  rw [build, options, ofKind]
  dsimp only
  rw [compiled]
  dsimp only
  rw [resolved]
  rfl

theorem loadFile_of_build (unlimited : l.limiter = none) (unguarded : l.breakers = none)
    (uncounted : l.metrics = none) (new : l.cached? path = none)
    (readable : readSource project path = .ok source)
    (built : l.build project path source = .ok m) :
    l.loadFile project now path = ((l.readClock.commit m).settle path, .ok m) := by
  have attempted : l.attempt project now path = (l.readClock, .ok m) := by
    obtain ⟨_, _, _, _, _, limiter, breakers, metrics, _, _, _⟩ := l
    dsimp only at unlimited unguarded uncounted
    subst unlimited unguarded uncounted
    simp [attempt, beginAttempt, takeUnits, reserve, openFile, ask, count, readable, built,
      closeFile, limit, endAttempt, report, readClock, observe, bind, Except.bind]
  rw [loadFile, new, attempted]

/-! ## Keeping -/

/-- All modules that are kept are well built. -/
def Reliable (l : Loader) : Prop :=
  ∀ m ∈ l.cache, m.WellBuilt

namespace Reliable

variable {l' : Loader}

section Changes

variable (reliable : l.Reliable)
include reliable

theorem of_subset (subset : l'.cache ⊆ l.cache) : l'.Reliable :=
  fun m member => reliable m (subset member)

theorem of_store (stores : l'.store = l.store) : l'.Reliable := by
  have caches : l'.cache = l.cache := congrArg Store.cache stores
  exact reliable.of_subset (caches ▸ List.Subset.refl _)

theorem invalidate (path : Path) : (l.invalidate path).1.Reliable :=
  reliable.of_subset (cache_invalidate_subset l path)

theorem settle (keep : Path) : (l.settle keep).Reliable :=
  reliable.of_subset (cache_settle_subset l keep)

theorem commit (built : m.WellBuilt) : (l.commit m).Reliable := by
  unfold Loader.commit
  dsimp only
  split
  · intro n member
    rcases List.mem_append.mp member with old | new
    · exact reliable n old
    · rw [List.mem_singleton.mp new]
      exact built
  · exact reliable

/-- What a reliable loader loads is well built. -/
theorem of_loadFile (loaded : (l.loadFile project now path).2 = .ok m) :
    m.WellBuilt ∧ m.id.same path = true := by
  obtain ⟨same, member | ⟨l', attempted⟩⟩ := loadFile_eq_ok loaded
  · exact ⟨reliable m member, same⟩
  · exact ⟨wellBuilt_of_attempt attempted, same⟩

theorem loadFile (project : Project) (now : Nat) (path : Path) :
    (l.loadFile project now path).1.Reliable := by
  intro m member
  rcases mem_cache_loadFile member with old | loaded
  · exact reliable m old
  · exact (reliable.of_loadFile loaded).1

end Changes

theorem clear (l : Loader) : l.clear.1.Reliable := by
  intro m member
  rw [cache_clear] at member
  cases member

theorem upheld : Upheld Reliable where
  loadFile project now path reliable := reliable.loadFile project now path
  resolve project now specifier directory reliable :=
    reliable.of_store (store_resolve _ project now specifier directory)
  count c reliable := reliable.of_store (store_count _ c)
  observe operation reliable := reliable.of_store (store_observe _ operation)
  invalidate path reliable := reliable.invalidate path
  clear _ := clear _

end Reliable

/-! ## Several loads under way -/

/-- The file of an attempt that has come to compiling was read, so it is no root directory. -/
def Flight.WasRead (f : Flight) : Prop :=
  ∀ source, f.stage = .compiling source → f.attempt.path.components ≠ [.root]

namespace Together

/-- While loads are under way, what is kept is well built, and what is compiled was read. -/
structure Ready (t : Together) : Prop where
  kept : t.loader.Reliable
  read : ∀ f ∈ t.queue, f.WasRead

namespace Ready

variable {t t' : Together} {fuel number : Nat}

theorem of_store (ready : t.Ready) (stores : t'.loader.store = t.loader.store)
    (queue : t'.queue = t.queue) : t'.Ready :=
  ⟨ready.kept.of_store stores, queue ▸ ready.read⟩

theorem await {queue queue' : List Flight}
    (awaited : Together.await number path queue = some queue') (read : ∀ f ∈ queue, f.WasRead) :
    ∀ f ∈ queue', f.WasRead := by
  induction queue generalizing queue' with
  | nil => cases awaited
  | cons first queue ih =>
    obtain ⟨here, later⟩ := List.forall_mem_cons.mp read
    unfold Together.await at awaited
    split at awaited
    · cases awaited
      exact List.forall_mem_cons.mpr ⟨here, later⟩
    · obtain ⟨rest, found, rfl⟩ := Option.map_eq_some_iff.mp awaited
      exact List.forall_mem_cons.mpr ⟨here, ih found later⟩

variable (ready : t.Ready)
include ready

theorem launch (path : Path) (waiting : List Nat) (keeps : Bool) :
    (t.launch now number path waiting keeps).1.Ready := by
  have begun := store_beginAttempt t.loader now path
  unfold Together.launch
  rcases answer : t.loader.beginAttempt now path with ⟨l, e | attempt⟩
  · rw [answer] at begun
    exact ready.of_store begun rfl
  · rw [answer] at begun
    refine ⟨ready.kept.of_store begun, ?_⟩
    intro f member
    rcases List.mem_append.mp member with old | new
    · exact ready.read f old
    · rw [List.mem_singleton.mp new]
      intro source compiling
      cases compiling

theorem seek (path : Path) :
    (match Together.await number path t.queue with
      | some queue => { t with queue }
      | none => (t.launch now number path [] true).1).Ready := by
  split
  · next queue awaited => exact ⟨ready.kept, await awaited ready.read⟩
  · exact ready.launch path [] true

theorem proceed (walk : Walk) (entry : Option Module) (m : Module) :
    (Together.proceed now number fuel walk entry m t).Ready := by
  induction fuel generalizing walk entry m t with
  | zero => exact ready
  | succ fuel ih =>
    unfold Together.proceed
    dsimp only
    split
    · exact ready.of_store rfl rfl
    · exact ready.of_store rfl rfl
    · split
      · apply ih
        exact ready.of_store rfl rfl
      · apply seek
        exact ready.of_store rfl rfl

theorem give (m : Module) : (Together.give now fuel m t number).Ready := by
  unfold Together.give
  split
  · exact ready.proceed _ _ _
  · exact ready

theorem startWalk (path : Path) : (t.startWalk now fuel number path).Ready := by
  unfold Together.startWalk
  dsimp only
  split
  · apply give
    exact ready.of_store rfl rfl
  · apply seek
    exact ready.of_store rfl rfl

theorem startJob (directory : Path) (numbered : String × Nat) :
    (Together.startJob project now fuel directory t numbered).Ready := by
  obtain ⟨specifier, number⟩ := numbered
  have resolved := Reliable.upheld.resolve project now specifier directory ready.kept
  unfold Together.startJob
  dsimp only
  rcases answer : t.loader.resolve project now specifier directory with ⟨l, e | target⟩
  · rw [answer] at resolved
    exact ⟨resolved, ready.read⟩
  · rw [answer] at resolved
    cases target with
    | external name => exact ⟨resolved, ready.read⟩
    | file path =>
      apply startWalk
      exact ⟨resolved, ready.read⟩

theorem retry (path : Path) (waiting : List Nat) : (Together.retry now path waiting t).Ready := by
  induction waiting generalizing t with
  | nil => exact ready
  | cons number waiting ih =>
    have launched : (t.launch now number path waiting false).1.Ready :=
      ready.launch path waiting false
    unfold Together.retry
    rcases answer : t.launch now number path waiting false with ⟨t', flying⟩
    rw [answer] at launched
    cases flying with
    | true => exact launched
    | false => exact ih launched

theorem land (f : Flight) (built : m.WellBuilt) : (Together.land now fuel f m t).Ready := by
  unfold Together.land
  refine List.foldlRecOn _ _ ⟨?_, ready.read⟩ fun t ready number _ => ?_
  · dsimp only
    split
    · exact ready.kept.commit built
    · exact ready.kept.of_store (store_unreserve t.loader)
  · apply give
    exact ⟨ready.kept.settle _, ready.read⟩

theorem conclude (f : Flight) {result : Except Error Module}
    (built : ∀ m, result = .ok m → m.WellBuilt) :
    (Together.conclude now fuel f result t).Ready := by
  cases result with
  | ok m =>
    apply land _ f (built m rfl)
    have told := ready.kept.of_store (store_report t.loader f.attempt.ticket true now)
    exact ⟨told, ready.read⟩
  | error e =>
    apply retry
    refine ready.of_store ?_ rfl
    exact (store_unreserve _).trans (store_report t.loader f.attempt.ticket false now)

/-- A flight that lands brings a well built module. -/
theorem turn {f : Flight} (read : f.WasRead) : (Together.turn project now fuel f t).Ready := by
  have closed : Ready { t with loader := t.loader.closeFile } := ready.of_store rfl rfl
  unfold Together.turn
  split
  · dsimp only
    split
    · next source readable =>
        refine ⟨closed.kept, ?_⟩
        intro other member
        rcases List.mem_append.mp member with old | new
        · exact ready.read other old
        · rw [List.mem_singleton.mp new]
          intro _ _
          exact components_of_readSource readable
    · apply closed.conclude
      intro m loaded
      cases loaded
  · next source compiling =>
      apply ready.conclude
      intro m built
      exact wellBuilt_of_build built (read source compiling)

theorem run (turns : Nat) : (Together.run project now fuel turns t).Ready := by
  induction turns generalizing t with
  | zero => exact ready
  | succ turns ih =>
    unfold Together.run
    split
    · exact ready
    · next f queue first =>
        obtain ⟨here, later⟩ := List.forall_mem_cons.mp (first ▸ ready.read)
        apply ih
        apply turn _ here
        exact ⟨ready.kept, later⟩

end Ready

end Together

/-- Loading several modules at once keeps a loader reliable. -/
theorem Reliable.loadAll (reliable : l.Reliable) (project : Project) (now : Nat)
    (specifiers : List String) (directory : Path) :
    (l.loadAll project now specifiers directory).1.Reliable := by
  have ready : Together.Ready ⟨l, specifiers.map fun _ => default, []⟩ := by
    refine ⟨reliable, ?_⟩
    intro f member
    cases member
  refine Together.Ready.kept (Together.Ready.run ?_ _)
  exact List.foldlRecOn _ _ ready fun t ready first _ => ready.startJob directory first

/-! ## Loaders that can arise -/

/-- The loaders that can arise. A loader keeps nothing at first. It is asked for one thing after the
other, or to load several modules together. In between, anything about it may be changed except what
it keeps. -/
inductive Arises : Loader → Prop where
  | new {l : Loader} (empty : l.cache = []) : Arises l
  | request {l : Loader} (before : Arises l) (o : Occasion) : Arises (l.perform o)
  | together {l : Loader} (before : Arises l) (project : Project) (now : Nat)
      (specifiers : List String) (directory : Path) :
      Arises (l.loadAll project now specifiers directory).1
  | change {l l' : Loader} (before : Arises l) (same : l'.cache = l.cache) : Arises l'

/-- Whatever a loader that arises keeps is well built. -/
theorem Arises.reliable (arises : l.Arises) : l.Reliable := by
  induction arises with
  | new empty =>
    intro m member
    rw [empty] at member
    cases member
  | request _ o ih => exact Reliable.upheld.perform o ih
  | together _ project now specifiers directory ih =>
    exact ih.loadAll project now specifiers directory
  | change _ same ih => exact ih.of_subset (same ▸ List.Subset.refl _)

end Loader

end Tarkib
