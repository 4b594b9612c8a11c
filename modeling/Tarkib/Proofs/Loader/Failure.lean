import Tarkib.Proofs.Loader.Bundling
import Tarkib.Proofs.Loader.Refusal
import Tarkib.Proofs.Resolve.Alias

/-!
# Loads that fail

A load can fail at every stage: when units are taken from the limiter, when the breaker is asked,
and when the file is read, compiled and its references are resolved. What is kept and registered is
written only after all stages. So nothing of a load that failed stays behind but the count of the
failure and what the breaker has been told.
-/

namespace Tarkib

/-! ## Units that are taken and given back -/

theorem Limiter.releaseModule_of_reserve {x y : Limiter} (taken : x.reserveModule? = some y) :
    y.releaseModule = x := by
  unfold reserveModule? acquire? at taken
  split at taken
  · cases taken
    rfl
  · cases taken

theorem Limiter.closeFile_of_open {x y : Limiter} (taken : x.openFile? = some y) :
    y.closeFile = x := by
  unfold openFile? acquire? at taken
  split at taken
  · cases taken
    rfl
  · cases taken

namespace Loader

theorem takeUnits_eq (l : Loader) :
    l.takeUnits = ({ loading := l.loading, limiter := l.limiter } : Loader).takeUnits.map
      fun taken => { l with limiter := taken.limiter } := by
  obtain ⟨resolution, loading, options, cache, registry, limiter, breakers, metrics, _, _, _⟩ := l
  cases limiter with
  | none => rfl
  | some x =>
    unfold takeUnits reserve
    dsimp only
    split
    · cases x.reserveModule? with
      | none => rfl
      | some y =>
        simp only [bind, Except.bind, openFile]
        cases y.openFile? <;> rfl
    · simp only [bind, Except.bind, openFile]
      cases x.openFile? <;> rfl

def returned (caching : Bool) (limiter : Option Limiter) : Option Limiter :=
  limiter.map fun x => if caching then x.closeFile.releaseModule else x.closeFile

variable {l l' : Loader} {project : Project} {now : Nat} {path : Path} {e : Error}

theorem limiter_unreserve {caching : Bool} (same : l.loading.cache = caching)
    {limiter : Option Limiter} (closed : l.limiter = limiter.map Limiter.closeFile) :
    l.unreserve.limiter = returned caching limiter := by
  unfold unreserve returned
  cases caching <;> simp [same, limit, closed, Function.comp_def]

/-- Units that are taken can be given back. -/
theorem returned_of_takeUnits (taken : l.takeUnits = .ok l') :
    returned l.loading.cache l'.limiter = l.limiter := by
  obtain ⟨between, first, second⟩ := takeUnits_eq_ok taken
  have reserved : (if l.loading.cache then between.limiter.map Limiter.releaseModule
      else between.limiter) = l.limiter := by
    unfold reserve at first
    split at first
    · next unlimited =>
        cases first
        simp [unlimited]
    · next x limited =>
        split at first
        · next caching =>
            split at first
            · next y reserved =>
                cases first
                simp [caching, limited, Limiter.releaseModule_of_reserve reserved]
            · cases first
        · next caching =>
            cases first
            simp [caching]
  have opened : l'.limiter.map Limiter.closeFile = between.limiter := by
    unfold openFile at second
    split at second
    · next unlimited =>
        cases second
        simp [unlimited]
    · next x limited =>
        split at second
        · next y opened =>
            cases second
            simp [limited, Limiter.closeFile_of_open opened]
        · cases second
  rw [← reserved, ← opened, returned]
  cases l.loading.cache <;> simp [Function.comp_def]

/-! ## Attempts -/

theorem limiter_ask (l : Loader) (key : String) (now : Nat) :
    (l.ask key now).1.limiter = l.limiter := by
  unfold ask
  split
  · rfl
  · split <;> rfl

theorem limiter_report (l : Loader) (ticket : Option Breakers.Ticket) (success : Bool)
    (now : Nat) : (l.report ticket success now).limiter = l.limiter := by
  cases ticket <;> rfl

/-- An attempt that fails has given back its units. -/
theorem limiter_attempt_of_error (failed : l.attempt project now path = (l', .error e)) :
    l'.limiter = l.limiter := by
  unfold attempt beginAttempt at failed
  dsimp only at failed
  cases taken : (l.count .cacheMisses).takeUnits with
  | error _ =>
    rw [taken] at failed
    cases failed
    rfl
  | ok l₁ =>
    have back := returned_of_takeUnits taken
    have limiters := limiter_ask l₁ path.text now
    have stores := (store_ask l₁ path.text now).trans (store_takeUnits taken)
    rw [taken] at failed
    dsimp only at failed
    rcases answer : l₁.ask path.text now with ⟨l₂, refusal | ticket⟩
    · rw [answer] at failed limiters stores
      have caching : l₂.loading.cache = l.loading.cache := congrArg (·.loading.cache) stores
      cases failed
      rw [limiter_unreserve (l := l₂.closeFile) caching rfl, limiters]
      exact back
    · rw [answer] at failed limiters stores
      have caching : l₂.loading.cache = l.loading.cache := congrArg (·.loading.cache) stores
      dsimp only at failed
      obtain ⟨rfl, result⟩ := Prod.mk.inj failed
      have told := limiter_report l₂.closeFile ticket false now
      have told' := congrArg (·.loading.cache) (store_report l₂.closeFile ticket false now)
      rw [result, endAttempt, limiter_unreserve (told'.trans caching) told, limiters]
      exact back

/-! ## What a load gives -/

theorem takeUnits_bind (limiters : l'.limiter = l.limiter) (loading : l'.loading = l.loading)
    {α : Type} (next : Except Error α) :
    (l'.takeUnits >>= fun _ => next) = l.takeUnits >>= fun _ => next := by
  rw [takeUnits_eq l, takeUnits_eq l', limiters, loading]
  cases ({ loading := l.loading, limiter := l.limiter } : Loader).takeUnits <;> rfl

theorem breakers_takeUnits (taken : l.takeUnits = .ok l') : l'.breakers = l.breakers := by
  rw [takeUnits_eq] at taken
  cases bare : ({ loading := l.loading, limiter := l.limiter } : Loader).takeUnits with
  | error _ =>
    rw [bare] at taken
    cases taken
  | ok _ =>
    rw [bare] at taken
    cases taken
    rfl

theorem result_ask (same : l'.breakers = l.breakers) (key : String) (now : Nat) :
    (l'.ask key now).2 = (l.ask key now).2 := by
  unfold ask
  rw [same]
  cases l.breakers with
  | none => rfl
  | some bs =>
    dsimp only
    rcases bs.request key now with ⟨bs', _ | _⟩ <;> rfl

theorem outcome_of_store (stores : l'.store = l.store) (project : Project) (path : Path) :
    l'.outcome project path = l.outcome project path := by
  have options : l'.options = l.options := congrArg Store.options stores
  have resolution : l'.resolution = l.resolution := congrArg Store.resolution stores
  have time : l'.clock l'.readings = l.clock l.readings :=
    congrArg (fun s => s.clock s.readings) stores
  simp only [outcome, build, options, resolution, time]

/-- What an attempt gives is known in advance: an error of the limiter, a refusal, or what can be
made of the file. -/
theorem result_attempt (l : Loader) (project : Project) (now : Nat) (path : Path) :
    (l.attempt project now path).2 = (do
      let _ ← l.takeUnits
      let _ ← (l.ask path.text now).2
      l.outcome project path) := by
  have counted (next : Except Error Module) :
      ((l.count .cacheMisses).takeUnits >>= fun _ => next) = l.takeUnits >>= fun _ => next :=
    takeUnits_bind (l := l) (rfl : (l.count .cacheMisses).limiter = l.limiter) rfl next
  rw [← counted]
  unfold attempt beginAttempt
  dsimp only
  cases taken : (l.count .cacheMisses).takeUnits with
  | error e => rfl
  | ok l₁ =>
    have same := breakers_takeUnits taken
    have asked := result_ask (l := l) same path.text now
    have stores := (store_ask l₁ path.text now).trans (store_takeUnits taken)
    dsimp only
    rcases answer : l₁.ask path.text now with ⟨l₂, refusal | ticket⟩
    · rw [answer] at asked
      rw [← asked]
      rfl
    · rw [answer] at asked stores
      rw [← asked, ← outcome_of_store (l := l) stores]
      rfl

theorem error_takeUnits (failed : l.takeUnits = .error e) :
    (∃ limit, e = .tooManyModules limit) ∨ ∃ limit, e = .tooManyFiles limit := by
  unfold takeUnits at failed
  cases reserved : l.reserve with
  | error e' =>
    rw [reserved] at failed
    cases failed
    unfold reserve at reserved
    split at reserved
    · cases reserved
    · split at reserved
      · split at reserved <;> cases reserved
        exact .inl ⟨_, rfl⟩
      · cases reserved
  | ok between =>
    rw [reserved] at failed
    have opened : between.openFile = .error e := failed
    unfold openFile at opened
    split at opened
    · cases opened
    · split at opened <;> cases opened
      exact .inr ⟨_, rfl⟩

theorem error_ask {key : String} (failed : (l.ask key now).2 = .error e) :
    ∃ refusal, e = .refused refusal := by
  unfold ask at failed
  split at failed
  · cases failed
  · split at failed <;> cases failed
    exact ⟨_, rfl⟩

/-! ## Loads that fail -/

theorem loadFile_of_missing (missing : l.cached? path = none) (project : Project) (now : Nat) :
    (l.loadFile project now path).2 = (l.attempt project now path).2 := by
  unfold loadFile
  rw [missing]
  dsimp only
  rcases l.attempt project now path with ⟨l', _ | _⟩ <;> rfl

section Failed

variable (failed : (l.loadFile project now path).2 = .error e)
include failed

theorem cached?_of_error : l.cached? path = none := by
  cases found : l.cached? path with
  | none => rfl
  | some m =>
    simp only [loadFile, found] at failed
    cases failed

/-- The errors of a load are those of the limiter, the breaker and the file. -/
theorem error_loadFile :
    (∃ limit, e = .tooManyModules limit) ∨ (∃ limit, e = .tooManyFiles limit) ∨
      (∃ refusal, e = .refused refusal) ∨ ∃ fault, e = .load path fault := by
  rw [loadFile_of_missing (cached?_of_error failed), result_attempt] at failed
  cases taken : l.takeUnits with
  | error _ =>
    rw [taken] at failed
    cases failed
    exact (error_takeUnits taken).imp_right .inl
  | ok _ =>
    rw [taken] at failed
    cases asked : (l.ask path.text now).2 with
    | error _ =>
      rw [asked] at failed
      cases failed
      exact .inr (.inr (.inl (error_ask asked)))
    | ok _ =>
      rw [asked] at failed
      exact .inr (.inr (.inr (load_error_of_outcome failed)))

theorem limiter_loadFile_of_error : (l.loadFile project now path).1.limiter = l.limiter := by
  have missing := cached?_of_error failed
  unfold loadFile at failed ⊢
  rw [missing] at failed ⊢
  dsimp only at failed ⊢
  rcases attempted : l.attempt project now path with ⟨l', e' | m⟩
  · have back : l'.limiter = l.limiter := limiter_attempt_of_error attempted
    exact back
  · rw [attempted] at failed
    cases failed

end Failed

theorem stable_unguarded : Stable fun l => l.breakers = none where
  count _ h := h
  observe _ h := h
  readClock h := h
  limit _ h := h
  takeUnits taken h := (breakers_takeUnits taken).trans h
  ask key now h := by simp only [ask, h]
  report ticket success now h := by
    cases ticket with
    | none => exact h
    | some t => simp only [report, h, Option.map_none]
  keep _ _ h := h

/-- **A load that fails leaves no trace.** Whatever state a loader is in, a load can fail at one of
the two ceilings, at the breaker, or because of the file. In all these cases the modules that are
kept and registered and all that the limiter counts are as before. The file is not kept, so it is
loaded anew when it is asked for again: what that gives depends on the limiter as it was, on the
answer of the breaker then, and on what the project holds then. Without breakers it is what the
loader would have given without the load that failed. -/
theorem failed_load_leaves_no_trace {l : Loader} {project : Project} {now : Nat} {path : Path}
    {e : Error} (failed : (l.loadFile project now path).2 = .error e) :
    let after := (l.loadFile project now path).1
    ((∃ limit, e = .tooManyModules limit) ∨ (∃ limit, e = .tooManyFiles limit) ∨
        (∃ refusal, e = .refused refusal) ∨ ∃ fault, e = .load path fault) ∧
      after.cache = l.cache ∧ after.registry = l.registry ∧ after.limiter = l.limiter ∧
      after.cached? path = none ∧
      (∀ project' now', (after.loadFile project' now' path).2 = (do
        let _ ← l.takeUnits
        let _ ← (after.ask path.text now').2
        l.outcome project' path)) ∧
      (l.breakers = none → ∀ project' now',
        (after.loadFile project' now' path).2 = (l.loadFile project' now' path).2) := by
  intro after
  have stores : after.store = l.store := store_loadFile_of_error failed
  have caches : after.cache = l.cache := congrArg Store.cache stores
  have limiters : after.limiter = l.limiter := limiter_loadFile_of_error failed
  have missing : after.cached? path = none := by
    rw [cached?, caches]
    exact cached?_of_error failed
  refine ⟨error_loadFile failed, caches, congrArg Store.registry stores, limiters, missing,
    fun project' now' => ?_, fun unguarded project' now' => ?_⟩
  · rw [loadFile_of_missing missing, result_attempt, outcome_of_store stores]
    exact takeUnits_bind limiters (congrArg Store.loading stores) _
  · have same : after.breakers = l.breakers :=
      (stable_unguarded.loadFile project now path unguarded).trans unguarded.symm
    rw [loadFile_of_missing missing, result_attempt, outcome_of_store stores,
      loadFile_of_missing (cached?_of_error failed), result_attempt, result_ask same]
    exact takeUnits_bind limiters (congrArg Store.loading stores) _

/-- A file whose only reference is an alias for nothing, loaded behind a breaker by a loader that
has room for one more module. -/
theorem failed_load_leaves_no_trace_unresolved :
    let l : Loader :=
      { resolution := { paths := [("fs", [])] }
        cache := [{ reader with id := ⟨"/b.js"⟩ }]
        limiter := some { limits := { maxCachedModules := 2 }, modules := 1 }
        breakers := some { settings := { threshold := 2, recoveryMs := 60000 } } }
    let after := (l.loadFile readerProject 0 ⟨"/a.js"⟩).1
    (l.loadFile readerProject 0 ⟨"/a.js"⟩).2 =
        .error (.load ⟨"/a.js"⟩ (.unresolved "fs" ⟨"/"⟩)) ∧
      after.cache = l.cache ∧ after.registry = l.registry ∧ after.limiter = l.limiter := by
  intro l after
  have missing : l.cached? ⟨"/a.js"⟩ = none := by decide
  have kind : Compile.SourceKind.ofPath ⟨"/a.js"⟩ = .javascript := by decide
  have above : (Path.mk "/a.js").parent? = some ⟨"/"⟩ := by decide
  have bare : Specifier.kind "fs" = .bare := by decide +kernel
  have aliased : l.resolution.aliasTargets? "fs" = some [] :=
    Config.Resolution.aliasTargets?_of_key (by simp [l]) (by decide) (by simp [l])
  have nowhere : l.resolution.resolve readerProject "fs" ⟨"/"⟩ =
      .error (.resolution "fs" ⟨"/"⟩) := by
    rw [Config.Resolution.resolve, bare]
    dsimp only
    rw [Config.Resolution.resolveBare, aliased]
    rfl
  have needs : dependencies l.resolution readerProject ⟨"/a.js"⟩ "require(\"fs\")" =
      .error (.load ⟨"/a.js"⟩ (.unresolved "fs" ⟨"/"⟩)) := by
    unfold dependencies
    rw [specifiers_reader, above]
    simp only [Option.getD_some, List.mapM_cons, nowhere]
    rfl
  have fails : l.outcome readerProject ⟨"/a.js"⟩ =
      .error (.load ⟨"/a.js"⟩ (.unresolved "fs" ⟨"/"⟩)) := by
    have readable : readSource readerProject ⟨"/a.js"⟩ = .ok "require(\"fs\")" := readSource_lone _
    have compiled : Compile.compile { l.options with kind := .javascript } "require(\"fs\")" =
        ⟨"require(\"fs\")", [], []⟩ := Compile.compile_call scan_reader
    rw [outcome, readable]
    change l.build readerProject ⟨"/a.js"⟩ "require(\"fs\")" = _
    rw [build, kind]
    dsimp only
    rw [compiled]
    dsimp only
    rw [needs]
    rfl
  have failed : (l.loadFile readerProject 0 ⟨"/a.js"⟩).2 =
      .error (.load ⟨"/a.js"⟩ (.unresolved "fs" ⟨"/"⟩)) := by
    rw [loadFile_of_missing missing, result_attempt, fails]
    rfl
  obtain ⟨_, caches, registries, limiters, _⟩ := failed_load_leaves_no_trace failed
  exact ⟨failed, caches, registries, limiters⟩

end Loader

end Tarkib
