import Mathlib.Logic.Function.Iterate
import Tarkib.Proofs.Breaker.Keyed
import Tarkib.Proofs.Loader.Reach
import Tarkib.Proofs.Project.Following

/-!
# Files that keep failing

One load goes through two breakers: the specifier is resolved behind the breaker of its lexical key,
and the file it leads to is read behind the breaker of its path. Breakers are told apart by their
keys alone, so the two are one breaker when the lexical key is the path of the file, as it is when
the file is named in full.
-/

namespace Tarkib.Loader

/-- What reading, compiling and resolving the references of a file gives. -/
def outcome (l : Loader) (project : Project) (path : Path) : Except Error Module := do
  l.build project path (← readSource project path)

/-- Loaders that are set up alike get the same outcome at different times. -/
theorem outcome_congr {l l' : Loader} (options : l'.options = l.options)
    (resolution : l'.resolution = l.resolution) (project : Project) (path : Path) :
    l'.outcome project path = (l.outcome project path).map fun m =>
      { m with loadedAt := l'.clock l'.readings } := by
  unfold outcome build
  rw [options, resolution]
  cases readSource project path with
  | error e => rfl
  | ok source =>
    simp only [bind, Except.bind]
    split
    · rfl
    · cases dependencies l.resolution project path _ <;> rfl

/-! ## Files that cannot be had

Whatever is wrong with a file is an error of loading it, and never a refusal. -/

theorem load_error_of_readSource {project : Project} {path : Path} {e : Error}
    (fails : readSource project path = .error e) : ∃ fault, e = .load path fault := by
  unfold readSource at fails
  split at fails
  · cases fails
    exact ⟨_, rfl⟩
  · split at fails
    · cases fails
    · cases fails
      exact ⟨_, rfl⟩

theorem load_error_of_dependencies {c : Config.Resolution} {project : Project} {path : Path}
    {code : String} {e : Error} (fails : dependencies c project path code = .error e) :
    ∃ fault, e = .load path fault := by
  obtain ⟨specifier, _, here⟩ := exists_of_mapM fails
  split at here
  · cases here
  · cases here
    exact ⟨_, rfl⟩

theorem load_error_of_outcome {l : Loader} {project : Project} {path : Path} {e : Error}
    (fails : l.outcome project path = .error e) : ∃ fault, e = .load path fault := by
  unfold outcome build at fails
  simp only [bind, Except.bind, throw, throwThe, MonadExceptOf.throw, pure, Except.pure] at fails
  split at fails
  · next unread =>
      cases fails
      exact load_error_of_readSource unread
  · split at fails
    · cases fails
      exact ⟨_, rfl⟩
    · split at fails
      · next unresolved =>
          cases fails
          exact load_error_of_dependencies unresolved
      · cases fails

/-! ## Loaders without a limiter -/

section Unlimited

variable {l : Loader} (unlimited : l.limiter = none)
include unlimited

theorem limit_of_unlimited (f : Limiter → Limiter) : l.limit f = l := by
  cases l
  cases unlimited
  rfl

theorem closeFile_of_unlimited : l.closeFile = l :=
  limit_of_unlimited unlimited _

theorem unreserve_of_unlimited : l.unreserve = l := by
  unfold unreserve
  split
  · exact limit_of_unlimited unlimited _
  · rfl

theorem takeUnits_of_unlimited : l.takeUnits = .ok l := by
  have reserved : l.reserve = .ok l := by simp only [reserve, unlimited]
  have opened : l.openFile = .ok l := by simp only [openFile, unlimited]
  simp only [takeUnits, reserved, bind, Except.bind, opened]

end Unlimited

/-! ## One load of a file -/

section OneLoad

variable {l : Loader} {bs bs' bs'' : Breakers} {project : Project} {now : Nat}
  {specifier : String} {directory path : Path}

/-- The loader with other breakers. -/
def withBreakers (l : Loader) (bs : Breakers) : Loader :=
  { l with breakers := some bs }

variable (guarded : l.breakers = some bs)
include guarded

theorem resolve_of_call
    (leads : l.resolution.resolve project specifier directory = .ok (.file path))
    (called : bs.call (Specifier.key specifier directory) true now = (bs', none)) :
    l.resolve project now specifier directory = (l.withBreakers bs', .ok (.file path)) := by
  unfold Breakers.call at called
  rcases asked : bs.request (Specifier.key specifier directory) now with ⟨bs₁, refusal | ticket⟩
  · rw [asked] at called
    cases called
  · rw [asked] at called
    cases called
    simp only [resolve, ask, guarded, asked, leads]
    rfl

theorem attempt_of_refused (unlimited : l.limiter = none) {success : Bool}
    {refusal : Breakers.Refusal} (refused : bs.call path.text success now = (bs', some refusal)) :
    l.attempt project now path =
      ((l.withBreakers bs').count .cacheMisses, .error (.refused refusal)) := by
  have taken : (l.count .cacheMisses).takeUnits = .ok (l.count .cacheMisses) :=
    takeUnits_of_unlimited unlimited
  have kept (bs : Breakers) : ((l.count .cacheMisses).withBreakers bs).closeFile.unreserve =
      (l.withBreakers bs).count .cacheMisses := by
    have bare : ((l.count .cacheMisses).withBreakers bs).limiter = none := unlimited
    rw [closeFile_of_unlimited bare, unreserve_of_unlimited bare]
    rfl
  have found : (l.count .cacheMisses).breakers = some bs := guarded
  unfold Breakers.call at refused
  rcases asked : bs.request path.text now with ⟨bs₁, refusal' | ticket⟩
  · rw [asked] at refused
    cases refused
    simp only [attempt, beginAttempt, taken, ask, found, asked]
    rw [← kept]
    rfl
  · rw [asked] at refused
    cases refused

theorem attempt_of_failed (unlimited : l.limiter = none)
    (called : bs.call path.text false now = (bs', none)) {e : Error}
    (fails : l.outcome project path = .error e) :
    l.attempt project now path = ((l.withBreakers bs').count .cacheMisses, .error e) := by
  have taken : (l.count .cacheMisses).takeUnits = .ok (l.count .cacheMisses) :=
    takeUnits_of_unlimited unlimited
  have found : (l.count .cacheMisses).breakers = some bs := guarded
  unfold Breakers.call at called
  rcases asked : bs.request path.text now with ⟨bs₁, refusal | ticket⟩
  · rw [asked] at called
    cases called
  · rw [asked] at called
    cases called
    simp only [attempt, beginAttempt, taken, ask, found, asked]
    have same : (do
        let source ← readSource project path
        ({ l.count .cacheMisses with breakers := some bs₁ } : Loader).build project path source) =
        .error e := fails
    rw [same]
    have bare : ((l.count .cacheMisses).withBreakers bs₁).limiter = none := unlimited
    have closed := closeFile_of_unlimited bare
    have kept :
        (((l.count .cacheMisses).withBreakers bs₁).report (some ticket) false now).unreserve =
          ((l.count .cacheMisses).withBreakers bs₁).report (some ticket) false now :=
      unreserve_of_unlimited unlimited
    simp only [endAttempt]
    unfold withBreakers at closed kept
    rw [closed, kept]
    rfl

theorem load_of_refused_key {success : Bool} {refusal : Breakers.Refusal}
    (refused : bs.call (Specifier.key specifier directory) success now = (bs', some refusal)) :
    l.load project now specifier directory =
      ((l.withBreakers bs').count .loadFailures, .error (.refused refusal)) := by
  unfold Breakers.call at refused
  rcases asked : bs.request (Specifier.key specifier directory) now with ⟨bs₁, refusal' | ticket⟩
  · rw [asked] at refused
    cases refused
    simp only [load, resolve, ask, guarded, asked]
    rfl
  · rw [asked] at refused
    cases refused

theorem load_of_attempt (missing : l.cached? path = none)
    (leads : l.resolution.resolve project specifier directory = .ok (.file path))
    (called : bs.call (Specifier.key specifier directory) true now = (bs', none)) {l' : Loader}
    {e : Error} (tried : (l.withBreakers bs').attempt project now path = (l', .error e)) :
    l.load project now specifier directory = (l'.count .loadFailures, .error e) := by
  have absent : (l.withBreakers bs').cached? path = none := missing
  simp only [load, resolve_of_call guarded leads called, loadGraph, loadFile, absent, tried]

end OneLoad

end Tarkib.Loader

namespace Tarkib.Breakers

/-! ## What a failed load does to the breakers -/

/-- The breakers after a load that fails: the specifier with the lexical key `key` leads to the file
at `place`, which cannot be loaded. The refusal is there if the file was not even tried. -/
def failedLoad (bs : Breakers) (key place : String) (now : Nat) : Breakers × Option Refusal :=
  match bs.call key true now with
  | (bs, some refusal) => (bs, some refusal)
  | (bs, none) => bs.call place false now

/-- One of the two breakers that a load meets lets no call through at this time. -/
def Blocked (bs : Breakers) (key place : String) (now : Nat) : Prop :=
  bs.RefusesAt key now ∨ bs.RefusesAt place now

section FailedLoad

variable {bs : Breakers} (sound : bs.Sound) {key place : String} {now : Nat}
include sound

theorem failedLoad_settled (key place : String) (now : Nat) :
    (bs.failedLoad key place now).1.Sound ∧
      (bs.failedLoad key place now).1.settings = bs.settings := by
  obtain ⟨stepped, _⟩ := call_spec sound key true now
  rcases called : bs.call key true now with ⟨bs₁, _ | refusal⟩
  · rw [called] at stepped
    obtain ⟨further, _⟩ := call_spec stepped.sound place false now
    simp only [failedLoad, called]
    exact ⟨further.sound, further.settings.trans stepped.settings⟩
  · rw [called] at stepped
    simp only [failedLoad, called]
    exact ⟨stepped.sound, stepped.settings⟩

theorem failedLoad_of_blocked (blocked : bs.Blocked key place now) :
    ∃ bs' refusal, bs.failedLoad key place now = (bs', some refusal) ∧
      bs'.Blocked key place now := by
  by_cases first : bs.RefusesAt key now
  · obtain ⟨bs', refusal, called, stepped⟩ := call_of_refuses sound first true
    refine ⟨bs', refusal, by simp only [failedLoad, called], .inl ?_⟩
    rwa [RefusesAt, stepped.here, stepped.settings]
  · have second : bs.RefusesAt place now := blocked.resolve_left first
    have different : place ≠ key := by
      rintro rfl
      exact first second
    obtain ⟨bs₁, called, stepped⟩ := call_of_admits sound first true
    have still : bs₁.RefusesAt place now := by
      rwa [RefusesAt, stepped.others place different, stepped.settings]
    obtain ⟨bs₂, refusal, again, further⟩ := call_of_refuses stepped.sound still false
    refine ⟨bs₂, refusal, by simp only [failedLoad, called, again], .inr ?_⟩
    rwa [RefusesAt, further.here, further.settings]

variable (recovery : 0 < bs.settings.recoveryMs)
include recovery

theorem failedLoad_of_different (different : key ≠ place) (free : ¬ bs.Blocked key place now) :
    ∃ bs', bs.failedLoad key place now = (bs', none) ∧
      (bs'.Blocked key place now ∨
        (bs'.breakerAt place).failures = (bs.breakerAt place).failures + 1 ∧
        (bs.breakerAt place).failures + 1 < bs.settings.threshold) := by
  obtain ⟨bs₁, called, stepped⟩ := call_of_admits sound (fun h => free (.inl h)) true
  have kept := stepped.others place different.symm
  have admits : ¬ bs₁.RefusesAt place now := by
    rw [RefusesAt, kept, stepped.settings]
    exact fun h => free (.inr h)
  obtain ⟨bs₂, again, further⟩ := call_of_admits stepped.sound admits false
  have here := further.here
  rw [kept, stepped.settings] at here
  refine ⟨bs₂, by simp only [failedLoad, called, again], ?_⟩
  rcases Breaker.call_failure recovery (fun h => free (.inr h)) with
    ⟨refuses, _⟩ | ⟨_, counted, few⟩
  · refine .inl (.inr ?_)
    rwa [RefusesAt, here, further.settings, stepped.settings]
  · exact .inr ⟨by rw [here, counted], few⟩

theorem failedLoad_of_same (free : ¬ bs.RefusesAt key now) :
    ∃ bs', bs.failedLoad key key now = (bs', none) ∧
      (bs'.RefusesAt key now ↔ bs.settings.threshold ≤ 1) := by
  obtain ⟨bs₁, called, stepped⟩ := call_of_admits sound free true
  obtain ⟨closed, none⟩ := Breaker.call_success free
  rw [← stepped.here] at closed none
  have admits : ¬ bs₁.RefusesAt key now := Breaker.not_refuses_of_closed closed
  obtain ⟨bs₂, again, further⟩ := call_of_admits stepped.sound admits false
  refine ⟨bs₂, by simp only [failedLoad, called, again], ?_⟩
  have failed := Breaker.call_failure (by rwa [stepped.settings]) admits
  rw [none, stepped.settings] at failed
  rw [RefusesAt, further.here, further.settings, stepped.settings]
  rcases failed with ⟨refuses, last⟩ | ⟨stillClosed, _, few⟩
  · exact ⟨fun _ => last closed, fun _ => refuses⟩
  · refine ⟨fun refuses => absurd refuses (Breaker.not_refuses_of_closed stillClosed), ?_⟩
    omega

theorem failedLoad_of_free (free : ¬ bs.Blocked key place now) :
    ∃ bs', bs.failedLoad key place now = (bs', none) := by
  by_cases different : key = place
  · subst different
    obtain ⟨bs', failed, _⟩ := failedLoad_of_same sound recovery fun h => free (.inl h)
    exact ⟨bs', failed⟩
  · obtain ⟨bs', failed, _⟩ := failedLoad_of_different sound recovery different free
    exact ⟨bs', failed⟩

end FailedLoad

/-- The breakers after some failed loads of one file at one time. -/
def failedLoads (bs : Breakers) (key place : String) (now n : Nat) : Breakers :=
  (fun bs => (bs.failedLoad key place now).1)^[n] bs

theorem failedLoads_succ (bs : Breakers) (key place : String) (now n : Nat) :
    bs.failedLoads key place now (n + 1) =
      ((bs.failedLoads key place now n).failedLoad key place now).1 :=
  Function.iterate_succ_apply' _ _ _

section FailedLoads

variable {bs : Breakers} (sound : bs.Sound) {key place : String} {now : Nat}
include sound

theorem failedLoads_settled (key place : String) (now n : Nat) :
    (bs.failedLoads key place now n).Sound ∧
      (bs.failedLoads key place now n).settings = bs.settings := by
  induction n with
  | zero => exact ⟨sound, rfl⟩
  | succ n ih =>
    obtain ⟨before, same⟩ := ih
    obtain ⟨after, kept⟩ := failedLoad_settled before key place now
    rw [failedLoads_succ]
    exact ⟨after, kept.trans same⟩

theorem Blocked.failedLoads_succ {n : Nat}
    (blocked : (bs.failedLoads key place now n).Blocked key place now) :
    (bs.failedLoads key place now (n + 1)).Blocked key place now := by
  obtain ⟨before, _⟩ := failedLoads_settled sound key place now n
  obtain ⟨bs', refusal, failed, still⟩ := failedLoad_of_blocked before blocked
  rw [Breakers.failedLoads_succ, failed]
  exact still

theorem failedLoads_of_blocked (blocked : bs.Blocked key place now) (n : Nat) :
    (bs.failedLoads key place now n).Blocked key place now := by
  induction n with
  | zero => exact blocked
  | succ n ih => exact Blocked.failedLoads_succ sound ih

variable (recovery : 0 < bs.settings.recoveryMs)
include recovery

/-- If they are two breakers, the failures to read add up. -/
theorem failedLoads_of_different (different : key ≠ place) (now n : Nat) :
    (bs.failedLoads key place now (n + 1)).Blocked key place now ∨
      n + 1 ≤ ((bs.failedLoads key place now (n + 1)).breakerAt place).failures ∧
      n + 1 < bs.settings.threshold := by
  have step (n : Nat) (enough : n ≤ ((bs.failedLoads key place now n).breakerAt place).failures) :
      (bs.failedLoads key place now (n + 1)).Blocked key place now ∨
        n + 1 ≤ ((bs.failedLoads key place now (n + 1)).breakerAt place).failures ∧
        n + 1 < bs.settings.threshold := by
    by_cases blocked : (bs.failedLoads key place now n).Blocked key place now
    · exact .inl (Blocked.failedLoads_succ sound blocked)
    · obtain ⟨before, same⟩ := failedLoads_settled sound key place now n
      obtain ⟨bs', failed, result⟩ :=
        failedLoad_of_different before (by rwa [same]) different blocked
      rw [failedLoads_succ, failed]
      rw [same] at result
      refine result.imp_right fun ⟨counted, few⟩ => ?_
      simp only [counted]
      omega
  -- Either a breaker refuses calls by now, or every load so far has left its failure behind.
  induction n with
  | zero => exact step 0 (Nat.zero_le _)
  | succ n ih =>
    rcases ih with blocked | ⟨enough, _⟩
    · exact .inl (Blocked.failedLoads_succ sound blocked)
    · exact step (n + 1) enough

/-- If they are one, each resolution takes back the failure before it. -/
theorem failedLoads_of_same (free : ¬ bs.RefusesAt key now) (threshold : 1 < bs.settings.threshold)
    (n : Nat) : ¬ (bs.failedLoads key key now n).RefusesAt key now := by
  induction n with
  | zero => exact free
  | succ n ih =>
    obtain ⟨before, same⟩ := failedLoads_settled sound key key now n
    obtain ⟨bs', failed, opened⟩ := failedLoad_of_same before (by rwa [same]) ih
    rw [failedLoads_succ, failed, opened, same]
    omega

/-- So one breaker opens only if its threshold is one. -/
theorem failedLoads_threshold_blocked_iff (threshold : 1 ≤ bs.settings.threshold) :
    (bs.failedLoads key place now bs.settings.threshold).Blocked key place now ↔
      key ≠ place ∨ bs.settings.threshold = 1 ∨ bs.RefusesAt place now := by
  obtain ⟨n, count⟩ : ∃ n, bs.settings.threshold = n + 1 := ⟨_, (Nat.sub_add_cancel threshold).symm⟩
  constructor
  · intro blocked
    by_cases different : key = place
    · subst different
      by_cases free : bs.RefusesAt key now
      · exact .inr (.inr free)
      · refine .inr (.inl ?_)
        have never := failedLoads_of_same sound recovery free
        have : ¬ 1 < bs.settings.threshold := fun many =>
          never many bs.settings.threshold (blocked.elim id id)
        omega
    · exact .inl different
  · have apart (different : key ≠ place) :
        (bs.failedLoads key place now bs.settings.threshold).Blocked key place now := by
      have reached := failedLoads_of_different sound recovery different now n
      rw [← count] at reached
      rcases reached with blocked | ⟨_, few⟩
      · exact blocked
      · exact absurd few (Nat.lt_irrefl _)
    rintro (different | single | refuses)
    · exact apart different
    · by_cases different : key = place
      · subst different
        by_cases free : bs.RefusesAt key now
        · exact failedLoads_of_blocked sound (.inl free) _
        · obtain ⟨bs', failed, opened⟩ := failedLoad_of_same sound recovery free
          rw [single, failedLoads_succ]
          have first : bs.failedLoads key key now 0 = bs := rfl
          rw [first, failed]
          exact .inl (opened.mpr (Nat.le_of_eq single))
      · exact apart different
    · exact failedLoads_of_blocked sound (.inr refuses) _

end FailedLoads

end Tarkib.Breakers

namespace Tarkib.Loader

/-! ## Failed loads of one file -/

section FailedLoads

variable {l : Loader} {bs bs' : Breakers} {now : Nat} {specifier : String} {directory path : Path}
  (guarded : l.breakers = some bs) (unlimited : l.limiter = none) (missing : l.cached? path = none)
include guarded unlimited missing

theorem load_of_failedLoad_refused {refusal : Breakers.Refusal}
    (failed : bs.failedLoad (Specifier.key specifier directory) path.text now =
      (bs', some refusal)) :
    ∃ metrics, ∀ project,
      l.resolution.resolve project specifier directory = .ok (.file path) →
      l.load project now specifier directory =
        ({ l with breakers := some bs', metrics }, .error (.refused refusal)) := by
  rcases called : bs.call (Specifier.key specifier directory) true now with ⟨bs₁, _ | first⟩
  · simp only [Breakers.failedLoad, called] at failed
    refine ⟨((l.count .cacheMisses).count .loadFailures).metrics, fun project leads => ?_⟩
    have tried : (l.withBreakers bs₁).attempt project now path = _ :=
      attempt_of_refused (l := l.withBreakers bs₁) rfl unlimited failed
    exact load_of_attempt guarded missing leads called tried
  · simp only [Breakers.failedLoad, called] at failed
    cases failed
    exact ⟨_, fun project _ => load_of_refused_key guarded called⟩

theorem load_of_failedLoad_tried {project : Project} {e : Error}
    (failed : bs.failedLoad (Specifier.key specifier directory) path.text now = (bs', none))
    (leads : l.resolution.resolve project specifier directory = .ok (.file path))
    (fails : l.outcome project path = .error e) :
    ∃ metrics, l.load project now specifier directory =
      ({ l with breakers := some bs', metrics }, .error e) := by
  rcases called : bs.call (Specifier.key specifier directory) true now with ⟨bs₁, _ | first⟩
  · simp only [Breakers.failedLoad, called] at failed
    have tried := attempt_of_failed (l := l.withBreakers bs₁) rfl unlimited failed fails
    exact ⟨_, load_of_attempt guarded missing leads called tried⟩
  · simp only [Breakers.failedLoad, called] at failed
    cases failed

variable {projects : List Project}
  (leads : ∀ project ∈ projects,
    l.resolution.resolve project specifier directory = .ok (.file path))
  (fails : ∀ project ∈ projects, ∃ e, l.outcome project path = .error e)
include leads fails

/-- A run of loads that fail does to the breakers what `failedLoads` says. -/
theorem run_of_failing :
    ∃ metrics, l.run (projects.map fun project => ⟨project, now, .load specifier directory⟩) =
      { l with
        breakers := some (bs.failedLoads (Specifier.key specifier directory) path.text now
          projects.length)
        metrics } := by
  induction projects generalizing l bs with
  | nil =>
    refine ⟨l.metrics, ?_⟩
    cases l
    cases guarded
    rfl
  | cons project projects ih =>
    rw [List.forall_mem_cons] at leads fails
    obtain ⟨e, fails_first⟩ := fails.1
    have once : ∃ metrics, (l.load project now specifier directory).1 =
        { l with
          breakers := some (bs.failedLoad (Specifier.key specifier directory) path.text now).1
          metrics } := by
      rcases failed : bs.failedLoad (Specifier.key specifier directory) path.text now with
        ⟨bs₁, _ | refusal⟩
      · obtain ⟨metrics, loaded⟩ :=
          load_of_failedLoad_tried guarded unlimited missing failed leads.1 fails_first
        exact ⟨metrics, by rw [loaded]⟩
      · obtain ⟨metrics, loaded⟩ :=
          load_of_failedLoad_refused guarded unlimited missing failed
        exact ⟨metrics, by rw [loaded project leads.1]⟩
    obtain ⟨metrics, after⟩ := once
    -- What the later loads look at, besides the breakers, is as it was.
    obtain ⟨metrics', rest⟩ := ih
      (l := { l with
        breakers := some (bs.failedLoad (Specifier.key specifier directory) path.text now).1
        metrics }) rfl unlimited missing leads.2 fails.2
    refine ⟨metrics', ?_⟩
    rw [List.map_cons, run_cons]
    simp only [perform]
    rw [after, rest]
    rfl

variable (sound : bs.Sound)
include sound

/-- A blocked load is refused without a look at the file. -/
theorem load_after_failing_of_blocked (now : Nat)
    (blocked : (bs.failedLoads (Specifier.key specifier directory) path.text now
      projects.length).Blocked (Specifier.key specifier directory) path.text now) :
    ∃ after refusal, ∀ project,
      l.resolution.resolve project specifier directory = .ok (.file path) →
      (l.run (projects.map fun project => ⟨project, now, .load specifier directory⟩)).load
        project now specifier directory = (after, .error (.refused refusal)) := by
  obtain ⟨metrics, ran⟩ := run_of_failing guarded unlimited missing leads fails
  obtain ⟨after, _⟩ := Breakers.failedLoads_settled sound (Specifier.key specifier directory)
    path.text now projects.length
  obtain ⟨bs', refusal, failed, _⟩ := Breakers.failedLoad_of_blocked after blocked
  rw [ran]
  obtain ⟨metrics', loaded⟩ := load_of_failedLoad_refused
    (l := { l with breakers := some _, metrics }) rfl unlimited missing failed
  exact ⟨_, refusal, loaded⟩

/-- Any other load goes on reading the file. -/
theorem load_after_failing_of_free (recovery : 0 < bs.settings.recoveryMs) (now : Nat)
    (free : ¬ (bs.failedLoads (Specifier.key specifier directory) path.text now
      projects.length).Blocked (Specifier.key specifier directory) path.text now)
    (project : Project) (e : Error)
    (leadsAgain : l.resolution.resolve project specifier directory = .ok (.file path))
    (failsAgain : l.outcome project path = .error e) :
    ((l.run (projects.map fun project => ⟨project, now, .load specifier directory⟩)).load
      project now specifier directory).2 = .error e := by
  obtain ⟨metrics, ran⟩ := run_of_failing guarded unlimited missing leads fails
  obtain ⟨after, same⟩ := Breakers.failedLoads_settled sound (Specifier.key specifier directory)
    path.text now projects.length
  obtain ⟨bs', failed⟩ := Breakers.failedLoad_of_free after (by rwa [same]) free
  rw [ran]
  obtain ⟨metrics', loaded⟩ := load_of_failedLoad_tried
    (l := { l with breakers := some _, metrics }) rfl unlimited missing failed leadsAgain failsAgain
  rw [loaded]

end FailedLoads

/-! ## Guarded loaders

Breakers and the lack of a limiter last, and so does everything that decides what a file gives. -/

/-- The loader has breakers with the settings and no limiter, and resolves and compiles as `start`
does. -/
structure Guarded (settings : Breaker.Settings) (start l : Loader) : Prop where
  breakers : ∃ bs, l.breakers = some bs ∧ bs.Sound ∧ bs.settings = settings
  limiter : l.limiter = none
  resolution : l.resolution = start.resolution
  options : l.options = start.options

namespace Guarded

variable {settings : Breaker.Settings} {start : Loader}

theorem outcome_eq_error_iff {l : Loader} (guarded : Guarded settings start l) (project : Project)
    (path : Path) (e : Error) :
    l.outcome project path = .error e ↔ start.outcome project path = .error e := by
  rw [outcome_congr guarded.options guarded.resolution]
  cases start.outcome project path <;> simp [Except.map]

theorem stable : Stable (Guarded settings start) where
  count _ h := ⟨h.breakers, h.limiter, h.resolution, h.options⟩
  observe _ h := ⟨h.breakers, h.limiter, h.resolution, h.options⟩
  readClock h := ⟨h.breakers, h.limiter, h.resolution, h.options⟩
  limit f h := by rwa [limit_of_unlimited h.limiter]
  takeUnits taken h := by
    rw [takeUnits_of_unlimited h.limiter] at taken
    cases taken
    exact h
  ask key now h := by
    obtain ⟨bs, found, sound, same⟩ := h.breakers
    obtain ⟨_, _, stepped, _⟩ := Breakers.request_spec sound key now
    have kept := stepped.settings.trans same
    rcases asked : bs.request key now with ⟨bs', refusal | ticket⟩
    · rw [asked] at stepped kept
      simp only [ask, found, asked]
      exact ⟨⟨bs', rfl, stepped.sound, kept⟩, h.limiter, h.resolution, h.options⟩
    · rw [asked] at stepped kept
      simp only [ask, found, asked]
      exact ⟨⟨bs', rfl, stepped.sound, kept⟩, h.limiter, h.resolution, h.options⟩
  report ticket success now h := by
    obtain ⟨bs, found, sound, same⟩ := h.breakers
    cases ticket with
    | none => exact h
    | some t =>
      simp only [report, found, Option.map_some]
      exact ⟨⟨_, rfl, sound.modify _ _, same⟩, h.limiter, h.resolution, h.options⟩
  keep _ _ h := ⟨h.breakers, h.limiter, h.resolution, h.options⟩

end Guarded

/-- The breaker with the key lets no call through at this time. -/
def RefusesKey (l : Loader) (key : String) (now : Nat) : Prop :=
  ∃ e, (l.ask key now).2 = .error e

theorem refusesKey_iff {l : Loader} {bs : Breakers} (found : l.breakers = some bs)
    (sound : bs.Sound) (key : String) (now : Nat) :
    l.RefusesKey key now ↔ bs.RefusesAt key now := by
  obtain ⟨serial, answered, _, _⟩ := Breakers.request_spec sound key now
  have asked (e : Error) : (l.ask key now).2 = .error e ↔
      ∃ refusal, (bs.request key now).2 = .error refusal ∧ e = .refused refusal := by
    rcases response : bs.request key now with ⟨bs', refusal | ticket⟩ <;>
      simp [ask, found, response, eq_comm]
  unfold RefusesKey Breakers.RefusesAt Breaker.Refuses
  constructor
  · rintro ⟨e, failed⟩
    obtain ⟨refusal, refused, _⟩ := (asked e).mp failed
    rw [answered] at refused
    cases admission : ((bs.breakerAt key).request bs.settings now).2 with
    | refused retryInMs => exact ⟨retryInMs, rfl⟩
    | normal | trial => rw [admission] at refused; cases refused
  · rintro ⟨retryInMs, refused⟩
    refine ⟨_, (asked (.refused ⟨key, retryInMs⟩)).mpr ⟨_, ?_, rfl⟩⟩
    rw [answered, refused]
    rfl

/-! ## When a failing file is refused -/

/-- **A file that keeps failing is refused, unless it shares its breaker.** Let a loader with
breakers and no limiter have done anything before, and let a specifier then lead to a file that
cannot be loaded, as often as the threshold says and while the clock stands. The next load is
refused, and its outcome does not depend on what the file holds, exactly if the lexical key of the
specifier is not the path of the file, or the threshold is one, or the breaker of the file refused
calls before. Otherwise it tries the file again and fails for the reason that the file gives. -/
theorem refused_after_failures_iff {settings : Breaker.Settings} {start : Loader}
    (guarded : start.breakers = some { settings }) (unlimited : start.limiter = none)
    (threshold : 1 ≤ settings.threshold) (recovery : 0 < settings.recoveryMs)
    (history : List Occasion) {specifier : String} {directory path : Path}
    (missing : (start.run history).cached? path = none) {projects : List Project}
    (leads : ∀ project ∈ projects,
      start.resolution.resolve project specifier directory = .ok (.file path))
    (fails : ∀ project ∈ projects, ∃ e, start.outcome project path = .error e)
    (enough : projects.length = settings.threshold) (now : Nat) :
    let tried := (start.run history).run
      (projects.map fun project => ⟨project, now, .load specifier directory⟩)
    let kept := Specifier.key specifier directory ≠ path.text ∨ settings.threshold = 1 ∨
      (start.run history).RefusesKey path.text now
    ((∃ after refusal, ∀ project,
        start.resolution.resolve project specifier directory = .ok (.file path) →
        tried.load project now specifier directory = (after, .error (.refused refusal))) ↔ kept) ∧
    (¬ kept → ∀ project e,
      start.resolution.resolve project specifier directory = .ok (.file path) →
      start.outcome project path = .error e →
      (tried.load project now specifier directory).2 = .error e) := by
  have invariant : Guarded settings start (start.run history) :=
    Guarded.stable.run history
      ⟨⟨_, guarded, Breakers.sound_of_no_entries rfl, rfl⟩, unlimited, rfl, rfl⟩
  obtain ⟨bs, found, sound, rfl⟩ := invariant.breakers
  simp only [← invariant.resolution, ← invariant.outcome_eq_error_iff] at leads fails ⊢
  simp only [refusesKey_iff found sound,
    ← Breakers.failedLoads_threshold_blocked_iff sound recovery threshold]
  rw [← enough]
  have refused :=
    load_after_failing_of_blocked found invariant.limiter missing leads fails sound now
  have again :=
    load_after_failing_of_free found invariant.limiter missing leads fails sound recovery now
  refine ⟨⟨?_, refused⟩, again⟩
  rintro ⟨after, refusal, loaded⟩
  by_contra free
  -- A refusal whatever the file holds includes a project in which the load would fail by itself.
  obtain ⟨project, member⟩ := List.exists_mem_of_length_pos (by omega : 0 < projects.length)
  obtain ⟨e, failed⟩ := fails project member
  obtain ⟨fault, rfl⟩ := load_error_of_outcome failed
  have tries := again free project _ (leads project member) failed
  rw [loaded project (leads project member)] at tries
  cases tries

/-- A file that is no text, named in full. Two failures open a breaker, but the third load reads the
file once more. -/
theorem refused_after_failures_iff_shared :
    let start : Loader :=
      { breakers := some { settings := { threshold := 2, recoveryMs := 60000 } } }
    let damaged : Project := { nodes := [(["a.som"], .file ⟨#[255]⟩)] }
    let place : Path := ⟨"/a.som"⟩
    let history : List Occasion := [⟨damaged, 3, .clear⟩]
    let again : Occasion := ⟨damaged, 7, .load "/a.som" ⟨"/"⟩⟩
    (((start.run history).run [again, again]).load damaged 7 "/a.som" ⟨"/"⟩).2 =
      .error (.load place .notText) := by
  intro start damaged place history again
  have located : damaged.locate place = .ok ["a.som"] := Project.locate_of_file (by decide) rfl
  have leads : start.resolution.resolve damaged "/a.som" ⟨"/"⟩ = .ok (.file place) :=
    Config.Resolution.resolve_of_absolute (by decide +kernel)
      (Config.Resolution.file?_of_locate (by decide +kernel) located rfl)
  have fails : start.outcome damaged place = .error (.load place .notText) := by
    have invalid : String.fromUTF8? ⟨#[255]⟩ = none := by decide +kernel
    have content : damaged.read place = .ok ⟨#[255]⟩ := by
      simp only [Project.read, located]
      rfl
    simp only [outcome, readSource, content, invalid]
    rfl
  have shared : Specifier.key "/a.som" ⟨"/"⟩ = "/a.som" := by decide +kernel
  have closed : ¬ (start.run history).RefusesKey place.text 7 := by
    rintro ⟨e, refused⟩
    cases refused
  have verdict := @refused_after_failures_iff _ start rfl rfl (by decide) (by decide) history
    "/a.som" ⟨"/"⟩ place rfl [damaged, damaged] (by simpa using leads)
    (by simpa using ⟨_, fails⟩) rfl 7
  refine verdict.2 ?_ damaged _ leads fails
  simp [shared, closed, place]

end Tarkib.Loader
