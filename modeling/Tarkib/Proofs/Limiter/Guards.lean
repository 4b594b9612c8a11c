import Mathlib.Data.List.Basic
import Tarkib.Ledger

/-!
# No unit is lost and none is given back twice

A ledger holds two accounts that do not interfere, one of modules and one of files. In an account
units are asked for, and the guards that were handed out for them are finished, in any order and as
often as one likes: the unit is kept for good or given back. What has become of a guard is a matter
of what was asked and which requests were granted (`Fate.record`): it is live from the request on
until it is first finished.
-/

namespace Tarkib

open List

/-- The units of one kind that are taken, and the guards that were asked for. -/
structure Account where
  count : Nat := 0
  guards : List Guard := []
  deriving Repr, DecidableEq

/-- What has become of a guard. -/
inductive Fate where
  | refused
  | live
  | committed
  | released
  deriving Repr, DecidableEq

namespace Fate

/-- What a guard with this fate is to a ledger. -/
def guard : Fate → Guard
  | .live => .held
  | _ => .ended

/-- The fate of a guard that is finished while it is live. -/
def finished (kept : Bool) : Fate :=
  if kept then .committed else .released

end Fate

namespace Account

/-- What can be done with units of one kind. -/
inductive Action where
  | ask
  /-- The unit of the guard with this number is kept, or given back. -/
  | finish (number : Nat) (kept : Bool)
  deriving Repr, DecidableEq

/-- The account after an action, and whether there was something to do. -/
def perform (ceiling : Nat) (a : Account) : Action → Account × Bool
  | .ask =>
    match Limiter.acquire? a.count ceiling with
    | some count => (⟨count, a.guards ++ [.held]⟩, true)
    | none => (⟨a.count, a.guards ++ [.ended]⟩, false)
  | .finish number kept =>
    if Ledger.isHeld a.guards number then
      (⟨if kept then a.count else a.count - 1, a.guards.set number .ended⟩, true)
    else (a, false)

/-- The account after actions, one after the other. -/
def run (ceiling : Nat) (a : Account) (actions : List Action) : Account :=
  actions.foldl (fun a action => (a.perform ceiling action).1) a

/-- The actions with the answers to them. -/
def trace (ceiling : Nat) (a : Account) : List Action → List (Action × Bool)
  | [] => []
  | action :: actions =>
    (action, (a.perform ceiling action).2) :: trace ceiling (a.perform ceiling action).1 actions

end Account

namespace Fate

/-- What has become of the guards after one more action, given whether a request was granted. Only a
live guard can be finished. -/
def record (fates : List Fate) : Account.Action × Bool → List Fate
  | (.ask, granted) => fates ++ [if granted then .live else .refused]
  | (.finish number kept, _) =>
    if fates[number]? = some .live then fates.set number (finished kept) else fates

/-- What has become of the guards in the end. -/
def ofTrace (trace : List (Account.Action × Bool)) : List Fate :=
  trace.foldl record []

end Fate

namespace Account

variable {ceiling number : Nat} {kept : Bool} {a : Account} {fates : List Fate}

theorem perform_ask_of_lt (room : a.count < ceiling) :
    a.perform ceiling .ask = (⟨a.count + 1, a.guards ++ [.held]⟩, true) := by
  simp [perform, Limiter.acquire?, room]

theorem perform_ask_of_not_lt (full : ¬ a.count < ceiling) :
    a.perform ceiling .ask = (⟨a.count, a.guards ++ [.ended]⟩, false) := by
  simp [perform, Limiter.acquire?, full]

theorem perform_finish_of_held (held : Ledger.isHeld a.guards number = true) :
    a.perform ceiling (.finish number kept) =
      (⟨if kept then a.count else a.count - 1, a.guards.set number .ended⟩, true) :=
  if_pos held

theorem perform_finish_of_not_held (free : ¬ Ledger.isHeld a.guards number = true) :
    a.perform ceiling (.finish number kept) = (a, false) :=
  if_neg free

/-! ## What an account keeps -/

/-- The guards are as their fates say, and each live or committed one counts for one unit. -/
structure Balanced (ceiling : Nat) (a : Account) (fates : List Fate) : Prop where
  guards : a.guards = fates.map Fate.guard
  count : a.count = fates.count .live + fates.count .committed
  bounded : a.count ≤ ceiling

section Balanced

variable (balanced : Balanced ceiling a fates)
include balanced

theorem Balanced.isHeld_iff :
    Ledger.isHeld a.guards number = true ↔ fates[number]? = some .live := by
  rw [Ledger.isHeld, balanced.guards, getElem?_map, beq_iff_eq]
  rcases fates[number]? with _ | fate
  · simp
  · cases fate <;> simp [Fate.guard]

/-- While a guard is live the count is positive, so taking one from it is never cut off at zero. -/
theorem Balanced.count_pos (live : fates[number]? = some .live) : 0 < a.count := by
  have some : 0 < fates.count .live := count_pos_iff.mpr (mem_of_getElem? live)
  rw [balanced.count]
  omega

theorem Balanced.ask :
    Balanced ceiling (a.perform ceiling .ask).1
      (Fate.record fates (.ask, (a.perform ceiling .ask).2)) := by
  obtain ⟨guards, count, bounded⟩ := balanced
  by_cases room : a.count < ceiling
  · rw [perform_ask_of_lt room]
    refine ⟨by simp [Fate.record, guards, Fate.guard], ?_, room⟩
    simp [Fate.record, count_append, count]
    omega
  · rw [perform_ask_of_not_lt room]
    refine ⟨by simp [Fate.record, guards, Fate.guard], ?_, bounded⟩
    simp [Fate.record, count_append, count]

theorem Balanced.finish (number : Nat) (kept : Bool) :
    Balanced ceiling (a.perform ceiling (.finish number kept)).1
      (Fate.record fates (.finish number kept, (a.perform ceiling (.finish number kept)).2)) := by
  by_cases live : fates[number]? = some .live
  · obtain ⟨inside, here⟩ := List.getElem?_eq_some_iff.mp live
    have positive : 0 < fates.count .live := count_pos_iff.mpr (mem_of_getElem? live)
    have bounded := balanced.bounded
    have count := balanced.count
    rw [perform_finish_of_held (balanced.isHeld_iff.mpr live), Fate.record, if_pos live]
    refine ⟨?_, ?_, ?_⟩
    · cases kept <;> simp [balanced.guards, map_set, Fate.guard, Fate.finished]
    · rw [count_set inside, count_set inside, here]
      cases kept <;> simp [Fate.finished] <;> omega
    · cases kept <;> simp <;> omega
  · rw [perform_finish_of_not_held (balanced.isHeld_iff.not.mpr live), Fate.record, if_neg live]
    exact balanced

/-- One action keeps the account balanced, whatever it is. -/
theorem Balanced.perform (action : Action) :
    Balanced ceiling (a.perform ceiling action).1
      (Fate.record fates (action, (a.perform ceiling action).2)) := by
  cases action with
  | ask => exact balanced.ask
  | finish number kept => exact balanced.finish number kept

theorem Balanced.run (actions : List Action) :
    Balanced ceiling (a.run ceiling actions)
      ((a.trace ceiling actions).foldl Fate.record fates) := by
  induction actions generalizing a fates with
  | nil => exact balanced
  | cons action actions ih => exact ih (balanced.perform action)

end Balanced

/-- After any run the count is the number of live and committed guards and not above the ceiling. -/
theorem balanced_run (ceiling : Nat) (actions : List Action) :
    Balanced ceiling (run ceiling {} actions) (Fate.ofTrace (trace ceiling {} actions)) :=
  Balanced.run ⟨rfl, rfl, Nat.zero_le _⟩ actions

theorem Balanced.refused_iff (balanced : Balanced ceiling a fates) :
    (a.perform ceiling .ask).2 = false ↔ a.count = ceiling := by
  have bounded := balanced.bounded
  by_cases room : a.count < ceiling
  · rw [perform_ask_of_lt room]
    simp only [Bool.true_eq_false, false_iff]
    omega
  · rw [perform_ask_of_not_lt room]
    simp only [true_iff]
    omega

theorem committed_notMem_foldl {trace : List (Action × Bool)}
    (unkept : ∀ entry ∈ trace, ∀ number, entry.1 ≠ .finish number true)
    (before : Fate.committed ∉ fates) : Fate.committed ∉ trace.foldl Fate.record fates := by
  induction trace generalizing fates with
  | nil => exact before
  | cons entry rest ih =>
    obtain ⟨first, later⟩ := forall_mem_cons.mp unkept
    refine ih later ?_
    obtain ⟨action, granted⟩ := entry
    cases action with
    | ask => cases granted <;> simpa [Fate.record] using before
    | finish number kept =>
      have given : kept = false := by simpa using first number
      rw [Fate.record, given]
      split_ifs
      · intro member
        rcases mem_or_eq_of_mem_set member with inside | same
        · exact before inside
        · cases same
      · exact before

/-! ## Guards that have ended -/

theorem ended_perform (ended : a.guards[number]? = some .ended) (action : Action) :
    (a.perform ceiling action).1.guards[number]? = some .ended := by
  have inside := (List.getElem?_eq_some_iff.mp ended).1
  cases action with
  | ask =>
    by_cases room : a.count < ceiling
    · rwa [perform_ask_of_lt room, getElem?_append_left inside]
    · rwa [perform_ask_of_not_lt room, getElem?_append_left inside]
  | finish other kept =>
    by_cases held : Ledger.isHeld a.guards other = true
    · rw [perform_finish_of_held held, getElem?_set]
      split_ifs with same
      · rfl
      · omega
      · exact ended
    · rwa [perform_finish_of_not_held held]

/-- A guard that has ended stays ended. -/
theorem ended_run (ended : a.guards[number]? = some .ended) (actions : List Action) :
    (a.run ceiling actions).guards[number]? = some .ended := by
  induction actions generalizing a with
  | nil => exact ended
  | cons action actions ih => exact ih (ended_perform ended action)

theorem ended_of_finish (done : (a.perform ceiling (.finish number kept)).2 = true) :
    (a.perform ceiling (.finish number kept)).1.guards[number]? = some .ended := by
  by_cases held : Ledger.isHeld a.guards number = true
  · obtain ⟨inside, _⟩ := List.getElem?_eq_some_iff.mp (beq_iff_eq.mp held)
    rw [perform_finish_of_held held, getElem?_set_self inside]
  · rw [perform_finish_of_not_held held] at done
    cases done

end Account

/-! ## The two accounts of a ledger -/

namespace Ledger

open Account (Action perform_finish_of_held)

/-- What can be asked of a ledger. -/
inductive Request where
  | reserve
  | commit (number : Nat)
  | release (number : Nat)
  | openFile
  | closeFile (number : Nat)
  deriving Repr, DecidableEq

/-- The ledger after a request, and whether it was granted. -/
def perform (l : Ledger) : Request → Ledger × Bool
  | .reserve => l.reserve
  | .commit number => l.commit number
  | .release number => l.release number
  | .openFile => l.openFile
  | .closeFile number => l.closeFile number

/-- The ledger after a number of requests, one after the other. -/
def run (l : Ledger) (requests : List Request) : Ledger :=
  requests.foldl (fun l request => (l.perform request).1) l

/-- The requests with the answers to them. -/
def trace (l : Ledger) : List Request → List (Request × Bool)
  | [] => []
  | request :: requests =>
    (request, (l.perform request).2) :: trace (l.perform request).1 requests

/-- What is counted. -/
inductive Kind where
  | modules
  | files
  deriving Repr, DecidableEq

def account (l : Ledger) : Kind → Account
  | .modules => ⟨l.limiter.modules, l.modules⟩
  | .files => ⟨l.limiter.files, l.files⟩

def ceiling (l : Ledger) : Kind → Nat
  | .modules => l.limiter.limits.maxCachedModules
  | .files => l.limiter.limits.maxFileHandles

/-- What a request does with units of one kind, if anything. -/
def Request.action? : Kind → Request → Option Action
  | .modules, .reserve => some .ask
  | .modules, .commit number => some (.finish number true)
  | .modules, .release number => some (.finish number false)
  | .files, .openFile => some .ask
  | .files, .closeFile number => some (.finish number false)
  | _, _ => none

/-- What the requests were to units of one kind, with the answers. -/
def entries (kind : Kind) (trace : List (Request × Bool)) : List (Action × Bool) :=
  trace.filterMap fun entry => (entry.1.action? kind).map fun action => (action, entry.2)

/-- What has become of the guards of one kind. -/
def fates (kind : Kind) (trace : List (Request × Bool)) : List Fate :=
  Fate.ofTrace (entries kind trace)

variable {kind : Kind} {l : Ledger} {request : Request}

theorem perform_spec (l : Ledger) (request : Request) (kind : Kind) :
    (l.perform request).1.ceiling kind = l.ceiling kind ∧
    (∀ action, request.action? kind = some action →
      ((l.perform request).1.account kind, (l.perform request).2) =
        (l.account kind).perform (l.ceiling kind) action) ∧
    (request.action? kind = none → (l.perform request).1.account kind = l.account kind) := by
  cases request with
  | reserve =>
    by_cases room : l.limiter.modules < l.limiter.limits.maxCachedModules <;> cases kind <;>
      simp [perform, reserve, Limiter.reserveModule?, Limiter.acquire?, ceiling, account,
        Request.action?, Account.perform, room]
  | openFile =>
    by_cases room : l.limiter.files < l.limiter.limits.maxFileHandles <;> cases kind <;>
      simp [perform, openFile, Limiter.openFile?, Limiter.acquire?, ceiling, account,
        Request.action?, Account.perform, room]
  | commit number =>
    by_cases held : isHeld l.modules number <;> cases kind <;>
      simp [perform, commit, ceiling, account, Request.action?, Account.perform, held]
  | release number =>
    by_cases held : isHeld l.modules number <;> cases kind <;>
      simp [perform, release, Limiter.releaseModule, ceiling, account, Request.action?,
        Account.perform, held]
  | closeFile number =>
    by_cases held : isHeld l.files number <;> cases kind <;>
      simp [perform, closeFile, Limiter.closeFile, ceiling, account, Request.action?,
        Account.perform, held]

/-- A request about units of one kind is an action on their account. -/
theorem account_perform {action : Action} (acts : request.action? kind = some action) :
    (l.perform request).1.account kind = ((l.account kind).perform (l.ceiling kind) action).1 ∧
      (l.perform request).2 = ((l.account kind).perform (l.ceiling kind) action).2 :=
  Prod.mk.inj ((perform_spec l request kind).2.1 action acts)

theorem ceiling_run (l : Ledger) (requests : List Request) (kind : Kind) :
    (l.run requests).ceiling kind = l.ceiling kind := by
  induction requests generalizing l with
  | nil => rfl
  | cons request requests ih => exact (ih _).trans (perform_spec l request kind).1

/-- An account sees the actions on it and nothing else. -/
theorem account_run (kind : Kind) (l : Ledger) (requests : List Request) :
    (l.run requests).account kind =
        (l.account kind).run (l.ceiling kind) (requests.filterMap (Request.action? kind)) ∧
      entries kind (l.trace requests) =
        (l.account kind).trace (l.ceiling kind) (requests.filterMap (Request.action? kind)) := by
  induction requests generalizing l with
  | nil => exact ⟨rfl, rfl⟩
  | cons request requests ih =>
    obtain ⟨account, entries_eq⟩ := ih (l.perform request).1
    obtain ⟨ceilings, _, alone⟩ := perform_spec l request kind
    rw [ceilings] at account entries_eq
    cases acts : request.action? kind with
    | none =>
      rw [alone acts] at account entries_eq
      rw [filterMap_cons_none acts]
      refine ⟨account, ?_⟩
      rw [← entries_eq]
      simp [trace, entries, acts]
    | some action =>
      obtain ⟨moved, answered⟩ := account_perform (l := l) acts
      rw [moved] at account entries_eq
      rw [filterMap_cons_some acts]
      refine ⟨account, ?_⟩
      rw [Account.trace, ← entries_eq, ← answered]
      simp [trace, entries, acts]

/-- One account of a ledger is balanced. -/
def Balances (kind : Kind) (l : Ledger) (fates : List Fate) : Prop :=
  (l.account kind).Balanced (l.ceiling kind) fates

theorem balances_run (kind : Kind) (limits : Limits) (requests : List Request) :
    let start : Ledger := { limiter := .ofLimits limits }
    (start.run requests).Balances kind (fates kind (start.trace requests)) := by
  intro start
  have empty : start.account kind = {} := by cases kind <;> rfl
  obtain ⟨account, entries⟩ := account_run kind start requests
  rw [Balances, fates, account, entries, ceiling_run, empty]
  exact Account.balanced_run ..

theorem committed_notMem_fates (trace : List (Request × Bool)) :
    Fate.committed ∉ fates .files trace := by
  refine Account.committed_notMem_foldl ?_ not_mem_nil
  intro entry member number
  obtain ⟨⟨request, answer⟩, _, same⟩ := mem_filterMap.mp member
  cases request <;> cases same <;> simp

/-- Finishing a guard that is not held does nothing. -/
theorem perform_of_not_held {number : Nat} {kept : Bool}
    (finishes : request.action? kind = some (.finish number kept))
    (free : ¬ isHeld (l.account kind).guards number = true) : l.perform request = (l, false) := by
  cases kind <;> cases request <;> cases finishes <;> exact if_neg free

theorem Balances.finish {fates : List Fate} {number : Nat} {kept : Bool}
    (balances : l.Balances kind fates) (request : Request)
    (finishes : request.action? kind = some (.finish number kept))
    (live : fates[number]? = some .live) :
    (l.perform request).2 = true ∧
      ((l.perform request).1.account kind).count + (if kept then 0 else 1) =
        (l.account kind).count := by
  obtain ⟨moved, answered⟩ := account_perform (l := l) finishes
  have positive := Account.Balanced.count_pos balances live
  rw [moved, answered, perform_finish_of_held (Account.Balanced.isHeld_iff balances |>.mpr live)]
  refine ⟨rfl, ?_⟩
  cases kept
  · exact Nat.sub_add_cancel positive
  · rfl

theorem Balances.finish_of_not_live {fates : List Fate} {number : Nat} {kept : Bool}
    (balances : l.Balances kind fates) (request : Request)
    (finishes : request.action? kind = some (.finish number kept))
    (ended : fates[number]? ≠ some .live) : l.perform request = (l, false) :=
  perform_of_not_held finishes (Account.Balanced.isHeld_iff balances |>.not.mpr ended)

theorem Balances.refused_iff {fates : List Fate} (balances : l.Balances kind fates)
    (request : Request) (asks : request.action? kind = some .ask) :
    (l.perform request).2 = false ↔ (l.account kind).count = l.ceiling kind := by
  rw [(account_perform asks).2]
  exact Account.Balanced.refused_iff balances

theorem perform_of_finished {number : Nat} {first second : Request} {kept kept' : Bool}
    (finishes : first.action? kind = some (.finish number kept))
    (again : second.action? kind = some (.finish number kept'))
    (done : (l.perform first).2 = true) (later : List Request) :
    ((l.perform first).1.run later).perform second = ((l.perform first).1.run later, false) := by
  obtain ⟨moved, answered⟩ := account_perform (l := l) finishes
  rw [answered] at done
  have ended : (((l.perform first).1.run later).account kind).guards[number]? = some .ended := by
    rw [(account_run kind _ later).1, moved]
    exact Account.ended_run (Account.ended_of_finish done) _
  apply perform_of_not_held again
  rw [isHeld, ended]
  decide

/-- **Guards are exact.** Whatever is asked of a ledger that starts with a fresh limiter, the number
of modules is that of the live reservations and the committed ones, and the number of files that of
the live handles. Neither exceeds its ceiling, and a request is refused exactly if the ceiling is
reached. Releasing a live reservation or closing a live handle gives back exactly one unit, and
committing a reservation none; to guards that are not live nothing can be done. A guard is finished
only once: whatever happens later, no request about it does anything. -/
theorem guards_exact (limits : Limits) (requests : List Request) :
    let start : Ledger := { limiter := .ofLimits limits }
    let l := start.run requests
    let reservations := fates .modules (start.trace requests)
    let handles := fates .files (start.trace requests)
    (l.limiter.modules = reservations.count .live + reservations.count .committed ∧
      l.limiter.modules ≤ limits.maxCachedModules ∧
      (l.reserve.2 = false ↔ l.limiter.modules = limits.maxCachedModules)) ∧
    (l.limiter.files = handles.count .live ∧ l.limiter.files ≤ limits.maxFileHandles ∧
      (l.openFile.2 = false ↔ l.limiter.files = limits.maxFileHandles)) ∧
    (∀ number,
      (reservations[number]? = some .live →
        ((l.commit number).2 = true ∧
          (l.commit number).1.limiter.modules = l.limiter.modules) ∧
        (l.release number).2 = true ∧
          (l.release number).1.limiter.modules + 1 = l.limiter.modules) ∧
      (reservations[number]? ≠ some .live →
        l.commit number = (l, false) ∧ l.release number = (l, false))) ∧
    (∀ number,
      (handles[number]? = some .live →
        (l.closeFile number).2 = true ∧
          (l.closeFile number).1.limiter.files + 1 = l.limiter.files) ∧
      (handles[number]? ≠ some .live → l.closeFile number = (l, false))) ∧
    (∀ number later, ∀ first ∈ [Request.commit number, .release number],
      ∀ second ∈ [Request.commit number, .release number], (l.perform first).2 = true →
        let l' := (l.perform first).1.run later
        l'.perform second = (l', false)) ∧
    ∀ number later, (l.closeFile number).2 = true →
      let l' := (l.closeFile number).1.run later
      l'.closeFile number = (l', false) := by
  intro start l reservations handles
  have modules : l.Balances .modules reservations := balances_run ..
  have files : l.Balances .files handles := balances_run ..
  have ceiling (kind : Kind) : l.ceiling kind = start.ceiling kind := ceiling_run ..
  refine ⟨⟨modules.count, ?_, ?_⟩, ⟨?_, ?_, ?_⟩, ?_, ?_, ?_, ?_⟩
  · exact Nat.le_trans modules.bounded (Nat.le_of_eq (ceiling .modules))
  · rw [← show start.ceiling .modules = limits.maxCachedModules from rfl, ← ceiling]
    exact modules.refused_iff .reserve rfl
  · have none : handles.count .committed = 0 :=
      count_eq_zero.mpr (committed_notMem_fates _)
    exact files.count.trans (by rw [none, Nat.add_zero])
  · exact Nat.le_trans files.bounded (Nat.le_of_eq (ceiling .files))
  · rw [← show start.ceiling .files = limits.maxFileHandles from rfl, ← ceiling]
    exact files.refused_iff .openFile rfl
  · intro number
    refine ⟨fun live => ⟨?_, ?_⟩, fun ended => ⟨?_, ?_⟩⟩
    · exact modules.finish (.commit number) rfl live
    · exact modules.finish (.release number) rfl live
    · exact modules.finish_of_not_live (.commit number) rfl ended
    · exact modules.finish_of_not_live (.release number) rfl ended
  · intro number
    refine ⟨fun live => ?_, fun ended => ?_⟩
    · exact files.finish (.closeFile number) rfl live
    · exact files.finish_of_not_live (.closeFile number) rfl ended
  · intro number later first firstEnds second secondEnds done
    have finishes : ∀ request ∈ [Request.commit number, .release number],
        ∃ kept, request.action? .modules = some (.finish number kept) := by
      simp [Request.action?]
    obtain ⟨_, firstEnds⟩ := finishes first firstEnds
    obtain ⟨_, secondEnds⟩ := finishes second secondEnds
    exact perform_of_finished firstEnds secondEnds done later
  · intro number later done
    have finishes : (Request.closeFile number).action? .files = some (.finish number false) := rfl
    exact perform_of_finished finishes finishes done later

example :
    let start : Ledger := { limiter := .ofLimits { maxCachedModules := 2 } }
    let requests : List Request :=
      [.reserve, .reserve, .reserve, .commit 0, .release 1, .release 0, .release 1, .reserve]
    fates .modules (start.trace requests) = [.committed, .released, .refused, .live] ∧
      (start.run requests).limiter.modules = 2 := by
  decide

end Ledger

end Tarkib
