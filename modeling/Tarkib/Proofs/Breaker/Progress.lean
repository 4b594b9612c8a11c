import Tarkib.Proofs.Breaker.Keyed
import Tarkib.Proofs.Breaker.Traffic

/-!
# No breaker is stuck

A half-open breaker refuses calls as long as its flag says that a trial is under way. If the flag
could outlive the trial, the breaker would refuse calls for good. It cannot: the flag is set only
while a trial is under way, and an open breaker knows since when it is open (`Lively`).

This is shown for breakers by key as they are used: calls with any keys start, end and are abandoned
in any order, time passes, states are looked at, and all breakers may be dropped while calls are
under way.
-/

namespace Tarkib.Breakers

open List

open Breaker (Settings request_cases hasRecovered_iff)

/-! ## One breaker -/

/-- A breaker with a serial number, among calls under way: while its flag is set, it is half-open
and a call that it let through on trial is under way. When it is open, it knows since when. -/
structure Lively (serial : Nat) (pending : List Ticket) (b : Breaker) : Prop where
  trial : b.onTrial = true →
    b.state = .halfOpen ∧ ∃ t ∈ pending, t.serial = serial ∧ t.trial = true
  since : b.state = .opened → b.openedAt ≠ none

/-- The call that goes through, if one does. -/
def admitted (key : String) (serial : Nat) : Breaker.Admission → List Ticket
  | .normal => [⟨key, serial, false⟩]
  | .trial => [⟨key, serial, true⟩]
  | .refused _ => []

namespace Lively

variable {s : Settings} {serial now : Nat} {pending pending' : List Ticket} {b : Breaker}

theorem new : Lively serial pending {} := by
  constructor <;> intro impossible <;> cases impossible

theorem mono (lively : Lively serial pending b)
    (kept : ∀ t ∈ pending, t.serial = serial → t.trial = true → t ∈ pending') :
    Lively serial pending' b := by
  refine ⟨fun set => ?_, lively.since⟩
  obtain ⟨halfOpen, t, member, mine, trial⟩ := lively.trial set
  exact ⟨halfOpen, t, kept t member mine trial, mine, trial⟩

theorem refresh (lively : Lively serial pending b) : Lively serial pending (b.refresh s now) := by
  unfold Breaker.refresh
  split
  · constructor <;> intro impossible <;> cases impossible
  · exact lively

/-- Asking keeps a breaker lively: a call that goes through on trial is under way. -/
theorem request (lively : Lively serial pending b) (key : String) :
    Lively serial (pending ++ admitted key serial (b.request s now).2) (b.request s now).1 := by
  have same := lively.mono fun t member _ _ =>
    mem_append_left (admitted key serial (b.request s now).2) member
  rcases request_cases s b now with ⟨_, asked⟩ | ⟨_, asked⟩ | ⟨_, asked⟩
  · rw [asked] at same ⊢
    exact same
  · rw [asked]
    refine ⟨fun _ => ⟨rfl, ⟨key, serial, true⟩, ?_, rfl, rfl⟩, by simp⟩
    exact mem_append_right _ mem_cons_self
  · rw [asked] at same ⊢
    exact same

theorem succeed : Lively serial pending b.succeed := by
  constructor <;> intro impossible <;> cases impossible

theorem fail (lively : Lively serial pending b) (trial : Bool) :
    Lively serial pending' (b.fail s trial now) := by
  unfold Breaker.fail
  dsimp only
  split
  · exact ⟨by simp, by simp⟩
  · exact ⟨by simp, lively.since⟩

theorem abandon (lively : Lively serial pending b) {t : Ticket}
    (kept : ∀ u ∈ pending, u ≠ t → u ∈ pending') : Lively serial pending' (b.abandon t.trial) := by
  unfold Breaker.abandon
  split
  · exact ⟨by simp, lively.since⟩
  · next normal =>
      refine lively.mono fun u member _ trial => kept u member ?_
      rintro rfl
      exact normal trial

/-- Once no call is left and the recovery time is over, the next call goes through. -/
theorem not_refuses (lively : Lively serial pending b) (idle : ∀ t ∈ pending, t.serial ≠ serial)
    (waited : ∀ opened, b.openedAt = some opened → s.recoveryMs ≤ now - opened) :
    ¬ b.Refuses s now := by
  rintro ⟨retryInMs, refused⟩
  rcases request_cases s b now with ⟨_, asked⟩ | ⟨_, asked⟩ | ⟨busy, _⟩
  · rw [asked] at refused
    cases refused
  · rw [asked] at refused
    cases refused
  · rcases busy with ⟨_, set⟩ | ⟨opened, waiting⟩
    · obtain ⟨_, t, member, mine, _⟩ := lively.trial set
      exact idle t member mine
    · obtain ⟨t, openedAt⟩ := Option.ne_none_iff_exists'.mp (lively.since opened)
      have recovered := hasRecovered_iff.mpr ⟨t, openedAt, waited t openedAt⟩
      rw [waiting] at recovered
      cases recovered

end Lively

/-! ## Many breakers -/

/-- Breakers by key, the time, and the calls under way. -/
structure Traffic where
  breakers : Breakers
  now : Nat
  pending : List Ticket := []

/-- What can happen to breakers. -/
inductive Event where
  /-- A call asks the breaker with the key. -/
  | start (key : String)
  /-- A call under way, given by its index, is completed. -/
  | finish (index : Nat) (success : Bool)
  /-- A call under way is abandoned. -/
  | abandon (index : Nat)
  /-- Time passes. -/
  | wait (ms : Nat)
  /-- Someone asks for the state of the breaker with the key. -/
  | look (key : String)
  /-- Someone asks for the states of all breakers. -/
  | lookAtAll
  /-- All breakers are dropped. The calls under way go on. -/
  | clear

theorem Sound.refresh {bs : Breakers} (sound : bs.Sound) (now : Nat) : (bs.refresh now).Sound := by
  refine ⟨pairwise_map.mpr sound.keys, pairwise_map.mpr sound.serials, ?_⟩
  intro e member
  obtain ⟨old, present, rfl⟩ := mem_map.mp member
  exact sound.issued old present

namespace Traffic

/-- One event. Nothing happens to calls that are not there. -/
def step (tr : Traffic) : Event → Traffic
  | .start key =>
    match tr.breakers.request key tr.now with
    | (bs, .ok ticket) => { tr with breakers := bs, pending := tr.pending ++ [ticket] }
    | (bs, .error _) => { tr with breakers := bs }
  | .finish index success =>
    match tr.pending[index]? with
    | none => tr
    | some ticket =>
      { tr with
        breakers := tr.breakers.complete ticket success tr.now
        pending := tr.pending.eraseIdx index }
  | .abandon index =>
    match tr.pending[index]? with
    | none => tr
    | some ticket =>
      { tr with breakers := tr.breakers.abandon ticket, pending := tr.pending.eraseIdx index }
  | .wait ms => { tr with now := tr.now + ms }
  | .look key =>
    match tr.breakers.find? key with
    | none => tr
    | some e =>
      { tr with
        breakers := tr.breakers.modify e.serial fun b => b.refresh tr.breakers.settings tr.now }
  | .lookAtAll => { tr with breakers := tr.breakers.refresh tr.now }
  | .clear => { tr with breakers := tr.breakers.clear }

/-- All events of breakers that are new at the given time. -/
def run (s : Settings) (time : Nat) (events : List Event) : Traffic :=
  events.foldl step { breakers := { settings := s }, now := time }

/-- All breakers are lively, and keys and serial numbers tell them apart. -/
structure Tracked (s : Settings) (tr : Traffic) : Prop where
  settings : tr.breakers.settings = s
  sound : tr.breakers.Sound
  lively : ∀ e ∈ tr.breakers.entries, Lively e.serial tr.pending e.breaker

section Events

variable {s : Settings} {tr : Traffic} (tracked : Tracked s tr)
include tracked

theorem Tracked.modify (serial : Nat) (f : Breaker → Breaker) {pending : List Ticket}
    (others : ∀ t ∈ tr.pending, t.serial ≠ serial → t ∈ pending)
    (here : ∀ e ∈ tr.breakers.entries, e.serial = serial → Lively serial pending (f e.breaker)) :
    Tracked s { tr with breakers := tr.breakers.modify serial f, pending } := by
  refine ⟨tracked.settings, tracked.sound.modify serial f, fun e' member => ?_⟩
  obtain ⟨e, old, rfl⟩ := mem_map.mp member
  by_cases mine : e.serial = serial
  · rw [if_pos mine]
    exact mine ▸ here e old mine
  · rw [if_neg mine]
    refine (tracked.lively e old).mono fun t under own _ => others t under ?_
    rwa [own]

/-- A call that ends tells the breaker that let it through, by its serial number. -/
theorem Tracked.erase {index : Nat} {t : Ticket} (there : tr.pending[index]? = some t)
    (f : Breaker → Breaker)
    (here : ∀ b, Lively t.serial tr.pending b →
      (∀ u ∈ tr.pending, u ≠ t → u ∈ tr.pending.eraseIdx index) →
        Lively t.serial (tr.pending.eraseIdx index) (f b)) :
    Tracked s
      { tr with
        breakers := tr.breakers.modify t.serial f
        pending := tr.pending.eraseIdx index } := by
  have kept : ∀ u ∈ tr.pending, u ≠ t → u ∈ tr.pending.eraseIdx index := by
    intro u member other
    obtain ⟨bound, rfl⟩ := List.getElem?_eq_some_iff.mp there
    have split := (getElem_cons_eraseIdx_perm bound).mem_iff.mpr member
    exact (mem_cons.mp split).resolve_left other
  refine tracked.modify t.serial f ?_ fun e member mine => ?_
  · intro u member other
    refine kept u member ?_
    rintro rfl
    exact other rfl
  · exact here e.breaker (mine ▸ tracked.lively e member) kept

theorem Tracked.ensure (key : String) :
    Tracked s { tr with breakers := tr.breakers.ensure key } := by
  refine ⟨(settings_ensure _ key).trans tracked.settings, tracked.sound.ensure key, ?_⟩
  intro e member
  unfold Breakers.ensure at member
  split at member
  · exact tracked.lively e member
  · rcases mem_cons.mp ((insertEntry_perm _ _).mem_iff.mp member) with rfl | old
    · exact .new
    · exact tracked.lively e old

theorem Tracked.start (key : String) : Tracked s (tr.step (.start key)) := by
  obtain ⟨e, found⟩ := exists_find?_ensure tr.breakers key
  have lively := (tracked.ensure key).lively e (mem_of_find?_eq_some found)
  have next : tr.step (.start key) =
      { tr with
        breakers := (tr.breakers.ensure key).modify e.serial
          fun _ => (e.breaker.request s tr.now).1
        pending := tr.pending ++ admitted key e.serial (e.breaker.request s tr.now).2 } := by
    simp only [Traffic.step, Breakers.request, found, settings_ensure, tracked.settings]
    rcases e.breaker.request s tr.now with ⟨b, admission⟩
    cases admission <;> simp [admitted]
  rw [next]
  refine (tracked.ensure key).modify e.serial _ ?_ fun _ _ _ => lively.request key
  exact fun t member _ => mem_append_left _ member

/-- Every event keeps all breakers lively. -/
theorem Tracked.step (event : Event) : Tracked s (tr.step event) := by
  cases event with
  | start key => exact tracked.start key
  | finish index success =>
    simp only [Traffic.step]
    cases there : tr.pending[index]? with
    | none => exact tracked
    | some t =>
      refine tracked.erase there _ fun b lively kept => ?_
      cases success with
      | true => exact .succeed
      | false => exact lively.fail t.trial
  | abandon index =>
    simp only [Traffic.step]
    cases there : tr.pending[index]? with
    | none => exact tracked
    | some t => exact tracked.erase there _ fun b lively kept => lively.abandon kept
  | wait ms => exact ⟨tracked.settings, tracked.sound, tracked.lively⟩
  | look key =>
    simp only [Traffic.step]
    cases tr.breakers.find? key with
    | none => exact tracked
    | some e =>
      refine tracked.modify e.serial _ (fun t member _ => member) fun e' member mine => ?_
      exact (mine ▸ tracked.lively e' member).refresh
  | lookAtAll =>
    refine ⟨tracked.settings, tracked.sound.refresh tr.now, fun e' member => ?_⟩
    obtain ⟨e, old, rfl⟩ := mem_map.mp member
    exact (tracked.lively e old).refresh
  | clear =>
    refine ⟨tracked.settings, sound_of_no_entries rfl, fun e member => ?_⟩
    exact absurd member not_mem_nil

end Events

/-- All breakers stay lively over any run. -/
theorem tracked_run (s : Settings) (time : Nat) (events : List Event) :
    Tracked s (run s time events) := by
  suffices preserved : ∀ tr, Tracked s tr → Tracked s (events.foldl Traffic.step tr) from
    preserved _ ⟨rfl, sound_of_no_entries rfl, by simp⟩
  induction events with
  | nil => exact fun tr tracked => tracked
  | cons event events ih => exact fun tr tracked => ih _ (tracked.step event)

theorem ok_of_not_refuses {bs : Breakers} (sound : bs.Sound) {key : String} {now : Nat}
    (admits : ¬ bs.RefusesAt key now) : ∃ ticket, (bs.request key now).2 = .ok ticket := by
  obtain ⟨serial, answered, _⟩ := request_spec sound key now
  rw [answered]
  cases admission : ((bs.breakerAt key).request bs.settings now).2 with
  | normal | trial => exact ⟨_, rfl⟩
  | refused retryInMs => exact absurd ⟨retryInMs, admission⟩ admits

/-- **No breaker is stuck half-open.** After any events: a breaker whose flag is set is half-open,
and a call that it let through on trial is neither completed nor abandoned. And whenever no call is
under way through the breaker that a key has now, and that breaker has waited for its recovery time
since it opened, the next call with the key goes through. -/
theorem never_stuck (s : Settings) (time : Nat) (events : List Event) :
    let tr := run s time events
    (∀ e ∈ tr.breakers.entries, e.breaker.onTrial = true →
      e.breaker.state = .halfOpen ∧ ∃ t ∈ tr.pending, t.serial = e.serial ∧ t.trial = true) ∧
    ∀ key, (∀ t ∈ tr.pending, ¬ tr.breakers.Current key t.serial) →
      (∀ opened, (tr.breakers.breakerAt key).openedAt = some opened →
        s.recoveryMs ≤ tr.now - opened) →
      ∃ ticket, (tr.breakers.request key tr.now).2 = .ok ticket := by
  intro tr
  have tracked : Tracked s tr := tracked_run s time events
  refine ⟨fun e member => (tracked.lively e member).trial, ?_⟩
  intro key idle waited
  apply ok_of_not_refuses tracked.sound
  unfold RefusesAt
  rw [tracked.settings]
  cases found : tr.breakers.find? key with
  | none =>
    have new : tr.breakers.breakerAt key = {} := by simp [breakerAt, found]
    rw [new]
    exact Breaker.not_refuses_of_closed rfl
  | some e =>
    have here : tr.breakers.breakerAt key = e.breaker := by simp [breakerAt, found]
    rw [here] at waited ⊢
    refine (tracked.lively e (mem_of_find?_eq_some found)).not_refuses ?_ waited
    exact fun t member same => idle t member ⟨e, found, same.symm⟩

/-- A breaker opens, waits, and lets a call through on trial, which is abandoned. No call is under
way then, and the next one goes through. -/
theorem never_stuck_abandoned_trial :
    let s : Settings := ⟨1, 10⟩
    let past : List Event := [.start "a", .finish 0 false, .wait 10, .start "a"]
    let tr := run s 0 (past ++ [.abandon 0])
    (∃ t ∈ (run s 0 past).pending, t.trial = true) ∧ tr.pending = [] ∧
      (tr.breakers.breakerAt "a").state = .halfOpen ∧
      ∃ ticket, (tr.breakers.request "a" tr.now).2 = .ok ticket := by
  intro s past tr
  have idle : tr.pending = [] := by decide
  have since : (tr.breakers.breakerAt "a").openedAt = some 0 := by decide
  refine ⟨?_, idle, by decide, ?_⟩
  · have flagged : ∃ e ∈ (run s 0 past).breakers.entries, e.breaker.onTrial = true := by decide
    obtain ⟨e, member, set⟩ := flagged
    obtain ⟨_, t, under, _, trial⟩ := (never_stuck s 0 past).1 e member set
    exact ⟨t, under, trial⟩
  · have nobody : ∀ t ∈ tr.pending, ¬ tr.breakers.Current "a" t.serial := by
      rw [idle]
      exact fun t member => absurd member not_mem_nil
    have waited : ∀ opened, (tr.breakers.breakerAt "a").openedAt = some opened →
        s.recoveryMs ≤ tr.now - opened := by
      rw [since]
      rintro opened ⟨⟩
      decide
    have goes := (never_stuck s 0 (past ++ [.abandon 0])).2 "a"
    exact goes nobody waited

end Traffic

end Tarkib.Breakers
