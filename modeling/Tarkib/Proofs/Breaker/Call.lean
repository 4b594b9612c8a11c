import Tarkib.Breaker

/-!
# Calls through a breaker

A call asks the breaker, and a call that was let through tells it how it ended. What the answer
depends on and what it changes is said once, for all states; everything else is read off from there.
When a call is over before the next one begins, asking and telling are one step (`call`).
-/

namespace Tarkib

namespace Breaker

/-- A call that is over before the next one begins: the breaker is asked, and if it lets the call
through, it is told the outcome. -/
def call (s : Settings) (b : Breaker) (success : Bool) (now : Nat) : Breaker × Admission :=
  match b.request s now with
  | (b, .refused retryInMs) => (b, .refused retryInMs)
  | (b, .normal) => (if success then b.succeed else b.fail s false now, .normal)
  | (b, .trial) => (if success then b.succeed else b.fail s true now, .trial)

/-- All that asking can do: the call goes through, or goes through on trial, or is refused. -/
theorem request_cases (s : Settings) (b : Breaker) (now : Nat) :
    (b.state = .closed ∧ b.request s now = (b, .normal)) ∨
    ((b.state = .halfOpen ∧ b.onTrial = false ∨ b.state = .opened ∧ b.hasRecovered s now = true) ∧
      b.request s now = ({ b with state := .halfOpen, onTrial := true }, .trial)) ∨
    ((b.state = .halfOpen ∧ b.onTrial = true ∨ b.state = .opened ∧ b.hasRecovered s now = false) ∧
      b.request s now = (b, .refused (b.retryIn s now))) := by
  cases state : b.state with
  | closed =>
    have fresh : b.refresh s now = b := by simp [refresh, state]
    exact .inl ⟨rfl, by simp [request, fresh, state]⟩
  | opened =>
    cases recovered : b.hasRecovered s now with
    | true =>
      have fresh : b.refresh s now = { b with state := .halfOpen, onTrial := false } := by
        simp [refresh, state, recovered]
      exact .inr (.inl ⟨.inr ⟨rfl, rfl⟩, by simp [request, fresh]⟩)
    | false =>
      have fresh : b.refresh s now = b := by simp [refresh, recovered]
      exact .inr (.inr ⟨.inr ⟨rfl, rfl⟩, by simp [request, fresh, state]⟩)
  | halfOpen =>
    have fresh : b.refresh s now = b := by simp [refresh, state]
    cases trial : b.onTrial with
    | true => exact .inr (.inr ⟨.inl ⟨rfl, rfl⟩, by simp [request, fresh, state, trial]⟩)
    | false =>
      refine .inr (.inl ⟨.inl ⟨rfl, rfl⟩, ?_⟩)
      simp only [request, fresh, state, trial]
      rfl

/-- The breaker lets no call through at this time. -/
def Refuses (s : Settings) (b : Breaker) (now : Nat) : Prop :=
  ∃ retryInMs, (b.request s now).2 = .refused retryInMs

variable {s : Settings} {b : Breaker} {now : Nat}

theorem not_refuses_of_closed (closed : b.state = .closed) : ¬ b.Refuses s now := by
  simp [Refuses, request, refresh, closed]

theorem refuses_of_opened (opened : b.state = .opened) (since : b.openedAt = some now)
    (recovery : 0 < s.recoveryMs) : b.Refuses s now := by
  have waiting : b.hasRecovered s now = false := by
    simp only [hasRecovered, since, Nat.sub_self, decide_eq_false_iff_not]
    omega
  simp [Refuses, request, refresh, opened, waiting]

/-- A breaker that refuses a call stays as it is, so it goes on refusing while time stands still. -/
theorem call_of_refuses (refuses : b.Refuses s now) (success : Bool) :
    b.call s success now = (b, .refused (b.retryIn s now)) := by
  obtain ⟨retryInMs, refused⟩ := refuses
  rcases request_cases s b now with ⟨_, asked⟩ | ⟨_, asked⟩ | ⟨_, asked⟩
  · rw [asked] at refused
    cases refused
  · rw [asked] at refused
    cases refused
  · simp only [call, asked]

theorem call_of_admits (admits : ¬ b.Refuses s now) (success : Bool) (retryInMs : Nat) :
    (b.call s success now).2 ≠ .refused retryInMs := by
  rcases request_cases s b now with ⟨_, asked⟩ | ⟨_, asked⟩ | ⟨_, asked⟩
  · simp [call, asked]
  · simp [call, asked]
  · exact absurd ⟨_, by rw [asked]⟩ admits

/-- A success closes the breaker and forgets all failures. -/
theorem call_success (admits : ¬ b.Refuses s now) :
    (b.call s true now).1.state = .closed ∧ (b.call s true now).1.failures = 0 := by
  rcases request_cases s b now with ⟨_, asked⟩ | ⟨_, asked⟩ | ⟨_, asked⟩
  · simp [call, asked, succeed]
  · simp [call, asked, succeed]
  · exact absurd ⟨_, by rw [asked]⟩ admits

/-- A failure makes the breaker refuse, unless it was closed and its threshold is not reached. -/
theorem call_failure (recovery : 0 < s.recoveryMs) (admits : ¬ b.Refuses s now) :
    (b.call s false now).1.Refuses s now ∧ (b.state = .closed → s.threshold ≤ b.failures + 1) ∨
      (b.call s false now).1.state = .closed ∧
      (b.call s false now).1.failures = b.failures + 1 ∧ b.failures + 1 < s.threshold := by
  rcases request_cases s b now with ⟨closed, asked⟩ | ⟨waiting, asked⟩ | ⟨_, asked⟩
  · by_cases last : s.threshold ≤ b.failures + 1
    · refine .inl ⟨refuses_of_opened ?_ ?_ recovery, fun _ => last⟩ <;>
        simp [call, asked, fail, last]
    · refine .inr ⟨?_, ?_, Nat.lt_of_not_le last⟩ <;> simp [call, asked, fail, last, closed]
  · refine .inl ⟨refuses_of_opened ?_ ?_ recovery, ?_⟩
    · simp [call, asked, fail]
    · simp [call, asked, fail]
    · intro closed
      simp [closed] at waiting
  · exact absurd ⟨_, by rw [asked]⟩ admits

end Breaker

end Tarkib
