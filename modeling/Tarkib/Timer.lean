/-!
# Waiting

Time is counted in milliseconds. Waits are ended by a timer. Up to a longest one, waits last as long
as they were asked to; how long the others last is the timer's own affair.
-/

namespace Tarkib

structure Timer where
  /-- How long a wait for some milliseconds lasts. -/
  waited : Nat → Nat
  /-- The longest wait that is kept. -/
  longest : Nat
  kept : ∀ ms ≤ longest, waited ms = ms

/-- The timer that ends every wait after a longest time. -/
def Timer.capped (longest : Nat) : Timer where
  waited ms := min ms longest
  longest
  kept _ within := Nat.min_eq_left within

end Tarkib
