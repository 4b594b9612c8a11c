/-!
# Tables of code points

A short Unicode property is kept as a list of inclusive ranges of code points, a long one as the
lengths of the runs of code points that lie outside and inside in turn. Membership in such a table
is the only question the rest of the library asks of it.
-/

namespace Tarkib.Text

/-- Whether the code point of `c` lies in one of the inclusive ranges. -/
def inRanges (ranges : List (Nat × Nat)) (c : Char) : Bool :=
  ranges.any fun range => range.1 ≤ c.toNat && c.toNat ≤ range.2

/-- Whether a number lies inside, if the runs are outside and inside in turn and the first one is
`inside` or not. -/
def inRunsFrom (inside : Bool) : List Nat → Nat → Bool
  | [], _ => false
  | run :: runs, n => if n < run then inside else inRunsFrom (!inside) runs (n - run)

/-- Whether the code point of `c` lies in a run that is inside; the first run is outside. -/
def inRuns (runs : List Nat) (c : Char) : Bool :=
  inRunsFrom false runs c.toNat

/-- No character of the first run lies in the table. -/
theorem inRuns_of_lt {runs : List Nat} {c : Char} (first : c.toNat < runs.headD 0) :
    inRuns runs c = false := by
  cases runs with
  | nil => rfl
  | cons run runs => exact if_pos first

end Tarkib.Text
