/-!
# The shortest decimal of a binary number

A finite double is `m · 2^q` for natural numbers `m`. The real numbers that round to it form an
interval around it. Among the decimals in that interval the shortest one is on the coarsest decimal
grid that meets the interval, and on that grid the point next to the double is taken. All
comparisons are made between natural numbers by multiplying crosswise.
-/

namespace Tarkib

/-- The number `digits · 10^exponent`. -/
structure Decimal where
  digits : Nat
  exponent : Int
  deriving Repr, DecidableEq, Inhabited

/-- A nonnegative finite double taken apart: `significand · 2^exponent`. -/
structure Binary where
  significand : Nat
  exponent : Int
  /-- Whether the double below is only half as far away as the double above. -/
  narrowBelow : Bool
  deriving Repr, DecidableEq, Inhabited

namespace Binary

/-- Takes the magnitude of a finite double apart. -/
def ofFloat (x : Float) : Binary :=
  let bits := x.toBits.toNat
  let fraction : Nat := bits % 0x10000000000000
  let biased : Nat := bits / 0x10000000000000 % 0x800
  if biased = 0 then ⟨fraction, -1074, false⟩
  else ⟨fraction + 0x10000000000000, (biased : Int) - 1075, fraction == 0 && biased != 1⟩

/-- Multiplies `n` by `2^e` and returns a numerator and a denominator. -/
def scale (n : Nat) (e : Int) : Nat × Nat :=
  if 0 ≤ e then (n * Nat.pow 2 e.toNat, 1) else (n, Nat.pow 2 (-e).toNat)

/-- Compares the decimal `digits · 10^e` with the number `n · 2^q`. -/
def compareDecimal (digits : Nat) (e : Int) (n : Nat) (q : Int) : Ordering :=
  let (num, den) := scale n q
  if 0 ≤ e then compare (digits * Nat.pow 10 e.toNat * den) num
  else compare (digits * den) (num * Nat.pow 10 (-e).toNat)

/-- Whether a decimal rounds to the double: it lies between the middles to both neighbours, which
themselves round to the double exactly when its significand is even. -/
def readsBack (b : Binary) (d : Decimal) : Bool :=
  let below := 4 * b.significand - (if b.narrowBelow then 1 else 2)
  let above := 4 * b.significand + 2
  let lower := compareDecimal d.digits d.exponent below (b.exponent - 2)
  let upper := compareDecimal d.digits d.exponent above (b.exponent - 2)
  if b.significand % 2 = 0 then lower != .lt && upper != .gt else lower == .gt && upper == .lt

/-- The greatest multiple of `10^e` that is not above the double, in units of `10^e`. -/
def floorAt (b : Binary) (e : Int) : Nat :=
  let (num, den) := scale b.significand b.exponent
  if 0 ≤ e then num / (den * Nat.pow 10 e.toNat) else num * Nat.pow 10 (-e).toNat / den

/-- The point of the grid of multiples of `10^e` that rounds to the double, if there is one. Of two
such points the nearer one counts, and of two equally near ones the even one. -/
def onGrid? (b : Binary) (e : Int) : Option Decimal :=
  let low := b.floorAt e
  let down : Decimal := ⟨low, e⟩
  let up : Decimal := ⟨low + 1, e⟩
  let downFits := low != 0 && b.readsBack down
  let upFits := b.readsBack up
  if downFits && upFits then
    match compareDecimal (2 * low + 1) e (2 * b.significand) b.exponent with
    | .gt => some down
    | .lt => some up
    | .eq => if low % 2 = 0 then some down else some up
  else if downFits then some down
  else if upFits then some up
  else none

/-- The shortest decimal that rounds to the double: zero itself, or else a point of the coarsest
grid that has one. -/
def shortest (b : Binary) : Decimal :=
  if b.significand = 0 then ⟨0, 0⟩
  else
    let top := (Nat.toDigits 10 (b.floorAt 0)).length
    ((List.range (top + 345)).findSome? fun (i : Nat) => b.onGrid? ((top : Int) - i)).getD ⟨0, 0⟩

/-- The double times `10^places`, rounded to the nearest natural number, ties to even. -/
def roundAt (b : Binary) (places : Nat) : Nat :=
  let (num, den) := scale (b.significand * Nat.pow 10 places) b.exponent
  let quotient := num / den
  match compare (2 * (num % den)) den with
  | .lt => quotient
  | .gt => quotient + 1
  | .eq => if quotient % 2 = 0 then quotient else quotient + 1

end Binary

end Tarkib
