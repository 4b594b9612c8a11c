import Mathlib.Order.Nat
import Tarkib.Config.Check
import Tarkib.Health

/-!
# Rating the number of modules

The number of modules is rated against its ceiling by comparing ten times the number with nine times
the ceiling. Both products are words of 64 bits, and the program panics if one of them exceeds a
word. Under a ceiling up to a tenth of the words no product does. Above it that of the number just
below the ceiling does.
-/

namespace Tarkib.Health

/-- The rating in numbers without bounds. -/
def exactGrade (count ceiling : Nat) : Grade :=
  if ceiling ≤ count then .fail
  else if 9 * ceiling ≤ 10 * count then .warn
  else .pass

/-- No product that is computed for the rating exceeds a word. Nothing is computed for a number that
has reached the ceiling. -/
def Lossless (count ceiling : Nat) : Prop :=
  count < ceiling → 10 * count < UInt64.size ∧ 9 * ceiling < UInt64.size

instance (count ceiling : Nat) : Decidable (Lossless count ceiling) :=
  inferInstanceAs (Decidable (_ → _))

/-- The greatest ceiling below which ten times every number is a word. -/
def greatestExactCeiling : Nat :=
  (UInt64.size - 1) / 10 + 1

variable {count ceiling : Nat}

/-- The product of two words is the one in numbers, if that is a word. -/
theorem product_toUInt64 {n factor : Nat} (word : n < UInt64.size) (small : factor < UInt64.size) :
    product n.toUInt64 factor.toUInt64 =
      if factor * n < UInt64.size then .ok (factor * n).toUInt64 else .error .overflow := by
  have first : n.toUInt64.toNat = n := UInt64.toNat_ofNat_of_lt' word
  have second : factor.toUInt64.toNat = factor := UInt64.toNat_ofNat_of_lt' small
  rw [product, first, second, Nat.mul_comm n factor]
  split
  · next fits =>
      refine congrArg Except.ok (UInt64.toNat_inj.mp ?_)
      rw [UInt64.toNat_mul, first, second, Nat.mul_comm]
      rfl
  · rfl

/-- There is a rating exactly if no product exceeds a word, and it is the one in numbers. -/
theorem cacheGrade_toUInt64 (counted : count < UInt64.size) (bounded : ceiling < UInt64.size) :
    cacheGrade count.toUInt64 ceiling.toUInt64 =
      if Lossless count ceiling then .ok (exactGrade count ceiling) else .error .overflow := by
  have read {n : Nat} (word : n < UInt64.size) : n.toUInt64.toNat = n :=
    UInt64.toNat_ofNat_of_lt' word
  have reached : product count.toUInt64 10 = _ := product_toUInt64 counted (by decide)
  have bound : product ceiling.toUInt64 9 = _ := product_toUInt64 bounded (by decide)
  have full_iff : ceiling.toUInt64 ≤ count.toUInt64 ↔ ceiling ≤ count := by
    rw [UInt64.le_iff_toNat_le, read counted, read bounded]
  rw [cacheGrade, reached, bound]
  by_cases full : ceiling ≤ count
  · have idle : Lossless count ceiling := fun below => absurd full (Nat.not_le.mpr below)
    rw [if_pos (full_iff.mpr full), if_pos idle, exactGrade, if_pos full]
  · rw [if_neg (full_iff.not.mpr full), exactGrade, if_neg full]
    have below := Nat.lt_of_not_le full
    by_cases ten : 10 * count < UInt64.size
    · by_cases nine : 9 * ceiling < UInt64.size
      · have lossless : Lossless count ceiling := fun _ => ⟨ten, nine⟩
        rw [if_pos ten, if_pos nine, if_pos lossless]
        simp only [bind, Except.bind, pure, Except.pure, UInt64.le_iff_toNat_le, read ten,
          read nine]
      · have lost : ¬ Lossless count ceiling := fun lossless => nine (lossless below).2
        rw [if_pos ten, if_neg nine, if_neg lost]
        rfl
    · have lost : ¬ Lossless count ceiling := fun lossless => ten (lossless below).1
      rw [if_neg ten, if_neg lost]
      rfl

/-! ## Which ceilings are safe -/

/-- A ceiling is safe for all numbers if it is safe for the one just below it. -/
theorem lossless_iff (bounded : ceiling < UInt64.size) :
    (∀ count < UInt64.size, Lossless count ceiling) ↔ ceiling ≤ greatestExactCeiling := by
  simp only [Lossless, greatestExactCeiling, UInt64.size] at *
  constructor
  · intro lossless
    have below := lossless (ceiling - 1)
    omega
  · intro small count _ _
    omega

/-- **The check of the cache is exact or panics.** For every ceiling and number of 64 bits there is
an outcome if and only if neither product exceeds a word, and otherwise the program panics. An
outcome is always the exact one. A ceiling can be checked for all numbers if and only if it is at
most `greatestExactCeiling`. -/
theorem checkModuleCache_exact_iff (l : Limiter) (cached : Nat) (counted : l.modules < UInt64.size)
    (bounded : l.limits.maxCachedModules < UInt64.size) :
    let ceiling := l.limits.maxCachedModules
    ((∃ check, checkModuleCache (some l) cached = .ok check) ↔ Lossless l.modules ceiling) ∧
    (¬ Lossless l.modules ceiling → checkModuleCache (some l) cached = .error .overflow) ∧
    (∀ check, checkModuleCache (some l) cached = .ok check →
      check.grade = exactGrade l.modules ceiling) ∧
    ((∀ count < UInt64.size,
        ∃ check, checkModuleCache (some { l with modules := count }) cached = .ok check) ↔
      ceiling ≤ greatestExactCeiling) := by
  intro ceiling
  have outcome {count : Nat} (counted : count < UInt64.size) :
      checkModuleCache (some { l with modules := count }) cached =
        if Lossless count ceiling then
          .ok ⟨"moduleCache", exactGrade count ceiling, s!"{count} of {ceiling} modules cached"⟩
        else .error .overflow := by
    unfold checkModuleCache
    dsimp only
    rw [cacheGrade_toUInt64 counted bounded]
    split <;> rfl
  have exists_iff {count : Nat} (counted : count < UInt64.size) :
      (∃ check, checkModuleCache (some { l with modules := count }) cached = .ok check) ↔
        Lossless count ceiling := by
    rw [outcome counted]
    split <;> simp [*]
  refine ⟨exists_iff counted, ?_, ?_, ?_⟩
  · intro lost
    exact (outcome counted).trans (if_neg lost)
  · intro check checked
    rw [show some l = some { l with modules := l.modules } from rfl, outcome counted] at checked
    split at checked
    · cases checked
      rfl
    · cases checked
  · rw [← lossless_iff bounded]
    exact forall₂_congr fun count counted => exists_iff counted

/-- A single module cannot be checked against a ceiling of more than `2 * 10 ^ 18`, which a
configuration may set: nine times this ceiling is two more than the number of words. -/
theorem checkModuleCache_exact_iff_single_module :
    let l : Limiter := { limits := { maxCachedModules := 2049638230412172402 }, modules := 1 }
    Config.checkLimits [("maxCachedModules", .nat l.limits.maxCachedModules)] = [] ∧
      exactGrade l.modules l.limits.maxCachedModules = .pass ∧
      checkModuleCache (some l) 1 = .error .overflow := by
  intro l
  have lost : ¬ Lossless l.modules l.limits.maxCachedModules := by decide
  exact ⟨rfl, by decide,
    (checkModuleCache_exact_iff l 1 (by decide) (by decide)).2.1 lost⟩

end Tarkib.Health
