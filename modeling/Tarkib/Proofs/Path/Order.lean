import Tarkib.Path.Basic

/-!
# Equality and order of paths

Two paths are the same for all purposes when they have the same components. Tables that are kept in
the order of paths and searches that go by sameness agree on which paths are different.
-/

namespace Tarkib

/-- The components of a path, by which paths are told apart. -/
abbrev Key := List Component

theorem exists_dropWhile_eq_cons {α : Type} {p : α → Bool} {l : List α}
    (stops : ∃ a ∈ l, p a = false) :
    ∃ first others, l.dropWhile p = first :: others ∧ p first = false := by
  obtain ⟨a, member, stops⟩ := stops
  induction l with
  | nil => cases member
  | cons b l ih =>
    cases here : p b with
    | false => exact ⟨b, l, List.dropWhile_cons_of_neg (by simp [here]), here⟩
    | true =>
      rw [List.dropWhile_cons_of_pos here]
      rcases List.mem_cons.mp member with rfl | member
      · rw [stops] at here
        cases here
      · exact ih member

namespace Component

theorem compare_eq_iff (a b : Component) : compare a b = .eq ↔ a = b := by
  cases a <;> cases b <;> simp [compare, rank]

theorem compareLists_eq_iff (as bs : List Component) : compareLists as bs = .eq ↔ as = bs := by
  induction as generalizing bs with
  | nil => cases bs <;> simp [compareLists]
  | cons a as ih =>
    cases bs with
    | nil => simp [compareLists]
    | cons b bs =>
      rw [compareLists, Ordering.then_eq_eq, compare_eq_iff, ih, List.cons.injEq]

theorem compare_eq_compareLex : compare = compareLex (compareOn rank) (compareOn text) := by
  funext a b
  cases a <;> cases b <;> rfl

instance : Std.TransCmp compare := by
  rw [compare_eq_compareLex]
  infer_instance

theorem compareLists_eq_compareLex : compareLists = List.compareLex compare := by
  funext as bs
  induction as generalizing bs with
  | nil => cases bs <;> rfl
  | cons a as ih =>
    cases bs with
    | nil => rfl
    | cons b bs => rw [compareLists, List.compareLex_cons_cons, ih]

instance : Std.TransCmp compareLists := by
  rw [compareLists_eq_compareLex]
  infer_instance

end Component

namespace Path

variable {p q r : Path}

/-- Paths are the same when they have the same components. -/
theorem same_iff : p.same q = true ↔ p.components = q.components := by
  simp [same]

@[simp]
theorem same_refl (p : Path) : p.same p = true :=
  same_iff.mpr rfl

theorem same_comm (p q : Path) : p.same q = q.same p := by
  rw [Bool.eq_iff_iff, same_iff, same_iff, eq_comm]

theorem same_congr_right (h : p.same q = true) (r : Path) : r.same p = r.same q := by
  rw [Bool.eq_iff_iff, same_iff, same_iff, same_iff.mp h]

theorem same_symm (h : p.same q = true) : q.same p = true :=
  same_comm p q ▸ h

theorem same_trans (first : p.same q = true) (second : q.same r = true) : p.same r = true :=
  same_iff.mpr ((same_iff.mp first).trans (same_iff.mp second))

theorem any_same_iff {ps : List Path} :
    ps.any p.same = true ↔ p.components ∈ ps.map components := by
  rw [List.any_eq_true, List.mem_map]
  exact exists_congr fun q => and_congr_right fun _ => same_iff.trans eq_comm

theorem compare_eq_iff : p.compare q = .eq ↔ p.same q = true := by
  rw [compare, Component.compareLists_eq_iff, same_iff]

/-- The order of paths is transitive. -/
theorem le_trans (first : p.le q = true) (second : q.le r = true) : p.le r = true := by
  unfold le compare at first second ⊢
  exact Std.TransCmp.isLE_trans first second

theorem le_of_isLT (less : (p.compare q).isLT = true) : p.le q = true := by
  unfold le
  cases order : p.compare q <;> simp_all

/-- It is total. -/
theorem le_of_not_isLT (notLess : ¬ (q.compare p).isLT = true) : p.le q = true := by
  have swapped : p.compare q = (q.compare p).swap := by
    unfold compare
    exact Std.OrientedCmp.eq_swap
  unfold le
  rw [swapped]
  cases order : q.compare p <;> simp_all

theorem same_of_le_of_le (first : p.le q = true) (second : q.le p = true) : p.same q = true := by
  have swapped : q.compare p = (p.compare q).swap := by
    unfold compare
    exact Std.OrientedCmp.eq_swap
  unfold le at first second
  rw [swapped] at second
  rw [← compare_eq_iff]
  cases order : p.compare q <;> simp_all

theorem le_of_same (same : p.same q = true) : p.le q = true := by
  rw [le, compare_eq_iff.mpr same]
  rfl

end Path

end Tarkib
