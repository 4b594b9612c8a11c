import Mathlib.Algebra.BigOperators.Group.List.Basic
import Mathlib.Algebra.GroupWithZero.Nat
import Tarkib.Text.Position

/-!
# Counting line feeds

The number of line feeds of a text is the sum of those of its parts. Texts keep their lines when
they keep their line feeds.
-/

namespace Tarkib.Text

@[simp]
theorem lineFeedCount_empty : lineFeedCount "" = 0 := rfl

@[simp]
theorem lineFeedCount_append (s t : String) :
    lineFeedCount (s ++ t) = lineFeedCount s + lineFeedCount t := by
  simp [lineFeedCount]

@[simp]
theorem lineFeedCount_lineFeeds (s : String) : lineFeedCount (lineFeeds s) = lineFeedCount s := by
  simp [lineFeedCount, lineFeeds, List.count_eq_length_filter, List.filter_filter]

theorem lineFeedCount_intercalate {separator : String} (plain : lineFeedCount separator = 0)
    (texts : List String) :
    lineFeedCount (String.intercalate separator texts) = (texts.map lineFeedCount).sum := by
  induction texts with
  | nil => simp
  | cons text texts ih =>
    cases texts with
    | nil => simp
    | cons next texts =>
      rw [String.intercalate_cons_cons]
      simp [plain, ih]

theorem lineFeedCount_eq_zero_iff {s : String} : lineFeedCount s = 0 ↔ '\n' ∉ s.toList := by
  rw [lineFeedCount, List.count_eq_zero]

theorem lineFeedCount_of_notMem {s : String} (none : '\n' ∉ s.toList) : lineFeedCount s = 0 :=
  lineFeedCount_eq_zero_iff.mpr none

@[simp]
theorem lineFeedCount_toString (s : String) : lineFeedCount (toString s) = lineFeedCount s := rfl

@[simp]
theorem lineFeedCount_repr (n : Nat) : lineFeedCount n.repr = 0 := by
  rw [lineFeedCount_eq_zero_iff, ← Nat.toString_eq_repr, Nat.toString_eq_ofList_toDigits,
    String.toList_ofList]
  intro member
  have digit := Nat.isDigit_of_mem_toDigits (by decide) (Nat.le_refl 10) member
  cases digit

/-! ## Lines -/

theorem line_step (p : Position) (c : Char) :
    (p.step c).line = p.line + if c = '\n' then 1 else 0 := by
  unfold Position.step
  split <;> rfl

/-- The line of a place is one more than the number of line feeds before it. -/
theorem line_after (cs : List Char) : (Position.after cs).line = cs.count '\n' + 1 := by
  suffices walked : ∀ p : Position, (cs.foldl Position.step p).line = p.line + cs.count '\n' by
    rw [Position.after, walked]
    exact Nat.add_comm _ _
  induction cs with
  | nil =>
    intro p
    simp
  | cons c cs ih =>
    intro p
    rw [List.foldl_cons, ih, line_step, List.count_cons]
    by_cases feed : c = '\n' <;> simp [feed]
    omega

theorem byteLength_toList (s : String) : byteLength s.toList = s.utf8ByteSize := by
  suffices listed : ∀ cs : List Char, byteLength cs = (String.ofList cs).utf8ByteSize by
    rw [listed, String.ofList_toList]
  intro cs
  induction cs with
  | nil => rfl
  | cons c cs ih => simp [ih, String.ofList_cons]

theorem line_ofOffset (front behind : String) :
    (Position.ofOffset (front ++ behind) front.utf8ByteSize).line = lineFeedCount front + 1 := by
  rw [Position.ofOffset, String.toList_append, ← byteLength_toList, takeBytes_byteLength_append,
    line_after, lineFeedCount]

end Tarkib.Text
