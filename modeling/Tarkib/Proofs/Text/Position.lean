import Tarkib.Proofs.Text.LineFeeds

/-!
# Offsets and their positions

Positions are ordered by lines, and on one line by columns.
-/

namespace Tarkib.Text.Position

/-- Positions are ordered by their lines, and on one line by their columns. -/
instance : LT Position where
  lt p q := p.line < q.line ∨ p.line = q.line ∧ p.column < q.column

theorem foldl_step_spec (cs : List Char) (p : Position) :
    p.line < (cs.foldl step p).line ∨ (cs.foldl step p).line = p.line ∧
      (cs.foldl step p).column = p.column + cs.length := by
  induction cs generalizing p with
  | nil => exact .inr ⟨rfl, rfl⟩
  | cons c cs ih =>
    have here := ih (p.step c)
    rw [List.foldl_cons, List.length_cons]
    by_cases feed : c = '\n'
    · have line : (p.step c).line = p.line + 1 := by simp [step, feed]
      omega
    · have line : (p.step c).line = p.line := by simp [step, feed]
      have column : (p.step c).column = p.column + 1 := by simp [step, feed]
      omega

/-- Each further character leads to a later position. -/
theorem lt_after_append (front : List Char) {behind : List Char} (some : behind ≠ []) :
    after front < after (front ++ behind) := by
  have length := List.length_pos_iff.mpr some
  have spec := foldl_step_spec behind (after front)
  rw [after, ← List.foldl_append] at spec
  rcases spec with line | ⟨line, column⟩
  · exact .inl line
  · refine .inr ⟨line.symm, ?_⟩
    rw [after, after]
    omega

theorem one_le_foldl_step (cs : List Char) {p : Position} (here : 1 ≤ p.line ∧ 1 ≤ p.column) :
    1 ≤ (cs.foldl step p).line ∧ 1 ≤ (cs.foldl step p).column := by
  induction cs generalizing p with
  | nil => exact here
  | cons c cs ih =>
    refine ih ?_
    unfold step
    split
    · exact ⟨Nat.le_add_left _ _, Nat.le_refl 1⟩
    · exact ⟨here.1, Nat.le_add_left _ _⟩

variable {source : String} {a b : Nat}

theorem exists_front (valid : String.Pos.Raw.IsValid source ⟨a⟩) :
    ∃ front behind, source.toList = front ++ behind ∧ byteLength front = a ∧
      ofOffset source a = after front := by
  obtain ⟨front, behind, rfl, size⟩ := String.Pos.Raw.isValid_iff_exists_append.mp valid
  have bytes : byteLength front.toList = a := by
    rw [byteLength_toList]
    exact (congrArg String.Pos.Raw.byteIdx size).symm
  refine ⟨front.toList, behind.toList, String.toList_append, bytes, ?_⟩
  rw [ofOffset, String.toList_append, ← bytes, takeBytes_byteLength_append]

variable (first : String.Pos.Raw.IsValid source ⟨a⟩) (second : String.Pos.Raw.IsValid source ⟨b⟩)

include first second

/-- Of two offsets between characters the later one has the later position. -/
theorem ofOffset_lt (before : a < b) : ofOffset source a < ofOffset source b := by
  obtain ⟨front, behind, split, rfl, place⟩ := exists_front first
  obtain ⟨front', behind', split', rfl, place'⟩ := exists_front second
  rw [place, place']
  rcases List.append_eq_append_iff.mp (split.symm.trans split') with ⟨more, rfl, _⟩ | ⟨more, rfl, _⟩
  · refine lt_after_append front ?_
    rintro rfl
    simp at before
  · rw [byteLength_append] at before
    omega

theorem eq_of_ofOffset_eq (same : ofOffset source a = ofOffset source b) : a = b := by
  have irrefl (p : Position) : ¬ p < p := by
    rintro (line | ⟨_, column⟩)
    · exact Nat.lt_irrefl _ line
    · exact Nat.lt_irrefl _ column
  rcases Nat.lt_trichotomy a b with before | equal | before
  · exact absurd (same ▸ ofOffset_lt first second before) (irrefl _)
  · exact equal
  · exact absurd (same ▸ ofOffset_lt second first before) (irrefl _)

omit first second

/-- Any two offsets differ in some text. -/
theorem eq_of_forall_ofOffset_eq (same : ∀ text, ofOffset text a = ofOffset text b) : a = b := by
  -- In a text of characters of one byte every offset lies between characters.
  have valid (m n : Nat) :
      String.Pos.Raw.IsValid (String.ofList (.replicate (m + n) 'x')) ⟨m⟩ := by
    have bytes : byteLength (.replicate m 'x') = m := by
      induction m with
      | zero => rfl
      | succ m ih =>
        rw [List.replicate_succ, byteLength_cons, ih, Nat.add_comm]
        rfl
    refine String.Pos.Raw.isValid_iff_exists_append.mpr
      ⟨String.ofList (.replicate m 'x'), String.ofList (.replicate n 'x'), ?_, ?_⟩
    · rw [← String.ofList_append, List.replicate_append_replicate]
    · rw [String.rawEndPos, ← byteLength_toList, String.toList_ofList, bytes]
  exact eq_of_ofOffset_eq (valid a b) (Nat.add_comm b a ▸ valid b a) (same _)

end Tarkib.Text.Position
