import Tarkib.Token.Literal

/-!
# Literals in another place

A reader of a string or a template looks at the text up to the closing mark, or up to where it gives
up.
-/

namespace Tarkib.Token

open List

/-! ## Readings -/

section Reading

variable {α β : Type} (n : Nat) (r : Reading α) (f : α → β)

@[simp]
theorem Reading.value_later : (r.later n).value = r.value := rfl

@[simp]
theorem Reading.size_later : (r.later n).size = r.size + n := rfl

@[simp]
theorem Reading.value_map : (r.map f).value = f r.value := rfl

@[simp]
theorem Reading.size_map : (r.map f).size = r.size := rfl

end Reading

variable {c quote : Char} {cs : List Char} {here : Level} {outer : List Level}
  {value : TemplateValue}

theorem ne_backslash (noEnd : c = '\\' → cs = [] → False)
    (noEscape : ∀ d ds, c = '\\' → cs = d :: ds → False) : c ≠ '\\' := by
  intro backslash
  cases cs with
  | nil => exact noEnd backslash rfl
  | cons d ds => exact noEscape d ds backslash rfl

theorem head?_take_append {n : Nat} (positive : n ≠ 0) (enough : n ≤ cs.length)
    (behind : List Char) :
    (cs.take n ++ behind).head? = cs.head? := by
  obtain ⟨m, rfl⟩ := Nat.exists_eq_succ_of_ne_zero positive
  cases cs with
  | nil => simp at enough
  | cons c cs => rfl

/-! ## Strings -/

theorem size_readString_le (quote : Char) (cs : List Char) :
    (readString quote cs).size ≤ cs.length := by
  fun_induction readString quote cs <;> simp <;> omega

theorem readString_cons (noFeed : c ≠ '\n') (noEscape : c ≠ '\\') (cs : List Char) :
    readString quote (c :: cs) =
      if c == quote then ⟨some [], 1⟩
      else ((readString quote cs).map (Option.map (c :: ·))).later 1 := by
  rw [readString]
  · exact noFeed
  · intro backslash
    exact absurd backslash noEscape
  · intro _ _ backslash
    exact absurd backslash noEscape

/-- A string that is closed, or given up before the end of the text, stays what it is before other
text. -/
theorem readString_take
    (done : (readString quote cs).value.isSome ∨ (readString quote cs).size < cs.length)
    (behind : List Char) :
    readString quote (cs.take (readString quote cs).size ++ behind) = readString quote cs := by
  fun_induction readString quote cs with
  | case1 | case3 => simp at done
  | case2 => rfl
  | case4 c cs ih =>
    simp only [Reading.size_later, Reading.size_map, take_succ_cons, cons_append]
    rw [readString, ih (by simpa using done)]
  | case5 c cs noFeed noEnd noEscape closes =>
    simp only [take_succ_cons, cons_append]
    rw [readString_cons noFeed (ne_backslash noEnd noEscape), if_pos closes]
  | case6 c cs noFeed noEnd noEscape differs ih =>
    simp only [Reading.size_later, Reading.size_map, take_succ_cons, cons_append]
    rw [readString_cons noFeed (ne_backslash noEnd noEscape), if_neg differs,
      ih (by simpa using done)]

/-! ## Templates -/

theorem size_readTemplate_le (here : Level) (outer : List Level) (cs : List Char) :
    (readTemplate here outer cs).size ≤ cs.length := by
  fun_induction readTemplate here outer cs <;> simp <;> omega

theorem size_readTemplate_ne_zero (some : cs ≠ []) (here : Level) (outer : List Level) :
    (readTemplate here outer cs).size ≠ 0 := by
  fun_cases readTemplate here outer cs
  · exact absurd rfl some
  all_goals simp

theorem readTemplate_text_cons (outer : List Level) (noClosing : c ≠ '\x60') (noEscape : c ≠ '\\')
    (noOpening : c = '$' → cs.head? ≠ some '\x7b') :
    readTemplate .text outer (c :: cs) =
      ((readTemplate .text outer cs).map (Except.map (·.add outer [c]))).later 1 := by
  rw [readTemplate]
  · exact noClosing
  · intro backslash
    exact absurd backslash noEscape
  · intro _ _ backslash
    exact absurd backslash noEscape
  · rintro ds dollar rfl
    exact noOpening dollar rfl

theorem readTemplate_quoted_cons (noFeed : c ≠ '\n') (noEscape : c ≠ '\\') (outer : List Level)
    (cs : List Char) :
    readTemplate (.quoted quote) outer (c :: cs) =
      if c == quote then
        match outer with
        | [] => ⟨.error .openTemplate, 1⟩
        | place :: places => (readTemplate place places cs).later 1
      else (readTemplate (.quoted quote) outer cs).later 1 := by
  rw [readTemplate.eq_def]
  dsimp only
  split
  · exact absurd rfl noFeed
  · exact absurd rfl noEscape
  · exact absurd rfl noEscape
  · rfl

theorem isOk_map (f : TemplateValue → TemplateValue) (r : Except Fault TemplateValue) :
    (r.map f).isOk = r.isOk := by
  cases r <;> rfl

/-- So does a template. -/
theorem readTemplate_take (done : (readTemplate here outer cs).value.isOk = true ∨
      (readTemplate here outer cs).size < cs.length) (behind : List Char) :
    readTemplate here outer (cs.take (readTemplate here outer cs).size ++ behind) =
      readTemplate here outer cs := by
  fun_induction readTemplate here outer cs with
  | case1 | case4 | case15 => simp [Except.isOk, Except.toBool] at done
  | case2 | case14 => simp [readTemplate]
  | case3 cs place places ih
  | case8 outer cs depth ih
  | case9 cs place places ih
  | case10 cs depth outer notLast ih
  | case11 outer cs depth ih
  | case16 outer quote d ds ih => simp [readTemplate, ih (by simpa using done)]
  | case5 outer d ds ih
  | case6 outer ds ih => simp [readTemplate, ih (by simpa [isOk_map] using done)]
  | case7 outer c cs noClosing noEnd noEscape noOpening ih =>
    have inner : (readTemplate .text outer cs).value.isOk = true ∨
        (readTemplate .text outer cs).size < cs.length := by simpa [isOk_map] using done
    have plain : c = '$' →
        (cs.take (readTemplate .text outer cs).size ++ behind).head? ≠ some '\x7b' := by
      have some : cs ≠ [] := by
        rintro rfl
        simp [readTemplate, Except.isOk, Except.toBool] at inner
      rw [head?_take_append (size_readTemplate_ne_zero some .text outer)
        (size_readTemplate_le .text outer cs)]
      rintro dollar brace
      obtain ⟨ds, rfl⟩ := head?_eq_some_iff.mp brace
      exact noOpening ds dollar rfl
    simp only [Reading.size_later, Reading.size_map, take_succ_cons, cons_append]
    rw [readTemplate_text_cons outer noClosing (ne_backslash noEnd noEscape) plain, ih inner]
  | case12 outer cs depth c noOpening noClosing noTemplate quote ih => simp_all [readTemplate]
  | case13 outer cs depth c noOpening noClosing noTemplate noQuote ih => simp_all [readTemplate]
  | case17 quote c cs noFeed noEnd noEscape closes =>
    simp only [take_succ_cons, cons_append]
    rw [readTemplate_quoted_cons noFeed (ne_backslash noEnd noEscape), if_pos closes]
  | case18 quote c cs noFeed noEnd noEscape closes place places ih =>
    simp only [Reading.size_later, take_succ_cons, cons_append]
    rw [readTemplate_quoted_cons noFeed (ne_backslash noEnd noEscape), if_pos closes]
    simp only [ih (by simpa using done)]
  | case19 outer quote c cs noFeed noEnd noEscape differs ih =>
    simp only [Reading.size_later, take_succ_cons, cons_append]
    rw [readTemplate_quoted_cons noFeed (ne_backslash noEnd noEscape), if_neg differs,
      ih (by simpa using done)]

end Tarkib.Token
