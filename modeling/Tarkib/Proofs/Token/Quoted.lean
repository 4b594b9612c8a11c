import Tarkib.Json.Quoted
import Tarkib.Proofs.Token.Read

/-!
# Quoted texts

Writing a text between quotes and reading it as a string go by two tables of escapes. The reader's
table has a letter for the line feed, the carriage return and the tab, and a character that is not
in it stands for itself behind a backslash. So control characters that are written with another
letter or with hexadecimal digits come back as that letter and these digits (`reread`).
-/

namespace Tarkib.Token

open Tarkib.Text List

/-! ## Characters inside quotes -/

/-- Characters between double quotes that do not end the string and that mean `value` in it. -/
def StandsFor (taken value : List Char) : Prop :=
  ∀ cs, readString '\x22' (taken ++ cs) =
    ((readString '\x22' cs).map (Option.map (value ++ ·))).later taken.length

theorem standsFor_nil : StandsFor [] [] := by
  intro cs
  simp [Reading.map, Reading.later]

theorem StandsFor.append {first second value value' : List Char} (front : StandsFor first value)
    (later : StandsFor second value') : StandsFor (first ++ second) (value ++ value') := by
  intro cs
  rw [append_assoc, front, later]
  simp [Reading.map, Reading.later, Function.comp_def, Nat.add_assoc, Nat.add_comm first.length]

theorem standsFor_plain {c : Char} (quote : c ≠ '\x22') (backslash : c ≠ '\\')
    (feed : c ≠ '\n') : StandsFor [c] [c] := by
  intro cs
  rw [cons_append, nil_append, readString_cons feed backslash, if_neg (by simpa)]
  rfl

theorem standsFor_backslash (c : Char) : StandsFor ['\\', c] (unescape c) := by
  intro cs
  rw [cons_append, cons_append, nil_append, readString]
  rfl

theorem standsFor_hexDigit {n : Nat} (small : n < 16) :
    StandsFor [Json.hexDigit n] [Json.hexDigit n] := by
  have plain : ∀ n < 16, Json.hexDigit n ≠ '\x22' ∧ Json.hexDigit n ≠ '\\' ∧
      Json.hexDigit n ≠ '\n' := by
    decide
  obtain ⟨quote, backslash, feed⟩ := plain n small
  exact standsFor_plain quote backslash feed

/-! ## What comes back -/

/-- The control characters that both tables write with a letter. -/
def commonEscapes : List Char :=
  ['\n', '\r', '\t']

/-- What a reader makes of a character that was written inside quotes. -/
def reread (c : Char) : List Char :=
  if c == '\x08' then ['b']
  else if c == '\x0c' then ['f']
  else if c.toNat < 0x20 && !commonEscapes.contains c then
    ['u', '0', '0', Json.hexDigit (c.toNat / 16), Json.hexDigit (c.toNat % 16)]
  else [c]

/-- A character that is escaped comes back as `reread` says. -/
theorem standsFor_escape (c : Char) : StandsFor (Json.escape c) (reread c) := by
  fun_cases Json.escape c with
  | case8 quote backslash noBell noFeed feed carriage tab control =>
    have digits : StandsFor ([Json.hexDigit (c.toNat / 16)] ++ [Json.hexDigit (c.toNat % 16)])
        ([Json.hexDigit (c.toNat / 16)] ++ [Json.hexDigit (c.toNat % 16)]) :=
      (standsFor_hexDigit (by omega)).append (standsFor_hexDigit (by omega))
    have zeros : StandsFor (['0'] ++ ['0']) (['0'] ++ ['0']) :=
      (standsFor_plain (by decide) (by decide) (by decide)).append
        (standsFor_plain (by decide) (by decide) (by decide))
    have written : reread c =
        ['u', '0', '0', Json.hexDigit (c.toNat / 16), Json.hexDigit (c.toNat % 16)] := by
      simp_all [reread, commonEscapes]
    rw [written]
    exact ((standsFor_backslash 'u').append zeros).append digits
  | case9 quote backslash noBell noFeed feed carriage tab control =>
    have kept : reread c = [c] := by simp [reread, noBell, noFeed, control]
    rw [kept]
    exact standsFor_plain (by simpa using quote) (by simpa using backslash) (by simpa using feed)
  | _ =>
    rename_i same
    obtain rfl := eq_of_beq same
    exact standsFor_backslash _

theorem standsFor_flatMap_escape (cs : List Char) :
    StandsFor (cs.flatMap Json.escape) (cs.flatMap reread) := by
  induction cs with
  | nil => exact standsFor_nil
  | cons c cs ih => exact (standsFor_escape c).append ih

/-- The value of a quoted text. -/
def requoted (s : String) : String :=
  String.ofList (s.toList.flatMap reread)

/-- A quoted text is one string whatever stands around it. -/
theorem read_quote (s : String) :
    ∃ body, (Json.quote s).toList = '\x22' :: body ∧ ∀ operand behind,
      read operand '\x22' (body ++ behind) = ⟨.string (requoted s), body.length⟩ := by
  refine ⟨s.toList.flatMap Json.escape ++ ['\x22'], by simp [Json.quote], ?_⟩
  intro operand behind
  have closing : readString '\x22' ('\x22' :: behind) = ⟨some [], 1⟩ := by
    rw [readString_cons (by decide) (by decide)]
    rfl
  rw [read_string rfl, append_assoc, singleton_append, standsFor_flatMap_escape, closing]
  simp [Reading.map, Reading.later, Kind.ofString, requoted, Nat.add_comm]

theorem scan_quote (s : String) :
    scan (Json.quote s) = [⟨.string (requoted s), Json.quote s, 0⟩] := by
  obtain ⟨body, spelled, reads⟩ := read_quote s
  have alone := reads true []
  rw [append_nil] at alone
  rw [scan, spelled, scanFrom, alone]
  simp [scanFrom, ← spelled]

/-! ## When the text comes back -/

theorem reread_cases (c : Char) :
    (c.toNat < 0x20 → c ∈ commonEscapes) ∧ reread c = [c] ∨
      ¬(c.toNat < 0x20 → c ∈ commonEscapes) ∧ ∃ d ds, reread c = d :: ds ∧ d ≠ c := by
  fun_cases reread c with
  | case1 backspace =>
    obtain rfl := eq_of_beq backspace
    exact .inr ⟨by decide, 'b', [], rfl, by decide⟩
  | case2 _ formFeed =>
    obtain rfl := eq_of_beq formFeed
    exact .inr ⟨by decide, 'f', [], rfl, by decide⟩
  | case3 _ _ rare =>
    rw [Bool.and_eq_true, decide_eq_true_iff, Bool.not_eq_true', contains_eq_mem,
      decide_eq_false_iff_not] at rare
    refine .inr ⟨fun common => rare.2 (common rare.1), 'u', _, rfl, ?_⟩
    rintro rfl
    exact absurd rare.1 (by decide)
  | case4 _ _ kept =>
    refine .inl ⟨fun control => ?_, rfl⟩
    by_contra rare
    exact kept (by simp [control, rare])

/-- A text comes back exactly if both tables have all its control characters. -/
theorem flatMap_reread_eq_iff (cs : List Char) :
    cs.flatMap reread = cs ↔ ∀ c ∈ cs, c.toNat < 0x20 → c ∈ commonEscapes := by
  induction cs with
  | nil => simp
  | cons c cs ih =>
    rw [flatMap_cons, forall_mem_cons, ← ih]
    rcases reread_cases c with ⟨common, back⟩ | ⟨rare, d, ds, other, differs⟩
    · rw [back, singleton_append, cons_inj_right]
      exact (and_iff_right common).symm
    · -- What comes back for the first character already shows that the text is another one.
      rw [other, cons_append]
      constructor
      · intro same
        exact absurd (List.cons.inj same).1 differs
      · rintro ⟨common, -⟩
        exact absurd common rare

/-- A quoted text is read as exactly one string, and the value of the string is the text if and only
if the text has no control characters but line feeds, carriage returns and tabs. -/
theorem quoted_read_back_iff (s : String) :
    scan (Json.quote s) = [⟨.string (requoted s), Json.quote s, 0⟩] ∧
      (scan (Json.quote s) = [⟨.string s, Json.quote s, 0⟩] ↔
        ∀ c ∈ s.toList, c.toNat < 0x20 → c = '\n' ∨ c = '\r' ∨ c = '\t') := by
  refine ⟨scan_quote s, ?_⟩
  have values : scan (Json.quote s) = [⟨.string s, Json.quote s, 0⟩] ↔
      s.toList.flatMap reread = s.toList := by
    rw [scan_quote]
    simp [requoted, ← String.toList_inj]
  rw [values, flatMap_reread_eq_iff]
  simp [commonEscapes]

/-- A backspace comes back as the letter with which it is written. -/
theorem quoted_read_back_iff_backspace :
    scan (Json.quote "\x08") ≠ [⟨.string "\x08", Json.quote "\x08", 0⟩] := by
  rw [ne_eq, (quoted_read_back_iff "\x08").2]
  intro kept
  have backspace := kept '\x08' (by decide) (by decide)
  revert backspace
  decide

end Tarkib.Token
