import Tarkib.Proofs.Bundle.Mapped
import Tarkib.Proofs.Bundle.Words

/-!
# The lines of a bundle

A line feed ends a line, so the lines of two texts with a line feed between them are those of the
first text and those of the second one. Quoted ids have no line feeds. Hence the lines of a bundle
are known one by one. The counter of start lines adds up the same numbers without looking at the
text.
-/

namespace Tarkib

open List

/-! ## Lines of texts -/

namespace Text

/-- The lines of a text, which line feeds divide. -/
def lines (s : String) : List String :=
  (s.toList.splitOn '\n').map String.ofList

/-- A line feed keeps the lines of two texts apart. -/
theorem lines_append_feed (s t : String) : lines (s ++ "\n" ++ t) = lines s ++ lines t := by
  have feed : "\n".toList = ['\n'] := rfl
  rw [lines, String.toList_append, String.toList_append, feed, append_assoc,
    singleton_append, splitOn_append_cons_self, map_append]
  rfl

theorem lines_of_plain {s : String} (plain : lineFeedCount s = 0) : lines s = [s] := by
  have free : ∀ c ∈ s.toList, (c == '\n') = false := by
    intro c member
    rw [beq_eq_false_iff_ne]
    rintro rfl
    exact lineFeedCount_eq_zero_iff.mp plain member
  rw [lines, List.splitOn, splitOnP_eq_singleton free, map_singleton, String.ofList_toList]

theorem length_lines (s : String) : (lines s).length = lineFeedCount s + 1 := by
  rw [lines, length_map, lineFeedCount, List.splitOn]
  induction s.toList with
  | nil => rfl
  | cons c cs ih =>
    rw [splitOnP_cons_eq_if_modifyHead, count_cons]
    split <;> simp [ih]

theorem lines_intercalate {ls : List String} (plain : ∀ l ∈ ls, lineFeedCount l = 0)
    (present : ls ≠ []) : lines (String.intercalate "\n" ls) = ls := by
  have free : ∀ l ∈ ls.map String.toList, '\n' ∉ l := by
    simpa [lineFeedCount_eq_zero_iff] using plain
  have feed : "\n".toList = ['\n'] := rfl
  rw [lines, String.toList_intercalate, feed,
    splitOn_intercalate '\n' free (by simpa using present), map_map]
  simp [Function.comp_def]

end Text

namespace Bundle

open Tarkib.Text

/-! ## Lines of bundles -/

/-- The line behind the code of a module, which is the last one or not. -/
def closing (last : Bool) : String :=
  if last then "\x7d" else "\x7d,"

/-- The lines of the table of modules. -/
def tableLines : List Part → List String
  | [] => []
  | p :: ps => header p.id :: (lines p.code ++ closing ps.isEmpty :: tableLines ps)

theorem lines_header (id : String) : lines (header id) = [header id] := by
  apply lines_of_plain
  have opens : lineFeedCount ": function (module, exports, require) \x7b" = 0 :=
    lineFeedCount_of_notMem (by decide)
  rw [header, lineFeedCount_append, lineFeedCount_quote, opens]

theorem lines_loader : lines loader = loaderLines := by
  have plain : loaderRows.1.all (fun row => row.count '\n' == 0) = true := by decide +kernel
  refine lines_intercalate (fun l member => ?_) (cons_ne_nil _ _)
  rw [loaderRows.2] at member
  obtain ⟨row, listed, rfl⟩ := mem_map.mp member
  rw [lineFeedCount, String.toList_ofList]
  exact beq_iff_eq.mp (all_eq_true.mp plain row listed)

/-- A module is its header, the lines of its code and a closing line. -/
theorem lines_text (front : String) (p : Part) {rest : String} (plain : lineFeedCount rest = 0) :
    lines (front ++ ("\n" ++ p.text) ++ rest) =
      lines front ++ header p.id :: (lines p.code ++ ["\x7d" ++ rest]) := by
  have split : front ++ ("\n" ++ p.text) ++ rest =
      front ++ "\n" ++ (header p.id ++ "\n" ++ (p.code ++ "\n" ++ ("\x7d" ++ rest))) := by
    have brace : "\n\x7d" = "\n" ++ "\x7d" := rfl
    rw [Part.text, brace]
    simp only [String.append_assoc]
  have closes : lineFeedCount ("\x7d" ++ rest) = 0 := by
    rw [lineFeedCount_append, plain]
    rfl
  rw [split, lines_append_feed, lines_append_feed, lines_append_feed, lines_header,
    lines_of_plain closes]
  rfl

theorem lines_table (front rest : String) (parts : List Part) :
    lines (front ++ String.intercalate "," (parts.map fun p => "\n" ++ p.text) ++ "\n" ++ rest) =
      lines front ++ (tableLines parts ++ lines rest) := by
  induction parts generalizing front with
  | nil =>
    rw [map_nil, String.intercalate_nil, String.append_empty, lines_append_feed]
    rfl
  | cons p ps ih =>
    cases ps with
    | nil =>
      have here := lines_text front p lineFeedCount_empty
      rw [String.append_empty] at here
      rw [map_singleton, String.intercalate_singleton, lines_append_feed, here]
      simp [tableLines, closing]
    | cons q qs =>
      have comma : lineFeedCount "," = 0 := rfl
      have here := lines_text front p comma
      have later := ih (front ++ ("\n" ++ p.text) ++ ",")
      rw [here, map_cons] at later
      rw [map_cons, map_cons, String.intercalate_cons_cons]
      simp only [← String.append_assoc] at later ⊢
      rw [later]
      simp [tableLines, closing]

/-- The lines of a bundle: the loader, the modules one by one, and the line that names the entry. -/
theorem lines_render (parts : List Part) (entry : String) :
    lines (render parts entry) =
      loaderLines ++ (tableLines parts ++ ["\x7d, " ++ Json.quote entry ++ ");", ""]) := by
  have split : render parts entry =
      loader ++ String.intercalate "," (parts.map fun p => "\n" ++ p.text) ++ "\n" ++
        (("\x7d, " ++ Json.quote entry ++ ");") ++ "\n" ++ "") := by
    have opens : "\n\x7d, " = "\n" ++ "\x7d, " := rfl
    have ends : ");\n" = ");" ++ "\n" := rfl
    rw [render, opens, ends, String.append_empty]
    simp only [String.append_assoc]
  have last : lineFeedCount ("\x7d, " ++ Json.quote entry ++ ");") = 0 := by
    rw [lineFeedCount_append, lineFeedCount_append, lineFeedCount_quote]
    rfl
  rw [split, lines_table, lines_append_feed, lines_loader, lines_of_plain last,
    lines_of_plain lineFeedCount_empty]
  rfl

/-! ## Start lines -/

theorem length_startLinesFrom (line : Nat) (parts : List Part) :
    (startLinesFrom line parts).length = parts.length := by
  induction parts generalizing line with
  | nil => rfl
  | cons p ps ih => rw [startLinesFrom, length_cons, ih, length_cons]

/-- The counter says where each code starts, directly behind its header. -/
theorem exists_startLinesFrom {line i : Nat} {parts : List Part} {p : Part}
    (here : parts[i]? = some p) {front : List String} (size : front.length = line + 1)
    (rest : List String) :
    ∃ start, (startLinesFrom line parts)[i]? = some (start + 1) ∧
      (front ++ (tableLines parts ++ rest))[start]? = some (header p.id) ∧
      ∃ more, (front ++ (tableLines parts ++ rest)).drop (start + 1) =
        lines p.code ++ closing (i + 1 == parts.length) :: more := by
  induction parts generalizing line i front with
  | nil => cases here
  | cons q qs ih =>
    cases i with
    | zero =>
      cases here
      have last : (0 + 1 == (p :: qs).length) = qs.isEmpty := by cases qs <;> rfl
      refine ⟨line + 1, rfl, ?_, tableLines qs ++ rest, ?_⟩
      · rw [← size, getElem?_append_right (Nat.le_refl _), Nat.sub_self]
        rfl
      · rw [← size, last, drop_append]
        simp [tableLines]
    | succ i =>
      -- The lines of the first module go to the front.
      let front' := front ++ header q.id :: (lines q.code ++ [closing qs.isEmpty])
      have size' : front'.length = line + 2 + lineFeedCount q.code + 1 + 1 := by
        simp only [front', length_append, length_cons, length_lines, size, length_nil]
        omega
      have whole : front ++ (tableLines (q :: qs) ++ rest) =
          front' ++ (tableLines qs ++ rest) := by
        simp [front', tableLines]
      have last : (i + 1 + 1 == (q :: qs).length) = (i + 1 == qs.length) := by simp
      rw [whole, last]
      exact ih here size'

/-- **Start lines are exact.** There is one for each module, and the line in front of it is the
header with the quoted id of the module. From the start line on come all lines of the code, and then
the line that closes the module. -/
theorem startLines_exact (parts : List Part) (entry : String) :
    (startLines parts).length = parts.length ∧
      ∀ i : Fin parts.length, ∃ line,
        (startLines parts)[i.val]? = some (line + 1) ∧
        (lines (render parts entry))[line]? = some (header (parts.get i).id) ∧
        ∃ more, (lines (render parts entry)).drop (line + 1) =
          lines (parts.get i).code ++ closing (i.val + 1 == parts.length) :: more := by
  refine ⟨length_startLinesFrom _ _, fun i => ?_⟩
  rw [lines_render]
  exact exists_startLinesFrom (getElem?_eq_getElem i.isLt) rfl _

end Bundle

end Tarkib
