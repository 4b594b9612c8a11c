import Mathlib.Algebra.GroupWithZero.Nat
import Mathlib.Algebra.Ring.Int.Defs
import Mathlib.Data.List.Induction
import Tarkib.Bundle.SourceMap

/-!
# Reading source maps

The reader knows the format and nothing of how maps are written. The text is divided into groups at
semicolons, one for each generated line, and a group into segments at commas. A segment is a row of
numbers, all of which are differences: those of the column start anew in each group, all others are
carried from segment to segment. A number is written in digits of five bits, the lowest first, with
the sign in its lowest bit.
-/

namespace Tarkib.SourceMap

open List

/-! ## Numbers -/

/-- The value of a digit in base 64: capital letters come first, then small letters and decimal
digits, and at last the plus sign and the slash. -/
def value? (c : Char) : Option Nat :=
  if c.isUpper then some (c.toNat - 'A'.toNat)
  else if c.isLower then some (26 + (c.toNat - 'a'.toNat))
  else if c.isDigit then some (52 + (c.toNat - '0'.toNat))
  else if c = '+' then some 62
  else if c = '/' then some 63
  else none

/-- Puts a digit in front of numbers. A digit with the sixth bit belongs to the number behind it. -/
def addDigit (digit : Nat) (numbers : List Nat) : Option (List Nat) :=
  if digit < 32 then some (digit :: numbers)
  else
    match numbers with
    | [] => none
    | n :: numbers => some ((digit - 32 + 32 * n) :: numbers)

/-- Reads the numbers of a segment, their signs still in the lowest bits. -/
def readNumbers : List Char → Option (List Nat)
  | [] => some []
  | c :: cs => do addDigit (← value? c) (← readNumbers cs)

/-- A number whose sign is in its lowest bit. -/
def signed (n : Nat) : Int :=
  if n % 2 = 0 then (n / 2 : Nat) else -(n / 2 : Nat)

/-! ## Segments -/

/-- Where a segment points to, if it points anywhere. -/
structure Origin where
  source : Int
  line : Int
  column : Int
  name : Option Int
  deriving Repr, DecidableEq

/-- A segment: the column from which on it holds, and where it points to. -/
structure Segment where
  column : Int
  origin : Option Origin
  deriving Repr, DecidableEq

/-- The numbers that a reader carries along, to which differences are added. -/
structure Reader where
  column : Int := 0
  source : Int := 0
  line : Int := 0
  sourceColumn : Int := 0
  name : Int := 0
  deriving Repr, DecidableEq

namespace Reader

/-- Reads a segment of one, four or five differences. -/
def segment (r : Reader) : List Int → Option (Reader × Segment)
  | [column] =>
    let r := { r with column := r.column + column }
    some (r, ⟨r.column, none⟩)
  | [column, source, line, sourceColumn] =>
    let r : Reader := ⟨r.column + column, r.source + source, r.line + line,
      r.sourceColumn + sourceColumn, r.name⟩
    some (r, ⟨r.column, some ⟨r.source, r.line, r.sourceColumn, none⟩⟩)
  | [column, source, line, sourceColumn, name] =>
    let r : Reader := ⟨r.column + column, r.source + source, r.line + line,
      r.sourceColumn + sourceColumn, r.name + name⟩
    some (r, ⟨r.column, some ⟨r.source, r.line, r.sourceColumn, some r.name⟩⟩)
  | _ => none

/-- Reads the segments of a line. -/
def segments (r : Reader) : List (List Char) → Option (Reader × List Segment)
  | [] => some (r, [])
  | text :: texts => do
    let (r, first) ← r.segment ((← readNumbers text).map signed)
    let (r, others) ← r.segments texts
    return (r, first :: others)

/-- Reads a group. An empty group has no segments. -/
def group (r : Reader) (text : List Char) : Option (Reader × List Segment) :=
  { r with column := 0 }.segments (if text.isEmpty then [] else text.splitOn ',')

/-- Reads the groups of all lines. -/
def groups (r : Reader) : List (List Char) → Option (List (List Segment))
  | [] => some []
  | text :: texts => do
    let (r, segments) ← r.group text
    return segments :: (← r.groups texts)

end Reader

/-- The segments of each generated line. -/
def read? (mappings : String) : Option (List (List Segment)) :=
  Reader.groups {} (mappings.toList.splitOn ';')

/-! ## Numbers are read as they were written -/

theorem value?_digit : ∀ n < 64, value? (digit n) = some n := by
  decide +kernel

theorem readNumbers_encodeNat (n : Nat) (rest : List Char) :
    readNumbers (encodeNat n ++ rest) = (readNumbers rest).map (n :: ·) := by
  fun_induction encodeNat n with
  | case1 n small =>
    rw [singleton_append, readNumbers, value?_digit n (by omega)]
    cases readNumbers rest <;> simp [addDigit, small]
  | case2 n large ih =>
    have value := value?_digit (n % 32 + 32) (by omega)
    rw [cons_append, readNumbers, value, ih]
    have whole : n % 32 + 32 * (n / 32) = n := Nat.mod_add_div n 32
    cases readNumbers rest <;> simp [addDigit, whole]

theorem signed_of_natAbs (i : Int) :
    signed (2 * i.natAbs + (if i < 0 then 1 else 0)) = i := by
  unfold signed
  split <;> split <;> omega

/-- Numbers are read back as they were written. -/
theorem readNumbers_encodeInt {i : Int} (fits : i.natAbs < 2 ^ 63) (rest : List Char) :
    (readNumbers (encodeInt i ++ rest)).map (List.map signed) =
      ((readNumbers rest).map (List.map signed)).map (i :: ·) := by
  have word : (2 * i.natAbs + (if i < 0 then 1 else 0)) % 0x10000000000000000 =
      2 * i.natAbs + (if i < 0 then 1 else 0) := by
    apply Nat.mod_eq_of_lt
    split <;> omega
  rw [encodeInt, word, readNumbers_encodeNat, Option.map_map, Option.map_map]
  congr 1
  funext numbers
  simp [signed_of_natAbs]

/-! ## Groups are read as they were written -/

variable {n : Nat} {c : Char} {before place : Place} {lines : List (Option Place)} {m : SourceMap}

theorem mem_digits_of_mem_encodeNat (member : c ∈ encodeNat n) : c ∈ digits := by
  have known : ∀ n < 64, digit n ∈ digits := by decide +kernel
  fun_induction encodeNat n with
  | case1 n small =>
    rw [mem_singleton] at member
    rw [member]
    exact known n (by omega)
  | case2 n large ih =>
    rcases mem_cons.mp member with rfl | later
    · exact known _ (by omega)
    · exact ih later

theorem wrap_of_lt (small : n < 2 ^ 63) : wrap n = n := by
  rw [wrap, Int.bmod_def]
  omega

/-- Differences of numbers below 63 bits fit into the words in which they are computed. -/
theorem wrap_sub_of_lt {m : Nat} (first : m < 2 ^ 63) (second : n < 2 ^ 63) :
    wrap (wrap m - wrap n) = (m : Int) - n := by
  rw [wrap_of_lt first, wrap_of_lt second, wrap, Int.bmod_def]
  omega

def Segment.ofPlace (place : Place) : Segment :=
  ⟨0, some ⟨place.source, place.line, 0, none⟩⟩

/-- The source and the line can be told in 63 bits. -/
def Place.IsSmall (place : Place) : Prop :=
  place.source < 2 ^ 63 ∧ place.line < 2 ^ 63

/-- The group of a line that comes from `place`, where the one before it came from `before`. -/
def groupText (before place : Place) : List Char :=
  encodeInt 0 ++ encodeInt (wrap (wrap place.source - wrap before.source))
    ++ encodeInt (wrap (wrap place.line - wrap before.line)) ++ encodeInt 0

def Reader.behind (place : Place) : Reader :=
  { source := place.source, line := place.line }

theorem mem_digits_of_mem_groupText (member : c ∈ groupText before place) : c ∈ digits := by
  simp only [groupText, encodeInt, mem_append] at member
  rcases member with ((member | member) | member) | member <;>
    exact mem_digits_of_mem_encodeNat member

theorem readNumbers_groupText (last : before.IsSmall) (next : place.IsSmall) :
    (readNumbers (groupText before place)).map (List.map signed) =
      some [0, (place.source : Int) - before.source, (place.line : Int) - before.line, 0] := by
  obtain ⟨source, line⟩ := last
  obtain ⟨source', line'⟩ := next
  have end_ := readNumbers_encodeInt (i := 0) (by decide) []
  rw [append_nil] at end_
  rw [groupText, wrap_sub_of_lt source' source, wrap_sub_of_lt line' line, append_assoc,
    append_assoc, readNumbers_encodeInt (by decide), readNumbers_encodeInt (by omega),
    readNumbers_encodeInt (by omega), end_]
  rfl

theorem group_groupText (last : before.IsSmall) (next : place.IsSmall) :
    (Reader.behind before).group (groupText before place) =
      some (Reader.behind place, [Segment.ofPlace place]) := by
  have some_ : groupText before place ≠ [] := by
    intro none
    have read := readNumbers_groupText last next
    rw [none] at read
    cases read
  have alone : (groupText before place).splitOn ',' = [groupText before place] := by
    have apart : ',' ∉ digits := by decide
    have free : ∀ text ∈ [groupText before place], ',' ∉ text := by
      intro text member inside
      rw [mem_singleton.mp member] at inside
      exact apart (mem_digits_of_mem_groupText inside)
    simpa using splitOn_intercalate ',' free (by simp)
  obtain ⟨numbers, read, meaning⟩ := Option.map_eq_some_iff.mp (readNumbers_groupText last next)
  have source : (before.source : Int) + (place.source - before.source) = place.source := by omega
  have line : (before.line : Int) + (place.line - before.line) = place.line := by omega
  rw [Reader.group, isEmpty_eq_false_iff.mpr some_, alone]
  simp [Reader.segments, read, meaning, Reader.segment, Reader.behind, Segment.ofPlace, source,
    line]

def segmentsOf (place? : Option Place) : List Segment :=
  (place?.map Segment.ofPlace).toList

/-- Groups of such numbers are read back. -/
theorem groups_read (last : before.IsSmall) (small : ∀ place, some place ∈ lines → place.IsSmall) :
    (Reader.behind before).groups (groups before lines) = some (lines.map segmentsOf) := by
  induction lines generalizing before with
  | nil => rfl
  | cons line lines ih =>
    have later : ∀ place, some place ∈ lines → place.IsSmall := fun place member =>
      small place (mem_cons_of_mem _ member)
    cases line with
    | none =>
      have empty : (Reader.behind before).group [] = some (Reader.behind before, []) := rfl
      rw [groups, Reader.groups, empty]
      simp [ih last later, segmentsOf]
    | some place =>
      have next := small place mem_cons_self
      change (Reader.behind before).groups (groupText before place :: groups place lines) = _
      rw [Reader.groups, group_groupText last next]
      simp [ih next later, segmentsOf]

theorem notMem_of_mem_groups {text : List Char} (member : text ∈ groups before lines) :
    ';' ∉ text := by
  have apart : ';' ∉ digits := by decide
  induction lines generalizing before with
  | nil => cases member
  | cons line lines ih =>
    cases line with
    | none =>
      rcases mem_cons.mp member with rfl | later
      · exact not_mem_nil
      · exact ih later
    | some place =>
      rcases mem_cons.mp member with rfl | later
      · exact fun inside => apart (mem_digits_of_mem_groupText inside)
      · exact ih later

/-- What a map holds of a generated line. -/
def placeAt (m : SourceMap) (n : Nat) : Option Place :=
  m.lines.getD n none

theorem exists_read?_mappings (small : ∀ n place, m.placeAt n = some place → place.IsSmall) :
    ∃ lines, read? m.mappings = some lines ∧
      ∀ n, lines.getD n [] = segmentsOf (m.placeAt n) := by
  have start : Place.IsSmall ⟨0, 0⟩ := ⟨by decide, by decide⟩
  have held : ∀ place, some place ∈ m.lines → place.IsSmall := by
    intro place member
    obtain ⟨n, found⟩ := mem_iff_getElem?.mp member
    apply small n
    rw [placeAt, getD_eq_getElem?_getD, found]
    rfl
  have text : m.mappings.toList = [';'].intercalate (groups ⟨0, 0⟩ m.lines) := by
    simp [mappings, String.toList_intercalate, Function.comp_def]
  cases lines : m.lines with
  | nil =>
    -- A map without lines is written as one empty group.
    refine ⟨[[]], ?_, fun n => ?_⟩
    · rw [read?, text, lines]
      rfl
    · rw [placeAt, lines]
      cases n <;> rfl
  | cons line others =>
    have some_ : groups ⟨0, 0⟩ m.lines ≠ [] := by
      rw [lines]
      cases line <;> simp [groups]
    refine ⟨m.lines.map segmentsOf, ?_, fun n => ?_⟩
    · rw [read?, text, splitOn_intercalate _ (fun _ => notMem_of_mem_groups) some_]
      exact groups_read start held
    · rw [placeAt, getD_eq_getElem?_getD, getD_eq_getElem?_getD, getElem?_map]
      cases m.lines[n]? <;> rfl

theorem mem_flatten_iff {lines : List (List Segment)}
    (segments : ∀ n, lines.getD n [] = segmentsOf (m.placeAt n)) {segment : Segment} :
    segment ∈ lines.flatten ↔ ∃ n place, m.placeAt n = some place ∧ segment = .ofPlace place := by
  have single (n : Nat) : segment ∈ lines.getD n [] ↔
      ∃ place, m.placeAt n = some place ∧ segment = .ofPlace place := by
    rw [segments, segmentsOf, Option.mem_toList, Option.map_eq_some_iff]
    simp only [eq_comm]
  simp only [← single]
  constructor
  · intro member
    obtain ⟨line, inside, member⟩ := mem_flatten.mp member
    obtain ⟨n, found⟩ := mem_iff_getElem?.mp inside
    refine ⟨n, ?_⟩
    rw [getD_eq_getElem?_getD, found]
    exact member
  · rintro ⟨n, member⟩
    rw [getD_eq_getElem?_getD] at member
    cases found : lines[n]? with
    | none =>
      rw [found] at member
      cases member
    | some line =>
      rw [found] at member
      exact mem_flatten.mpr ⟨line, mem_of_getElem? found, member⟩

/-! ## Recording -/

/-- What is told to a map. -/
inductive Record where
  | source (source : Source)
  | line (generated : Nat) (place : Place)
  deriving Repr, DecidableEq

/-- The map with one record more. -/
def note (m : SourceMap) : Record → SourceMap
  | .source source => m.addSource source
  | .line generated place => m.mapLine generated place

/-- The map that is made by the records. -/
def recorded (records : List Record) : SourceMap :=
  records.foldl note {}

/-- The place that a record gives for the line `n`. -/
def Record.placeOf? (n : Nat) : Record → Option Place
  | .source _ => none
  | .line generated place => if generated = n then some place else none

/-- The place that was recorded last for the line `n`. -/
def lastPlace? (records : List Record) (n : Nat) : Option Place :=
  (records.filterMap (Record.placeOf? n)).getLast?

theorem getD_setLine (generated n : Nat) (place : Place) (lines : List (Option Place)) :
    (setLine generated place lines).getD n none =
      if generated = n then some place else lines.getD n none := by
  fun_induction setLine generated place lines generalizing n with
  | case1 => cases n <;> simp
  | case2 => cases n <;> simp
  | case3 generated place ih => cases n <;> simp_all
  | case4 generated place line lines ih => cases n <;> simp_all

theorem placeAt_note (m : SourceMap) (record : Record) (n : Nat) :
    (m.note record).placeAt n = (record.placeOf? n).or (m.placeAt n) := by
  cases record with
  | source source => rfl
  | line generated place =>
    rw [note, placeAt, mapLine, getD_setLine, Record.placeOf?]
    split <;> rfl

/-- What a map holds of a line is what was recorded last. -/
theorem placeAt_recorded (records : List Record) (n : Nat) :
    (recorded records).placeAt n = lastPlace? records n := by
  rw [recorded]
  induction records using List.reverseRecOn with
  | nil => rfl
  | append_singleton records record ih =>
    rw [foldl_append, foldl_cons, foldl_nil, placeAt_note, ih, lastPlace?,
      lastPlace?, filterMap_append]
    cases here : record.placeOf? n <;> simp [here]

theorem mem_of_placeAt_recorded {records : List Record}
    (held : (recorded records).placeAt n = some place) : Record.line n place ∈ records := by
  rw [placeAt_recorded] at held
  obtain ⟨record, inside, gives⟩ := mem_filterMap.mp (mem_of_getLast? held)
  cases record with
  | source source => cases gives
  | line generated own =>
    rw [Record.placeOf?, Option.ite_none_right_eq_some] at gives
    obtain ⟨rfl, same⟩ := gives
    cases same
    exact inside

/-- **A source map is read as what was recorded.** Sources and lines are told to a map in any order,
lines more than once or with gaps between them, and all sources and original lines fit into 63 bits.
Then the mappings can be read, and every generated line has exactly one segment, at the first
column, which points to the source and the line that were recorded last for it; a line of which
nothing was recorded has none. -/
theorem read?_mappings_recorded (records : List Record)
    (small : ∀ generated place, Record.line generated place ∈ records →
      place.source < 2 ^ 63 ∧ place.line < 2 ^ 63) :
    ∃ lines, read? (recorded records).mappings = some lines ∧
      ∀ n, lines.getD n [] = ((lastPlace? records n).map fun place =>
        Segment.mk 0 (some ⟨place.source, place.line, 0, none⟩)).toList := by
  have fits : ∀ n place, (recorded records).placeAt n = some place → place.IsSmall := by
    intro n place held
    exact small n place (mem_of_placeAt_recorded held)
  obtain ⟨lines, read, segments⟩ := exists_read?_mappings fits
  refine ⟨lines, read, fun n => ?_⟩
  rw [segments, placeAt_recorded]
  rfl

/-- Two sources, a gap, a line that is recorded twice, and the largest line, from which the next one
goes back. -/
theorem read?_mappings_recorded_back :
    let records : List Record := [.line 3 ⟨0, 2 ^ 63 - 1⟩, .source ⟨"./a.som", ""⟩, .line 1 ⟨1, 7⟩,
      .source ⟨"./b.som", ""⟩, .line 1 ⟨1, 2⟩, .line 4 ⟨1, 0⟩]
    (recorded records).mappings = ";ACEA;;AD6///////////PA;AC////////////PA" ∧
      ∃ lines, read? (recorded records).mappings = some lines ∧
        lines.getD 1 [] = [⟨0, some ⟨1, 2, 0, none⟩⟩] ∧ lines.getD 2 [] = [] ∧
        lines.getD 3 [] = [⟨0, some ⟨0, 2 ^ 63 - 1, 0, none⟩⟩] ∧
        lines.getD 4 [] = [⟨0, some ⟨1, 0, 0, none⟩⟩] := by
  intro records
  have small : ∀ generated place, Record.line generated place ∈ records →
      place.source < 2 ^ 63 ∧ place.line < 2 ^ 63 := by
    intro generated place member
    simp only [records, mem_cons, Record.line.injEq, reduceCtorEq, not_mem_nil,
      or_false, false_or] at member
    rcases member with ⟨_, rfl⟩ | ⟨_, rfl⟩ | ⟨_, rfl⟩ | ⟨_, rfl⟩ <;> decide
  obtain ⟨lines, read, segments⟩ := read?_mappings_recorded records small
  refine ⟨by decide +kernel, lines, read, ?_, ?_, ?_, ?_⟩
  all_goals
    rw [segments]
    rfl

end Tarkib.SourceMap
