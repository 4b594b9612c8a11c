import Tarkib.Proofs.Path.Normalize

/-!
# Files below a directory, and their extensions

Let a way that consists of names be joined to a directory, and the path be given another extension.
Two such paths become the same path exactly if they lie in the same directory and their names are
the same up to the extension.
-/

namespace Tarkib.Path

open Component List

variable {name : String} {p : Path}

/-! ## Stretches at the start of a path -/

def frontOf : List (List Char) → List Component
  | [] :: more => .root :: more.filterMap ofSegment?
  | ['.'] :: more => .here :: more.filterMap ofSegment?
  | ss => ss.filterMap ofSegment?

theorem isAbsolute_iff_segments :
    p.isAbsolute = true ↔ ∃ s more, segments p.text.toList = [] :: s :: more := by
  unfold isAbsolute
  cases p.text.toList with
  | nil => simp [segments]
  | cons c cs =>
    by_cases slash : c = '/'
    · subst slash
      obtain ⟨s, more, spelled⟩ := exists_cons_of_ne_nil (segments_ne_nil cs)
      simp [segments_slash, spelled]
    · have longer : ∀ s more, segments (c :: cs) ≠ [] :: s :: more := by
        intro s more
        rw [segments, if_neg slash]
        split <;> simp
      simp [slash, longer]

theorem components_of_relative {s : List Char} {more : List (List Char)}
    (spelled : segments p.text.toList = s :: more) (named : s ≠ []) :
    p.components = frontOf (s :: more) := by
  have relative : p.isAbsolute = false := by
    rw [← Bool.not_eq_true, isAbsolute_iff_segments, spelled]
    rintro ⟨t, others, same⟩
    exact named (List.cons.inj same).1
  simp only [components, relative, Bool.false_eq_true, if_false, spelled]
  unfold frontOf
  split <;> simp_all

theorem components_of_segments {front rest : List (List Char)}
    (spelled : segments p.text.toList = front ++ rest) (some : front ≠ []) (more : rest ≠ []) :
    p.components = frontOf front ++ rest.filterMap ofSegment? := by
  obtain ⟨s, front, rfl⟩ := exists_cons_of_ne_nil some
  by_cases first : s = []
  · subst first
    have absolute : p.isAbsolute = true := by
      obtain ⟨t, others, longer⟩ :=
        exists_cons_of_ne_nil (append_ne_nil_of_right_ne_nil front more)
      exact isAbsolute_iff_segments.mpr ⟨t, others, by rw [spelled, cons_append, longer]⟩
    rw [components_of_isAbsolute absolute, spelled, cons_append,
      filterMap_cons_none rfl, filterMap_append]
    rfl
  · rw [components_of_relative spelled first]
    by_cases dot : s = ['.']
    · simp [dot, frontOf]
    · have plain (ss : List (List Char)) : frontOf (s :: ss) = (s :: ss).filterMap ofSegment? := by
        unfold frontOf
        split <;> simp_all
      rw [plain front, ← filterMap_append]
      exact plain (front ++ rest)

/-! ## Names below a directory -/

def stretches (names : List String) : List (List Char) :=
  names.map String.toList

theorem map_name_injective : Function.Injective (List.map Component.name) :=
  map_injective_iff.mpr fun _ _ => Component.name.inj

theorem ne_of_isStep (step : (Component.name name).IsStep) :
    name.toList ≠ [] ∧ name.toList ≠ ['.'] := by
  have read := step.2
  rw [Component.text] at read
  constructor <;> intro same <;> rw [same] at read <;> cases read

section Names

variable {names : List String} (steps : ∀ name ∈ names, (Component.name name).IsStep)
include steps

theorem filterMap_stretches : (stretches names).filterMap ofSegment? = names.map .name := by
  rw [stretches, filterMap_map, ← filterMap_eq_map]
  exact filterMap_congr fun name member => (steps name member).2

theorem notMem_stretches : ∀ s ∈ stretches names, '/' ∉ s := by
  intro s member
  obtain ⟨name, inside, rfl⟩ := mem_map.mp member
  exact (steps name inside).1

theorem segments_intercalate (some : names ≠ []) :
    segments (String.intercalate "/" names).toList = stretches names := by
  have joined : (String.intercalate "/" names).toList = joinSegments (stretches names) := by
    simp [joinSegments_eq_intercalate, String.toList_intercalate, stretches]
  rw [joined, segments_joinSegments (by simpa [stretches] using some) (notMem_stretches steps)]

end Names

/-- The text of the path is the stretches `front` and names behind them. -/
structure Spells (p : Path) (front : List (List Char)) (names : List String) : Prop where
  some : names ≠ []
  steps : ∀ name ∈ names, (Component.name name).IsStep
  spelled : segments p.text.toList = front ++ stretches names

namespace Spells

variable {q : Path} {front : List (List Char)} {names names' : List String}

theorem components (spells : p.Spells front names) :
    p.components = frontOf front ++ names.map .name := by
  obtain ⟨some, steps, spelled⟩ := spells
  rw [← filterMap_stretches steps]
  have more : stretches names ≠ [] := by simpa [stretches] using some
  by_cases first : front = []
  · subst first
    obtain ⟨name, others, rfl⟩ := exists_cons_of_ne_nil some
    obtain ⟨named, noDot⟩ := ne_of_isStep (steps name mem_cons_self)
    rw [components_of_relative spelled named]
    unfold frontOf
    split <;> simp_all [stretches]
  · exact components_of_segments spelled first more

theorem fileName? (spells : p.Spells front names) (last : names.getLast? = .some name) :
    p.fileName? = .some name := by
  obtain ⟨inner, rfl⟩ := getLast?_eq_some_iff.mp last
  rw [Path.fileName?, spells.components]
  simp

theorem isAbsolute_iff (spells : p.Spells front names) :
    p.isAbsolute = true ↔ (frontOf front).head? = .some .root := by
  obtain ⟨name, others, rfl⟩ := exists_cons_of_ne_nil spells.some
  rw [Path.isAbsolute_iff, spells.components, head?_append]
  cases (frontOf front).head? <;> simp

theorem same_iff (first : p.Spells front names) (second : q.Spells front names') :
    p.same q = true ↔ names = names' := by
  rw [Path.same_iff, first.components, second.components, append_cancel_left_eq]
  exact map_name_injective.eq_iff

end Spells

theorem components_eq_frontOf (some : p.text ≠ "") :
    p.components = frontOf (segments p.text.toList) := by
  obtain ⟨s, more, spelled⟩ := exists_cons_of_ne_nil (segments_ne_nil p.text.toList)
  by_cases first : s = []
  · subst first
    have absolute : p.isAbsolute = true := by
      cases chars : p.text.toList with
      | nil => exact absurd (String.toList_eq_nil_iff.mp chars) some
      | cons c cs =>
        rw [chars, segments] at spelled
        split at spelled
        · next slash => simp [isAbsolute, chars, slash]
        · split at spelled <;> cases spelled
    rw [components_of_isAbsolute absolute, spelled]
    rfl
  · rw [components_of_relative spelled first, spelled]

/-- Joining adds the names to what stands for the directory. -/
theorem exists_spells_join (directory : Path) :
    ∃ front, directory.components = frontOf front ∧ (∀ s ∈ front, '/' ∉ s) ∧
      ∀ {way : Path} {names}, way.Spells [] names →
        (directory.join way.text).Spells front names := by
  have relative {way : Path} {names : List String} (spells : way.Spells [] names) :
      (Path.mk way.text).isAbsolute = false := by
    rw [← Bool.not_eq_true, spells.isAbsolute_iff]
    exact nofun
  by_cases empty : directory.text = ""
  · obtain ⟨text⟩ := directory
    obtain rfl := empty
    refine ⟨[], rfl, by simp, fun {way names} spells => ⟨spells.some, spells.steps, ?_⟩⟩
    simp [join, relative spells, spells.spelled]
  · by_cases slash : directory.text.toList.getLast? = some '/'
    · obtain ⟨front, ends⟩ := getLast?_eq_some_iff.mp slash
      have read : segments directory.text.toList = segments front ++ [[]] := by
        rw [ends, segments_append]
        rfl
      refine ⟨segments front, ?_, fun s => notMem_of_mem_segments,
        fun {way names} spells => ⟨spells.some, spells.steps, ?_⟩⟩
      · rw [components_of_segments read (segments_ne_nil front) (by simp)]
        exact append_nil _
      · simp [join, relative spells, ends, segments_append, spells.spelled]
    · refine ⟨segments directory.text.toList, components_eq_frontOf empty,
        fun s => notMem_of_mem_segments, fun {way names} spells => ⟨spells.some, spells.steps, ?_⟩⟩
      simp [join, relative spells, empty, slash, segments_append, spells.spelled]

/-! ## Extensions -/

theorem prefix_splitExtension (name : String) :
    (splitExtension name).1.toList <+: name.toList := by
  unfold splitExtension
  dsimp only
  split
  · exact prefix_refl _
  · exact prefix_refl _
  · next dot stem rest found =>
      rw [String.toList_ofList, ← reverse_suffix, reverse_reverse]
      exact (suffix_cons dot stem).trans (found ▸ dropWhile_suffix _)

theorem isStep_renamed (step : (Component.name name).IsStep) :
    (Component.name ((splitExtension name).1 ++ "." ++ "js")).IsStep := by
  have spelled : ((splitExtension name).1 ++ "." ++ "js").toList =
      (splitExtension name).1.toList ++ ['.', 'j', 's'] := by
    simp
  rw [IsStep, Component.text, spelled]
  constructor
  · rw [mem_append, not_or]
    exact ⟨fun member => step.1 ((prefix_splitExtension name).subset member), by decide⟩
  · -- It is longer than two dots.
    have long : 2 < ((splitExtension name).1.toList ++ ['.', 'j', 's']).length := by simp
    unfold ofSegment?
    split
    · next short => simp [short] at long
    · next short => simp [short] at long
    · next short => simp [short] at long
    · rw [← spelled, String.ofList_toList]

/-- Another extension changes the last name only. -/
theorem Spells.withExtension {front : List (List Char)} {names : List String}
    (spells : p.Spells front (names ++ [name])) (free : ∀ s ∈ front, '/' ∉ s) :
    (p.withExtension "js").Spells front (names ++ [(splitExtension name).1 ++ "." ++ "js"]) := by
  have step := spells.steps name (by simp)
  have inner : ∀ part ∈ names, (Component.name part).IsStep :=
    fun part member => spells.steps part (mem_append_left _ member)
  have named : p.fileName? = .some name := spells.fileName? getLast?_concat
  have spelled : segments p.text.toList = front ++ stretches names ++ [name.toList] := by
    rw [spells.spelled]
    simp [stretches]
  have turned : dropIdle (!p.isAbsolute) (segments p.text.toList).reverse =
      name.toList :: (front ++ stretches names).reverse := by
    obtain ⟨some, noDot⟩ := ne_of_isStep step
    have counted (start : Bool) : counts start name.toList = true := by
      simp [counts, some, noDot]
    rw [spelled, reverse_append, reverse_singleton, singleton_append, dropIdle, counted, if_pos rfl]
  refine ⟨by simp, ?_, ?_⟩
  · rw [forall_mem_append]
    exact ⟨inner, by simpa using isStep_renamed step⟩
  · rw [Path.withExtension, named, turned]
    dsimp only
    rw [String.toList_ofList, reverse_cons, reverse_reverse,
      segments_joinSegments (by simp)]
    · simp [stretches]
    · intro s member
      rcases mem_append.mp member with before | last
      · rcases mem_append.mp before with first | later
        · exact free s first
        · exact notMem_stretches inner s later
      · rw [mem_singleton.mp last]
        exact (isStep_renamed step).1

theorem exists_spells_withExtension_join (directory : Path) :
    ∃ front, directory.components = frontOf front ∧ ∀ {names name},
      (∀ part ∈ names ++ [name], (Component.name part).IsStep) →
        ((directory.join (String.intercalate "/" (names ++ [name]))).withExtension "js").Spells
          front (names ++ [(splitExtension name).1 ++ "." ++ "js"]) := by
  obtain ⟨front, own, free, spells⟩ := exists_spells_join directory
  refine ⟨front, own, fun {names name} steps => ?_⟩
  have way : (Path.mk (String.intercalate "/" (names ++ [name]))).Spells [] (names ++ [name]) :=
    ⟨by simp, steps, segments_intercalate steps (by simp)⟩
  exact (spells way).withExtension free

end Tarkib.Path
