import Mathlib.Data.List.Induction
import Tarkib.Proofs.Path.Components

/-!
# Ways from a directory, and back

A way from a directory to a path, both without dots, takes as many steps up as the directory has
components that the path does not share, and goes down along what is left of the path. Whoever goes
the way from the directory comes to the path.
-/

namespace Tarkib.Path

open Component List

/-- An absolute path without two dots. Single dots are no components of an absolute path. -/
structure IsStraight (p : Path) : Prop where
  absolute : p.isAbsolute = true
  noUp : .up ∉ p.components

/-! ## Joined paths -/

theorem segments_append (cs ds : List Char) :
    segments (cs ++ '/' :: ds) = segments cs ++ segments ds := by
  fun_induction segments cs with
  | case1 => exact segments_slash ds
  | case2 cs ih => rw [cons_append, segments_slash, ih, cons_append]
  | case3 c cs ne none ih => exact absurd none (segments_ne_nil cs)
  | case4 c cs ne first others found ih =>
    rw [found, cons_append] at ih
    simp only [cons_append, segments, if_neg ne, ih]

/-- A path that is joined to an absolute path adds its own components. -/
theorem components_join {p : Path} {q : String} (absolute : p.isAbsolute = true)
    (relative : (Path.mk q).isAbsolute = false) :
    (p.join q).components = p.components ++ (segments q.toList).filterMap ofSegment? := by
  obtain ⟨cs, spelled⟩ : ∃ cs, p.text.toList = '/' :: cs := by
    rw [isAbsolute, beq_iff_eq, head?_eq_some_iff] at absolute
    exact absolute
  have some : p.text.isEmpty = false := by
    rw [← Bool.not_eq_true, String.isEmpty_iff]
    intro empty
    rw [empty] at spelled
    cases spelled
  -- In both cases a slash stands between the two texts.
  obtain ⟨front, joined, own⟩ : ∃ front, (p.join q).text.toList = front ++ '/' :: q.toList ∧
      (segments p.text.toList).filterMap ofSegment? = (segments front).filterMap ofSegment? := by
    rw [join, relative, some]
    by_cases ends : p.text.toList.getLast? = Option.some '/'
    · obtain ⟨front, own⟩ := getLast?_eq_some_iff.mp ends
      refine ⟨front, by simp [own], ?_⟩
      rw [own, segments_append, filterMap_append]
      simp [segments, ofSegment?]
    · exact ⟨p.text.toList, by simp [ends], rfl⟩
  have start : (p.join q).isAbsolute = true := by
    rw [join, relative, some, if_neg Bool.false_ne_true]
    split <;> simp [isAbsolute, spelled]
  rw [components_of_isAbsolute start, components_of_isAbsolute absolute, joined, segments_append,
    filterMap_append, own, cons_append]

/-! ## Ways -/

theorem wayBetween_nil (parted : Bool) (base : List Component) :
    wayBetween parted [] base = some (List.replicate base.length .up) := by
  induction base generalizing parted with
  | nil => rfl
  | cons b base ih => rw [wayBetween, ih, Option.map_some, length_cons, replicate_succ]

/-- A way goes up and then down. -/
theorem exists_wayBetween (target : List Component) {base : List Component}
    (straight : ∀ c ∈ base, c ≠ .here ∧ c ≠ .up) :
    ∃ common front behind, target = common ++ front ∧ base = common ++ behind ∧
      wayBetween false target base = some (List.replicate behind.length .up ++ front) := by
  induction target generalizing base with
  | nil => exact ⟨[], [], base, rfl, rfl, by rw [wayBetween_nil, append_nil]⟩
  | cons t target ih =>
    cases base with
    | nil => exact ⟨[], t :: target, [], rfl, rfl, by rw [wayBetween]; rfl⟩
    | cons b base =>
      by_cases same : t = b
      · subst same
        obtain ⟨common, front, behind, rfl, rfl, way⟩ :=
          ih fun c member => straight c (mem_cons_of_mem _ member)
        exact ⟨t :: common, front, behind, rfl, rfl, by simpa [wayBetween] using way⟩
      · refine ⟨[], t :: target, b :: base, rfl, rfl, ?_⟩
        have step := straight b mem_cons_self
        cases b <;> simp_all [wayBetween]

theorem dropInnerDots_of_notMem {parts : List Component} (free : .here ∉ parts) :
    dropInnerDots parts = parts := by
  cases parts with
  | nil => rfl
  | cons c cs =>
    rw [dropInnerDots, filter_eq_self.mpr]
    intro d member
    rw [bne_iff_ne]
    rintro rfl
    exact free (mem_cons_of_mem _ member)

/-! ## Walking -/

theorem foldl_stepTo_names (location : List Component) {parts : List Component}
    (straight : ∀ c ∈ parts, c ≠ .here ∧ c ≠ .up) :
    parts.foldl stepTo location = location ++ parts := by
  induction parts generalizing location with
  | nil => exact (append_nil location).symm
  | cons c parts ih =>
    have here : stepTo location c = location ++ [c] := by
      have := straight c mem_cons_self
      cases c <;> simp_all [stepTo]
    rw [foldl_cons, here, ih _ fun d member => straight d (mem_cons_of_mem _ member),
      append_assoc, singleton_append]

theorem foldl_stepTo_ups (location : List Component) {names : List Component}
    (noRoot : .root ∉ names) :
    (List.replicate names.length .up).foldl stepTo (location ++ names) = location := by
  induction names using List.reverseRecOn with
  | nil => simp
  | append_singleton names c ih =>
    rw [mem_append, mem_singleton, not_or] at noRoot
    have back : stepTo (location ++ (names ++ [c])) .up = location ++ names := by
      rw [← append_assoc]
      cases c <;> simp_all [stepTo]
    rw [length_append, length_singleton, replicate_succ, foldl_cons, back, ih noRoot.1]

/-- Normalizing walks it: each step up takes back one component of the directory. -/
theorem normalParts_append_way {common front behind : List Component} (noRoot : .root ∉ behind)
    (base : ∀ c ∈ common ++ behind, c ≠ .here ∧ c ≠ .up)
    (target : ∀ c ∈ front, c ≠ .here ∧ c ≠ .up) :
    normalParts (common ++ behind ++ (List.replicate behind.length .up ++ front)) =
      common ++ front := by
  rw [normalParts, foldl_append, foldl_stepTo_names [] base, nil_append,
    foldl_append, foldl_stepTo_ups common noRoot, foldl_stepTo_names common target]

namespace IsStraight

variable {p : Path} (straight : p.IsStraight)

include straight

theorem exists_names : ∃ names, p.components = .root :: names ∧
    ∀ c ∈ names, c.IsStep ∧ c ≠ .root ∧ c ≠ .here ∧ c ≠ .up := by
  have start := components_of_isAbsolute straight.absolute
  refine ⟨_, start, ?_⟩
  intro c member
  have step : c.IsStep := by
    apply isStep_of_mem_tail straight.absolute
    rw [start]
    exact member
  refine ⟨step, ?_, ?_, ?_⟩
  · rintro rfl
    exact not_isStep_root step
  · rintro rfl
    exact absurd step.2 (by decide)
  · rintro rfl
    apply straight.noUp
    rw [start]
    exact mem_cons_of_mem _ member

theorem normalize_eq : p.normalize = ofComponents p.components := by
  obtain ⟨names, start, steps⟩ := straight.exists_names
  have plain : ∀ c ∈ p.components, c ≠ .here ∧ c ≠ .up := by
    rw [start]
    exact forall_mem_cons.mpr ⟨by simp, fun c member => (steps c member).2.2⟩
  rw [normalize, normalParts, foldl_stepTo_names [] plain, nil_append]

end IsStraight

end Tarkib.Path
