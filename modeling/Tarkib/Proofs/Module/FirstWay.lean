import Mathlib.Data.List.Induction
import Tarkib.Module.Registry
import Tarkib.Proofs.Path.Order

/-!
# First ways through a registry

A way through a registry starts with any registered module and goes on along dependencies, without
coming to a module twice. At each place there are choices in an order. Of two different ways to one
module, one turns off earlier than the other, and the first way is the one that no other turns off
earlier from (`IsFirstWay`).

Ways are written with the last module first, and a module is given by the components of its path.
-/

namespace Tarkib

open List

namespace Registry

variable {r : Registry} {way shared : List Key} {k t next : Key}

/-! ## Ways -/

variable (r) in
/-- The registered modules that a module depends on, in order. -/
def successors (k : Key) : List Key :=
  match r.modules.find? fun m => m.id.components = k with
  | none => []
  | some m => (m.localTargets.filter (among (r.modules.map Module.id))).map Path.components

variable (r) in
/-- The modules that a way can go on with, in order. -/
def choices : List Key → List Key
  | [] => r.modules.map fun m => m.id.components
  | k :: _ => r.successors k

theorem map_targets (p : Path) : (r.targets p).map Path.components = r.successors p.components := by
  have found : (fun m : Module => m.id.same p) =
      fun m => decide (m.id.components = p.components) := by
    funext m
    rw [Bool.eq_iff_iff, Path.same_iff, decide_eq_true_eq]
  unfold targets successors
  rw [found]
  cases r.modules.find? fun m => decide (m.id.components = p.components) <;> rfl

theorem choices_of_head (head : way.head? = some k) : r.choices way = r.successors k := by
  cases way with
  | nil => cases head
  | cons last way =>
    cases head
    rfl

variable (r) in
/-- A way along dependencies that comes to no module twice. -/
def IsWay : List Key → Prop
  | [] => True
  | k :: way => k ∈ r.choices way ∧ k ∉ way ∧ IsWay way

theorem IsWay.nodup (isWay : r.IsWay way) : way.Nodup := by
  induction way with
  | nil => exact nodup_nil
  | cons k way ih => exact nodup_cons.mpr ⟨isWay.2.1, ih isWay.2.2⟩

theorem IsWay.notMem_of_head {more : List Key} (isWay : r.IsWay (more ++ way))
    (longer : more ≠ []) (head : (more ++ way).head? = some k) : k ∉ way := by
  cases more with
  | nil => exact absurd rfl longer
  | cons last more =>
    cases head
    exact fun on => isWay.2.1 (mem_append_right more on)

theorem successors_subset (k : Key) :
    r.successors k ⊆ r.modules.map fun m => m.id.components := by
  unfold successors
  split
  · exact nil_subset _
  · intro target member
    obtain ⟨path, listed, rfl⟩ := mem_map.mp member
    have registered := Path.any_same_iff.mp (mem_filter.mp listed).2
    rw [map_map] at registered
    exact registered

theorem choices_subset (way : List Key) :
    r.choices way ⊆ r.modules.map fun m => m.id.components := by
  cases way with
  | nil => exact List.Subset.refl _
  | cons k way => exact successors_subset k

theorem IsWay.subset (isWay : r.IsWay way) :
    way ⊆ r.modules.map fun m => m.id.components := by
  induction way with
  | nil => exact nil_subset _
  | cons k way ih => exact cons_subset.mpr ⟨choices_subset way isWay.1, ih isWay.2.2⟩

variable (r) in
/-- The way can be continued up to a module. -/
def Leads (way : List Key) (k : Key) : Prop :=
  ∃ more, r.IsWay (more ++ way) ∧ (more ++ way).head? = some k

/-- A search in depth has seen everything that the earlier choices lead to before it makes a later
one. -/
theorem mem_of_leads {seen : List Key}
    (closed : ∀ k ∈ seen, k ∉ way → r.successors k ⊆ seen) (here : t ∈ seen)
    (leads : r.Leads (t :: way) k) : k ∈ seen := by
  obtain ⟨more, isWay, head⟩ := leads
  induction more generalizing k with
  | nil =>
    cases head
    exact here
  | cons last more ih =>
    cases head
    rw [cons_append, IsWay] at isWay
    obtain ⟨chosen, _, earlier⟩ := isWay
    -- The module before the last one is off the way, and was seen.
    obtain ⟨before, others, rest, tail⟩ :
        ∃ before others, more ++ t :: way = before :: others ∧ way <:+ others := by
      cases more with
      | nil => exact ⟨t, way, rfl, suffix_rfl⟩
      | cons first more => exact ⟨first, more ++ t :: way, rfl, (suffix_cons t way).trans
          (suffix_append more (t :: way))⟩
    have seenBefore := ih earlier (by rw [rest]; rfl)
    rw [rest] at chosen earlier
    exact closed before seenBefore (fun on => earlier.2.1 (tail.mem on)) chosen

/-! ## The order of choices -/

/-- One choice comes before another one. -/
def Earlier (choices : List Key) (t k : Key) : Prop :=
  ∃ front back, choices = front ++ t :: back ∧ k ∉ front ++ [t]

theorem Earlier.mem_of_split {choices front back : List Key} (earlier : Earlier choices t k)
    (split : choices = front ++ k :: back) : t ∈ front := by
  obtain ⟨front', back', split', absent⟩ := earlier
  rw [split] at split'
  rcases append_eq_append_iff.mp split' with ⟨between, rfl, rest⟩ | ⟨between, rfl, rest⟩
  · -- The later choice would be among the earlier ones.
    cases between with
    | nil | cons first between =>
      cases rest
      simp at absent
  · cases between with
    | nil =>
      cases rest
      simp at absent
    | cons first between =>
      cases rest
      simp

/-- Of two choices one is earlier. -/
theorem earlier_or_earlier {choices : List Key} (first : t ∈ choices) (second : k ∈ choices)
    (different : t ≠ k) : Earlier choices t k ∨ Earlier choices k t := by
  induction choices with
  | nil => cases first
  | cons c choices ih =>
    by_cases isFirst : c = t
    · subst isFirst
      exact .inl ⟨[], choices, rfl, by simpa using different.symm⟩
    · by_cases isSecond : c = k
      · subst isSecond
        exact .inr ⟨[], choices, rfl, by simpa using different⟩
      · have first' := (mem_cons.mp first).resolve_left (Ne.symm isFirst)
        have second' := (mem_cons.mp second).resolve_left (Ne.symm isSecond)
        rcases ih first' second' with ⟨front, back, rfl, absent⟩ | ⟨front, back, rfl, absent⟩
        · exact .inl ⟨c :: front, back, rfl, by simpa [Ne.symm isSecond] using absent⟩
        · exact .inr ⟨c :: front, back, rfl, by simpa [Ne.symm isFirst] using absent⟩

/-! ## First ways -/

variable (r) in
/-- No way to a module turns off earlier. -/
def Foremost (k : Key) (way : List Key) : Prop :=
  ∀ next shared, next :: shared <:+ way → ∀ t, Earlier (r.choices shared) t next →
    ¬ r.Leads (t :: shared) k

theorem foremost_nil : r.Foremost k [] := by
  intro next shared within
  simp at within

theorem foremost_cons :
    r.Foremost k (next :: way) ↔
      (∀ t, Earlier (r.choices way) t next → ¬ r.Leads (t :: way) k) ∧ r.Foremost k way := by
  constructor
  · intro foremost
    refine ⟨foremost next way suffix_rfl, ?_⟩
    intro other shared within
    exact foremost other shared (within.trans (suffix_cons next way))
  · rintro ⟨here, foremost⟩ other shared within
    rcases suffix_cons_iff.mp within with same | within
    · cases same
      exact here
    · exact foremost other shared within

variable (r) in
/-- The way to a module that no other way turns off earlier from. -/
structure IsFirstWay (k : Key) (way : List Key) : Prop where
  isWay : r.IsWay way
  head : way.head? = some k
  foremost : r.Foremost k way

theorem IsFirstWay.not_earlier {more more' : List Key}
    (first : r.IsFirstWay k (more ++ next :: shared)) (isWay : r.IsWay (more' ++ t :: shared))
    (head : (more' ++ t :: shared).head? = some k) : ¬ Earlier (r.choices shared) t next := by
  intro earlier
  exact first.foremost next shared (suffix_append _ _) t earlier ⟨more', isWay, head⟩

theorem IsWay.mem_choices {more : List Key} (isWay : r.IsWay (more ++ next :: shared)) :
    next ∈ r.choices shared := by
  induction more with
  | nil => exact isWay.1
  | cons last more ih => exact ih isWay.2.2

/-- There is one first way to each module. -/
theorem IsFirstWay.unique {other : List Key} (first : r.IsFirstWay k way)
    (second : r.IsFirstWay k other) : way = other := by
  -- Two ways that share an end are followed from there on.
  have grow (shared : List Key) : ∀ more more' : List Key, r.IsFirstWay k (more ++ shared) →
      r.IsFirstWay k (more' ++ shared) → more = more' := by
    intro more
    induction more using List.reverseRecOn generalizing shared with
    | nil =>
      intro more' first second
      cases more' with
      | nil => rfl
      | cons last more' =>
        have absent := second.isWay.notMem_of_head (by simp) second.head
        exact absurd (mem_of_head? first.head) absent
    | append_singleton more next ih =>
      intro more' first second
      rcases eq_nil_or_concat more' with rfl | ⟨more', next', rfl⟩
      · have absent := first.isWay.notMem_of_head (by simp) first.head
        exact absurd (mem_of_head? second.head) absent
      · rw [← append_cons] at first
        rw [concat_eq_append, ← append_cons] at second
        by_cases same : next = next'
        · subst same
          rw [ih (next :: shared) more' first second, concat_eq_append]
        · rcases earlier_or_earlier first.isWay.mem_choices second.isWay.mem_choices same with
            earlier | earlier
          · exact absurd earlier (second.not_earlier first.isWay first.head)
          · exact absurd earlier (first.not_earlier second.isWay second.head)
  simpa using grow [] way other (by simpa using first) (by simpa using second)

end Registry

end Tarkib
