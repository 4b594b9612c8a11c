import Mathlib.Data.List.Perm.Subperm
import Tarkib.Proofs.Loader.Run
import Tarkib.Proofs.Module.Order

/-!
# Walks whose questions are answered

A walk is finished by a function that loads the modules that the walk needs. If every answer is the
module that stands at the path (`Served`), then the walk ends as a walk through these modules ends:
it is over, or it has met a circle that is an error (`Ends`). That it ends at all needs enough
answers. There are enough of them if all files that modules refer to are among `known` ones, because
no file is asked for twice (`Within`).
-/

namespace Tarkib.Walk

open List

variable {policy : CyclePolicy} {circles circles' : List (List Path)} {M : ModuleMap}
  {known : List Key} {entry : Module} {w next w'' : Walk} {path : Path}

/-- A path that was asked for, and the answer. -/
abbrev Call := Path × Except Error Module

/-- The answer is the module that stands at the path. -/
def Served (M : ModuleMap) (call : Call) : Prop :=
  ∃ m, M.at? call.1 = some m ∧ call.2 = .ok m

instance (M : ModuleMap) (call : Call) : Decidable (Served M call) :=
  decidable_of_iff (∃ m ∈ M.at? call.1, call.2.toOption = some m) <| by
    refine exists_congr fun m => and_congr_right fun _ => ?_
    cases call.2 <;> simp [Except.toOption]

section Logged

variable {σ : Type} (load : σ → Path → σ × Except Error Module) (refuse : σ → σ)

/-- Loads the module at a path and notes the call. -/
def logged (s : σ × List Call) (path : Path) : (σ × List Call) × Except Error Module :=
  (((load s.1 path).1, s.2 ++ [(path, (load s.1 path).2)]), (load s.1 path).2)

/-- Refusing a circle, which loads nothing. -/
def loggedRefusal (s : σ × List Call) : σ × List Call :=
  (refuse s.1, s.2)

/-- What was asked and answered can be noted on the side without any change to the walk. -/
theorem finish_logged (policy : CyclePolicy) (entry : Module) (fuel : Nat) (w : Walk)
    (s : σ × List Call) :
    (finish policy (logged load) (loggedRefusal refuse) entry fuel w s).1.1 =
        (finish policy load refuse entry fuel w s.1).1 ∧
      (finish policy (logged load) (loggedRefusal refuse) entry fuel w s).2 =
        (finish policy load refuse entry fuel w s.1).2 := by
  induction fuel generalizing w s with
  | zero =>
    unfold finish
    split <;> exact ⟨rfl, rfl⟩
  | succ fuel ih =>
    unfold finish
    split
    · exact ⟨rfl, rfl⟩
    · exact ⟨rfl, rfl⟩
    · next path next _ =>
        rcases answer : load s.1 path with ⟨s', e | m⟩
        · simp [logged, answer]
        · simp only [logged, answer]
          exact ih _ (s', _)

theorem log_subset_finish (policy : CyclePolicy) (entry : Module) (fuel : Nat) (w : Walk)
    (s : σ × List Call) :
    s.2 ⊆ (finish policy (logged load) (loggedRefusal refuse) entry fuel w s).1.2 := by
  refine Loader.finish_induction (P := fun s' : σ × List Call => s.2 ⊆ s'.2) ?_ ?_ entry fuel w
    (List.Subset.refl _)
  · intro s' path subset
    exact List.Subset.trans subset (subset_append_left _ _)
  · intro s' subset
    exact subset

end Logged

/-! ## Enough answers -/

/-- The files that a module refers to are known. -/
def Tied (known : List Key) (m : Module) : Prop :=
  ∀ target ∈ m.localTargets, target.components ∈ known

/-- The walk stays within known files: those that it has asked for are different ones of them, and
so are those that are still to be followed. -/
structure Within (known : List Key) (w : Walk) : Prop where
  distinct : (w.visited.map Path.components).Nodup
  visited : w.visited.map Path.components ⊆ known
  ahead : ∀ f ∈ w.way, ∀ d ∈ f.rest, ∀ target, d.target = .file target →
    target.components ∈ known

namespace Within

variable {w' : Walk} {m : Module} (within : Within known w)
include within

/-- A walk asks for no more files than are known. -/
theorem length_le : w.visited.length ≤ known.length := by
  rw [← length_map (f := Path.components)]
  exact (subperm_of_subset within.distinct within.visited).length_le

theorem of_way (visited : w'.visited = w.visited)
    (way : ∀ f ∈ w'.way, ∃ g ∈ w.way, f.rest <:+ g.rest) : Within known w' := by
  refine ⟨visited ▸ within.distinct, visited ▸ within.visited, ?_⟩
  intro f member d listed target leads
  obtain ⟨g, member, suffix⟩ := way f member
  exact within.ahead g member d (suffix.mem listed) target leads

theorem needs (needs : Needs w path next) : Within known next := by
  obtain ⟨m, d, rest, way, top, leads, off, fresh, rfl⟩ := needs
  have absent : path.components ∉ w.visited.map Path.components := by
    rw [← Path.any_same_iff, fresh]
    exact Bool.false_ne_true
  refine ⟨nodup_cons.mpr ⟨absent, within.distinct⟩, ?_, ?_⟩
  · refine cons_subset.mpr ⟨?_, within.visited⟩
    exact within.ahead ⟨m, d :: rest⟩ (by simp [top]) d mem_cons_self path leads
  · intro f member e listed target leads
    rcases mem_cons.mp member with rfl | member
    · exact within.ahead ⟨m, d :: rest⟩ (by simp [top]) e (mem_cons_of_mem _ listed) target
        leads
    · exact within.ahead f (by simp [top, member]) e listed target leads

theorem enter (tied : Tied known m) : Within known (w.enter m) := by
  refine ⟨within.distinct, within.visited, ?_⟩
  intro f member d listed target leads
  rcases mem_cons.mp member with rfl | member
  · exact tied target (Module.mem_localTargets.mpr ⟨d, listed, leads⟩)
  · exact within.ahead f member d listed target leads

theorem runs (runs : Runs (.ofList []) policy w circles w') : Within known w' := by
  induction runs with
  | refl => exact within
  | head goes _ ih =>
    refine ih ?_
    cases goes with
    | leave top =>
      refine within.of_way rfl fun f member => ⟨f, ?_, suffix_rfl⟩
      exact top ▸ mem_cons_of_mem _ member
    | @library m d rest way name top leads | @circle m d rest way target allowed top leads on
    | @known m d rest way target top leads off visited =>
      refine within.of_way rfl fun f member => ?_
      rcases mem_cons.mp member with rfl | member
      · exact ⟨⟨m, d :: rest⟩, by simp [top], suffix_cons d rest⟩
      · exact ⟨f, by simp [top, member], suffix_rfl⟩
    | enter top leads off fresh here => cases here

end Within

theorem Needs.length_visited (needs : Needs w path next) :
    next.visited.length = w.visited.length + 1 := by
  obtain ⟨m, d, rest, way, top, leads, off, fresh, rfl⟩ := needs
  rfl

theorem Runs.visited_suffix {w w' : Walk} (runs : Runs M policy w circles w') :
    w.visited <:+ w'.visited := by
  induction runs with
  | refl => exact suffix_rfl
  | head goes _ ih => exact goes.visited_suffix.trans ih

theorem Within.advance (within : Within known w) (pause : Walk.advance policy w = .need path next) :
    Within known next ∧ w.visited.length < next.visited.length := by
  obtain ⟨circles, w', runs, fits⟩ := fits_advance policy w
  rw [pause] at fits
  have grown := (runs (.ofList [])).visited_suffix.length_le
  refine ⟨(within.runs (runs _)).needs fits, ?_⟩
  rw [fits.length_visited]
  omega

/-! ## How a walk ends -/

/-- A walk that is over returns its graph, and one that has met a circle returns an error. -/
def Ends (M : ModuleMap) (policy : CyclePolicy) (entry : Module) (w : Walk)
    (result : Except Error Graph) : Prop :=
  ∃ circles w', Runs M policy w circles w' ∧
    (w'.way = [] ∧ result = .ok (w'.graph entry) ∨
      ∃ ids, Stops policy w' ids ∧ result = .error (.circle ids))

theorem Ends.of_runs {w w' : Walk} {result : Except Error Graph} (runs : Runs M policy w circles w')
    (ends : Ends M policy entry w' result) : Ends M policy entry w result := by
  obtain ⟨more, last, later, cases⟩ := ends
  exact ⟨_, last, runs.trans later, cases⟩

/-- A walk whose questions are answered ends as a walk through the modules at the paths. -/
theorem ends_finish {σ : Type} {P : σ → Prop} {load : σ → Path → σ × Except Error Module}
    {refuse : σ → σ}
    (loads : ∀ s path, P s → P (load s path).1 ∧ ∀ m, (load s path).2 = .ok m → Tied known m)
    {fuel : Nat} {w : Walk} {s : σ × List Call} (start : P s.1) (within : Within known w)
    (enough : known.length ≤ w.visited.length + fuel)
    (served : ∀ call ∈ (finish policy (logged load) (loggedRefusal refuse) entry fuel w s).1.2,
      Served M call) :
    Ends M policy entry w
      (finish policy (logged load) (loggedRefusal refuse) entry fuel w s).2 := by
  fun_induction finish policy (logged load) (loggedRefusal refuse) entry fuel w s with
  | case1 fuel w s last pause =>
    obtain ⟨circles, w', runs, fits⟩ := fits_advance policy w
    rw [pause] at fits
    obtain ⟨rfl, ended⟩ := fits
    exact ⟨circles, last, runs M, .inl ⟨ended, rfl⟩⟩
  | case2 fuel w s ids pause =>
    obtain ⟨circles, w', runs, fits⟩ := fits_advance policy w
    rw [pause] at fits
    exact ⟨circles, w', runs M, .inr ⟨ids, fits, rfl⟩⟩
  | case3 w s path next pause =>
    -- All known files were asked for, and yet another one is needed.
    obtain ⟨further, more⟩ := within.advance pause
    have room := further.length_le
    omega
  | case4 w s path next pause fuel s' e answer =>
    simp only [logged, Prod.mk.injEq] at answer
    obtain ⟨rfl, failed⟩ := answer
    obtain ⟨m, _, succeeded⟩ := served (path, (load s.1 path).2) (by simp)
    rw [failed] at succeeded
    cases succeeded
  | case5 w s path next pause fuel s' m answer ih =>
    obtain ⟨circles, w', runs, fits⟩ := fits_advance policy w
    rw [pause] at fits
    simp only [logged, Prod.mk.injEq] at answer
    obtain ⟨rfl, loaded⟩ := answer
    obtain ⟨kept, tied⟩ := loads s.1 path start
    have here : M.at? path = some m := by
      obtain ⟨m', found, succeeded⟩ := served (path, (load s.1 path).2)
        (log_subset_finish load refuse policy entry fuel _ _ (by simp))
      rw [loaded] at succeeded
      cases succeeded
      exact found
    obtain ⟨further, grown⟩ := within.advance pause
    have more : known.length ≤ (next.enter m).visited.length + fuel := by
      simp only [Walk.enter]
      omega
    refine .of_runs ((runs M).trans (.head (fits.goes policy here) (.refl _))) ?_
    exact ih kept (further.enter (tied m loaded)) more served

/-! ## One walk only -/

variable {w' : Walk}

theorem Goes.retold (goes : Goes M policy w circles w') (policy' : CyclePolicy)
    (allowed : policy' ≠ .error) (warnings : List String) :
    ∃ warnings', Goes M policy' { w with warnings } circles { w' with warnings := warnings' } := by
  cases goes with
  | leave top => exact ⟨_, .leave top⟩
  | library top leads => exact ⟨_, .library top leads⟩
  | circle _ top leads on => exact ⟨_, .circle allowed top leads on⟩
  | known top leads off visited => exact ⟨_, .known top leads off visited⟩
  | enter top leads off fresh here => exact ⟨_, .enter top leads off fresh here⟩

/-- Where circles are no errors, what is told of them makes no other difference. -/
theorem Runs.retold (runs : Runs M policy w circles w') (policy' : CyclePolicy)
    (allowed : policy' ≠ .error) (warnings : List String) :
    ∃ warnings', Runs M policy' { w with warnings } circles { w' with warnings := warnings' } := by
  induction runs generalizing warnings with
  | refl => exact ⟨warnings, .refl _⟩
  | head goes _ ih =>
    obtain ⟨between, first⟩ := goes.retold policy' allowed warnings
    obtain ⟨last, later⟩ := ih between
    exact ⟨last, .head first later⟩

theorem Goes.step_eq (goes : Goes M policy w circles w') :
    step policy w = .next w' ∨ ∃ path next found, step policy w = .need path next ∧
      M.at? path = some found ∧ w' = next.enter found := by
  cases goes with
  | leave top => exact .inl (by simp [step, top])
  | library top leads => exact .inl (by simp [step, top, leads])
  | circle allowed top leads on =>
    left
    cases policy with
    | error => exact absurd rfl allowed
    | warn => simp [step, top, leads, meet, on, told, circleAt, circleOf]
    | ignore => simp [step, top, leads, meet, on, told]
  | known top leads off visited => exact .inl (by simp [step, top, leads, meet, off, visited])
  | enter top leads off fresh here =>
    exact .inr ⟨_, _, _, by simp [step, top, leads, meet, off, fresh]; rfl, here, rfl⟩

theorem Goes.unique (goes : Goes M policy w circles w') (other : Goes M policy w circles' w'') :
    w' = w'' := by
  rcases goes.step_eq with next | ⟨path, next, found, need, here, rfl⟩
  · rcases other.step_eq with next' | ⟨path', next', found', need', here', rfl⟩
    · rw [next] at next'
      cases next'
      rfl
    · rw [next] at need'
      cases need'
  · rcases other.step_eq with next' | ⟨path', next', found', need', here', rfl⟩
    · rw [need] at next'
      cases next'
    · rw [need] at need'
      cases need'
      rw [here] at here'
      cases here'
      rfl

theorem Goes.way_ne_nil (goes : Goes M policy w circles w') : w.way ≠ [] := by
  cases goes <;> simp [*]

/-- A walk that is over went the one way that it could. -/
theorem Runs.unique (runs : Runs M policy w circles w') (ended : w'.way = [])
    (other : Runs M policy w circles' w'') (ended' : w''.way = []) : w' = w'' := by
  induction runs generalizing circles' with
  | refl =>
    cases other with
    | refl => rfl
    | head goes _ => exact absurd ended goes.way_ne_nil
  | head goes _ ih =>
    cases other with
    | refl => exact absurd ended' goes.way_ne_nil
    | head goes' later' =>
      rw [← goes.unique goes'] at later'
      exact ih ended later'

end Tarkib.Walk
