import Tarkib.Proofs.Module.Walk

/-!
# The order in which a walk leaves modules

In the list of the modules that a walk has met, each module stands behind those of its dependencies
that were followed, unless the dependency reaches the module and so closes a circle (`Laid`). A
module that is left keeps its place, and a module that is entered is put in front of the way, so
that what stood behind others before still does. Together with what was noted of libraries (`Noted`)
and told in warnings this is all that a walk preserves (`Sound`).
-/

namespace Tarkib

open List

variable {m : Module} {d : Dependency} {rest : List Dependency} {names : List String}
  {target : Path}

/-! ## Names in ascending order -/

theorem mem_insertName {name other : String} :
    other ∈ insertName name names ↔ other = name ∨ other ∈ names := by
  induction names with
  | nil => simp [insertName]
  | cons first names ih =>
    unfold insertName
    split
    · simp
    · split
      · next same => simp [same]
      · rw [mem_cons, ih, mem_cons, or_left_comm]

theorem sorted_insertName {name : String} (sorted : names.Pairwise (· < ·)) :
    (insertName name names).Pairwise (· < ·) := by
  induction names with
  | nil => simp [insertName]
  | cons first names ih =>
    obtain ⟨least, rest⟩ := pairwise_cons.mp sorted
    unfold insertName
    split
    · next before =>
        refine pairwise_cons.mpr ⟨?_, sorted⟩
        intro other member
        rcases mem_cons.mp member with rfl | member
        · exact before
        · exact String.lt_trans before (least other member)
    · next notBefore =>
        split
        · exact sorted
        · next different =>
            refine pairwise_cons.mpr ⟨?_, ih rest⟩
            intro other member
            rcases mem_insertName.mp member with rfl | member
            · exact Std.lt_of_le_of_ne notBefore (Ne.symm different)
            · exact least other member

namespace Walk

/-! ## Modules behind their dependencies -/

/-- Modules in a list are laid behind the dependencies that were followed. What "behind" means for a
dependency of a module is given by `behind`, from the components of the paths that stand before. -/
def Laid (behind : List Key → Module → Dependency → Prop) :
    List Key → List Frame → Prop
  | _, [] => True
  | before, f :: frames =>
    (∃ done, f.node.dependencies = done ++ f.rest ∧ ∀ d ∈ done, behind before f.node d) ∧
      Laid behind (before ++ [f.key]) frames

section Laid

variable {behind behind' : List Key → Module → Dependency → Prop}
  {before before' : List Key} {front back : List Frame}

theorem Laid.mono (weaker : ∀ before before' m d, before ⊆ before' → behind before m d →
    behind' before' m d) {frames : List Frame} (within : before ⊆ before')
    (laid : Laid behind before frames) : Laid behind' before' frames := by
  induction frames generalizing before before' with
  | nil => trivial
  | cons f frames ih =>
    obtain ⟨⟨done, split, all⟩, laid⟩ := laid
    refine ⟨⟨done, split, fun d member => weaker _ _ _ _ within (all d member)⟩, ih ?_ laid⟩
    exact append_subset.mpr
      ⟨List.Subset.trans within (subset_append_left _ _), subset_append_right _ _⟩

theorem laid_append :
    Laid behind before (front ++ back) ↔
      Laid behind before front ∧ Laid behind (before ++ front.map Frame.key) back := by
  induction front generalizing before with
  | nil => simp [Laid]
  | cons f front ih => simp [Laid, ih, and_assoc]

theorem Laid.follow (laid : Laid behind before (front ++ ⟨m, d :: rest⟩ :: back))
    (here : behind (before ++ front.map Frame.key) m d) :
    Laid behind before (front ++ ⟨m, rest⟩ :: back) := by
  obtain ⟨first, ⟨done, split, all⟩, others⟩ := laid_append.mp laid
  refine laid_append.mpr ⟨first, ⟨done ++ [d], ?_, ?_⟩, others⟩
  · rw [append_assoc]
    exact split
  · intro other member
    rcases mem_append.mp member with member | member
    · exact all other member
    · rw [mem_singleton.mp member]
      exact here

/-- A module that is put in between leaves the others behind what they stood behind. -/
theorem Laid.insert (mono : ∀ before before' m d, before ⊆ before' → behind before m d →
    behind before' m d) (laid : Laid behind before (front ++ back)) (m : Module) :
    Laid behind before (front ++ ⟨m, m.dependencies⟩ :: back) := by
  obtain ⟨first, others⟩ := laid_append.mp laid
  refine laid_append.mpr ⟨first, ⟨[], rfl, by simp⟩, others.mono mono ?_⟩
  exact subset_append_left _ _

theorem Laid.behind_of_split {modules after : List Module}
    (laid : Laid behind before ((modules ++ m :: after).map fun m => ⟨m, []⟩)) :
    ∀ d ∈ m.dependencies, behind (before ++ modules.map fun m => m.id.components) m d := by
  rw [map_append, map_cons, laid_append, map_map] at laid
  obtain ⟨_, ⟨done, split, all⟩, _⟩ := laid
  rw [append_nil] at split
  intro d member
  exact all d (split ▸ member)

end Laid

/-- The dependency of a module was met before it, or it reaches the module and a circle was closed.
A library was noted. -/
def Behind (M : ModuleMap) (w : Walk) (circles : List (List Path))
    (before : List Key) (m : Module) (d : Dependency) : Prop :=
  match d.target with
  | .external name => name ∈ w.externals
  | .file target =>
    target.components ∈ before ∨
      circles ≠ [] ∧ M.Reaches target m.id ∧ target.components ∈ w.visited.map Path.components

theorem Behind.mono {M : ModuleMap} {w w' : Walk} {circles circles' : List (List Path)}
    {before before' : List Key} (externals : w.externals ⊆ w'.externals)
    (visited : w.visited ⊆ w'.visited) (more : circles ≠ [] → circles' ≠ [])
    (within : before ⊆ before') (here : Behind M w circles before m d) :
    Behind M w' circles' before' m d := by
  unfold Behind at here ⊢
  split at here
  · exact externals here
  · rcases here with earlier | ⟨closed, reaches, seen⟩
    · exact .inl (within earlier)
    · exact .inr ⟨more closed, reaches, map_subset _ visited seen⟩

variable {M : ModuleMap} {policy : CyclePolicy} {start : Path} {entry : Module} {w w' : Walk}
  {circles more : List (List Path)}

theorem Goes.externals_subset (goes : Goes M policy w more w') : w.externals ⊆ w'.externals := by
  cases goes with
  | library top leads => exact fun other member => mem_insertName.mpr (.inr member)
  | _ => exact List.Subset.refl _

theorem Goes.visited_suffix (goes : Goes M policy w more w') : w.visited <:+ w'.visited := by
  cases goes with
  | enter => exact suffix_cons _ _
  | _ => exact suffix_rfl

/-- A step keeps the modules laid out. -/
theorem laid_goes (grounded : Grounded M start entry w)
    (laid : Laid (Behind M w circles) [] w.met) (goes : Goes M policy w more w') :
    Laid (Behind M w' (circles ++ more)) [] w'.met := by
  have kept : Laid (Behind M w' (circles ++ more)) [] w.met := by
    refine laid.mono ?_ (List.Subset.refl _)
    intro before before' m d within here
    exact here.mono goes.externals_subset goes.visited_suffix.subset (by simp +contextual) within
  cases goes with
  | leave top =>
    rw [met_leave top]
    exact kept
  | @library m d rest way name top leads =>
    rw [met_of_top top] at kept
    refine kept.follow ?_
    unfold Behind
    rw [leads]
    exact mem_insertName.mpr (.inl rfl)
  | @circle m d rest way target allowed top leads on =>
    rw [met_of_top top] at kept
    refine kept.follow ?_
    unfold Behind
    rw [leads]
    have on' : isOn w.way target = true := by
      rw [top]
      exact on
    obtain ⟨g, member, same⟩ := isOn_iff.mp on'
    refine .inr ⟨by simp, ?_, ?_⟩
    · exact (grounded.reaches_top top g member).congr_left same
    · rw [grounded.visited, ← Path.same_iff.mp same]
      exact mem_map_of_mem (mem_append_right _ member)
  | @known m d rest way target top leads off visited =>
    rw [met_of_top top] at kept
    refine kept.follow ?_
    unfold Behind
    rw [leads]
    -- What was visited and is not on the way has been left.
    have seen := (grounded.visited target).mp (Path.any_same_iff.mp visited)
    rw [met_of_top top, map_append, mem_append] at seen
    refine .inl (seen.resolve_right fun onWay => ?_)
    obtain ⟨g, member, key⟩ := mem_map.mp onWay
    have on : isOn (⟨m, d :: rest⟩ :: way) target = true :=
      isOn_iff.mpr ⟨g, member, Path.same_iff.mpr key⟩
    exact Bool.false_ne_true (off.symm.trans on)
  | @enter m d rest way target found top leads off fresh here =>
    rw [met_of_top top] at kept
    have entered := kept.insert (fun _ _ _ _ within here => here.mono (List.Subset.refl _)
      (List.Subset.refl _) id within) found
    rw [append_cons] at entered
    have followed := entered.follow (by
      unfold Behind
      rw [leads]
      simp [Frame.key, Path.same_iff.mp (M.own here)])
    rw [← append_cons] at followed
    exact followed

/-! ## Libraries and warnings -/

/-- The libraries that were noted are in ascending order, and modules that were met need them. -/
structure Noted (w : Walk) : Prop where
  sorted : w.externals.Pairwise (· < ·)
  needed : ∀ name ∈ w.externals, ∃ m ∈ w.met.map Frame.node, ∃ d ∈ m.dependencies,
    d.target = .external name

/-- The warnings of a module as the graph gives them. -/
def remarks (m : Module) : List String :=
  m.warnings.map fun text => m.id.text ++ ": " ++ text

/-- A circle is a cycle of modules that are reached from the start, with its first module, in some
spelling, once more at the end. -/
def RealCircle (M : ModuleMap) (start : Path) (circle : List Path) : Prop :=
  ∃ cycle again first, circle = cycle ++ [again] ∧ cycle.head? = some first ∧
    first.same again = true ∧ M.Reaches start first ∧ M.IsCycle cycle

theorem RealCircle.hasCycle {circle : List Path} (real : RealCircle M start circle) :
    M.HasCycle start := by
  obtain ⟨cycle, again, first, rfl, head, same, reached, isCycle⟩ := real
  exact ⟨first, reached, isCycle.transGen head⟩

/-- A circle that is met is one. -/
theorem Grounded.realCircle (grounded : Grounded M start entry w) {way : List Frame}
    (top : w.way = ⟨m, d :: rest⟩ :: way) (leads : d.target = .file target)
    (on : isOn (⟨m, rest⟩ :: way) target = true) :
    RealCircle M start (circleOf (⟨m, rest⟩ :: way) target) := by
  have followed : Grounded M start entry { w with way := ⟨m, rest⟩ :: way } :=
    grounded.of_rest top rfl rfl rfl
  obtain ⟨first, head, same, reached, isCycle⟩ :=
    followed.isCycle_wayFrom rfl (grounded.depends top leads) on
  exact ⟨_, target, first, rfl, head, same, reached, isCycle⟩

/-! ## What a walk preserves -/

/-- Modules are met in order, libraries are noted, and what is told are the remarks on the modules
that were left and the circles, which are real. -/
structure Sound (M : ModuleMap) (policy : CyclePolicy) (start : Path) (entry : Module)
    (circles : List (List Path)) (w : Walk) : Prop where
  grounded : Grounded M start entry w
  laid : Laid (Behind M w circles) [] w.met
  noted : Noted w
  warnings : w.warnings.Perm (w.modules.flatMap remarks ++ circles.flatMap (told policy))
  real : ∀ circle ∈ circles, RealCircle M start circle

theorem Noted.goes (noted : Noted w) (grounded : Grounded M start entry w)
    (goes : Goes M policy w more w') : Noted w' := by
  obtain ⟨sorted, needed⟩ := noted
  have kept (subset : w.met.map Frame.node ⊆ w'.met.map Frame.node) (name : String)
      (member : name ∈ w.externals) :
      ∃ m ∈ w'.met.map Frame.node, ∃ d ∈ m.dependencies, d.target = .external name := by
    obtain ⟨m, met, d, listed, leads⟩ := needed name member
    exact ⟨m, subset met, d, listed, leads⟩
  cases goes with
  | leave top => exact ⟨sorted, kept (by rw [met_leave top]; exact List.Subset.refl _)⟩
  | @library m d rest way name top leads =>
    refine ⟨sorted_insertName sorted, ?_⟩
    intro other member
    rcases mem_insertName.mp member with rfl | member
    · have listed := grounded.listed ⟨m, d :: rest⟩ (by simp [top])
      exact ⟨m, by simp [met], d, listed.mem mem_cons_self, leads⟩
    · exact kept (by simp [met, top]) other member
  | circle allowed top leads on
  | known top leads off visited
  | enter top leads off fresh here => exact ⟨sorted, kept (by simp [met, top])⟩

/-- A step keeps a walk sound. -/
theorem Sound.goes (sound : Sound M policy start entry circles w)
    (goes : Goes M policy w more w') : Sound M policy start entry (circles ++ more) w' := by
  refine ⟨sound.grounded.goes goes, laid_goes sound.grounded sound.laid goes,
    sound.noted.goes sound.grounded goes, ?_, ?_⟩
  · have warnings := sound.warnings
    cases goes with
    | @leave m way top =>
      rw [append_nil]
      simp only [Walk.leave, flatMap_append, flatMap_singleton]
      refine (warnings.append_right (remarks m)).trans ?_
      rw [append_assoc, append_assoc]
      exact perm_append_comm.append_left _
    | circle allowed top leads on =>
      rw [flatMap_append, flatMap_singleton, ← append_assoc]
      exact warnings.append_right _
    | _ =>
      rw [append_nil]
      exact warnings
  · intro circle member
    rcases mem_append.mp member with member | member
    · exact sound.real circle member
    · cases goes with
      | circle allowed top leads on =>
        rw [mem_singleton.mp member]
        exact sound.grounded.realCircle top leads on
      | _ => cases member

theorem Sound.runs (sound : Sound M policy start entry circles w)
    (runs : Runs M policy w more w') : Sound M policy start entry (circles ++ more) w' := by
  induction runs generalizing circles with
  | refl =>
    rw [append_nil]
    exact sound
  | head goes _ ih =>
    rw [← append_assoc]
    exact ih (sound.goes goes)

theorem sound_start (here : M.at? start = some entry) :
    Sound M policy start entry [] ((Walk.start start).enter entry) := by
  refine ⟨.of_start here, ⟨⟨[], rfl, by simp⟩, trivial⟩, ⟨.nil, ?_⟩, .refl _, ?_⟩
  · intro name member
    cases member
  · intro circle member
    cases member

theorem circles_eq_nil_of_error {first : Walk} (runs : Runs M .error first circles w) :
    circles = [] := by
  generalize strict : CyclePolicy.error = policy at runs
  induction runs with
  | refl => rfl
  | head goes _ ih =>
    rw [ih, append_nil]
    cases goes with
    | circle allowed => exact absurd strict.symm allowed
    | _ => rfl

/-! ## Walks that are over -/

namespace Sound

theorem met_eq_of_over (ended : w.way = []) : w.met = w.modules.map fun m => ⟨m, []⟩ := by
  rw [met, ended, append_nil]

theorem keys_of_over (ended : w.way = []) :
    w.met.map Frame.key = w.modules.map fun m => m.id.components := by
  rw [met_eq_of_over ended, map_map]
  rfl

variable (sound : Sound M policy start entry circles w)
include sound

theorem at?_of_mem (member : m ∈ w.modules) : M.at? m.id = some m :=
  sound.grounded.own ⟨m, []⟩ (mem_append_left _ (mem_map_of_mem member))

variable (ended : w.way = [])
include ended

/-- Each module stands behind its dependencies. -/
theorem ordered {before after : List Module} (split : w.modules = before ++ m :: after)
    (listed : target ∈ m.localTargets) :
    target.components ∈ before.map (fun m => m.id.components) ∨
      circles ≠ [] ∧ M.Reaches target m.id ∧
        target.components ∈ w.modules.map fun m => m.id.components := by
  obtain ⟨d, member, leads⟩ := Module.mem_localTargets.mp listed
  have laid := sound.laid
  rw [met_eq_of_over ended, split] at laid
  have here := laid.behind_of_split d member
  unfold Behind at here
  rw [leads] at here
  rw [← keys_of_over ended, ← sound.grounded.visited]
  exact here

theorem mem_keys_of_reaches (here : M.at? start = some entry) {p : Path}
    (reaches : M.Reaches start p) :
    p.components ∈ w.modules.map fun m => m.id.components := by
  have last : entry ∈ w.modules := by
    have last := mem_of_getLast? sound.grounded.last
    rw [met_eq_of_over ended, map_map] at last
    simpa using last
  have first : start.components ∈ w.modules.map fun m => m.id.components :=
    mem_map.mpr ⟨entry, last, Path.same_iff.mp (M.own here)⟩
  -- The modules that were met are closed under dependencies.
  have closed {q r : Path} (member : q.components ∈ w.modules.map fun m => m.id.components)
      (depends : M.Depends q r) : r.components ∈ w.modules.map fun m => m.id.components := by
    obtain ⟨m, listed, key⟩ := mem_map.mp member
    obtain ⟨m', found, target, referred, same⟩ := depends
    have own : M.at? q = some m :=
      (M.uniform (Path.same_iff.mpr key)).symm.trans (sound.at?_of_mem listed)
    rw [own] at found
    cases found
    rw [← Path.same_iff.mp same]
    obtain ⟨before, after, split⟩ := append_of_mem listed
    rcases sound.ordered ended split referred with earlier | ⟨_, _, present⟩
    · rw [split, map_append]
      exact mem_append_left _ earlier
    · exact present
  rcases reaches with same | way
  · rw [← Path.same_iff.mp same]
    exact first
  · induction way with
    | single depends => exact closed first depends
    | tail _ depends ih => exact closed ih depends

/-- The modules are those that can be reached. -/
theorem mem_iff_reaches (here : M.at? start = some entry) (m : Module) :
    m ∈ w.modules ↔ ∃ p, M.Reaches start p ∧ M.at? p = some m := by
  constructor
  · intro member
    refine ⟨m.id, ?_, sound.at?_of_mem member⟩
    exact sound.grounded.reached ⟨m, []⟩ (mem_append_left _ (mem_map_of_mem member))
  · rintro ⟨p, reaches, found⟩
    obtain ⟨m', member, key⟩ := mem_map.mp (sound.mem_keys_of_reaches ended here reaches)
    have own := (M.uniform (Path.same_iff.mpr key)).symm.trans (sound.at?_of_mem member)
    rw [found] at own
    cases own
    exact member

theorem mem_externals_iff (name : String) :
    name ∈ w.externals ↔ ∃ m ∈ w.modules, ∃ d ∈ m.dependencies, d.target = .external name := by
  constructor
  · intro member
    obtain ⟨m, met, needs⟩ := sound.noted.needed name member
    rw [met_eq_of_over ended, map_map] at met
    exact ⟨m, by simpa using met, needs⟩
  · rintro ⟨m, member, d, listed, leads⟩
    obtain ⟨before, after, split⟩ := append_of_mem member
    have laid := sound.laid
    rw [met_eq_of_over ended, split] at laid
    have here := laid.behind_of_split d listed
    unfold Behind at here
    rw [leads] at here
    exact here

/-- A circle was met if and only if there is one. -/
theorem circles_ne_nil_iff (here : M.at? start = some entry) : circles ≠ [] ↔ M.HasCycle start := by
  constructor
  · intro closed
    obtain ⟨circle, member⟩ := exists_mem_of_ne_nil circles closed
    exact (sound.real circle member).hasCycle
  · rintro ⟨p, reaches, way⟩ none
    -- Without a circle every module stands behind its dependencies.
    have isOrder : M.IsOrder (w.modules.map Module.id) := by
      intro before q after split r depends
      obtain ⟨front, back, modules, rfl, rest⟩ := map_eq_append_iff.mp split
      obtain ⟨m, back', rfl, rfl, rfl⟩ := map_eq_cons_iff.mp rest
      obtain ⟨m', found, target, referred, same⟩ := depends
      rw [sound.at?_of_mem (by simp [modules])] at found
      cases found
      rcases sound.ordered ended modules referred with earlier | ⟨closed, _⟩
      · rw [map_map, ← Path.same_iff.mp same]
        exact earlier
      · exact absurd none closed
    refine ModuleMap.not_transGen_of_order isOrder ?_ way
    rw [map_map]
    exact sound.mem_keys_of_reaches ended here reaches

end Sound

end Walk

end Tarkib
