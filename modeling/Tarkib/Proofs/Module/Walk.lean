import Tarkib.Module.Graph
import Tarkib.Proofs.Module.Dependency

/-!
# Walks through modules

A walk through modules that stand at paths goes in steps, and what one step can do is said once
(`Walk.Goes`): it leaves a module, notes a library, meets a module of its own way and closes a
circle, passes by a module that it has met before, or enters a new one.

All modules that a walk has met stand in one list (`Walk.met`): those that it has left, and behind
them those of its way, the last one first. The modules in it are different and all reached from the
first one, and those of the way depend on one another (`Grounded`).
-/

namespace Tarkib.Walk

open List

variable {target : Path} {way : List Frame} {f : Frame} {policy : CyclePolicy} {found : Module}
  {M : ModuleMap}

/-! ## Steps -/

/-- The circle that a dependency of the last module on a module of the way closes. -/
def circleOf (way : List Frame) (target : Path) : List Path :=
  wayFrom way target ++ [target]

/-- The warnings about a circle. -/
def told (policy : CyclePolicy) (circle : List Path) : List String :=
  match policy with
  | .warn => [circleMessage (circle.map Path.text)]
  | _ => []

/-- The ways in which a walk goes on, and the circles that it closes by that. -/
inductive Goes (M : ModuleMap) (policy : CyclePolicy) (w : Walk) :
    List (List Path) → Walk → Prop where
  | leave {m : Module} {way : List Frame} (top : w.way = ⟨m, []⟩ :: way) :
      Goes M policy w [] (w.leave m way)
  | library {m : Module} {d : Dependency} {rest : List Dependency} {way : List Frame}
      {name : String} (top : w.way = ⟨m, d :: rest⟩ :: way) (leads : d.target = .external name) :
      Goes M policy w []
        { w with way := ⟨m, rest⟩ :: way, externals := insertName name w.externals }
  | circle {m : Module} {d : Dependency} {rest : List Dependency} {way : List Frame}
      {target : Path} (allowed : policy ≠ .error) (top : w.way = ⟨m, d :: rest⟩ :: way)
      (leads : d.target = .file target) (on : isOn (⟨m, rest⟩ :: way) target = true) :
      Goes M policy w [circleOf (⟨m, rest⟩ :: way) target]
        { w with
          way := ⟨m, rest⟩ :: way
          warnings := w.warnings ++ told policy (circleOf (⟨m, rest⟩ :: way) target) }
  | known {m : Module} {d : Dependency} {rest : List Dependency} {way : List Frame}
      {target : Path} (top : w.way = ⟨m, d :: rest⟩ :: way) (leads : d.target = .file target)
      (off : isOn (⟨m, rest⟩ :: way) target = false)
      (visited : w.visited.any target.same = true) :
      Goes M policy w [] { w with way := ⟨m, rest⟩ :: way }
  | enter {m : Module} {d : Dependency} {rest : List Dependency} {way : List Frame}
      {target : Path} {found : Module} (top : w.way = ⟨m, d :: rest⟩ :: way)
      (leads : d.target = .file target) (off : isOn (⟨m, rest⟩ :: way) target = false)
      (fresh : w.visited.any target.same = false) (here : M.at? target = some found) :
      Goes M policy w []
        { w with
          way := ⟨found, found.dependencies⟩ :: ⟨m, rest⟩ :: way
          visited := target :: w.visited }

/-- A walk that stops has met a module of its own way. -/
def Stops (policy : CyclePolicy) (w : Walk) (ids : List String) : Prop :=
  policy = .error ∧ ∃ m d rest way target, w.way = ⟨m, d :: rest⟩ :: way ∧
    d.target = .file target ∧ isOn (⟨m, rest⟩ :: way) target = true ∧
    ids = (circleOf (⟨m, rest⟩ :: way) target).map Path.text

/-- The walk goes on only with the module at a path that it has not asked for before. -/
def Needs (w : Walk) (path : Path) (next : Walk) : Prop :=
  ∃ m d rest way, w.way = ⟨m, d :: rest⟩ :: way ∧ d.target = .file path ∧
    isOn (⟨m, rest⟩ :: way) path = false ∧ w.visited.any path.same = false ∧
    next = { w with way := ⟨m, rest⟩ :: way, visited := path :: w.visited }

theorem Needs.goes {w next : Walk} {path : Path} (needs : Needs w path next) (policy : CyclePolicy)
    (here : M.at? path = some found) : Goes M policy w [] (next.enter found) := by
  obtain ⟨m, d, rest, way, top, leads, off, fresh, rfl⟩ := needs
  exact .enter top leads off fresh here

/-- What is known of a walk from what it does next, whatever stands at the paths. -/
def Step.Fits (policy : CyclePolicy) (w : Walk) : Step → Prop
  | .next w' => ∃ circles, ∀ M, Goes M policy w circles w'
  | .need path w' => Needs w path w'
  | .circle ids => Stops policy w ids
  | .over => w.way = []

/-- A step does what `Goes` says, or needs a module. -/
theorem fits_step (policy : CyclePolicy) (w : Walk) : (step policy w).Fits policy w := by
  unfold step
  split
  · assumption
  · next m way top => exact ⟨[], fun _ => .leave top⟩
  · next m d rest way top =>
      dsimp only
      split
      · next name leads => exact ⟨[], fun _ => .library top leads⟩
      · next target leads =>
          unfold meet
          split
          · next on =>
              cases policy with
              | error => exact ⟨rfl, m, d, rest, way, target, top, leads, on, rfl⟩
              | warn => exact ⟨_, fun _ => .circle (by simp) top leads on⟩
              | ignore =>
                refine ⟨[circleOf (⟨m, rest⟩ :: way) target], fun M => ?_⟩
                have goes : Goes M .ignore w _ _ := .circle (by simp) top leads on
                simp only [told, append_nil] at goes
                exact goes
          · next off =>
              rw [Bool.not_eq_true] at off
              split
              · next visited => exact ⟨[], fun _ => .known top leads off visited⟩
              · next fresh =>
                  rw [Bool.not_eq_true] at fresh
                  exact ⟨m, d, rest, way, top, leads, off, fresh, rfl⟩

/-- A number of steps, and the circles that they close. -/
inductive Runs (M : ModuleMap) (policy : CyclePolicy) : Walk → List (List Path) → Walk → Prop where
  | refl (w : Walk) : Runs M policy w [] w
  | head {first second third : Walk} {circles more : List (List Path)}
      (goes : Goes M policy first circles second) (later : Runs M policy second more third) :
      Runs M policy first (circles ++ more) third

theorem Runs.trans {first second third : Walk} {circles more : List (List Path)}
    (earlier : Runs M policy first circles second) (later : Runs M policy second more third) :
    Runs M policy first (circles ++ more) third := by
  induction earlier with
  | refl => exact later
  | head goes _ ih =>
    rw [append_assoc]
    exact .head goes (ih later)

/-- What is known of a walk where it pauses. -/
def Pause.Fits (policy : CyclePolicy) (w : Walk) : Pause → Prop
  | .need path w' => Needs w path w'
  | .circle ids => Stops policy w ids
  | .over last => last = w ∧ w.way = []

/-- So does a run of steps up to the next question. -/
theorem fits_advance (policy : CyclePolicy) (w : Walk) :
    ∃ circles w', (∀ M, Runs M policy w circles w') ∧ (advance policy w).Fits policy w' := by
  fun_induction advance policy w with
  | case1 w w' next ih =>
    have fits := fits_step policy w
    rw [next] at fits
    obtain ⟨circles, goes⟩ := fits
    obtain ⟨more, last, runs, pause⟩ := ih
    exact ⟨_, last, fun M => .head (goes M) (runs M), pause⟩
  | case2 w path w' need =>
    have fits := fits_step policy w
    rw [need] at fits
    exact ⟨[], w, fun _ => .refl w, fits⟩
  | case3 w ids circle =>
    have fits := fits_step policy w
    rw [circle] at fits
    exact ⟨[], w, fun _ => .refl w, fits⟩
  | case4 w ended =>
    have fits := fits_step policy w
    rw [ended] at fits
    exact ⟨[], w, fun _ => .refl w, rfl, fits⟩

/-! ## The modules that were met -/

/-- The modules that a walk has met, in the order in which they are left in the end, each with the
dependencies that are still to be followed. -/
def met (w : Walk) : List Frame :=
  w.modules.map (fun m => ⟨m, []⟩) ++ w.way

/-- The components of the path of a module that was met. -/
def Frame.key (f : Frame) : Key :=
  f.node.id.components

theorem met_of_top {w : Walk} (top : w.way = f :: way) :
    w.met = w.modules.map (fun m => ⟨m, []⟩) ++ f :: way := by
  rw [met, top]

/-- Leaving a module does not change the list of those that were met. -/
theorem met_leave {w : Walk} {m : Module} (top : w.way = ⟨m, []⟩ :: way) :
    (w.leave m way).met = w.met := by
  simp [met, leave, top]

theorem isOn_iff : isOn way target = true ↔ ∃ f ∈ way, f.node.id.same target = true := by
  simp [isOn]

/-- The modules that were met are those that stand at their paths, they are different, they are all
reached from the start, and those of the way depend on one another. The first module that was met is
the last one to be left. -/
structure Grounded (M : ModuleMap) (start : Path) (entry : Module) (w : Walk) : Prop where
  own : ∀ f ∈ w.met, M.at? f.node.id = some f.node
  distinct : (w.met.map Frame.key).Nodup
  visited : ∀ p : Path,
    p.components ∈ w.visited.map Path.components ↔ p.components ∈ w.met.map Frame.key
  reached : ∀ f ∈ w.met, M.Reaches start f.node.id
  linked : w.way.IsChain fun f g => M.Depends g.node.id f.node.id
  listed : ∀ f ∈ w.way, f.rest <:+ f.node.dependencies
  last : (w.met.map Frame.node).getLast? = some entry

namespace Grounded

variable {start : Path} {entry : Module} {w w' : Walk} {m : Module} {d : Dependency}
  {rest : List Dependency}

theorem mem_top (top : w.way = ⟨m, d :: rest⟩ :: way) : ⟨m, d :: rest⟩ ∈ w.met := by
  simp [met_of_top top]

section Moves

variable (grounded : Grounded M start entry w)
include grounded

theorem depends (top : w.way = ⟨m, d :: rest⟩ :: way) (leads : d.target = .file target) :
    M.Depends m.id target := by
  have listed : d :: rest <:+ m.dependencies := grounded.listed ⟨m, d :: rest⟩ (by simp [top])
  exact ModuleMap.depends_of_mem (grounded.own _ (mem_top top)) (listed.mem mem_cons_self)
    leads

theorem of_rest (top : w.way = ⟨m, d :: rest⟩ :: way) (modules : w'.modules = w.modules)
    (visited : w'.visited = w.visited) (top' : w'.way = ⟨m, rest⟩ :: way) :
    Grounded M start entry w' := by
  have keys : w'.met.map Frame.key = w.met.map Frame.key := by
    simp [met_of_top top, met_of_top top', modules, Frame.key]
  have nodes : w'.met.map Frame.node = w.met.map Frame.node := by
    simp [met_of_top top, met_of_top top', modules]
  have every {P : Module → Prop} (all : ∀ f ∈ w.met, P f.node) : ∀ f ∈ w'.met, P f.node := by
    intro f member
    have node : f.node ∈ w.met.map Frame.node := nodes ▸ mem_map_of_mem member
    obtain ⟨g, member, same⟩ := mem_map.mp node
    rw [← same]
    exact all g member
  refine ⟨?_, keys ▸ grounded.distinct, ?_, ?_, ?_, ?_, nodes ▸ grounded.last⟩
  · exact every (P := fun m => M.at? m.id = some m) grounded.own
  · intro p
    rw [visited, keys]
    exact grounded.visited p
  · exact every (P := fun m => M.Reaches start m.id) grounded.reached
  · have linked := grounded.linked
    rw [top, isChain_cons] at linked
    rw [top', isChain_cons]
    exact linked
  · intro f member
    rw [top', mem_cons] at member
    rcases member with rfl | member
    · exact (suffix_cons d rest).trans (grounded.listed ⟨m, d :: rest⟩ (by simp [top]))
    · exact grounded.listed f (by simp [top, member])

theorem enter (top : w.way = f :: way) (depends : M.Depends f.node.id target)
    (fresh : w.visited.any target.same = false) (here : M.at? target = some found) :
    Grounded M start entry
      { w with
        way := ⟨found, found.dependencies⟩ :: w.way
        visited := target :: w.visited } := by
  have own : found.id.same target = true := M.own here
  have mem (g : Frame) :
      g ∈ w.modules.map (fun m => (⟨m, []⟩ : Frame)) ++ ⟨found, found.dependencies⟩ :: w.way ↔
        g = ⟨found, found.dependencies⟩ ∨ g ∈ w.met := by
    rw [perm_middle.mem_iff, mem_cons]
    rfl
  have keys : List.Perm
      ((w.modules.map (fun m => (⟨m, []⟩ : Frame)) ++ ⟨found, found.dependencies⟩ :: w.way).map
        Frame.key) (target.components :: w.met.map Frame.key) := by
    have key : Frame.key ⟨found, found.dependencies⟩ = target.components := Path.same_iff.mp own
    rw [← key]
    exact perm_middle.map Frame.key
  have absent : target.components ∉ w.met.map Frame.key := by
    rw [← grounded.visited, ← Path.any_same_iff, fresh]
    exact Bool.false_ne_true
  refine ⟨?_, ?_, ?_, ?_, ?_, ?_, ?_⟩
  · intro g member
    rcases (mem g).mp member with rfl | member
    · exact ModuleMap.at?_id here
    · exact grounded.own g member
  · exact keys.nodup_iff.mpr (nodup_cons.mpr ⟨absent, grounded.distinct⟩)
  · intro p
    rw [met, keys.mem_iff, map_cons, mem_cons, mem_cons, grounded.visited p]
  · intro g member
    rcases (mem g).mp member with rfl | member
    · have reached := grounded.reached f (by simp [met_of_top top])
      exact (reached.tail depends).congr_right (Path.same_symm own)
    · exact grounded.reached g member
  · have linked := grounded.linked
    rw [top] at linked ⊢
    refine isChain_cons_cons.mpr ⟨?_, linked⟩
    exact depends.congr (Path.same_refl _) (Path.same_symm own)
  · intro g member
    rcases mem_cons.mp member with rfl | member
    · exact suffix_rfl
    · exact grounded.listed g member
  · have last := grounded.last
    simp only [met, top, map_append, map_cons, getLast?_append, getLast?_cons_cons] at last ⊢
    exact last

theorem leave (top : w.way = ⟨m, []⟩ :: way) : Grounded M start entry (w.leave m way) := by
  have met := met_leave top
  have linked := grounded.linked
  rw [top] at linked
  refine ⟨?_, ?_, ?_, ?_, linked.tail, ?_, ?_⟩
  · rw [met]
    exact grounded.own
  · rw [met]
    exact grounded.distinct
  · rw [met]
    exact grounded.visited
  · rw [met]
    exact grounded.reached
  · exact fun f member => grounded.listed f (top ▸ mem_cons_of_mem _ member)
  · rw [met]
    exact grounded.last

/-- A step keeps a walk grounded. -/
theorem goes {circles : List (List Path)} (goes : Goes M policy w circles w') :
    Grounded M start entry w' := by
  cases goes with
  | leave top => exact grounded.leave top
  | library top leads
  | circle allowed top leads on
  | known top leads off visited => exact grounded.of_rest top rfl rfl rfl
  | @enter m d rest way target found top leads off fresh here =>
    have followed : Grounded M start entry { w with way := ⟨m, rest⟩ :: way } :=
      grounded.of_rest top rfl rfl rfl
    exact followed.enter rfl (grounded.depends top leads) fresh here

end Moves

theorem of_start (here : M.at? start = some entry) :
    Grounded M start entry ((Walk.start start).enter entry) := by
  have same : entry.id.same start = true := M.own here
  refine ⟨?_, ?_, ?_, ?_, ?_, ?_, rfl⟩
  · intro f member
    rw [mem_singleton.mp member]
    exact ModuleMap.at?_id here
  · exact nodup_cons.mpr ⟨not_mem_nil, nodup_nil⟩
  · intro p
    have components : start.components = entry.id.components := (Path.same_iff.mp same).symm
    simp [Walk.start, Walk.enter, met, Frame.key, components]
  · intro f member
    rw [mem_singleton.mp member]
    exact .of_same (Path.same_symm same)
  · exact isChain_singleton _
  · intro f member
    obtain rfl := mem_singleton.mp member
    exact suffix_rfl

theorem reaches_top (grounded : Grounded M start entry w) (top : w.way = f :: way) :
    ∀ g ∈ w.way, M.Reaches g.node.id f.node.id := by
  have linked := grounded.linked
  rw [top] at linked ⊢
  clear top
  induction way generalizing f with
  | nil =>
    intro g member
    rw [mem_singleton.mp member]
    exact .of_same (Path.same_refl _)
  | cons next below ih =>
    obtain ⟨depends, linked⟩ := isChain_cons_cons.mp linked
    intro g member
    rcases mem_cons.mp member with rfl | member
    · exact .of_same (Path.same_refl _)
    · exact (ih linked g member).tail depends

/-- A module of the way that the last one depends on closes a cycle. -/
theorem isCycle_wayFrom (grounded : Grounded M start entry w) (top : w.way = f :: way)
    (depends : M.Depends f.node.id target) (on : isOn w.way target = true) :
    ∃ first, (wayFrom w.way target).head? = some first ∧ first.same target = true ∧
      M.Reaches start first ∧ M.IsCycle (wayFrom w.way target) := by
  have linked : (w.way.reverse.map fun f => f.node.id).IsChain M.Depends := by
    rw [isChain_map, isChain_reverse]
    exact grounded.linked
  have distinct : (w.way.reverse.map fun f => f.node.id).Pairwise fun p q => p.same q = false := by
    have nodup : (w.way.map Frame.key).Nodup := by
      have all := grounded.distinct
      rw [met, map_append] at all
      exact (nodup_append.mp all).2.1
    rw [map_reverse, pairwise_reverse]
    refine pairwise_map.mpr ((pairwise_map.mp nodup).imp fun different => ?_)
    rw [← Bool.not_eq_true, Path.same_iff]
    exact fun same => different same.symm
  have last : (w.way.reverse.map fun f => f.node.id).getLast? = some f.node.id := by
    simp [top]
  have member : ∃ p ∈ w.way.reverse.map (fun f => f.node.id), p.same target = true := by
    obtain ⟨g, member, same⟩ := isOn_iff.mp on
    exact ⟨g.node.id, mem_map_of_mem (mem_reverse.mpr member), same⟩
  obtain ⟨first, head, same, isCycle⟩ :=
    ModuleMap.isCycle_of_way distinct linked last depends member
  refine ⟨first, head, same, ?_, isCycle⟩
  have listed := (dropWhile_suffix _).mem (mem_of_head? head)
  obtain ⟨g, member, rfl⟩ := mem_map.mp listed
  exact grounded.reached g (mem_append_right _ (mem_reverse.mp member))

end Grounded

end Tarkib.Walk
