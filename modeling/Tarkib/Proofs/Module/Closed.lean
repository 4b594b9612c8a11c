import Tarkib.Proofs.Module.Walk

/-!
# Nothing that a walk refers to is missing

Modules may change while a walk is under way, so nothing is said here about what stands at a path.
Still, a path that the walk has asked for is that of a module it was given, and a dependency of such
a module is either to be followed or leads to one (`Closed`). Circles make no difference: the module
that closes one is on the way and will be listed later.
-/

namespace Tarkib.Walk

open List

/-- The walk has met the module at the path. -/
def Knows (w : Walk) (path : Path) : Prop :=
  ∃ m ∈ w.met.map Frame.node, m.id.same path = true

/-- Every module that the walk was given has the property `P`, every path that it has asked for is
that of such a module, and so is every file that these refer to, unless it is still to be followed.
It was given no module twice. -/
structure Closed (P : Module → Prop) (w : Walk) : Prop where
  every : ∀ m ∈ w.met.map Frame.node, P m
  asked : ∀ path ∈ w.visited, w.Knows path
  visited : ∀ m ∈ w.met.map Frame.node, w.visited.any m.id.same = true
  distinct : (w.met.map Frame.node).Pairwise fun m n => m.id.same n.id = false
  rest : ∀ f ∈ w.way, f.rest ⊆ f.node.dependencies
  followed : ∀ f ∈ w.met, ∀ d ∈ f.node.dependencies, ∀ path, d.target = .file path →
    d ∈ f.rest ∨ w.Knows path

namespace Closed

variable {P : Module → Prop} {w w' : Walk} {m : Module} {d : Dependency} {rest : List Dependency}
  {way : List Frame} {path : Path}

theorem knows_of_isOn {target : Path} (on : isOn w.way target = true) : w.Knows target := by
  obtain ⟨f, member, same⟩ := isOn_iff.mp on
  exact ⟨f.node, mem_map_of_mem (mem_append_right _ member), same⟩

theorem knows_of_visited (closed : Closed P w) {target : Path}
    (visited : w.visited.any target.same = true) : w.Knows target := by
  obtain ⟨path, asked, same⟩ := any_eq_true.mp visited
  obtain ⟨m, member, own⟩ := closed.asked path asked
  exact ⟨m, member, Path.same_trans own (Path.same_symm same)⟩

theorem start {first : Module} (holds : P first) (own : first.id.same path = true) :
    Closed P ((Walk.start path).enter first) := by
  have nodes : ((Walk.start path).enter first).met.map Frame.node = [first] := rfl
  refine ⟨?_, ?_, ?_, ?_, ?_, ?_⟩
  · simpa [nodes] using holds
  · intro asked member
    obtain rfl := mem_singleton.mp member
    exact ⟨first, by simp [nodes], own⟩
  · intro m member
    obtain rfl := mem_singleton.mp member
    simpa [Walk.start, Walk.enter] using own
  · exact pairwise_singleton _ _
  · intro f member
    obtain rfl := mem_singleton.mp member
    exact List.Subset.refl _
  · intro f member d listed _ _
    obtain rfl := mem_singleton.mp member
    exact .inl listed

section Moves

variable (closed : Closed P w)
include closed

theorem leave (top : w.way = ⟨m, []⟩ :: way) : Closed P (w.leave m way) := by
  have met := met_leave top
  have knows (path : Path) : (w.leave m way).Knows path ↔ w.Knows path := by
    rw [Knows, Knows, met]
  refine ⟨?_, ?_, ?_, ?_, ?_, ?_⟩
  · rw [met]
    exact closed.every
  · intro path asked
    exact (knows path).mpr (closed.asked path asked)
  · rw [met]
    exact closed.visited
  · rw [met]
    exact closed.distinct
  · exact fun f member => closed.rest f (top ▸ mem_cons_of_mem _ member)
  · rw [met]
    intro f member d listed path leads
    rw [knows]
    exact closed.followed f member d listed path leads

theorem of_rest (top : w.way = ⟨m, d :: rest⟩ :: way) (modules : w'.modules = w.modules)
    (visited : w'.visited = w.visited) (top' : w'.way = ⟨m, rest⟩ :: way)
    (known : ∀ path, d.target = .file path → w.Knows path) :
    Closed P w' := by
  have nodes : w'.met.map Frame.node = w.met.map Frame.node := by
    simp [met_of_top top, met_of_top top', modules]
  have knows (path : Path) : w'.Knows path ↔ w.Knows path := by
    rw [Knows, Knows, nodes]
  have here : ⟨m, d :: rest⟩ ∈ w.met := by simp [met_of_top top]
  refine ⟨nodes ▸ closed.every, ?_, ?_, nodes ▸ closed.distinct, ?_, ?_⟩
  · intro path asked
    exact (knows path).mpr (closed.asked path (visited ▸ asked))
  · rw [nodes, visited]
    exact closed.visited
  · intro f member
    rw [top', mem_cons] at member
    rcases member with rfl | member
    · have own := closed.rest ⟨m, d :: rest⟩ (by simp [top])
      exact List.Subset.trans (subset_cons_self d rest) own
    · exact closed.rest f (by simp [top, member])
  · intro f member e listed path leads
    rw [knows]
    rw [met_of_top top', modules, mem_append, mem_cons] at member
    rcases member with left | rfl | below
    · exact closed.followed f (by simp [met_of_top top, left]) e listed path leads
    · rcases closed.followed _ here e listed path leads with ahead | known
      · rcases mem_cons.mp ahead with rfl | later
        · exact .inr (known path leads)
        · exact .inl later
      · exact .inr known
    · exact closed.followed f (by simp [met_of_top top, below]) e listed path leads

theorem exists_user {next : Walk} (needs : Needs w path next) :
    ∃ user, path ∈ user.localTargets ∧ P user := by
  obtain ⟨m, d, rest, way, top, leads, _⟩ := needs
  have listed : d ∈ m.dependencies := closed.rest ⟨m, d :: rest⟩ (by simp [top]) (by simp)
  refine ⟨m, Module.mem_localTargets.mpr ⟨d, listed, leads⟩, ?_⟩
  exact closed.every m (by simp [met_of_top top])

theorem enter {next : Walk} (needs : Needs w path next) {found : Module} (holds : P found)
    (own : found.id.same path = true) :
    Closed P (next.enter found) := by
  obtain ⟨m, d, rest, way, top, leads, off, fresh, spec⟩ := needs
  have entered : (next.enter found).met =
      w.modules.map (⟨·, []⟩) ++ ⟨found, found.dependencies⟩ :: ⟨m, rest⟩ :: way := by
    rw [spec]
    rfl
  have shuffled : List.Perm ((next.enter found).met.map Frame.node)
      (found :: w.met.map Frame.node) := by
    simp only [entered, met_of_top top, map_append, map_cons]
    exact perm_middle
  have nodes (n : Module) :
      n ∈ (next.enter found).met.map Frame.node ↔ n = found ∨ n ∈ w.met.map Frame.node := by
    rw [shuffled.mem_iff, mem_cons]
  have visited : (next.enter found).visited = path :: w.visited := by
    rw [spec]
    rfl
  -- The new module is known now, and all others still are.
  have new : (next.enter found).Knows path := ⟨found, (nodes found).mpr (.inl rfl), own⟩
  have old (target : Path) (known : w.Knows target) : (next.enter found).Knows target := by
    obtain ⟨n, member, same⟩ := known
    exact ⟨n, (nodes n).mpr (.inr member), same⟩
  refine ⟨?_, ?_, ?_, ?_, ?_, ?_⟩
  · intro n member
    rcases (nodes n).mp member with rfl | member
    · exact holds
    · exact closed.every n member
  · intro asked member
    rcases mem_cons.mp (visited ▸ member) with rfl | member
    · exact new
    · exact old asked (closed.asked asked member)
  · intro n member
    rw [visited, any_cons, Bool.or_eq_true]
    rcases (nodes n).mp member with rfl | member
    · exact .inl own
    · exact .inr (closed.visited n member)
  · have symmetric {m n : Module} (apart : m.id.same n.id = false) : n.id.same m.id = false := by
      rwa [Path.same_comm]
    refine (shuffled.pairwise_iff symmetric).mpr (pairwise_cons.mpr ⟨?_, closed.distinct⟩)
    intro n member
    rw [← Bool.not_eq_true]
    intro same
    have before := closed.visited n member
    rw [Path.any_same_iff, Path.same_iff.mp (Path.same_trans (Path.same_symm same) own),
      ← Path.any_same_iff, fresh] at before
    cases before
  · intro f member
    have onWay : (next.enter found).way = ⟨found, found.dependencies⟩ :: ⟨m, rest⟩ :: way := by
      rw [spec]
      rfl
    rw [onWay, mem_cons, mem_cons] at member
    rcases member with rfl | rfl | below
    · exact List.Subset.refl _
    · have before := closed.rest ⟨m, d :: rest⟩ (by simp [top])
      exact List.Subset.trans (subset_cons_self d rest) before
    · exact closed.rest f (by simp [top, below])
  · intro f member e listed target file
    rw [entered, mem_append, mem_cons, mem_cons] at member
    rcases member with left | rfl | rfl | below
    · have followed := closed.followed f (by rw [met]; exact mem_append_left _ left)
      exact (followed e listed target file).imp_right (old target)
    · exact .inl listed
    · rcases closed.followed ⟨m, d :: rest⟩ (by simp [met_of_top top]) e listed target file with
        ahead | known
      · rcases mem_cons.mp ahead with rfl | later
        · rw [leads] at file
          cases file
          exact .inr new
        · exact .inl later
      · exact .inr (old target known)
    · have followed := closed.followed f (by simp [met_of_top top, below])
      exact (followed e listed target file).imp_right (old target)

/-- Going on keeps a walk closed. -/
theorem runs {policy : CyclePolicy} {circles : List (List Path)}
    (runs : Runs (.ofList []) policy w circles w') :
    Closed P w' := by
  induction runs with
  | refl => exact closed
  | head goes _ ih =>
    refine ih ?_
    cases goes with
    | leave top => exact closed.leave top
    | library top leads =>
      refine closed.of_rest top rfl rfl rfl fun path file => ?_
      rw [leads] at file
      cases file
    | circle allowed top leads on =>
      refine closed.of_rest top rfl rfl rfl fun path file => ?_
      rw [leads] at file
      cases file
      exact knows_of_isOn (by simpa [isOn, top] using on)
    | known top leads off visited =>
      refine closed.of_rest top rfl rfl rfl fun path file => ?_
      rw [leads] at file
      cases file
      exact closed.knows_of_visited visited
    | enter top leads off fresh here => cases here

end Moves

/-- So does every answer. -/
theorem finish {σ : Type} {Q : σ → Prop} {policy : CyclePolicy}
    {load : σ → Path → σ × Except Error Module} {refuse : σ → σ} {entry : Module}
    (loads : ∀ s m path, Q s → P m → path ∈ m.localTargets → Q (load s path).1 ∧
      ∀ n, (load s path).2 = .ok n → P n ∧ n.id.same path = true)
    {fuel : Nat} {w : Walk} {s : σ} (ready : Q s) (closed : Closed P w) {g : Graph}
    (made : (Walk.finish policy load refuse entry fuel w s).2 = .ok g) :
    ∃ last, Closed P last ∧ last.way = [] ∧ g = last.graph entry := by
  fun_induction Walk.finish policy load refuse entry fuel w s with
  | case1 fuel w s last pause =>
    obtain ⟨circles, w', runs, fits⟩ := fits_advance policy w
    rw [pause] at fits
    obtain ⟨rfl, ended⟩ := fits
    cases made
    exact ⟨last, closed.runs (runs _), ended, rfl⟩
  | case2 => cases made
  | case3 => cases made
  | case4 => cases made
  | case5 w s path next pause fuel s' m answer ih =>
    obtain ⟨circles, w', runs, needs⟩ := fits_advance policy w
    rw [pause] at needs
    have before := closed.runs (runs _)
    obtain ⟨user, listed, holds⟩ := before.exists_user needs
    obtain ⟨still, loaded⟩ := loads s user path ready holds listed
    rw [answer] at still loaded
    obtain ⟨holds, own⟩ := loaded m rfl
    exact ih still (before.enter needs holds own) made

theorem nodes_of_over (ended : w.way = []) : w.met.map Frame.node = w.modules := by
  simp [met, ended, Function.comp_def]

/-- A graph that is returned lists every file that its modules refer to, and no module twice. -/
theorem listed_of_over (closed : Closed P w) (ended : w.way = []) :
    (∀ m ∈ w.modules, P m) ∧ ∀ m ∈ w.modules, ∀ path ∈ m.localTargets,
      ∃ n ∈ w.modules, n.id.same path = true := by
  have nodes := nodes_of_over ended
  refine ⟨fun m member => closed.every m (nodes ▸ member), ?_⟩
  intro m member path listed
  obtain ⟨d, inside, leads⟩ := Module.mem_localTargets.mp listed
  have here : ⟨m, []⟩ ∈ w.met := by simp [met, member]
  rcases closed.followed _ here d inside path leads with ahead | known
  · exact absurd ahead not_mem_nil
  · rw [Knows, nodes] at known
    exact known

end Closed

end Tarkib.Walk
