import Tarkib.Proofs.Loader.Lasting

/-!
# Graphs that are loaded

A graph is loaded file by file. Let modules stand at paths, and let every file that is loaded on the
way give the module that stands there (`Answers`). Then all that is known of walks through these
modules holds of the graph.
-/

namespace Tarkib

open List

/-! ## What a graph lists -/

/-- The graph of the module at a path: it lists the modules that are reached from there, each once
and the first one last. A module stands behind those that it depends on, unless they need it in
turn. The libraries are those that the modules need, in ascending order. -/
structure Graph.Lists (M : ModuleMap) (path : Path) (g : Graph) : Prop where
  entry : M.at? path = some g.entry
  last : g.modules.getLast? = some g.entry
  distinct : g.modules.Pairwise fun u v => u.id.same v.id = false
  reached : ∀ m ∈ g.modules, M.at? m.id = some m ∧ M.Reaches path m.id
  complete : ∀ p, M.Reaches path p → ∃ m ∈ g.modules, M.at? p = some m
  ordered : ∀ before u after, g.modules = before ++ u :: after → ∀ v ∈ u.localTargets,
    (∃ m ∈ before, m.id.same v = true) ∨ Relation.TransGen M.Depends v u.id
  sorted : g.externals.Pairwise (· < ·)
  libraries : ∀ name, name ∈ g.externals ↔
    ∃ m ∈ g.modules, ∃ d ∈ m.dependencies, d.target = .external name

theorem Walk.Sound.lists {M : ModuleMap} {policy : CyclePolicy} {path : Path} {entry : Module}
    {circles : List (List Path)} {w : Walk} (sound : Walk.Sound M policy path entry circles w)
    (ended : w.way = []) (here : M.at? path = some entry) : (w.graph entry).Lists M path := by
  have keys := sound.grounded.distinct
  have last := sound.grounded.last
  rw [Walk.Sound.keys_of_over ended] at keys
  rw [Walk.Sound.met_eq_of_over ended, map_map] at last
  refine ⟨here, ?_, ?_, ?_, ?_, ?_, sound.noted.sorted, sound.mem_externals_iff ended⟩
  · simpa [Walk.graph, Function.comp_def] using last
  · refine (pairwise_map.mp keys).imp fun different => ?_
    rw [← Bool.not_eq_true, Path.same_iff]
    exact different
  · intro m member
    obtain ⟨p, reaches, found⟩ := (sound.mem_iff_reaches ended here m).mp member
    exact ⟨ModuleMap.at?_id found, reaches.congr_right (Path.same_symm (M.own found))⟩
  · intro p reaches
    obtain ⟨m, member, key⟩ := mem_map.mp (sound.mem_keys_of_reaches ended here reaches)
    exact ⟨m, member, (M.uniform (Path.same_iff.mpr key)).symm.trans (sound.at?_of_mem member)⟩
  · intro before u after split v listed
    rcases sound.ordered ended split listed with earlier | ⟨_, reaches, _⟩
    · obtain ⟨m, member, key⟩ := mem_map.mp earlier
      exact .inl ⟨m, member, Path.same_iff.mpr key⟩
    · -- What a module depends on and what reaches it follows itself.
      have member : u ∈ (w.graph entry).modules := by simp [split]
      have depends : M.Depends u.id v :=
        ⟨u, sound.at?_of_mem member, v, listed, Path.same_refl v⟩
      rcases reaches with same | way
      · exact .inr (.single (depends.congr (Path.same_symm same) same))
      · exact .inr way

namespace Loader

/-! ## Loading file by file -/

/-- The files that are loaded for a graph, one after the other, and what each of them gives. -/
def calls (l : Loader) (project : Project) (now : Nat) (path : Path) : List Walk.Call :=
  match l.loadFile project now path with
  | (_, .error e) => [(path, .error e)]
  | (l, .ok entry) =>
    (Walk.finish l.loading.cyclePolicy (Walk.logged fun l path => l.loadFile project now path)
      (Walk.loggedRefusal fun l => l.count .loadFailures) entry (l.reach project)
      ((Walk.start path).enter entry) (l, [(path, .ok entry)])).1.2

/-- Every file that is loaded for a graph gives the module that stands there. -/
def Answers (M : ModuleMap) (l : Loader) (project : Project) (now : Nat) (path : Path) : Prop :=
  ∀ call ∈ l.calls project now path, Walk.Served M call

instance (M : ModuleMap) (l : Loader) (project : Project) (now : Nat) (path : Path) :
    Decidable (Answers M l project now path) :=
  inferInstanceAs (Decidable (∀ call ∈ _, _))

theorem loading_loadFile (l : Loader) (project : Project) (now : Nat) (path : Path) :
    (l.loadFile project now path).1.loading = l.loading :=
  (stable_loading l.loading).loadFile project now path rfl

/-- The files that a walk can come to from a path: that one and those that are reachable. -/
def around (l : Loader) (project : Project) (path : Path) : List Key :=
  path.components :: l.reachable project

/-- A walk stays among the files around its entry. -/
theorem kept_around (l : Loader) (project : Project) (path : Path) :
    Kept (l.around project path) l := by
  intro m member target listed
  exact mem_cons_of_mem _ (kept_reachable l project m member target listed)

variable {l : Loader} {project : Project} {now : Nat} {path : Path} {M : ModuleMap}

theorem within_start {l' : Loader} {entry : Module}
    (first : l.loadFile project now path = (l', .ok entry)) :
    Walk.Within (l'.around project path) ((Walk.start path).enter entry) := by
  refine Walk.Within.enter ⟨?_, ?_, ?_⟩ ?_
  · simp [Walk.start]
  · simp [Walk.start, around]
  · intro f member
    cases member
  · intro target listed
    rcases tied_or_mem_of_loadFile (by rw [first]) with built | ⟨_, member⟩
    · exact mem_cons_of_mem _ (mem_append_left _ (built target listed))
    · rw [first] at member
      exact kept_around l' project path entry member target listed

theorem files_subset_around (l : Loader) (project : Project) (path : Path) :
    project.files ⊆ l.around project path := by
  intro key member
  exact mem_cons_of_mem _ (mem_append_left _ member)

theorem length_around_le (l : Loader) (project : Project) (path : Path) (entry : Module) :
    (l.around project path).length ≤
      ((Walk.start path).enter entry).visited.length + l.reach project := by
  rw [around, length_cons, length_reachable]
  exact Nat.le_add_left _ _

/-- Loading a graph is the walk through the modules that stand at the paths. -/
theorem ends_loadGraph (answers : Answers M l project now path) :
    ∃ entry, M.at? path = some entry ∧
      Walk.Ends M l.loading.cyclePolicy entry ((Walk.start path).enter entry)
        (l.loadGraph project now path).2 := by
  have loading := loading_loadFile l project now path
  unfold Answers calls at answers
  unfold loadGraph
  rcases first : l.loadFile project now path with ⟨l', e | entry⟩
  · rw [first] at answers
    obtain ⟨m, _, loaded⟩ := answers (path, .error e) mem_cons_self
    cases loaded
  · rw [first] at answers loading
    dsimp only at answers loading ⊢
    rw [← loading]
    have served : Walk.Served M (path, .ok entry) := by
      refine answers _ (Walk.log_subset_finish _ _ _ _ _ _ _ ?_)
      exact mem_cons_self
    obtain ⟨m, here, loaded⟩ := served
    cases loaded
    refine ⟨entry, here, ?_⟩
    have ends := Walk.ends_finish (P := Kept (l'.around project path))
      (fun l path kept => kept.loadFile (files_subset_around l' project _) now path)
      (kept_around l' project path) (within_start first) (length_around_le l' project path entry)
      answers
    rw [(Walk.finish_logged _ _ _ _ _ _ _).2] at ends
    exact ends

/-- A load gives the graph, or a circle if circles are errors. -/
theorem loadGraph_cases (answers : Answers M l project now path) :
    (∃ circle, l.loading.cyclePolicy = .error ∧ Walk.RealCircle M path circle ∧
        (l.loadGraph project now path).2 = .error (.circle (circle.map Path.text))) ∨
      ∃ entry circles w, M.at? path = some entry ∧ w.way = [] ∧
        Walk.Runs M l.loading.cyclePolicy ((Walk.start path).enter entry) circles w ∧
        Walk.Sound M l.loading.cyclePolicy path entry circles w ∧
        (l.loadGraph project now path).2 = .ok (w.graph entry) := by
  obtain ⟨entry, here, circles, w, runs, ends⟩ := ends_loadGraph answers
  have sound : Walk.Sound M l.loading.cyclePolicy path entry circles w :=
    (Walk.sound_start here).runs runs
  rcases ends with ⟨ended, result⟩ | ⟨ids, stops, result⟩
  · exact .inr ⟨entry, circles, w, here, ended, runs, sound, result⟩
  · obtain ⟨strict, m, d, rest, way, target, top, leads, on, rfl⟩ := stops
    exact .inl ⟨_, strict, sound.grounded.realCircle top leads on, result⟩

/-! ## The graph that is returned -/

/-- **A graph lists the modules that are reached, dependencies first.** If every file that is loaded
gives the module that stands there, and circles are no errors, then loading the module at a path
returns a graph. It lists just the modules that are reached from there along dependencies, each
once, the first one last. For every dependency either the module that is referred to comes before
the one that refers to it, or there is a way of dependencies back. The libraries are in ascending
order and just those that occur in the modules. -/
theorem loadGraph_lists_reached {M : ModuleMap} {l : Loader} {project : Project} {now : Nat}
    {path : Path} (allowed : l.loading.cyclePolicy ≠ .error)
    (answers : Answers M l project now path) :
    ∃ g, (l.loadGraph project now path).2 = .ok g ∧ g.Lists M path := by
  rcases loadGraph_cases answers with
    ⟨circle, strict, _⟩ | ⟨entry, circles, w, here, ended, _, sound, result⟩
  · exact absurd strict allowed
  · exact ⟨_, result, sound.lists ended here⟩

/-- Three modules, the second of which needs the first in turn. -/
theorem loadGraph_lists_reached_circle :
    let a : Module := ⟨⟨"/a"⟩, "", "", none, [], [⟨"b", .file ⟨"/b"⟩⟩, ⟨"c", .file ⟨"/c"⟩⟩], 0⟩
    let b : Module := ⟨⟨"/b"⟩, "", "", none, [], [⟨"c", .file ⟨"/c"⟩⟩, ⟨"a", .file ⟨"/a"⟩⟩], 0⟩
    let c : Module := ⟨⟨"/c"⟩, "", "", none, [],
      [⟨"os", .external "os"⟩, ⟨"fs", .external "fs"⟩], 0⟩
    let l : Loader := { loading := { cyclePolicy := .ignore }, cache := [a, b, c] }
    (l.loadGraph {} 0 ⟨"/a"⟩).2.toOption = some ⟨a, [c, b, a], ["fs", "os"], []⟩ ∧
      ∃ g, (l.loadGraph {} 0 ⟨"/a"⟩).2 = .ok g ∧ g.Lists (.ofList [a, b, c]) ⟨"/a"⟩ := by
  intro a b c l
  refine ⟨by decide +kernel, ?_⟩
  exact loadGraph_lists_reached (by decide) (by decide +kernel)

/-! ## Circles -/

/-- The loader with another policy for circles. -/
def withPolicy (l : Loader) (policy : CyclePolicy) : Loader :=
  { l with loading := { l.loading with cyclePolicy := policy } }

theorem loadGraph_error_iff (strict : l.loading.cyclePolicy = .error)
    (answers : Answers M l project now path) :
    ((∃ ids, (l.loadGraph project now path).2 = .error (.circle ids)) ↔ M.HasCycle path) ∧
      ∀ e, (l.loadGraph project now path).2 = .error e →
        ∃ circle, e = .circle (circle.map Path.text) ∧ Walk.RealCircle M path circle := by
  rcases loadGraph_cases answers with
    ⟨circle, _, real, result⟩ | ⟨entry, circles, w, here, ended, runs, sound, result⟩
  · rw [result]
    refine ⟨iff_of_true ⟨_, rfl⟩ real.hasCycle, ?_⟩
    rintro e ⟨⟩
    exact ⟨circle, rfl, real⟩
  · rw [strict] at runs
    rw [result, ← sound.circles_ne_nil_iff ended here, Walk.circles_eq_nil_of_error runs]
    simp

/-- **The policy decides what becomes of circles.** Let every file that is loaded under a policy
give the module that stands there. Under `error` the load fails with a circle if and only if a cycle
is reached from the path, it fails in no other way, and the circle is real: each of its modules
depends on the next one. Under `warn` it succeeds, and the warnings are the remarks of the compiler
and messages about real circles, of which there are some if and only if a cycle is reached. Under
`ignore` it succeeds with the same modules, and the warnings are the remarks alone. -/
theorem loadGraph_cycle_policies {M : ModuleMap} {l : Loader} {project : Project} {now : Nat}
    {path : Path} (answers : ∀ policy, Answers M (l.withPolicy policy) project now path) :
    ((∃ ids, ((l.withPolicy .error).loadGraph project now path).2 = .error (.circle ids)) ↔
        M.HasCycle path) ∧
      (∀ e, ((l.withPolicy .error).loadGraph project now path).2 = .error e →
        ∃ circle, e = .circle (circle.map Path.text) ∧ Walk.RealCircle M path circle) ∧
      ∃ warned ignored circles,
        ((l.withPolicy .warn).loadGraph project now path).2 = .ok warned ∧
        warned.warnings.Perm (warned.modules.flatMap Walk.remarks ++
          circles.map fun circle => circleMessage (circle.map Path.text)) ∧
        (circles ≠ [] ↔ M.HasCycle path) ∧
        (∀ circle ∈ circles, Walk.RealCircle M path circle) ∧
        ((l.withPolicy .ignore).loadGraph project now path).2 = .ok ignored ∧
        ignored.warnings.Perm (ignored.modules.flatMap Walk.remarks) ∧
        ignored.modules = warned.modules := by
  obtain ⟨fails, real⟩ := loadGraph_error_iff rfl (answers .error)
  refine ⟨fails, real, ?_⟩
  rcases loadGraph_cases (answers .warn) with
    ⟨_, strict, _⟩ | ⟨entry, circles, w, here, ended, runs, sound, result⟩
  · cases strict
  rcases loadGraph_cases (answers .ignore) with
    ⟨_, strict, _⟩ | ⟨entry', circles', w', here', ended', runs', sound', result'⟩
  · cases strict
  rw [here] at here'
  cases here'
  refine ⟨w.graph entry, w'.graph entry, circles, result, ?_, sound.circles_ne_nil_iff ended here,
    sound.real, result', ?_, ?_⟩
  · have warnings := sound.warnings
    rw [map_eq_flatMap]
    exact warnings
  · have warnings := sound'.warnings
    have none : circles'.flatMap (Walk.told .ignore) = [] :=
      flatMap_eq_nil_iff.mpr fun _ _ => rfl
    rw [withPolicy, none, append_nil] at warnings
    exact warnings
  · -- Apart from what is told both policies make one walk.
    obtain ⟨warnings, retold⟩ := runs.retold .ignore (by simp) []
    have same := retold.unique ended runs' ended'
    exact (congrArg Walk.modules same).symm

/-- A module that needs itself, reached from another one that the compiler has a remark on. -/
theorem loadGraph_cycle_policies_loop :
    let a : Module := ⟨⟨"/a"⟩, "", "", none, ["late"], [⟨"b", .file ⟨"/b"⟩⟩], 0⟩
    let b : Module := ⟨⟨"/b"⟩, "", "", none, [], [⟨"b", .file ⟨"/b"⟩⟩], 0⟩
    let l : Loader := { cache := [a, b] }
    (∃ ids, ((l.withPolicy .error).loadGraph {} 0 ⟨"/a"⟩).2 = .error (.circle ids)) ∧
      ((l.withPolicy .warn).loadGraph {} 0 ⟨"/a"⟩).2.toOption.map Graph.warnings =
        some [circleMessage ["/b", "/b"], "/a: late"] := by
  intro a b l
  have answers (policy : CyclePolicy) :
      Answers (.ofList [a, b]) (l.withPolicy policy) {} 0 ⟨"/a"⟩ := by
    cases policy <;> decide +kernel
  have enters : (ModuleMap.ofList [a, b]).Depends ⟨"/a"⟩ ⟨"/b"⟩ :=
    ⟨a, by decide, ⟨"/b"⟩, by decide, by decide⟩
  have loops : (ModuleMap.ofList [a, b]).Depends ⟨"/b"⟩ ⟨"/b"⟩ :=
    ⟨b, by decide, ⟨"/b"⟩, by decide, by decide⟩
  refine ⟨(loadGraph_cycle_policies answers).1.mpr ?_, by decide +kernel⟩
  exact ⟨⟨"/b"⟩, .inr (.single enters), .single loops⟩

end Loader

end Tarkib
