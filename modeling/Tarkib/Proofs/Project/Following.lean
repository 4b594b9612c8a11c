import Tarkib.Proofs.Fallible
import Tarkib.Proofs.Path.Extension
import Tarkib.Proofs.Project.Canonical

/-!
# Following steps

Looking up a path is looking up its front and going on from there. Commands only add to a project:
directories and files where nothing stands, and files in the place of files (`Grows`).
-/

namespace Tarkib.Project

open Tarkib.Path List

variable {p : Project} {directory : List String} {links : Nat} {content : ByteArray} {name : String}

/-! ## Places -/

variable {place front base names : List String} {path : Path}

theorem hasDirectory_iff : p.hasDirectory place = true ↔ p.node? place = some .directory := by
  unfold hasDirectory
  split <;> simp_all

/-! ## Steps -/

/-- A step that is looked up in a directory: neither one dot nor two, and not too long. -/
structure IsEntry (name : String) : Prop where
  noDot : name ≠ "."
  noDots : name ≠ ".."
  short : ¬ nameLimit < name.utf8ByteSize

section Follow

variable {todo : List String}

@[simp]
theorem follow_nil : p.follow links directory [] = .ok directory := by
  rw [follow]

@[simp]
theorem follow_dot : p.follow links directory ("." :: todo) = p.follow links directory todo := by
  rw [follow]

@[simp]
theorem follow_up :
    p.follow links directory (".." :: todo) = p.follow links directory.dropLast todo := by
  rw [follow]

theorem follow_name (entry : IsEntry name) :
    p.follow links directory (name :: todo) =
      match p.node? (directory ++ [name]) with
      | none => .error .notFound
      | some .directory => p.follow links (directory ++ [name]) todo
      | some (.file _) => if todo.isEmpty then .ok (directory ++ [name]) else .error .notDirectory
      | some (.link target) =>
        match links with
        | 0 => .error .tooManyLinks
        | links + 1 => p.follow links (startOf directory target) (steps target ++ todo) := by
  have unfolded := follow.eq_4 p links directory name todo entry.noDot entry.noDots
  rw [if_neg entry.short] at unfolded
  exact unfolded

end Follow

/-! ## Growing projects -/

/-- The project `p` has grown to `p'`: what stood there still does, but files may have another
content. No links were added. -/
structure Grows (p p' : Project) : Prop where
  working : p'.workingDirectory = p.workingDirectory
  directory : ∀ place, p.node? place = some .directory → p'.node? place = some .directory
  link : ∀ place target, p'.node? place = some (.link target) ↔
    p.node? place = some (.link target)
  file : ∀ place content, p.node? place = some (.file content) →
    ∃ content', p'.node? place = some (.file content')

namespace Grows

variable {p' p'' : Project}

theorem refl (p : Project) : Grows p p :=
  ⟨rfl, fun _ => id, fun _ _ => Iff.rfl, fun _ content there => ⟨content, there⟩⟩

theorem trans (first : Grows p p') (second : Grows p' p'') : Grows p p'' where
  working := second.working.trans first.working
  directory place there := second.directory place (first.directory place there)
  link place target := (second.link place target).trans (first.link place target)
  file place content there := by
    obtain ⟨content', there⟩ := first.file place content there
    exact second.file place content' there

end Grows

/-- What a path leads to is where its back leads from where its front leads. -/
theorem exists_follow_append (found : p.follow links directory front = .ok place) :
    ∃ left ≤ links, ∀ p', Grows p p' → ∀ rest,
      (rest = [] ∨ p.node? place = some .directory) →
        p'.follow links directory (front ++ rest) = p'.follow left place rest := by
  fun_induction Project.follow p links directory front with
  | case1 links directory =>
    cases found
    exact ⟨links, Nat.le_refl links, fun p' grows rest allowed => rfl⟩
  | case2 links directory front ih =>
    obtain ⟨left, fewer, same⟩ := ih found
    refine ⟨left, fewer, fun p' grows rest allowed => ?_⟩
    rw [cons_append, follow_dot, same p' grows rest allowed]
  | case3 links directory front ih =>
    obtain ⟨left, fewer, same⟩ := ih found
    refine ⟨left, fewer, fun p' grows rest allowed => ?_⟩
    rw [cons_append, follow_up, same p' grows rest allowed]
  | case4 => cases found
  | case5 => cases found
  | case6 links directory name front noDot noDots short there ih =>
    obtain ⟨left, fewer, same⟩ := ih found
    refine ⟨left, fewer, fun p' grows rest allowed => ?_⟩
    rw [cons_append, follow_name ⟨noDot, noDots, short⟩, grows.directory _ there]
    exact same p' grows rest allowed
  | case7 links directory name front noDot noDots short content there last =>
    cases found
    obtain rfl := List.isEmpty_iff.mp last
    refine ⟨links, Nat.le_refl links, fun p' grows rest allowed => ?_⟩
    rcases allowed with rfl | inside
    · obtain ⟨content', there⟩ := grows.file _ _ there
      rw [append_nil, follow_name ⟨noDot, noDots, short⟩, there, follow_nil]
      rfl
    · rw [inside] at there
      cases there
  | case8 => cases found
  | case9 => cases found
  | case10 directory name front noDot noDots short target there links ih =>
    obtain ⟨left, fewer, same⟩ := ih found
    refine ⟨left, Nat.le_succ_of_le fewer, fun p' grows rest allowed => ?_⟩
    rw [cons_append, follow_name ⟨noDot, noDots, short⟩, (grows.link _ _).mpr there]
    dsimp only
    rw [← append_assoc]
    exact same p' grows rest allowed

/-- If the front leads nowhere, the path does not either. -/
theorem follow_append_of_error {fault : Fault}
    (failed : p.follow links directory front = .error fault) (rest : List String) :
    p.follow links directory (front ++ rest) = .error fault := by
  fun_induction Project.follow p links directory front with
  | case1 => cases failed
  | case2 links directory front ih => rw [cons_append, follow_dot, ih failed]
  | case3 links directory front ih => rw [cons_append, follow_up, ih failed]
  | case4 links directory name front noDot noDots long =>
    rw [cons_append, follow, if_pos long]
    · exact failed
    · exact noDot
    · exact noDots
  | case5 links directory name front noDot noDots short there
  | case9 directory name front noDot noDots short target there =>
    rw [cons_append, follow_name ⟨noDot, noDots, short⟩, there]
    exact failed
  | case6 links directory name front noDot noDots short there ih =>
    rw [cons_append, follow_name ⟨noDot, noDots, short⟩, there]
    exact ih failed
  | case7 => cases failed
  | case8 links directory name front noDot noDots short content there more =>
    have more' : ¬ (front ++ rest).isEmpty = true := by simp_all
    rw [cons_append, follow_name ⟨noDot, noDots, short⟩, there]
    dsimp only
    rw [if_neg more']
    exact failed
  | case10 directory name front noDot noDots short target there links ih =>
    rw [cons_append, follow_name ⟨noDot, noDots, short⟩, there]
    dsimp only
    rw [← append_assoc]
    exact ih failed

theorem follow_of_le {links fewer : Nat} {directory todo : List String}
    (found : p.follow links directory todo = .ok place) (le : fewer ≤ links) :
    p.follow fewer directory todo = .ok place ∨
      p.follow fewer directory todo = .error .tooManyLinks := by
  fun_induction Project.follow p links directory todo generalizing fewer with
  | case1 => exact .inl (by rw [follow_nil, found])
  | case2 links directory todo ih => rw [follow_dot]; exact ih found le
  | case3 links directory todo ih => rw [follow_up]; exact ih found le
  | case4 => cases found
  | case5 => cases found
  | case6 links directory name todo noDot noDots short there ih =>
    rw [follow_name ⟨noDot, noDots, short⟩, there]
    exact ih found le
  | case7 links directory name todo noDot noDots short content there last =>
    rw [follow_name ⟨noDot, noDots, short⟩, there]
    dsimp only
    rw [if_pos last]
    exact .inl found
  | case8 => cases found
  | case9 => cases found
  | case10 directory name todo noDot noDots short target there links ih =>
    rw [follow_name ⟨noDot, noDots, short⟩, there]
    cases fewer with
    | zero => exact .inr rfl
    | succ fewer => exact ih found (Nat.le_of_succ_le_succ le)

/-! ## Trees -/

/-- Whatever stands somewhere stands in a directory, and so does whoever works in the project. -/
structure IsTree (p : Project) : Prop where
  above : ∀ place name node, p.node? (place ++ [name]) = some node →
    p.node? place = some .directory
  working : ∀ directory, p.workingDirectory = some directory →
    p.node? directory = some .directory

theorem isTree_of_flat (flat : ∀ n ∈ p.nodes, n.1.length = 1)
    (root : p.workingDirectory = some []) :
    p.IsTree := by
  constructor
  · intro place name node there
    have listed : p.nodes.lookup (place ++ [name]) = some node := by simpa [node?] using there
    obtain ⟨before, after, split, _⟩ := List.lookup_eq_some_iff.mp listed
    have top : place = [] := by simpa using flat (place ++ [name], node) (by simp [split])
    rw [top]
    rfl
  · intro directory working
    rw [root] at working
    cases working
    rfl

theorem node?_startOf (there : p.node? directory = some .directory) (text : String) :
    p.node? (startOf directory text) = some .directory := by
  unfold startOf
  split
  · rfl
  · exact there

namespace IsTree

theorem dropLast (tree : p.IsTree) {place : List String}
    (there : p.node? place = some .directory) : p.node? place.dropLast = some .directory := by
  rcases eq_nil_or_concat' place with rfl | ⟨front, name, rfl⟩
  · rfl
  · rw [dropLast_concat]
    exact tree.above front name _ there

theorem directory_of_append (tree : p.IsTree) {front rest : List String} {node : Node}
    (more : rest ≠ []) (there : p.node? (front ++ rest) = some node) :
    p.node? front = some .directory := by
  induction rest using List.reverseRecOn generalizing node with
  | nil => exact absurd rfl more
  | append_singleton rest name ih =>
    rw [← append_assoc] at there
    have inner := tree.above _ _ _ there
    cases rest with
    | nil => rwa [append_nil] at inner
    | cons next rest => exact ih (cons_ne_nil next rest) inner

/-- In a tree the front of a path that leads somewhere leads to a directory. -/
theorem exists_directory (tree : p.IsTree) {directory front rest place : List String}
    (inside : p.node? directory = some .directory) (more : rest ≠ [])
    (found : p.follow links directory (front ++ rest) = .ok place) :
    ∃ middle, p.follow links directory front = .ok middle ∧
      p.node? middle = some .directory := by
  fun_induction Project.follow p links directory front with
  | case1 links directory => exact ⟨directory, rfl, inside⟩
  | case2 links directory front ih =>
    rw [cons_append, follow_dot] at found
    exact ih inside found
  | case3 links directory front ih =>
    rw [cons_append, follow_up] at found
    exact ih (tree.dropLast inside) found
  | case4 links directory name front noDot noDots long =>
    rw [cons_append, follow, if_pos long] at found
    · cases found
    · exact noDot
    · exact noDots
  | case5 links directory name front noDot noDots short there
  | case9 directory name front noDot noDots short target there =>
    rw [cons_append, follow_name ⟨noDot, noDots, short⟩, there] at found
    cases found
  | case6 links directory name front noDot noDots short there ih =>
    rw [cons_append, follow_name ⟨noDot, noDots, short⟩, there] at found
    exact ih there found
  | case7 links directory name front noDot noDots short content there last
  | case8 links directory name front noDot noDots short content there last =>
    rw [cons_append, follow_name ⟨noDot, noDots, short⟩, there] at found
    dsimp only at found
    rw [if_neg (by simp [more])] at found
    cases found
  | case10 directory name front noDot noDots short target there links ih =>
    rw [cons_append, follow_name ⟨noDot, noDots, short⟩, there] at found
    dsimp only at found
    rw [← append_assoc] at found
    exact ih (node?_startOf inside target) found

end IsTree

/-! ## Paths -/

theorem startOf_baseOf (based : p.baseOf path = .ok base) : startOf base path.text = base := by
  unfold baseOf at based
  unfold startOf
  split at based
  · next absolute =>
      cases based
      exact ite_self _
  · next relative => exact if_neg relative

theorem IsTree.baseOf (tree : p.IsTree) (based : p.baseOf path = .ok base) :
    p.node? base = some .directory := by
  unfold Project.baseOf at based
  split at based
  · cases based
    rfl
  · split at based
    · next known =>
        cases based
        exact tree.working _ known
    · cases based

theorem Grows.baseOf {p p' : Project} (grows : Grows p p') (path : Path) :
    p'.baseOf path = p.baseOf path := by
  unfold Project.baseOf
  rw [grows.working]

theorem locate_eq (allowed : checkPath path = .ok ()) (based : p.baseOf path = .ok base) :
    p.locate path = p.follow linkLimit base (steps path.text) := by
  simp only [locate, allowed, based, bind, Except.bind]

theorem locate_eq_ok (found : p.locate path = .ok place) :
    checkPath path = .ok () ∧ ∃ base, p.baseOf path = .ok base := by
  obtain ⟨_, allowed, found⟩ := bind_eq_ok found
  obtain ⟨base, based, _⟩ := bind_eq_ok found
  exact ⟨allowed, base, based⟩

def IsTop (path : Path) (name : String) : Prop :=
  path.isAbsolute = true ∧ '\x00' ∉ path.text.toList ∧ path.text.utf8ByteSize ≤ pathLimit ∧
    steps path.text = [name] ∧ name ≠ "." ∧ name ≠ ".." ∧ name.utf8ByteSize ≤ nameLimit

instance (path : Path) (name : String) : Decidable (IsTop path name) :=
  inferInstanceAs (Decidable (_ ∧ _))

section Top

variable (top : IsTop path name)
include top

theorem IsTop.isEntry : IsEntry name := by
  obtain ⟨_, _, _, _, noDot, noDots, short⟩ := top
  exact ⟨noDot, noDots, Nat.not_lt.mpr short⟩

theorem locate_top : p.locate path = p.follow linkLimit [] [name] := by
  obtain ⟨rooted, free, short, spelled, _⟩ := top
  have some : path.text.isEmpty = false := by
    rw [← Bool.not_eq_true, String.isEmpty_iff]
    intro empty
    rw [isAbsolute, empty] at rooted
    cases rooted
  have allowed : checkPath path = .ok () := by
    rw [checkPath, String.contains_char_eq]
    simp [some, free, short]
  rw [locate_eq allowed (if_pos rooted), spelled]

theorem locate_of_file (there : p.node? [name] = some (.file content)) :
    p.locate path = .ok [name] := by
  rw [locate_top top, follow_name top.isEntry, nil_append, there]
  rfl

end Top

/-- In a project that has grown a path leads to the same place. -/
theorem Grows.locate {p p' : Project} (grows : Grows p p') (found : p.locate path = .ok place) :
    p'.locate path = .ok place := by
  obtain ⟨allowed, base, based⟩ := locate_eq_ok found
  rw [locate_eq allowed based] at found
  obtain ⟨left, _, same⟩ := exists_follow_append found
  have again := same p' grows [] (.inl rfl)
  rw [append_nil, follow_nil] at again
  rw [locate_eq allowed ((grows.baseOf path).trans based), again]

/-! ## Projects without links -/

def NoLinks (p : Project) : Prop :=
  ∀ place target, p.node? place ≠ some (.link target)

theorem Grows.noLinks {p p' : Project} (grows : Grows p p') (plain : p.NoLinks) : p'.NoLinks :=
  fun place target there => plain place target ((grows.link place target).mp there)

theorem NoLinks.follow_names (plain : p.NoLinks)
    (steps : ∀ name ∈ names, (Component.name name).IsStep)
    (found : p.follow links directory names = .ok place) : place = directory ++ names := by
  fun_induction Project.follow p links directory names with
  | case1 links directory =>
    cases found
    exact (append_nil _).symm
  | case2 => cases (steps "." mem_cons_self).2
  | case3 => cases (steps ".." mem_cons_self).2
  | case4 => cases found
  | case5 => cases found
  | case6 links directory name names noDot noDots short there ih =>
    rw [ih (fun name member => steps name (mem_cons_of_mem _ member)) found,
      append_assoc, singleton_append]
  | case7 links directory name names noDot noDots short content there last =>
    cases found
    rw [List.isEmpty_iff.mp last]
  | case8 => cases found
  | case9 => cases found
  | case10 directory name names noDot noDots short target there => exact absurd there (plain _ _)

theorem steps_of_spells {front : List (List Char)} (spells : path.Spells front names) :
    steps path.text = (front.map String.ofList).filter (!·.isEmpty) ++ names := by
  have named : names.filter (!·.isEmpty) = names := by
    refine filter_eq_self.mpr fun name member => ?_
    rw [Bool.not_eq_true', ← Bool.not_eq_true, String.isEmpty_iff, ← String.toList_eq_nil_iff]
    exact (ne_of_isStep (spells.steps name member)).1
  have closed : path.text.toList.getLast? ≠ some '/' := by
    intro slash
    obtain ⟨start, ends⟩ := getLast?_eq_some_iff.mp slash
    have read := spells.spelled
    obtain ⟨inner, name, rfl⟩ := (eq_nil_or_concat' names).resolve_left spells.some
    rw [ends, segments_append, stretches, map_append, ← append_assoc] at read
    have last : [] = name.toList := singleton_inj.mp (append_inj_right' read rfl)
    exact (ne_of_isStep (spells.steps name (by simp))).1 last.symm
  have texts : (stretches names).map String.ofList = names := by
    simp [stretches, Function.comp_def]
  rw [steps, spells.spelled, map_append, texts, filter_append, named]
  exact if_neg (by simpa using closed)

/-- Without links different names behind the same path lead to different places. -/
theorem IsTree.eq_of_locate (tree : p.IsTree) (plain : p.NoLinks) {t u : Path}
    {front : List (List Char)} {names' : List String} (first : t.Spells front names)
    (second : u.Spells front names') (located : p.locate t = .ok place)
    (located' : p.locate u = .ok place) : names = names' := by
  have same : p.baseOf u = p.baseOf t := by
    have absolute : u.isAbsolute = t.isAbsolute := by
      rw [Bool.eq_iff_iff, first.isAbsolute_iff, second.isAbsolute_iff]
    rw [Project.baseOf, Project.baseOf, absolute]
  obtain ⟨allowed, base, based⟩ := locate_eq_ok located
  obtain ⟨allowed', -⟩ := locate_eq_ok located'
  have inside := tree.baseOf based
  rw [locate_eq allowed based, steps_of_spells first] at located
  rw [locate_eq allowed' (same.trans based), steps_of_spells second] at located'
  -- Both ways go through the place that the front leads to.
  have behind {names : List String} (some : names ≠ [])
      (steps : ∀ name ∈ names, (Component.name name).IsStep)
      (found : p.follow linkLimit base
        ((front.map String.ofList).filter (!·.isEmpty) ++ names) = .ok place) :
      ∃ middle, p.follow linkLimit base ((front.map String.ofList).filter (!·.isEmpty)) =
        .ok middle ∧ place = middle ++ names := by
    obtain ⟨middle, reached, there⟩ := tree.exists_directory inside some found
    obtain ⟨left, _, same⟩ := exists_follow_append reached
    rw [same p (.refl p) names (.inr there)] at found
    exact ⟨middle, reached, plain.follow_names steps found⟩
  obtain ⟨middle, reached, leads⟩ := behind first.some first.steps located
  obtain ⟨middle', reached', leads'⟩ := behind second.some second.steps located'
  rw [reached] at reached'
  cases reached'
  exact append_cancel_left (leads.symm.trans leads')

/-! ## The name of a file -/

/-- Without links the last step is the last name of the place. -/
theorem IsTree.exists_last_step (tree : p.IsTree) (plain : p.NoLinks) {directory todo : List String}
    (inside : p.node? directory = some .directory)
    (found : p.follow links directory todo = .ok place)
    (file : p.node? place = some (.file content)) :
    ∃ before above name, todo = before ++ [name] ∧ place = above ++ [name] ∧
      name ≠ "." ∧ name ≠ ".." := by
  fun_induction Project.follow p links directory todo with
  | case1 =>
    cases found
    rw [inside] at file
    cases file
  | case2 links directory todo ih =>
    obtain ⟨before, above, name, rfl, last⟩ := ih inside found
    exact ⟨"." :: before, above, name, rfl, last⟩
  | case3 links directory todo ih =>
    obtain ⟨before, above, name, rfl, last⟩ := ih (tree.dropLast inside) found
    exact ⟨".." :: before, above, name, rfl, last⟩
  | case4 => cases found
  | case5 => cases found
  | case6 links directory step todo noDot noDots short there ih =>
    obtain ⟨before, above, name, rfl, last⟩ := ih there found
    exact ⟨step :: before, above, name, rfl, last⟩
  | case7 links directory name todo noDot noDots short content there last =>
    cases found
    rw [List.isEmpty_iff.mp last]
    exact ⟨[], directory, name, rfl, rfl, noDot, noDots⟩
  | case8 => cases found
  | case9 => cases found
  | case10 directory name todo noDot noDots short target there => exact absurd there (plain _ _)

theorem exists_spells_of_steps {before : List String} (last : steps path.text = before ++ [name])
    (noDot : name ≠ ".") (noDots : name ≠ "..") : ∃ front, path.Spells front [name] := by
  have closed : ¬ path.text.toList.getLast? = some '/' := by
    intro slash
    rw [steps, slash] at last
    exact noDot (singleton_inj.mp (append_inj_right' last rfl)).symm
  have named : ((segments path.text.toList).map String.ofList).filter (!·.isEmpty) =
      before ++ [name] := by
    rw [← last, steps, if_neg (by simpa using closed)]
  obtain ⟨front, segment, spelled⟩ :=
    (eq_nil_or_concat' (segments path.text.toList)).resolve_left (segments_ne_nil _)
  have some : segment ≠ [] := by
    rintro rfl
    have joined := joinSegments_segments path.text.toList
    rw [spelled] at joined
    by_cases first : front = []
    · rw [spelled, first] at named
      simp at named
    · rw [joinSegments_concat first] at joined
      exact closed (by rw [← joined, getLast?_concat])
  have here : name.toList = segment := by
    have filled : (!(String.ofList segment).isEmpty) = true := by
      simpa [← String.toList_eq_nil_iff] using some
    rw [spelled, map_append, filter_append, map_singleton, filter_singleton, filled] at named
    rw [← singleton_inj.mp (append_inj_right' named rfl), String.toList_ofList]
  subst here
  refine ⟨front, by simp, ?_, spelled⟩
  intro other member
  obtain rfl := mem_singleton.mp member
  refine isStep_name ?_ (notMem_of_mem_segments (spelled ▸ mem_concat_self)) noDot noDots
  rwa [Ne, ← String.toList_eq_nil_iff]

theorem exists_spells_pathOf (above : List String) (step : (Component.name name).IsStep) :
    ∃ front, (pathOf (above ++ [name])).Spells front [name] := by
  have text : (pathOf (above ++ [name])).text.toList =
      '/' :: joinSegments (stretches above ++ [name.toList]) := by
    simp [pathOf, joinSegments_eq_intercalate, String.toList_intercalate, stretches]
  have alone : segments name.toList = [name.toList] := segments_of_notMem step.1
  have spelled : ∃ front, segments (pathOf (above ++ [name])).text.toList =
      front ++ [name.toList] := by
    rw [text, segments_slash]
    cases above with
    | nil => exact ⟨[[]], congrArg ([] :: ·) alone⟩
    | cons first above =>
      rw [joinSegments_concat (by simp [stretches]), segments_append, alone]
      exact ⟨[] :: segments (joinSegments (stretches (first :: above))), rfl⟩
  obtain ⟨front, spelled⟩ := spelled
  exact ⟨front, by simp, by simpa using step, spelled⟩

theorem IsTree.fileName?_canonical (tree : p.IsTree) (plain : p.NoLinks) {file : Path}
    (isFile : p.isFile path = true) (canonical : p.canonical path = .ok file) :
    path.fileName? = file.fileName? := by
  obtain ⟨place, content, located, there, rfl⟩ := exists_place_of_canonical isFile canonical
  obtain ⟨allowed, base, based⟩ := locate_eq_ok located
  rw [locate_eq allowed based] at located
  obtain ⟨before, above, name, last, rfl, noDot, noDots⟩ :=
    tree.exists_last_step plain (tree.baseOf based) located there
  obtain ⟨front, spells⟩ := exists_spells_of_steps last noDot noDots
  obtain ⟨front', spells'⟩ := exists_spells_pathOf above
    (spells.steps name mem_cons_self)
  rw [spells.fileName? rfl, spells'.fileName? rfl]

end Tarkib.Project
