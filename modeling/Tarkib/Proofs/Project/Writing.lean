import Mathlib.Data.List.TakeWhile
import Tarkib.Proofs.Project.Following

/-!
# Writing into a project

The place of a new file is computed by another way than paths are looked up: the directory is looked
up alone, and links that lead to nothing are followed one by one.
-/

namespace Tarkib.Project

open Tarkib.Path List

variable {p : Project} {place : List String} {node : Node} {path : Path}

/-! ## New files -/

theorem endsWith_slash_iff (text : String) :
    text.endsWith "/" = true ↔ text.toList.getLast? = some '/' := by
  rw [String.endsWith_eq_endsWith_toSlice, String.Slice.endsWith_string_iff, String.copy_toSlice]
  exact singleton_suffix_iff_getLast?_eq_some

variable {text last : String} {base directory : List String} {links depth : Nat} {parent : Path}
  {content : ByteArray} {fault : Fault}

theorem splitLast_eq (closed : text.endsWith "/" = false) :
    text.toList = (splitLast text).1.toList ++ (splitLast text).2.toList ∧
      '/' ∉ (splitLast text).2.toList ∧
      ((splitLast text).1.toList = [] ∨ ∃ front, (splitLast text).1.toList = front ++ ['/']) := by
  have trimmed : text.toList.reverse.dropWhile (· = '/') = text.toList.reverse := by
    rw [dropWhile_eq_self_iff]
    intro some slash
    rw [← Bool.not_eq_true, endsWith_slash_iff, ← head?_reverse] at closed
    apply closed
    rw [head?_eq_getElem?, getElem?_eq_getElem some]
    simpa using slash
  simp only [splitLast, trimmed, String.toList_ofList]
  refine ⟨?_, ?_, ?_⟩
  · rw [← reverse_append, takeWhile_append_dropWhile, reverse_reverse]
  · rw [mem_reverse]
    intro member
    simpa using mem_takeWhile_imp member
  · cases left : text.toList.reverse.dropWhile (· ≠ '/') with
    | nil => exact .inl rfl
    | cons c cs =>
      have slash : c = '/' := by
        have first := head?_dropWhile_not (· ≠ '/') text.toList.reverse
        rw [left] at first
        simpa using first
      exact .inr ⟨cs.reverse, by rw [slash, reverse_cons]⟩

theorem exists_steps_splitLast (closed : text.endsWith "/" = false)
    (named : isName (splitLast text).2 = true) :
    ∃ names, steps text = names ++ [(splitLast text).2] ∧
      (steps (splitLast text).1 = names ∨ steps (splitLast text).1 = names ++ ["."]) := by
  obtain ⟨spelled, free, start⟩ := splitLast_eq closed
  have open' : (text.toList.getLast? == some '/') = false := by
    rw [← Bool.not_eq_true, beq_iff_eq, ← endsWith_slash_iff, closed]
    exact Bool.false_ne_true
  have some : (!(splitLast text).2.isEmpty) = true := by
    rw [Bool.not_eq_true', ← Bool.not_eq_true, String.isEmpty_iff]
    intro empty
    rw [empty] at named
    cases named
  unfold steps
  rw [open', spelled]
  rcases start with empty | ⟨front, slash⟩
  · rw [empty, nil_append, segments_of_notMem free]
    exact ⟨[], by simp [some], .inl (by simp [segments])⟩
  · rw [slash, append_assoc, singleton_append, segments_append, segments_append,
      segments_of_notMem free]
    refine ⟨((segments front).map String.ofList).filter (!·.isEmpty), by simp [some], .inr ?_⟩
    simp [segments]

theorem divide_eq_ok (divided : p.divide base text = .ok (directory, last)) :
    last = (splitLast text).2 ∧ p.node? directory = some .directory ∧
      p.follow linkLimit (startOf base text) (steps (splitLast text).1) = .ok directory := by
  obtain ⟨place, found, divided⟩ := bind_eq_ok divided
  split at divided
  · cases divided
  · next there =>
      cases divided
      exact ⟨rfl, hasDirectory_iff.mp (by simpa using there), found⟩

theorem newEntry_eq_ok (found : p.newEntry base text = .ok (directory, last)) :
    p.divide base text = .ok (directory, last) ∧ isName last = true ∧
      text.endsWith "/" = false ∧ ¬ nameLimit < last.utf8ByteSize := by
  obtain ⟨⟨_, _⟩, divided, found⟩ := bind_eq_ok found
  dsimp only at found
  split at found
  · cases found
  · next named =>
      split at found
      · cases found
      · next closed =>
          split at found
          · cases found
          · next short =>
              cases found
              exact ⟨divided, by simpa using named, by simpa using closed, short⟩

theorem IsTree.follow_of_newEntry (tree : p.IsTree) (inside : p.node? base = some .directory)
    (few : links ≤ linkLimit) (found : p.newEntry base text = .ok (directory, last)) :
    IsEntry last ∧ p.node? directory = some .directory ∧
      (p.follow links (startOf base text) (steps text) = .error .tooManyLinks ∨
        ∃ left ≤ links, ∀ p', Grows p p' →
          p'.follow links (startOf base text) (steps text) = p'.follow left directory [last]) := by
  obtain ⟨divided, named, closed, short⟩ := newEntry_eq_ok found
  obtain ⟨rfl, there, front⟩ := divide_eq_ok divided
  obtain ⟨names, all, before⟩ := exists_steps_splitLast closed named
  have entry : IsEntry (splitLast text).2 := by
    refine ⟨?_, ?_, short⟩ <;> intro dots <;> rw [dots] at named <;> cases named
  -- The slash at the end of the front does not matter, since a directory is there.
  have front : p.follow linkLimit (startOf base text) names = .ok directory := by
    rcases before with same | slash
    · rwa [same] at front
    · rw [slash] at front
      obtain ⟨middle, reached, inner⟩ :=
        tree.exists_directory (node?_startOf inside text) (cons_ne_nil _ _) front
      obtain ⟨left, _, same⟩ := exists_follow_append reached
      rw [same p (.refl p) _ (.inr inner), follow_dot, follow_nil] at front
      rw [reached, front]
  rw [all]
  refine ⟨entry, there, ?_⟩
  rcases follow_of_le front few with reached | failed
  · obtain ⟨left, fewer, same⟩ := exists_follow_append reached
    exact .inr ⟨left, fewer, fun p' grows => same p' grows _ (.inr there)⟩
  · exact .inl (follow_append_of_error failed _)

/-- Both ways lead to the same place. -/
theorem IsTree.follow_of_destination (tree : p.IsTree) {bound : Nat}
    (inside : p.node? base = some .directory) (few : links ≤ linkLimit)
    (missing : p.follow links (startOf base text) (steps text) = .error .notFound)
    (free : p.destination bound base text = .ok place) :
    p.node? place = none ∧
      (∃ directory name, place = directory ++ [name] ∧ p.node? directory = some .directory) ∧
      ∀ p' content, Grows p p' → p'.node? place = some (.file content) →
        p'.follow links (startOf base text) (steps text) = .ok place := by
  fun_induction destination p bound base text generalizing links with
  | case1 => cases free
  | case2 => cases free
  | case3 base text directory last found target there bound ih =>
    obtain ⟨entry, inner, failed | ⟨left, fewer, same⟩⟩ :=
      tree.follow_of_newEntry inside few found
    · rw [failed] at missing
      cases missing
    · rw [same p (.refl p), follow_name entry, there] at missing
      cases left with
      | zero => cases missing
      | succ left =>
        dsimp only at missing
        rw [append_nil] at missing
        obtain ⟨vacant, above, reached⟩ := ih inner (by omega) missing free
        refine ⟨vacant, above, fun p' content grows new => ?_⟩
        rw [same p' grows, follow_name entry, (grows.link _ _).mpr there]
        dsimp only
        rw [append_nil]
        exact reached p' content grows new
  | case4 bound base text directory last found noLink =>
    cases free
    obtain ⟨entry, inner, failed | ⟨left, fewer, same⟩⟩ :=
      tree.follow_of_newEntry inside few found
    · rw [failed] at missing
      cases missing
    · rw [same p (.refl p), follow_name entry] at missing
      refine ⟨?_, ⟨directory, last, rfl, inner⟩, fun p' content grows new => ?_⟩
      · cases there : p.node? (directory ++ [last]) with
        | none => rfl
        | some node =>
          rw [there] at missing
          cases node with
          | file content => cases missing
          | directory => rw [follow_nil] at missing; cases missing
          | link target => exact absurd there (noLink target)
      · rw [same p' grows, follow_name entry, new]
        rfl

/-! ## Adding to a project -/

theorem lookup_filter_ne {β : Type} (nodes : List (List String × β)) (place other : List String) :
    (nodes.filter (·.1 != place)).lookup other =
      if other = place then none else nodes.lookup other := by
  induction nodes with
  | nil => simp
  | cons node nodes ih =>
    obtain ⟨here, value⟩ := node
    by_cases removed : here = place
    · subst removed
      rw [filter_cons_of_neg (by simp), ih, lookup_cons]
      split
      · rfl
      · next own => rw [beq_false_of_ne own]
    · rw [filter_cons_of_pos (by simpa using removed), lookup_cons, lookup_cons,
        ih]
      by_cases own : other = here
      · subst own
        rw [beq_self_eq_true, if_neg removed, if_neg removed]
      · rw [beq_false_of_ne own]

theorem node?_set (below : place ≠ []) (node : Node) (other : List String) :
    (p.set place node).node? other = if other = place then some node else p.node? other := by
  unfold node? set
  by_cases top : other = []
  · subst top
    simp [Ne.symm below]
  · simp only [List.isEmpty_iff, top, if_false, lookup_append, lookup_filter_ne]
    by_cases own : other = place
    · simp [own]
    · simp [own, lookup_cons, beq_false_of_ne own]

section Set

theorem ne_nil_of_node? (other : p.node? place ≠ some .directory) : place ≠ [] := by
  rintro rfl
  exact other rfl

theorem link_of_set (below : place ≠ []) (noLink : ∀ target, node ≠ .link target)
    {other : List String} {target : String}
    (found : (p.set place node).node? other = some (.link target)) :
    p.node? other = some (.link target) := by
  rw [node?_set below] at found
  split at found
  · exact absurd (Option.some.inj found) (noLink target)
  · exact found

theorem grows_set_of_none (vacant : p.node? place = none) (noLink : ∀ target, node ≠ .link target) :
    Grows p (p.set place node) := by
  have below : place ≠ [] := ne_nil_of_node? (p := p) (by simp [vacant])
  have kept (other : List String) (there : Node) (found : p.node? other = some there) :
      (p.set place node).node? other = some there := by
    rw [node?_set below, if_neg (by rintro rfl; simp [vacant] at found), found]
  exact ⟨rfl, fun other => kept other _,
    fun other target => ⟨link_of_set below noLink, kept other _⟩,
    fun other content found => ⟨content, kept other _ found⟩⟩

theorem grows_set_of_file {content : ByteArray} (there : p.node? place = some (.file content))
    (content' : ByteArray) : Grows p (p.set place (.file content')) := by
  have below : place ≠ [] := ne_nil_of_node? (p := p) (by simp [there])
  have kept (other : List String) (node : Node) (found : p.node? other = some node)
      (differs : ∀ content, node ≠ .file content) :
      (p.set place (.file content')).node? other = some node := by
    rw [node?_set below, if_neg, found]
    rintro rfl
    rw [there] at found
    cases found
    exact differs content rfl
  refine ⟨rfl, fun other found => kept other _ found (by simp),
    fun other target => ⟨link_of_set below (by simp), fun found => kept other _ found (by simp)⟩,
    fun other old found => ?_⟩
  rw [node?_set below]
  split
  · exact ⟨content', rfl⟩
  · exact ⟨old, found⟩

/-- A node that is put into a directory leaves the project a tree. -/
theorem IsTree.set (tree : p.IsTree) {directory : List String} {name : String}
    (other : p.node? (directory ++ [name]) ≠ some .directory)
    (above : p.node? directory = some .directory) (node : Node) :
    (p.set (directory ++ [name]) node).IsTree := by
  have below : directory ++ [name] ≠ [] := ne_nil_of_node? other
  have kept (place : List String) (found : p.node? place = some .directory) :
      (p.set (directory ++ [name]) node).node? place = some .directory := by
    rw [node?_set below, if_neg, found]
    rintro rfl
    exact other found
  constructor
  · intro place entry there found
    rw [node?_set below] at found
    split at found
    · next same =>
        obtain ⟨rfl, _⟩ := append_inj' same rfl
        exact kept place above
    · exact kept place (tree.above place entry there found)
  · intro place known
    exact kept place (tree.working place known)

end Set

/-! ## Writing -/

/-- A file that is written is found where its path leads to. -/
theorem IsTree.write_spec {p p' : Project} (tree : p.IsTree)
    (written : p.write path content = .ok p') :
    p'.IsTree ∧ Grows p p' ∧ ∃ place, p'.locate path = .ok place ∧
      ∀ other, p'.node? other = if other = place then some (.file content) else p.node? other := by
  unfold write at written
  split at written
  · next place found =>
      split at written
      · next old there =>
          cases written
          have below : place ≠ [] := ne_nil_of_node? (p := p) (by simp [there])
          have grows := grows_set_of_file there content
          refine ⟨?_, grows, place, grows.locate found, node?_set below _⟩
          obtain ⟨directory, name, rfl⟩ := eq_nil_or_concat' place |>.resolve_left below
          exact tree.set (by simp [there]) (tree.above _ _ _ there) _
      · cases written
  · next missing =>
      obtain ⟨_, allowed, written⟩ := bind_eq_ok written
      obtain ⟨base, based, written⟩ := bind_eq_ok written
      obtain ⟨place, free, written⟩ := bind_eq_ok written
      cases written
      rw [locate_eq allowed based] at missing
      have start := startOf_baseOf based
      obtain ⟨vacant, ⟨directory, name, rfl, above⟩, reached⟩ :=
        tree.follow_of_destination (tree.baseOf based) (Nat.le_refl _)
          (by rw [start, missing]) free
      have below : directory ++ [name] ≠ [] := by simp
      have grows : Grows p (p.set (directory ++ [name]) (.file content)) :=
        grows_set_of_none vacant (by simp)
      refine ⟨tree.set (by simp [vacant]) above _, grows, directory ++ [name], ?_,
        node?_set below _⟩
      rw [locate_eq allowed ((grows.baseOf path).trans based), ← start]
      exact reached _ content grows (by rw [node?_set below, if_pos rfl])
  · cases written

/-! ## Directories -/

/-- Nothing was added to the project but directories. -/
structure Prepared (p p' : Project) : Prop where
  tree : p'.IsTree
  grows : Grows p p'
  files : ∀ place content, p.node? place = some (.file content) →
    p'.node? place = some (.file content)

namespace Prepared

variable {p' p'' : Project}

theorem refl (tree : p.IsTree) : Prepared p p :=
  ⟨tree, .refl p, fun _ _ => id⟩

theorem trans (first : Prepared p p') (second : Prepared p' p'') : Prepared p p'' where
  tree := second.tree
  grows := first.grows.trans second.grows
  files place content there := second.files place content (first.files place content there)

theorem makeDirectory (tree : p.IsTree) (made : p.makeDirectory path = .ok p') : Prepared p p' := by
  obtain ⟨_, _, made⟩ := bind_eq_ok made
  obtain ⟨base, _, made⟩ := bind_eq_ok made
  obtain ⟨⟨directory, last⟩, divided, made⟩ := bind_eq_ok made
  obtain ⟨_, above, _⟩ := divide_eq_ok divided
  dsimp only at made
  split at made
  · cases made
  · split at made
    · cases made
    · split at made
      · cases made
      · next vacant =>
          cases made
          have vacant := Option.not_isSome_iff_eq_none.mp vacant
          refine ⟨tree.set (by simp [vacant]) above _, grows_set_of_none vacant (by simp), ?_⟩
          intro place content there
          rw [node?_set (by simp), if_neg, there]
          rintro rfl
          rw [vacant] at there
          cases there

theorem ensureDirectory (tree : p.IsTree) (made : p.ensureDirectory path = .ok p') :
    Prepared p p' := by
  unfold Project.ensureDirectory at made
  split at made
  · next done =>
      cases made
      exact makeDirectory tree done
  · split at made
    · cases made
      exact refl tree
    · cases made

/-- Creating directories adds nothing but directories, even if it fails on the way. -/
theorem createAlong (tree : p.IsTree) (paths : List Path) :
    Prepared p (p.createAlong paths).1 := by
  fun_induction Project.createAlong p paths with
  | case1 => exact refl tree
  | case2 path above empty => exact refl tree
  | case3 path above some p' made => exact ensureDirectory tree made
  | case4 path above some failed p' fault below ih
  | case6 path above some failed p' below fault made ih =>
    rw [below] at ih
    exact ih
  | case5 path above some failed p' below p'' made ih =>
    rw [below] at ih
    exact ih.trans (ensureDirectory ih.tree made)
  | case7 path above some fault failed => exact refl tree

end Prepared

/-! ## Directories that cannot be created -/

theorem isDirectory_iff :
    p.isDirectory path = true ↔
      ∃ place, p.locate path = .ok place ∧ p.node? place = some .directory := by
  unfold isDirectory target?
  cases p.locate path with
  | error fault => simp
  | ok place =>
    change p.hasDirectory place = true ↔ _
    rw [hasDirectory_iff]
    simp

theorem checkPath_of_start {front : Path} (allowed : checkPath path = .ok ())
    (start : front.text.toList <+: path.text.toList) (some : front.text ≠ "") :
    checkPath front = .ok () := by
  obtain ⟨rest, joined⟩ := start
  have whole : path.text = front.text ++ String.ofList rest := by
    rw [← String.toList_inj, String.toList_append, String.toList_ofList, joined]
  unfold checkPath at allowed ⊢
  rw [String.contains_char_eq] at allowed ⊢
  have size : front.text.utf8ByteSize ≤ path.text.utf8ByteSize := by
    rw [whole, String.utf8ByteSize_append]
    exact Nat.le_add_right _ _
  split at allowed
  · cases allowed
  · split at allowed
    · cases allowed
    · next free =>
        split at allowed
        · cases allowed
        · next short =>
            rw [if_neg (by simpa using some), if_neg, if_neg (by omega)]
            rw [decide_eq_true_eq] at free ⊢
            intro member
            rw [← joined] at free
            exact free (mem_append_left _ member)

theorem steps_eq (text : String) :
    steps text = ((segments text.toList).map String.ofList).filter (!·.isEmpty) ∨
      steps text = ((segments text.toList).map String.ofList).filter (!·.isEmpty) ++ ["."] := by
  unfold steps
  dsimp only
  split
  · exact .inr rfl
  · exact .inl rfl

theorem exists_steps_parent? (above : path.parent? = some parent) (some : parent.text ≠ "") :
    parent.text.toList <+: path.text.toList ∧ ∃ names rest, rest ≠ [] ∧
      steps path.text = names ++ rest ∧
      (steps parent.text = names ∨ steps parent.text = names ++ ["."]) := by
  obtain ⟨kept, more, spelled, ⟨s, member, named⟩, own⟩ := exists_segments_parent? above some
  have free : ∀ s ∈ kept, '/' ∉ s := by
    intro s inside
    apply notMem_of_mem_segments
    rw [spelled]
    exact mem_append_left _ inside
  have start : parent.text.toList <+: path.text.toList := by
    rcases own with ⟨joined, _⟩ | ⟨_, absolute, slash⟩
    · rw [joined, ← joinSegments_segments path.text.toList, spelled]
      exact joinSegments_prefix kept more
    · rw [isAbsolute, beq_iff_eq] at absolute
      obtain ⟨rest, first⟩ := head?_eq_some_iff.mp absolute
      rw [slash, first]
      exact ⟨rest, rfl⟩
  have others : (more.map String.ofList).filter (!·.isEmpty) ≠ [] := by
    apply ne_nil_of_mem (a := String.ofList s)
    exact mem_filter.mpr ⟨mem_map_of_mem member, by simp [named]⟩
  refine ⟨start, (kept.map String.ofList).filter (!·.isEmpty), ?_⟩
  have lower : ∃ rest, rest ≠ [] ∧
      steps path.text = (kept.map String.ofList).filter (!·.isEmpty) ++ rest := by
    rcases steps_eq path.text with same | slash
    · exact ⟨_, others, by rw [same, spelled, map_append, filter_append]⟩
    · exact ⟨_, append_ne_nil_of_left_ne_nil others ["."],
        by rw [slash, spelled, map_append, filter_append, append_assoc]⟩
  obtain ⟨rest, more, steps⟩ := lower
  refine ⟨rest, more, steps, ?_⟩
  rcases own with ⟨joined, some⟩ | ⟨rfl, _, slash⟩
  · rw [← segments_joinSegments some free, ← joined]
    exact steps_eq parent.text
  · rw [slash]
    exact .inr (by decide)

theorem IsTree.isDirectory_parent? (tree : p.IsTree) (above : path.parent? = some parent)
    (some : parent.text ≠ "") (found : p.locate path = .ok place) :
    p.isDirectory parent = true := by
  obtain ⟨start, names, rest, more, own, upper⟩ := exists_steps_parent? above some
  obtain ⟨allowed, base, based⟩ := locate_eq_ok found
  rw [locate_eq allowed based, own] at found
  obtain ⟨middle, reached, there⟩ := tree.exists_directory (tree.baseOf based) more found
  have sameBase : p.baseOf parent = .ok base := by
    obtain ⟨rest, joined⟩ := start
    obtain ⟨c, cs, first⟩ := exists_cons_of_ne_nil (mt String.toList_eq_nil_iff.mp some)
    have same : parent.isAbsolute = path.isAbsolute := by
      rw [isAbsolute, isAbsolute, ← joined, first]
      rfl
    rw [← based, Project.baseOf, Project.baseOf, same]
  rw [isDirectory_iff]
  refine ⟨middle, ?_, there⟩
  rw [locate_eq (checkPath_of_start allowed start some) sameBase]
  rcases upper with same | slash
  · rw [same, reached]
  · obtain ⟨left, _, same⟩ := exists_follow_append reached
    rw [slash, same p (.refl p) _ (.inr there), follow_dot, follow_nil]

theorem isDirectory_of_ensureDirectory (failed : p.ensureDirectory path = .error fault) :
    p.isDirectory path = false := by
  unfold ensureDirectory at failed
  split at failed
  · cases failed
  · split at failed
    · cases failed
    · next missing => simpa using missing

theorem isDirectory_of_createAlong_cons {p p' : Project} {above : List Path}
    (blocked : ∀ p' fault, p.createAlong above = (p', .error fault) → p'.isDirectory path = false)
    (failed : p.createAlong (path :: above) = (p', .error fault)) :
    p'.isDirectory path = false := by
  rw [createAlong] at failed
  split at failed
  · cases failed
  · split at failed
    · cases failed
    · split at failed
      · next stopped =>
          cases failed
          exact blocked _ _ stopped
      · split at failed
        · cases failed
        · next last =>
            cases failed
            exact isDirectory_of_ensureDirectory last
    · next first =>
        cases failed
        exact isDirectory_of_ensureDirectory first

theorem ne_empty_of_createAlong {p p' : Project}
    (failed : p.createAlong (ancestorsFrom depth path) = (p', .error fault)) : path.text ≠ "" := by
  obtain ⟨above, first⟩ : ∃ above, ancestorsFrom depth path = path :: above := by
    cases depth with
    | zero => exact ⟨[], rfl⟩
    | succ depth =>
      rw [ancestorsFrom]
      split <;> exact ⟨_, rfl⟩
  intro empty
  rw [first, createAlong, if_pos (String.isEmpty_iff.mpr empty)] at failed
  cases failed

/-- If it fails there is no directory at the path. -/
theorem IsTree.isDirectory_of_createAlong {p p' : Project} (tree : p.IsTree)
    (failed : p.createAlong (ancestorsFrom depth path) = (p', .error fault)) :
    p'.isDirectory path = false := by
  have alone (p' : Project) (fault : Fault) (failed : p.createAlong [] = (p', .error fault)) :
      p'.isDirectory path = false := by
    cases failed
  induction depth generalizing path p' fault with
  | zero => exact isDirectory_of_createAlong_cons alone failed
  | succ depth ih =>
    rw [ancestorsFrom] at failed
    split at failed
    · exact isDirectory_of_createAlong_cons alone failed
    · next parent above =>
        refine isDirectory_of_createAlong_cons (fun p' fault blocked => ?_) failed
        have tree' : p'.IsTree := by
          have prepared := Prepared.createAlong tree (ancestorsFrom depth parent)
          rw [blocked] at prepared
          exact prepared.tree
        have some := ne_empty_of_createAlong blocked
        have missing := ih blocked (fun p' fault failed => by cases failed)
        rw [← Bool.not_eq_true, isDirectory_iff] at missing ⊢
        rintro ⟨place, found, _⟩
        exact missing (isDirectory_iff.mp (tree'.isDirectory_parent? above some found))

theorem read_eq_ok (found : p.read path = .ok content) :
    ∃ place, p.locate path = .ok place ∧ p.node? place = some (.file content) := by
  obtain ⟨place, located, found⟩ := bind_eq_ok found
  split at found
  · next there =>
      cases found
      exact ⟨place, located, there⟩
  · cases found
  · cases found

/-- So no file can be read in it. -/
theorem IsTree.read_of_createDirectory {p p' : Project} (tree : p.IsTree)
    (above : path.parent? = some parent) (failed : p.createDirectory parent = (p', .error fault))
    (content : ByteArray) : p'.read path ≠ .ok content := by
  intro found
  obtain ⟨place, located, _⟩ := read_eq_ok found
  have prepared := Prepared.createAlong tree parent.ancestors
  rw [createDirectory] at failed
  rw [failed] at prepared
  have there :=
    prepared.tree.isDirectory_parent? above (ne_empty_of_createAlong failed) located
  rw [tree.isDirectory_of_createAlong failed] at there
  cases there

theorem read_of_write (failed : p.write path content = .error fault) (content' : ByteArray) :
    p.read path ≠ .ok content' := by
  intro found
  obtain ⟨place, located, there⟩ := read_eq_ok found
  rw [write, located] at failed
  dsimp only at failed
  rw [there] at failed
  cases failed

end Tarkib.Project
