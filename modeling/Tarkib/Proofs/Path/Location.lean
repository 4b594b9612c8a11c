import Mathlib.Logic.Relation
import Tarkib.Proofs.Path.Extension
import Tarkib.Specifier

/-!
# Lexical locations

Two paths mean the same place, whatever is there, if one becomes the other by three rules: a single
dot goes away, a name goes away together with two dots behind it, and two dots at the root go away
(`Rule`). What the rules leave of a path is the root if it is absolute, the steps up that no name
before them takes back if it is relative, and the names that no step up behind them takes away
(`Trail`).

Normalizing a path keeps the trail but for the steps up: a step up takes back any component before
it, and if that is itself a step up both are lost. Only whether their number is odd is kept.
-/

namespace Tarkib.Path

open Component List

/-! ## The rules -/

/-- One component less, or two, without another place. -/
inductive Rule : List Component → List Component → Prop where
  /-- A single dot stays where it is. -/
  | dot (front behind : List Component) : Rule (front ++ .here :: behind) (front ++ behind)
  /-- Two dots behind a name lead back. -/
  | back (front : List Component) (name : String) (behind : List Component) :
      Rule (front ++ .name name :: .up :: behind) (front ++ behind)
  /-- There is nothing above the root. -/
  | top (behind : List Component) : Rule (.root :: .up :: behind) (.root :: behind)

/-- The paths mean the same place by their spelling alone. -/
def SameLocation (p q : Path) : Prop :=
  Relation.EqvGen Rule p.components q.components

/-! ## Trails -/

/-- What is left of a path. -/
@[ext]
structure Trail where
  absolute : Bool := false
  /-- The number of steps up that no name takes back. -/
  above : Nat := 0
  /-- The names that no step up takes away. -/
  names : List String := []
  deriving Repr, DecidableEq

namespace Trail

/-- The trail with one component more. -/
def add (t : Trail) : Component → Trail
  | .root => { absolute := true }
  | .here => t
  | .up =>
    if t.names = [] then { t with above := t.above + 1 }
    else { t with names := t.names.dropLast }
  | .name text => { t with names := t.names ++ [text] }

def parts (t : Trail) : List Component :=
  (bif t.absolute then [.root] else []) ++ List.replicate t.above .up ++ t.names.map .name

/-- The trail as a place: nothing is above the root. -/
def location (t : Trail) : Trail :=
  { t with above := bif t.absolute then 0 else t.above }

/-- The trail with every two steps up left out. -/
def folded (t : Trail) : Trail :=
  { t with above := t.above % 2 }

variable {t u : Trail}

theorem location_eq_iff :
    t.location = u.location ↔
      t.absolute = u.absolute ∧ t.names = u.names ∧ (t.absolute = true ∨ t.above = u.above) := by
  obtain ⟨absolute, above, names⟩ := t
  obtain ⟨absolute', above', names'⟩ := u
  cases absolute <;> cases absolute' <;> simp [location, and_comm]

theorem folded_eq_iff :
    t.folded = u.folded ↔
      t.absolute = u.absolute ∧ t.names = u.names ∧ t.above % 2 = u.above % 2 := by
  simp [folded, and_comm]

theorem location_folded_eq_iff :
    t.folded.location = t.location ↔ t.absolute = true ∨ t.above ≤ 1 := by
  have few : t.above % 2 = t.above ↔ t.above ≤ 1 := by omega
  rw [location_eq_iff, ← few]
  simp [folded]

theorem add_up_nil (none : t.names = []) : t.add .up = { t with above := t.above + 1 } := by
  rw [add, if_pos none]

theorem add_up_concat {names : List String} {name : String} (some : t.names = names ++ [name]) :
    t.add .up = { t with names } := by
  rw [add, if_neg (by simp [some]), some, dropLast_concat]

theorem add_name_up (t : Trail) (name : String) : (t.add (.name name)).add .up = t :=
  add_up_concat rfl

theorem absolute_add {c : Component} (inner : c ≠ .root) : (t.add c).absolute = t.absolute := by
  cases c with
  | root => exact absurd rfl inner
  | here | name => rfl
  | up =>
    rw [add]
    split <;> rfl

theorem location_add (same : t.location = u.location) (c : Component) :
    (t.add c).location = (u.add c).location := by
  obtain ⟨absolute, above, names⟩ := t
  obtain ⟨absolute', above', names'⟩ := u
  simp only [location, mk.injEq] at same
  obtain ⟨rfl, height, rfl⟩ := same
  cases c with
  | root => rfl
  | here | name => simpa [add, location] using height
  | up =>
    by_cases none : names = []
    · cases absolute <;> simp_all [add, location]
    · simpa [add, location, none] using height

end Trail

/-- The trail of components, one after the other. -/
def trailOf (parts : List Component) : Trail :=
  parts.foldl Trail.add {}

def trail (p : Path) : Trail :=
  trailOf p.components

theorem trailOf_append (front behind : List Component) :
    trailOf (front ++ behind) = behind.foldl Trail.add (trailOf front) :=
  foldl_append

variable {behind front : List Component} {name : String} {c : Component} {p q : Path}

theorem absolute_foldl_add (t : Trail) (inner : .root ∉ behind) :
    (behind.foldl Trail.add t).absolute = t.absolute := by
  induction behind generalizing t with
  | nil => rfl
  | cons c behind ih =>
    rw [mem_cons, not_or] at inner
    rw [foldl_cons, ih _ inner.2, Trail.absolute_add (Ne.symm inner.1)]

theorem location_foldl_add {t u : Trail} (same : t.location = u.location)
    (behind : List Component) :
    (behind.foldl Trail.add t).location = (behind.foldl Trail.add u).location := by
  induction behind generalizing t u with
  | nil => exact same
  | cons c behind ih => exact ih (Trail.location_add same c)

theorem names_foldl_add (t : Trail) (behind : List Component)
    (left : name ∈ (behind.foldl Trail.add t).names) : name ∈ t.names ∨ .name name ∈ behind := by
  induction behind generalizing t with
  | nil => exact .inl left
  | cons c behind ih =>
    rcases ih _ left with before | later
    · cases c with
      | root => cases before
      | here => exact .inl before
      | up =>
        rw [Trail.add] at before
        split at before
        · exact .inl before
        · exact .inl (dropLast_subset _ before)
      | name text =>
        rcases mem_append.mp before with old | new
        · exact .inl old
        · rw [mem_singleton.mp new]
          exact .inr mem_cons_self
    · exact .inr (mem_cons_of_mem _ later)

theorem trailOf_parts (t : Trail) : trailOf t.parts = t := by
  have ups (u : Trail) (none : u.names = []) (n : Nat) :
      (List.replicate n Component.up).foldl Trail.add u = { u with above := u.above + n } := by
    induction n generalizing u with
    | zero => rfl
    | succ n ih =>
      rw [replicate_succ, foldl_cons, Trail.add_up_nil none]
      refine (ih { u with above := u.above + 1 } none).trans ?_
      simp only [Nat.add_assoc, Nat.add_comm 1 n]
  have names (u : Trail) (more : List String) :
      (more.map Component.name).foldl Trail.add u = { u with names := u.names ++ more } := by
    induction more generalizing u with
    | nil => simp
    | cons name more ih => simp [Trail.add, ih]
  obtain ⟨absolute, above, left⟩ := t
  rw [Trail.parts, trailOf_append, trailOf_append, names]
  cases absolute <;> simp [trailOf, Trail.add, ups]

/-! ## The rules and the trails -/

/-- The rules keep the trail, where steps above the root do not count. -/
theorem Rule.location_eq (rule : Rule front behind) :
    (trailOf front).location = (trailOf behind).location := by
  cases rule with
  | dot front behind =>
    rw [trailOf_append, trailOf_append]
    rfl
  | back front name behind =>
    rw [trailOf_append, trailOf_append, foldl_cons, foldl_cons, Trail.add_name_up]
  | top behind =>
    refine location_foldl_add ?_ behind
    rfl

theorem eqvGen_add (t : Trail) (inner : c ≠ .root) (behind : List Component) :
    Relation.EqvGen Rule (t.location.parts ++ c :: behind)
      ((t.add c).location.parts ++ behind) := by
  cases c with
  | root => exact absurd rfl inner
  | here => exact .rel _ _ (.dot _ behind)
  | name text =>
    have same : t.location.parts ++ .name text :: behind =
        (t.add (.name text)).location.parts ++ behind := by
      simp [Trail.add, Trail.location, Trail.parts]
    rw [same]
    exact .refl _
  | up =>
    rcases eq_nil_or_concat' t.names with none | ⟨names, name, some⟩
    · rw [Trail.add_up_nil none]
      obtain ⟨absolute, above, names⟩ := t
      obtain rfl : names = [] := none
      cases absolute with
      | true => exact .rel _ _ (.top behind)
      | false =>
        have same : (Trail.mk false above []).location.parts ++ .up :: behind =
            (Trail.mk false (above + 1) []).location.parts ++ behind := by
          simp [Trail.location, Trail.parts, replicate_succ']
        rw [same]
        exact .refl _
    · rw [Trail.add_up_concat some]
      have here : t.location.parts =
          ({ t with names } : Trail).location.parts ++ [.name name] := by
        simp [Trail.location, Trail.parts, some]
      rw [here, append_assoc]
      exact .rel _ _ (.back _ name behind)

theorem eqvGen_foldl_add (t : Trail) (inner : .root ∉ behind) :
    Relation.EqvGen Rule (t.location.parts ++ behind)
      (behind.foldl Trail.add t).location.parts := by
  induction behind generalizing t with
  | nil =>
    rw [append_nil]
    exact .refl _
  | cons c behind ih =>
    rw [mem_cons, not_or] at inner
    exact .trans _ _ _ (eqvGen_add t (Ne.symm inner.1) behind) (ih _ inner.2)

/-! ## Paths -/

theorem root_notMem (steps : ∀ c ∈ behind, c.IsStep) : .root ∉ behind :=
  fun member => not_isStep_root (steps _ member)

theorem trail_of_components (split : p.components = front ++ behind)
    (start : p.isAbsolute = true ∧ front = [.root] ∨
      p.isAbsolute = false ∧ (front = [.here] ∨ front = [])) :
    p.trail = behind.foldl Trail.add { absolute := p.isAbsolute } := by
  rw [trail, split, trailOf_append]
  rcases start with ⟨absolute, rfl⟩ | ⟨relative, rfl | rfl⟩
  · rw [absolute]
    rfl
  · rw [relative]
    rfl
  · rw [relative]
    rfl

theorem absolute_trail (p : Path) : p.trail.absolute = p.isAbsolute := by
  obtain ⟨front, behind, split, start, steps⟩ := exists_components p
  rw [trail_of_components split start, absolute_foldl_add _ (root_notMem steps)]

theorem isStep_of_mem_trail (left : name ∈ p.trail.names) : (Component.name name).IsStep := by
  obtain ⟨front, behind, split, start, steps⟩ := exists_components p
  rw [trail_of_components split start] at left
  rcases names_foldl_add _ behind left with before | member
  · cases before
  · exact steps _ member

/-- The rules lead from a path to its trail. -/
theorem eqvGen_trail (p : Path) :
    Relation.EqvGen Rule p.components p.trail.location.parts := by
  obtain ⟨front, behind, split, start, steps⟩ := exists_components p
  have worked := eqvGen_foldl_add { absolute := p.isAbsolute } (root_notMem steps)
  rw [← trail_of_components split start] at worked
  rw [split]
  rcases start with ⟨absolute, rfl⟩ | ⟨relative, rfl | rfl⟩
  · rw [absolute] at worked
    exact worked
  · rw [relative] at worked
    exact .trans _ _ _ (.rel _ _ (.dot [] behind)) worked
  · rw [relative] at worked
    exact worked

/-- Two paths mean the same place exactly if their trails are the same. -/
theorem sameLocation_iff : p.SameLocation q ↔ p.trail.location = q.trail.location := by
  constructor
  · intro same
    unfold SameLocation at same
    suffices ∀ front behind, Relation.EqvGen Rule front behind →
        (trailOf front).location = (trailOf behind).location from this _ _ same
    intro front behind related
    induction related with
    | rel _ _ rule => exact rule.location_eq
    | refl => rfl
    | symm _ _ _ ih => exact ih.symm
    | trans _ _ _ _ _ first second => exact first.trans second
  · intro same
    refine .trans _ _ _ (eqvGen_trail p) ?_
    rw [same]
    exact .symm _ _ (eqvGen_trail q)

/-! ## Normalizing -/

/-- One step of normalizing. -/
theorem stepTo_parts (t : Trail) (inner : c ≠ .root) :
    stepTo t.folded.parts c = (t.add c).folded.parts := by
  cases c with
  | root => exact absurd rfl inner
  | here => rfl
  | name text => simp [stepTo, Trail.add, Trail.folded, Trail.parts]
  | up =>
    rcases eq_nil_or_concat' t.names with none | ⟨names, name, some⟩
    · rw [Trail.add_up_nil none]
      obtain ⟨absolute, above, names⟩ := t
      obtain rfl : names = [] := none
      -- A step up that was kept is taken back by the next one.
      rcases Nat.mod_two_eq_zero_or_one above with even | odd
      · have next : (above + 1) % 2 = 1 := by omega
        cases absolute <;> simp [stepTo, Trail.folded, Trail.parts, even, next]
      · have next : (above + 1) % 2 = 0 := by omega
        cases absolute <;> simp [stepTo, Trail.folded, Trail.parts, odd, next]
    · rw [Trail.add_up_concat some]
      have here : t.folded.parts = ({ t with names } : Trail).folded.parts ++ [.name name] := by
        simp [Trail.folded, Trail.parts, some]
      rw [here]
      simp [stepTo]

theorem foldl_stepTo_parts (t : Trail) (inner : .root ∉ behind) :
    behind.foldl stepTo t.folded.parts = (behind.foldl Trail.add t).folded.parts := by
  induction behind generalizing t with
  | nil => rfl
  | cons c behind ih =>
    rw [mem_cons, not_or] at inner
    rw [foldl_cons, stepTo_parts t (Ne.symm inner.1), ih _ inner.2, foldl_cons]

theorem normalParts_components (p : Path) : normalParts p.components = p.trail.folded.parts := by
  obtain ⟨front, behind, split, start, steps⟩ := exists_components p
  have walked := foldl_stepTo_parts { absolute := p.isAbsolute } (root_notMem steps)
  rw [← trail_of_components split start] at walked
  rw [normalParts, split, foldl_append]
  rcases start with ⟨absolute, rfl⟩ | ⟨relative, rfl | rfl⟩
  · rw [absolute] at walked
    exact walked
  · rw [relative] at walked
    exact walked
  · rw [relative] at walked
    exact walked

/-! ## Reading a normalized path -/

theorem ne_dot_of_isStep (step : c.IsStep) : c.text.toList ≠ [] ∧ c.text.toList ≠ ['.'] := by
  constructor <;> intro same <;> have read := step.2 <;> rw [same] at read <;> cases read

theorem components_ofComponents_relative {parts : List Component} (steps : ∀ c ∈ parts, c.IsStep) :
    (ofComponents parts).components = parts := by
  cases parts with
  | nil => rfl
  | cons c more =>
    have plain : textOf (c :: more) =
        String.intercalate "/" ((c :: more).map Component.text) := by
      unfold textOf
      split
      · next root => exact absurd (root ▸ mem_cons_self) (root_notMem steps)
      · rfl
    have spelled : segments (ofComponents (c :: more)).text.toList =
        (c :: more).map fun c => c.text.toList := by
      have joined : (String.intercalate "/" ((c :: more).map Component.text)).toList =
          joinSegments ((c :: more).map fun c => c.text.toList) := by
        simp [joinSegments_eq_intercalate, String.toList_intercalate, Function.comp_def]
      rw [ofComponents, plain, joined]
      exact segments_joinSegments (by simp) (by simpa using fun d inside => (steps d inside).1)
    have read : ((c :: more).map fun c => c.text.toList).filterMap ofSegment? = c :: more := by
      rw [filterMap_map]
      exact (filterMap_congr fun d inside => (steps d inside).2).trans filterMap_some
    obtain ⟨named, noDot⟩ := ne_dot_of_isStep (steps c mem_cons_self)
    rw [map_cons] at spelled
    rw [components_of_relative spelled named, frontOf]
    · exact read
    · exact fun rest same => named (List.cons.inj same).1
    · exact fun rest same => noDot (List.cons.inj same).1

theorem components_normalize (p : Path) : p.normalize.components = p.trail.folded.parts := by
  rw [normalize, normalParts_components]
  have steps : ∀ c ∈ List.replicate p.trail.folded.above Component.up ++
      p.trail.folded.names.map .name, c.IsStep := by
    intro c member
    rcases mem_append.mp member with up | named
    · rw [eq_of_mem_replicate up]
      exact ⟨by decide, by decide⟩
    · obtain ⟨name, left, rfl⟩ := mem_map.mp named
      exact isStep_of_mem_trail left
  unfold Trail.parts
  rw [append_assoc]
  cases p.trail.folded.absolute with
  | true => exact components_ofComponents steps
  | false => exact components_ofComponents_relative steps

/-- Normalizing loses pairs of steps up. -/
theorem trail_normalize (p : Path) : p.normalize.trail = p.trail.folded := by
  rw [trail, components_normalize, trailOf_parts]

theorem isAbsolute_normalize (p : Path) : p.normalize.isAbsolute = p.isAbsolute := by
  rw [← absolute_trail, trail_normalize, ← absolute_trail p]
  rfl

theorem normalize_eq_iff : p.normalize = q.normalize ↔ p.trail.folded = q.trail.folded := by
  constructor
  · intro same
    rw [← trail_normalize, ← trail_normalize, same]
  · intro same
    rw [normalize, normalize, normalParts_components, normalParts_components, same]

theorem isAbsolute_join (absolute : p.isAbsolute = true) (q : String) :
    (p.join q).isAbsolute = true := by
  unfold join
  split
  · next own => exact own
  · rw [isAbsolute, beq_iff_eq] at absolute
    obtain ⟨cs, spelled⟩ := head?_eq_some_iff.mp absolute
    split <;> simp [isAbsolute, spelled]

end Tarkib.Path

namespace Tarkib.Specifier

open Tarkib.Path

theorem key_of_path {specifier : String} (path : kind specifier ≠ .bare) (directory : Path) :
    key specifier directory = (directory.join specifier).normalize.text := by
  unfold key
  split
  · next bare => exact absurd bare path
  · rfl

theorem isAbsolute_of_bare {specifier : String} (bare : kind specifier = .bare) :
    (Path.mk specifier).isAbsolute = false := by
  unfold kind at bare
  split at bare
  · cases bare
  · split at bare
    · cases bare
    · next relative => simpa using relative

/-- Keys are equal exactly if the trails are, up to an even number of steps up. -/
theorem key_eq_iff {s s' : String} (first : kind s ≠ .bare) (second : kind s' ≠ .bare)
    (d d' : Path) :
    key s d = key s' d' ↔ (d.join s).trail.folded = (d'.join s').trail.folded := by
  rw [key_of_path first, key_of_path second, ← normalize_eq_iff]
  exact ⟨congrArg Path.mk, congrArg Path.text⟩

theorem key_ne_of_bare {s s' : String} (bare : kind s = .bare) (path : kind s' ≠ .bare) (d : Path)
    {d' : Path} (absolute : d'.isAbsolute = true) : key s d ≠ key s' d' := by
  intro same
  have own : key s d = s := by rw [key, bare]
  have relative := isAbsolute_of_bare bare
  rw [← own, same, key_of_path path, isAbsolute_normalize, isAbsolute_join absolute] at relative
  cases relative

/-- **Normalizing keeps the place of a path unless it loses steps up.** A path keeps its place
exactly if it is absolute or at most one step up is left of it. Two specifiers that are paths have
the same key exactly if their paths are both absolute or both relative, with the same names left and
numbers of steps up that are both even or both odd, while they mean the same place exactly if the
names are the same and, for relative paths, the numbers are. The key of a bare name is the name,
which is no key of a path seen from an absolute directory. -/
theorem normalize_keeps_location_iff (p : Path) (s s' : String) (d d' : Path) :
    (p.normalize.SameLocation p ↔ p.isAbsolute = true ∨ p.trail.above ≤ 1) ∧
    (kind s ≠ .bare → kind s' ≠ .bare →
      let p := d.join s
      let q := d'.join s'
      (key s d = key s' d' ↔
        p.isAbsolute = q.isAbsolute ∧ p.trail.names = q.trail.names ∧
          p.trail.above % 2 = q.trail.above % 2) ∧
      (p.SameLocation q ↔
        p.isAbsolute = q.isAbsolute ∧ p.trail.names = q.trail.names ∧
          (p.isAbsolute = true ∨ p.trail.above = q.trail.above))) ∧
    (kind s = .bare →
      key s d = s ∧ (kind s' ≠ .bare → d'.isAbsolute = true → key s d ≠ key s' d')) := by
  refine ⟨?_, fun first second => ⟨?_, ?_⟩, fun bare => ⟨?_, ?_⟩⟩
  · rw [sameLocation_iff, trail_normalize, ← absolute_trail]
    exact Trail.location_folded_eq_iff
  · rw [key_eq_iff first second, ← absolute_trail, ← absolute_trail]
    exact Trail.folded_eq_iff
  · rw [sameLocation_iff, ← absolute_trail, ← absolute_trail]
    exact Trail.location_eq_iff
  · rw [key, bare]
  · exact fun path absolute => key_ne_of_bare bare path d absolute

/-- A path two directories above the working directory has the key of one in it, and a path above
the root has a key of its own. -/
theorem normalize_keeps_location_iff_lost_steps :
    (key "../../../a" ⟨"src"⟩ = key "./a" ⟨""⟩ ∧
      ¬ (Path.join ⟨"src"⟩ "../../../a").SameLocation (Path.join ⟨""⟩ "./a")) ∧
    key "/../a" ⟨"/p"⟩ ≠ key "/a" ⟨"/p"⟩ ∧
      (Path.join ⟨"/p"⟩ "/../a").SameLocation (Path.join ⟨"/p"⟩ "/a") := by
  have paths : kind "../../../a" ≠ .bare ∧ kind "./a" ≠ .bare ∧ kind "/../a" ≠ .bare ∧
      kind "/a" ≠ .bare := by
    decide +kernel
  have relative := (normalize_keeps_location_iff ⟨"a"⟩ "../../../a" "./a" ⟨"src"⟩ ⟨""⟩).2.1
    paths.1 paths.2.1
  have absolute := (normalize_keeps_location_iff ⟨"a"⟩ "/../a" "/a" ⟨"/p"⟩ ⟨"/p"⟩).2.1
    paths.2.2.1 paths.2.2.2
  refine ⟨⟨relative.1.mpr ?_, mt relative.2.mp ?_⟩, mt absolute.1.mp ?_, absolute.2.mpr ?_⟩
  all_goals decide

end Tarkib.Specifier
