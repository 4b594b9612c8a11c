import Tarkib.Proofs.Bundle.Outcome

/-!
# Ids of modules

The id of a module is the way to its file from the directory of the entry, read as text. A dot and a
slash are put in front unless it starts with two dots and a slash, so that the ways to the directory
itself and to the one above it are `./` and `./..`. That does not matter for where the id leads: it
is read as the components of the way in all cases.

Whoever follows an id from the directory comes to the file that has it, unless a name on the way is
no text: such names lose bytes when they are read, and files can then share an id.
-/

namespace Tarkib.Bundle

open Component Tarkib.Path

variable {root path : Path} {way : List Component}

/-- The component as it is written after it was read as text. -/
def reread : Component → Component :=
  Component.rename fun name => Text.encode (Text.decode name)

/-- Each name on the way from a directory to a file is a text. -/
def IsText (root path : Path) : Prop :=
  ∀ way, path.relativeTo? root = some way → ∀ c ∈ way, ∃ text, c.text = Text.encode text

theorem isAbsolute_intercalate {parts : List Component} (steps : ∀ c ∈ parts, c.IsStep) :
    (Path.mk (String.intercalate "/" (parts.map Component.text))).isAbsolute = false := by
  cases parts with
  | nil => rfl
  | cons c parts =>
    obtain ⟨free, read⟩ := steps c List.mem_cons_self
    -- The text of the first component is not empty and has no slash.
    cases spelled : c.text.toList with
    | nil =>
      rw [spelled] at read
      cases read
    | cons d ds =>
      have noSlash : d ≠ '/' := by
        rintro rfl
        rw [spelled] at free
        exact free List.mem_cons_self
      cases parts <;> simp [isAbsolute, String.intercalate_cons_cons, spelled, noSlash]

theorem encode_append (a b : String) : Text.encode (a ++ b) = Text.encode a ++ Text.encode b := by
  rw [← String.toList_inj]
  simp [toList_encode]

theorem encode_intercalate (parts : List Component) :
    Text.encode (String.intercalate "/" (parts.map fun c => Text.decode c.text)) =
      String.intercalate "/" ((parts.map reread).map Component.text) := by
  have same : ∀ c : Component, Text.encode (Text.decode c.text) = (reread c).text := by
    intro c
    cases c with
    | name text => rfl
    | _ => decide
  induction parts with
  | nil => rfl
  | cons c parts ih =>
    cases parts with
    | nil => simp [same]
    | cons d parts =>
      simp only [List.map_cons, String.intercalate_cons_cons] at ih ⊢
      rw [encode_append, encode_append, ih, same]
      rfl

/-- Whatever stands in front of it, an id is read as the way. -/
theorem exists_id_of_relativeTo? (found : path.relativeTo? root = some way)
    (steps : ∀ c ∈ way, c.IsStep) :
    ∃ id, idOfBytes? root path = some id ∧ (Path.mk (Text.encode id)).isAbsolute = false ∧
      (segments (Text.encode id).toList).filterMap ofSegment? = way.map reread := by
  have steps' : ∀ c ∈ way.map reread, c.IsStep := by
    intro c member
    obtain ⟨d, inside, rfl⟩ := List.mem_map.mp member
    exact isStep_reread (steps d inside)
  have joined := filterMap_segments_intercalate steps'
  rw [← encode_intercalate] at joined
  have relative := isAbsolute_intercalate steps'
  rw [← encode_intercalate] at relative
  rw [idOfBytes?, found, Option.map_some]
  refine ⟨_, rfl, ?_⟩
  dsimp only
  split
  · exact ⟨relative, joined⟩
  · have dotted : ∀ text : String, (Text.encode ("./" ++ text)).toList =
        ['.'] ++ '/' :: (Text.encode text).toList := by
      intro text
      rw [encode_append, String.toList_append]
      rfl
    rw [isAbsolute, dotted, segments_append_slash (by decide), List.filterMap_cons_none rfl, joined]
    exact ⟨rfl, rfl⟩

theorem reread_eq_iff {c : Component} : reread c = c ↔ ∃ text, c.text = Text.encode text := by
  cases c with
  | name text =>
    rw [reread, rename, Component.name.injEq, Component.text]
    refine ⟨fun same => ⟨_, same.symm⟩, ?_⟩
    rintro ⟨text, rfl⟩
    rw [Text.decode_encode]
  | root => exact ⟨fun _ => ⟨"/", by decide⟩, fun _ => rfl⟩
  | here => exact ⟨fun _ => ⟨".", by decide⟩, fun _ => rfl⟩
  | up => exact ⟨fun _ => ⟨"..", by decide⟩, fun _ => rfl⟩

/-- The way goes up from the directory and down along the rest of the path, and the id leads to the
path with the names on that rest read as texts. -/
theorem exists_id? (directory : root.IsStraight) (straight : path.IsStraight) :
    ∃ id common front, idOfBytes? root path = some id ∧
      path.components = .root :: (common ++ front) ∧ (∀ c ∈ common ++ front, c.IsStep) ∧
      (root.join (Text.encode id)).normalize =
        ofComponents (.root :: (common ++ front.map reread)) ∧
      (IsText root path ↔ ∀ c ∈ front, reread c = c) := by
  obtain ⟨base, rootParts, rootSteps⟩ := directory.exists_names
  obtain ⟨target, pathParts, pathSteps⟩ := straight.exists_names
  obtain ⟨common, front, behind, rfl, rfl, way⟩ :=
    exists_wayBetween target fun c member => (rootSteps c member).2.2
  have down : ∀ c ∈ front, c.IsStep ∧ c ≠ .root ∧ c ≠ .here ∧ c ≠ .up := fun c member =>
    pathSteps c (List.mem_append_right _ member)
  have steps : ∀ c ∈ List.replicate behind.length .up ++ front, c.IsStep ∧ c ≠ .here := by
    intro c member
    rcases List.mem_append.mp member with ups | member
    · rw [List.eq_of_mem_replicate ups]
      exact ⟨⟨by decide, rfl⟩, by decide⟩
    · exact ⟨(down c member).1, (down c member).2.2.1⟩
  have found : path.relativeTo? root = some (List.replicate behind.length .up ++ front) := by
    have start : path.components = [.root] ++ (common ++ front) := pathParts
    have base : root.components = [.root] ++ (common ++ behind) := rootParts
    rw [relativeTo?_eq_wayBetween rfl start base, way, Option.map_some,
      dropInnerDots_of_notMem fun dot => (steps _ dot).2 rfl]
  obtain ⟨id, named, relative, read⟩ :=
    exists_id_of_relativeTo? found fun c member => (steps c member).1
  refine ⟨id, common, front, named, pathParts, fun c member => (pathSteps c member).1, ?_, ?_⟩
  · have noRoot : .root ∉ behind := fun member =>
      (rootSteps _ (List.mem_append_right _ member)).2.1 rfl
    have plain : ∀ c ∈ (.root :: common) ++ behind, c ≠ .here ∧ c ≠ .up := by
      rw [List.cons_append, List.forall_mem_cons]
      exact ⟨by simp, fun c member => (rootSteps c member).2.2⟩
    have names : ∀ c ∈ front.map reread, c ≠ .here ∧ c ≠ .up := by
      intro c member
      obtain ⟨d, inside, rfl⟩ := List.mem_map.mp member
      have own := (down d inside).2.2
      cases d <;> simp_all [reread, rename]
    rw [List.map_append, List.map_replicate] at read
    rw [Path.normalize, components_join directory.absolute relative, read, rootParts,
      ← List.cons_append, show reread .up = .up from rfl, normalParts_append_way noRoot plain names,
      List.cons_append]
  · unfold IsText
    rw [found]
    constructor
    · intro texts c member
      exact reread_eq_iff.mpr (texts _ rfl c (List.mem_append_right _ member))
    · rintro texts _ ⟨⟩ c member
      rcases List.mem_append.mp member with ups | member
      · rw [List.eq_of_mem_replicate ups]
        exact ⟨"..", by decide⟩
      · exact reread_eq_iff.mp (texts c member)

theorem isText_encoded (root path : Path) : IsText root.encoded path.encoded := by
  intro way found c member
  rw [relativeTo?_encoded] at found
  obtain ⟨parts, _, rfl⟩ := Option.map_eq_some_iff.mp found
  obtain ⟨d, _, rfl⟩ := List.mem_map.mp member
  refine ⟨d.text, ?_⟩
  cases d with
  | name text => rfl
  | _ => decide

/-- The id leads back to the path exactly if each name on the way is a text. -/
theorem exists_id_leads_back_iff (directory : root.IsStraight) (straight : path.IsStraight) :
    ∃ id, idOfBytes? root path = some id ∧
      ((root.join (Text.encode id)).normalize.same path = true ↔ IsText root path) ∧
      (IsText root path → (root.join (Text.encode id)).normalize = path.normalize) := by
  obtain ⟨id, common, front, named, parts, steps, leads, texts⟩ := exists_id? directory straight
  have rereads : front.map reread = front ↔ ∀ c ∈ front, reread c = c := by
    simpa using List.map_inj_left (l := front) (f := reread) (g := fun c => c)
  have steps' : ∀ c ∈ common ++ front.map reread, c.IsStep := by
    rw [List.forall_mem_append] at steps ⊢
    refine ⟨steps.1, fun c member => ?_⟩
    obtain ⟨d, inside, rfl⟩ := List.mem_map.mp member
    exact isStep_reread (steps.2 d inside)
  refine ⟨id, named, ?_, fun readable => ?_⟩
  · rw [same_iff, leads, components_ofComponents steps', parts, List.cons_inj_right,
      List.append_cancel_left_eq, rereads, texts]
  · rw [leads, rereads.mpr (texts.mp readable), straight.normalize_eq, parts]

/-- **Ids identify files.** Let the directory of the entry and the path of a file be absolute, and
written without two dots. The file has an id. The id, joined to the directory and normalized, is the
path again exactly if each name on the way from the directory to the file is a text, which is so if
the paths are texts themselves. Of paths for which it is so, another one has the same id exactly if
it is the same path. -/
theorem id_leads_back_iff {root path : Path} (directory : root.IsStraight)
    (straight : path.IsStraight) :
    ∃ id, idOfBytes? root path = some id ∧
      ((root.join (Text.encode id)).normalize.same path = true ↔ IsText root path) ∧
      (IsText root path → (root.join (Text.encode id)).normalize = path.normalize ∧
        ∀ other : Path, other.IsStraight → IsText root other →
          (idOfBytes? root other = some id ↔ other.same path = true)) ∧
      ∀ r p : Path, root = r.encoded → path = p.encoded → id? r p = some id ∧ IsText root path := by
  obtain ⟨id, named, back, exactly⟩ := exists_id_leads_back_iff directory straight
  refine ⟨id, named, back, fun texts => ⟨exactly texts, fun other otherStraight otherTexts => ?_⟩,
    ?_⟩
  · constructor
    · intro equal
      obtain ⟨id', named', back', _⟩ := exists_id_leads_back_iff directory otherStraight
      rw [equal] at named'
      cases named'
      exact same_trans (same_symm (back'.mpr otherTexts)) (back.mpr texts)
    · intro same
      rw [idOfBytes?, relativeTo?_congr same]
      exact named
  · rintro r p rfl rfl
    exact ⟨named, isText_encoded r p⟩

/-- The way to the directory above is two dots alone. The test for a way that leads up looks for a
slash behind them and does not see it, and the id leads back all the same. The letter in the last
path has two bytes. -/
theorem id_leads_back_iff_above :
    let root : Path := ⟨"/work/app"⟩
    idOfBytes? root ⟨"/work"⟩ = some "./.." ∧ (root.join "./..").normalize = ⟨"/work"⟩ ∧
      idOfBytes? root root = some "./" ∧
      idOfBytes? root ⟨"/work/..app/\xd1\x84.som"⟩ = some "../..app/ф.som" := by
  intro root
  have directory : root.IsStraight := ⟨by decide +kernel, by decide +kernel⟩
  have straight : Path.IsStraight ⟨"/work"⟩ := ⟨by decide +kernel, by decide +kernel⟩
  have above : idOfBytes? root ⟨"/work"⟩ = some "./.." := by decide +kernel
  have way : (Path.mk "/work").relativeTo? root = some [.up] := by decide +kernel
  obtain ⟨id, named, _, back, _⟩ := id_leads_back_iff directory straight
  rw [above] at named
  cases named
  have texts : IsText root ⟨"/work"⟩ := by
    intro parts found
    rw [way] at found
    cases found
    exact List.forall_mem_singleton.mpr ⟨"..", by decide⟩
  have dots : Text.encode "./.." = "./.." := by decide +kernel
  have leads := (back texts).1
  rw [dots] at leads
  exact ⟨above, leads.trans (by decide +kernel), by decide +kernel, by decide +kernel⟩

/-- Two files whose names are single bytes that are no text have the same id, and it leads to
neither of them. -/
theorem files_share_id :
    let root : Path := ⟨"/r"⟩
    let path : Path := ⟨"/r/\xff.som"⟩
    let other : Path := ⟨"/r/\xfe.som"⟩
    idOfBytes? root path = some "./�.som" ∧ idOfBytes? root other = some "./�.som" ∧
      path.same other = false ∧
      (root.join (Text.encode "./�.som")).normalize.same path = false ∧
      (root.join (Text.encode "./�.som")).normalize.same other = false := by
  decide +kernel

end Tarkib.Bundle
