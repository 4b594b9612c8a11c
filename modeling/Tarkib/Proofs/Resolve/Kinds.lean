import Mathlib.Data.List.TakeWhile
import Tarkib.Config.Load
import Tarkib.Proofs.Config.Sections
import Tarkib.Proofs.Loader.Reach
import Tarkib.Proofs.Project.Following

/-!
# Kinds of files that are switched off

Plain JavaScript and JSON can be switched off. Two things are checked then: the extension of a full
name, and each extension that would be tried, taken as a whole. What is returned is the file behind
the candidate, though, and behind a link the file has another name.
-/

namespace Tarkib.Config

open Tarkib.Path Project Json List

theorem isExtension_of_check {config : Config} (accepted : config.check = .ok ()) :
    ∀ e ∈ config.resolution.extensions, isExtension e = true := by
  have clean : violations config.encode = [] := by
    unfold check refuse at accepted
    split at accepted
    · next none => exact List.isEmpty_iff.mp none
    · cases accepted
  obtain ⟨ms, encoded, written⟩ := exists_written_document config
  rw [encoded] at clean
  have section_ : resolutionForm.check (given config.resolution.encode) = [] :=
    (passes_of_checkMembers clean).check_eq_nil written mem_cons_self rfl
  obtain ⟨ms', encoded', written'⟩ := exists_written_resolution config.resolution
  rw [encoded'] at section_
  have passed := ((checkResolution_eq_nil_iff _).mp section_).check_eq_nil written'
    (mem_cons_of_mem _ (mem_cons_of_mem _ mem_cons_self)) rfl
  have clean : extensionViolations (textItems (config.resolution.extensions.map .string)) = [] :=
    (append_eq_nil_iff.mp passed).2
  rw [Form.textItems_map] at clean
  refine (Form.flatMap_zipIdx_eq_nil_iff fun e index => ?_).mp clean
  simp

namespace Resolution

variable {c : Resolution} {project : Project} {path candidate file directory : Path}
  {specifier name e : String}

/-- The kind of the file is switched off. -/
def Disables (c : Resolution) (file : Path) : Prop :=
  c.allowJs = false ∧ (∃ e ∈ ["js", "cjs", "mjs"], file.extension? = some e) ∨
    c.resolveJsonModule = false ∧ file.extension? = some "json"

theorem disables_iff : c.Disables file ↔ c.allowsFile file = false := by
  unfold Disables allowsFile
  cases file.extension? with
  | none => simp
  | some e =>
    by_cases script : e ∈ ["js", "cjs", "mjs"]
    · have other : e ≠ "json" := by
        rintro rfl
        simp at script
      simp_all [allows, Compile.javascriptExtensions]
    · simp_all [allows, Compile.javascriptExtensions, and_comm]

/-! ## The names of candidates -/

/-- Behind the dots that the extension starts with there is another dot, or a slash. -/
def IsCompound (extension : String) : Prop :=
  ∃ ch ∈ (withoutDots extension).toList, ch = '.' ∨ ch = '/'

theorem exists_of_isExtension (dotted : isExtension e = true) :
    ∃ ch cs, e.toList = '.' :: ch :: cs := by
  unfold isExtension at dotted
  rw [Bool.and_eq_true, String.startsWith_string_iff, decide_eq_true_eq] at dotted
  obtain ⟨⟨cs, spelled⟩, long⟩ := dotted
  cases cs with
  | nil =>
    rw [← spelled] at long
    exact absurd long (by decide)
  | cons ch cs => exact ⟨ch, cs, spelled.symm⟩

theorem exists_dots (dotted : isExtension e = true) :
    ∃ dots, e.toList = dots ++ '.' :: (withoutDots e).toList ∧ ∀ ch ∈ dots, ch = '.' := by
  obtain ⟨ch, cs, spelled⟩ := exists_of_isExtension dotted
  have all : ∀ ch ∈ e.toList.takeWhile (· = '.'), ch = '.' :=
    fun ch member => by simpa using mem_takeWhile_imp member
  have some : e.toList.takeWhile (· = '.') ≠ [] := by simp [spelled]
  obtain ⟨dots, last, split⟩ := (eq_nil_or_concat' _).resolve_left some
  rw [split] at all
  refine ⟨dots, ?_, fun ch member => all ch (mem_append_left _ member)⟩
  have whole := takeWhile_append_dropWhile (p := (· = '.')) (l := e.toList)
  rw [split, all last mem_concat_self, append_assoc] at whole
  rw [withoutDots, String.toList_ofList]
  exact whole.symm

theorem splitExtension_append (some : name.toList ≠ []) (dotted : isExtension e = true)
    (plain : ¬ IsCompound e) : (splitExtension (name ++ e)).2 = .some (withoutDots e) := by
  obtain ⟨dots, spelled, _⟩ := exists_dots dotted
  have free : ∀ ch ∈ (withoutDots e).toList.reverse, (ch != '.') = true := by
    intro ch member
    rw [bne_iff_ne]
    rintro rfl
    exact plain ⟨_, mem_reverse.mp member, .inl rfl⟩
  have turned : (name ++ e).toList.reverse =
      (withoutDots e).toList.reverse ++ '.' :: (name.toList ++ dots).reverse := by
    simp [spelled]
  obtain ⟨ch, stem, more⟩ := exists_cons_of_ne_nil
    (reverse_ne_nil_iff.mpr (append_ne_nil_of_left_ne_nil some dots))
  unfold splitExtension
  dsimp only
  rw [turned, takeWhile_append_of_pos free, dropWhile_append_of_pos free, more]
  simp

theorem isStep_append (step : (Component.name name).IsStep) (dotted : isExtension e = true)
    (plain : ¬ IsCompound e) : (Component.name (name ++ e)).IsStep := by
  obtain ⟨ch, cs, spelled⟩ := exists_of_isExtension dotted
  obtain ⟨dots, apart, all⟩ := exists_dots dotted
  have long : 3 ≤ (name ++ e).toList.length := by
    have := length_pos_iff.mpr (ne_of_isStep step).1
    simp [spelled]
    omega
  have other {short : String} (few : short.toList.length < 3) : name ++ e ≠ short := by
    rintro rfl
    omega
  refine isStep_name (other (by decide)) ?_ (other (by decide)) (other (by decide))
  rw [String.toList_append, mem_append, apart]
  rintro (slash | slash)
  · exact step.1 slash
  · rcases mem_append.mp slash with first | later
    · cases all _ first
    · rcases mem_cons.mp later with dot | inside
      · cases dot
      · exact plain ⟨_, inside, .inr rfl⟩

/-- A name that is completed has the extension that it is completed by, unless this is compound. -/
theorem extension?_join (step : (Component.name name).IsStep) (dotted : isExtension e = true)
    (plain : ¬ IsCompound e) : (directory.join (name ++ e)).extension? = some (withoutDots e) := by
  have whole := isStep_append step dotted plain
  have way : (Path.mk (name ++ e)).Spells [] [name ++ e] :=
    ⟨by simp, by simpa using whole, segments_of_notMem whole.1⟩
  obtain ⟨front, _, _, spells⟩ := exists_spells_join directory
  rw [extension?, (spells way).fileName? rfl]
  exact splitExtension_append (ne_of_isStep step).1 dotted plain

theorem suffix_join (p : Path) (q : String) : q.toList <:+ (p.join q).text.toList := by
  unfold join
  split
  · exact suffix_refl _
  · split <;> rw [String.toList_append] <;> exact suffix_append _ _

/-- A candidate has an allowed extension, or was completed by a compound one. -/
theorem allowsFile_or_of_mem (dotted : ∀ e ∈ c.extensions, isExtension e = true)
    (member : candidate ∈ c.candidates project path) :
    c.allowsFile candidate = true ∨
      ∃ e ∈ c.tried, IsCompound e ∧ e.toList <:+ candidate.text.toList := by
  have completed {p : Path} {name e : String} (listed : e ∈ c.tried)
      (step : (Component.name name).IsStep) (made : candidate = p.join (name ++ e)) :
      c.allowsFile candidate = true ∨
        ∃ e ∈ c.tried, IsCompound e ∧ e.toList <:+ candidate.text.toList := by
    obtain ⟨own, allowed⟩ := mem_filter.mp listed
    by_cases compound : IsCompound e
    · refine .inr ⟨e, listed, compound, List.IsSuffix.trans ?_ (made ▸ suffix_join p (name ++ e))⟩
      rw [String.toList_append]
      exact suffix_append _ _
    · rw [made, allowsFile, extension?_join step (dotted e own) compound]
      exact .inl allowed
  rcases mem_append.mp member with literal | other
  · split at literal
    · next allowed => exact .inl (mem_singleton.mp literal ▸ allowed)
    · cases literal
  rcases mem_append.mp other with behind | index
  · obtain ⟨e, listed, made⟩ := mem_filterMap.mp behind
    obtain ⟨name, named, rfl⟩ := Option.map_eq_some_iff.mp made
    have made : path.withFileName (name ++ e) = (path.parent?.getD ⟨""⟩).join (name ++ e) := by
      rw [withFileName, named]
    exact completed listed (isStep_of_fileName? named) made
  · split at index
    · obtain ⟨e, listed, rfl⟩ := mem_map.mp index
      exact completed listed (isStep_name (by decide) (by decide) (by decide) (by decide)) rfl
    · cases index

theorem exists_candidate_of_disables (dotted : ∀ e ∈ c.extensions, isExtension e = true)
    (resolved : c.resolve project specifier directory = .ok (.file file))
    (disabled : c.Disables file) : ∃ candidate, project.isFile candidate = true ∧
      project.canonical candidate = .ok file ∧ (candidate.fileName? ≠ file.fileName? ∨
        ∃ e ∈ c.tried, IsCompound e ∧ e.toList <:+ candidate.text.toList) := by
  obtain ⟨path, found⟩ := exists_path_of_resolve resolved
  obtain ⟨candidate, member, isFile, canonical⟩ := exists_candidate_of_file? found
  refine ⟨candidate, isFile, canonical, (allowsFile_or_of_mem dotted member).imp_left ?_⟩
  intro allowed same
  rw [disables_iff, allowsFile, extension?, ← same] at disabled
  rw [allowsFile, extension?, disabled] at allowed
  cases allowed

/-! ## Links -/

def linked (name : String) : Project where
  nodes := [(["a"], .link name), ([name], .file .empty)]

theorem isTree_linked (name : String) : (linked name).IsTree :=
  isTree_of_flat (by simp [linked]) rfl

theorem kind_a : Specifier.kind "/a" = .absolute := by
  decide +kernel

theorem resolve_linked (spelled : steps name = [name]) (entry : IsEntry name) (other : name ≠ "a") :
    c.resolve (linked name) "/a" ⟨"/"⟩ = .ok (.file (pathOf [name])) := by
  have link : (linked name).node? ["a"] = some (.link name) := rfl
  have there : (linked name).node? [name] = some (.file .empty) := by
    simp [linked, node?, lookup_cons, beq_false_of_ne other]
  have top : IsTop ⟨"/a"⟩ "a" := by decide
  have located : (linked name).locate ⟨"/a"⟩ = .ok [name] := by
    rw [locate_top top, follow_name top.isEntry, nil_append, link, linkLimit]
    dsimp only
    rw [spelled, startOf, ite_self]
    rw [append_nil, follow_name entry, nil_append, there]
    rfl
  exact resolve_of_absolute kind_a (file?_of_locate rfl located there)

/-- **What the switches for JavaScript and JSON are worth.** Under a configuration that passes the
check a file of a kind that is switched off is found only by a candidate that has another name than
the file, or that was completed by a compound extension. So none is found in a tree without links if
no extension is compound. Wherever something is switched off, though, there is a tree with a link in
which such a file is found. -/
theorem disabled_kinds_resolved {config : Config} (accepted : config.check = .ok ()) :
    let c := config.resolution
    (∀ project specifier directory file, c.resolve project specifier directory = .ok (.file file) →
      c.Disables file → ∃ candidate, project.isFile candidate = true ∧
        project.canonical candidate = .ok file ∧ (candidate.fileName? ≠ file.fileName? ∨
          ∃ e ∈ c.tried, IsCompound e ∧ e.toList <:+ candidate.text.toList)) ∧
    (∀ project : Project, project.IsTree → project.NoLinks →
      (∀ e ∈ c.extensions, ¬ IsCompound e) → ∀ specifier directory file,
        c.resolve project specifier directory = .ok (.file file) → ¬ c.Disables file) ∧
    ((c.allowJs = false ∨ c.resolveJsonModule = false) →
      ∃ (project : Project) (specifier : String) (directory file : Path), project.IsTree ∧
        c.resolve project specifier directory = .ok (.file file) ∧ c.Disables file) := by
  intro c
  have dotted := isExtension_of_check accepted
  have cause {project specifier directory file} :=
    @exists_candidate_of_disables c project file directory specifier dotted
  refine ⟨fun _ _ _ _ => cause, ?_, ?_⟩
  · intro project tree unlinked plain specifier directory file resolved disabled
    obtain ⟨candidate, isFile, canonical, renamed | ⟨e, tried, compound, _⟩⟩ :=
      cause resolved disabled
    · exact renamed (tree.fileName?_canonical unlinked isFile canonical)
    · exact plain e (mem_of_mem_filter tried) compound
  · rintro (noJs | noJson)
    · refine ⟨linked "b.js", "/a", ⟨"/"⟩, _, isTree_linked _, resolve_linked ?_ ?_ ?_, ?_⟩
      · decide
      · exact ⟨by decide, by decide, by decide⟩
      · decide
      · exact .inl ⟨noJs, "js", by decide, by decide⟩
    · refine ⟨linked "b.json", "/a", ⟨"/"⟩, _, isTree_linked _, resolve_linked ?_ ?_ ?_, ?_⟩
      · decide
      · exact ⟨by decide, by decide, by decide⟩
      · decide
      · exact .inr ⟨noJson, by decide⟩

/-- An extension with two dots is not one of those that are switched off, so `/a` is completed to
the name of a JavaScript file. -/
theorem disabled_kinds_resolved_compound_extension :
    let config : Config := { resolution := { extensions := [".min.js"], allowJs := false } }
    let project : Project := { nodes := [(["a.min.js"], .file .empty)] }
    let file : Path := ⟨"/a.min.js"⟩
    config.check = .ok () ∧ config.resolution.resolve project "/a" ⟨"/"⟩ = .ok (.file file) ∧
      config.resolution.Disables file ∧ ∃ candidate, project.isFile candidate = true ∧
        project.canonical candidate = .ok file ∧ (candidate.fileName? ≠ file.fileName? ∨
          ∃ e ∈ config.resolution.tried, IsCompound e ∧ e.toList <:+ candidate.text.toList) := by
  intro config project file
  have accepted : config.check = .ok () := by
    have clean : (violations config.encode).isEmpty = true := by decide +kernel
    rw [check, refuse, if_pos clean]
  have missing : project.locate ⟨"/a"⟩ = .error .notFound := by
    have top : IsTop ⟨"/a"⟩ "a" := by decide
    rw [locate_top top, follow_name top.isEntry]
    rfl
  have located : project.locate file = .ok ["a.min.js"] := locate_of_file (by decide) rfl
  have found : config.resolution.file? project ⟨"/a"⟩ = some file := by
    have listed : config.resolution.candidates project ⟨"/a"⟩ = [⟨"/a"⟩, file] := by
      rw [candidates, alternatives, isDirectory, target?, missing]
      decide +kernel
    rw [file?, listed]
    simp only [findSome?_cons, isFile, target?, missing, located, canonical]
    rfl
  have resolved : config.resolution.resolve project "/a" ⟨"/"⟩ = .ok (.file file) :=
    resolve_of_absolute kind_a found
  have disabled : config.resolution.Disables file := .inl ⟨rfl, "js", by decide, by decide⟩
  refine ⟨accepted, resolved, disabled, ?_⟩
  exact (disabled_kinds_resolved accepted).1 project "/a" ⟨"/"⟩ file resolved disabled

end Resolution

end Tarkib.Config
