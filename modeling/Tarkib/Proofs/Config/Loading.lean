import Tarkib.Config.Load
import Tarkib.Proofs.Config.Sections
import Tarkib.Proofs.Json.Parsed

/-!
# Loading configurations

A document is checked before it is decoded, and the check reports everything that is wrong with it.
It lets a null pass for every setting, but most settings have to have a value when they are decoded
(`required`, `NeedsValue`).

The results are about documents whose objects have their members in order, and every document that
is read from a text is of this kind (`Json.ordered_parse`).
-/

namespace Tarkib.Config

open Json

/-- The places of the settings that have to have a value if they are there, except aliases. -/
def required : List (List String) :=
  [[], ["resolution"], ["loading"], ["compilation"], ["metrics"], ["circuitBreakers"],
   ["managementServer"], ["managementPort"], ["operationTimeout"], ["circuitBreaker"],
   ["resolution", "paths"], ["resolution", "extensions"], ["resolution", "moduleDirectories"],
   ["resolution", "allowJs"], ["resolution", "resolveJsonModule"],
   ["loading", "encoding"], ["loading", "cache"], ["loading", "circularDependencyStrategy"],
   ["compilation", "target"], ["compilation", "sourceMap"], ["compilation", "minify"],
   ["compilation", "noTypeCheck"], ["compilation", "strict"], ["compilation", "watch"],
   ["compilation", "compileOnSave"], ["compilation", "timeout"],
   ["resourceLimits", "maxMemoryBytes"], ["resourceLimits", "maxFileHandles"],
   ["resourceLimits", "maxCachedModules"], ["resourceLimits", "checkInterval"],
   ["resourceLimits", "memoryWarningThresholds"],
   ["circuitBreaker", "failureThreshold"], ["circuitBreaker", "recoveryTimeout"]]

/-- A place at which null cannot be decoded: a setting that has to have a value, or an alias. -/
def NeedsValue (place : List String) : Prop :=
  place ∈ required ∨ ∃ pattern, place = ["resolution", "paths", pattern]

/-- The places that the layouts need are the required ones. -/
theorem needs_documentForm_iff (place : List String) :
    documentForm.needs place ↔ NeedsValue place := by
  -- No place that needs a value is deeper than an alias.
  rcases place with _ | ⟨outer, _ | ⟨inner, _ | ⟨pattern, deeper⟩⟩⟩
  all_goals
    simp [documentForm, documentLayout, resolutionForm, resolutionLayout, loadingForm,
      loadingLayout, compilationForm, compilationLayout, limitsForm, limitsLayout, breakerForm,
      breakerLayout, NeedsValue, required, and_or_left, or_assoc]

theorem lacks_documentForm_iff (v : Value) :
    documentForm.Lacks v ↔ ∃ place, NeedsValue place ∧ v.at? place = some .null := by
  simp only [Form.Lacks, needs_documentForm_iff]

/-! ## Loading -/

theorem violations_eq (v : Value) : violations v = documentForm.check (given v) := by
  cases v <;> rfl

theorem ofDocument_of_violations {v : Value} (wrong : violations v ≠ []) :
    ofDocument v = .error (.configuration (violations v)) := by
  have some : (violations v).isEmpty = false := List.isEmpty_eq_false_iff.mpr wrong
  simp [ofDocument, refuse, some, bind, Except.bind]

theorem ofDocument_of_clean {v : Value} (clean : violations v = []) :
    ofDocument v = (documentForm.decode v).mapError .setting := by
  have none : (violations v).isEmpty = true := List.isEmpty_iff.mpr clean
  change _ = (decode v).mapError _
  simp only [ofDocument, refuse, none, if_true, bind, Except.bind]
  cases decode v <;> rfl

/-- A document that passes the check is decoded or lacks something. -/
theorem fits_decode {v : Value} (ordered : v.Ordered) (clean : violations v = []) :
    documentForm.Fits v (documentForm.decode v) := by
  rw [violations_eq] at clean
  exact sound_document.fits v ordered clean

/-- **Checked documents are refused for a null only.** A document with violations is refused with
all of them. A document without violations is loaded if and only if no setting that has to have a
value is null in it. If it is refused after all, the error tells of one null, and of nothing else
that is wrong. -/
theorem ofDocument_succeeds_iff {v : Value} (ordered : v.Ordered) :
    (violations v ≠ [] → ofDocument v = .error (.configuration (violations v))) ∧
      (violations v = [] →
        ((∃ config, ofDocument v = .ok config) ↔
            ∀ place, NeedsValue place → v.at? place ≠ some .null) ∧
          ∀ e, ofDocument v = .error e → ∃ expected, e = .setting (.type .null expected)) := by
  refine ⟨ofDocument_of_violations, ?_⟩
  intro clean
  have fits := fits_decode ordered clean
  rw [ofDocument_of_clean clean]
  cases decoded : documentForm.decode v with
  | ok config =>
    rw [decoded] at fits
    refine ⟨iff_of_true ⟨config, rfl⟩ ?_, ?_⟩
    · intro place needed null
      exact fits.1 ((lacks_documentForm_iff v).mpr ⟨place, needed, null⟩)
    · intro e failed
      cases failed
  | error mismatch =>
    rw [decoded] at fits
    obtain ⟨place, needed, null⟩ := (lacks_documentForm_iff v).mp fits.1
    obtain ⟨expected, rfl⟩ := fits.2
    refine ⟨iff_of_false ?_ ?_, ?_⟩
    · rintro ⟨config, loaded⟩
      cases loaded
    · intro present
      exact present place needed null
    · intro e failed
      cases failed
      exact ⟨expected, rfl⟩

/-- A switch that is null violates nothing and is refused. -/
theorem ofDocument_succeeds_iff_null :
    ∃ v, Json.parse "\x7b\"metrics\": null\x7d" = .ok v ∧ v.Ordered ∧ violations v = [] ∧
      ¬ ∃ config, ofDocument v = .ok config := by
  have parsed : Json.parse "\x7b\"metrics\": null\x7d" = .ok (.object [("metrics", .null)]) := by
    have length : "\x7b\"metrics\": null\x7d".length = 17 := by decide
    simp [Json.parse, length, readValue, readMembers, readMember, readString, readChars, readColon,
      readWord, Cursor.skipBlank, Cursor.next, Cursor.isBlank, Value.ofMembers, insertMember,
      depthLimit, bind, Except.bind, pure, Except.pure]
  have ordered := ordered_parse parsed
  refine ⟨_, parsed, ordered, rfl, ?_⟩
  rw [((ofDocument_succeeds_iff ordered).2 rfl).1]
  intro present
  exact present ["metrics"] (.inl (by decide)) rfl

/-- **Configurations survive the round trip.** A configuration that was loaded passes the check, and
loading its document gives the same configuration. -/
theorem ofDocument_encode {v : Value} (ordered : v.Ordered) {config : Config}
    (loaded : ofDocument v = .ok config) :
    config.check = .ok () ∧ ofDocument config.encode = .ok config := by
  have clean : violations v = [] := by
    by_contra wrong
    rw [ofDocument_of_violations wrong] at loaded
    cases loaded
  have fits := fits_decode ordered clean
  rw [ofDocument_of_clean clean] at loaded
  cases decoded : documentForm.decode v with
  | error mismatch =>
    rw [decoded] at loaded
    cases loaded
  | ok found =>
    rw [decoded] at loaded fits
    cases loaded
    obtain ⟨passes, back⟩ := fits.2 config.encode rfl
    rw [← violations_eq] at passes
    constructor
    · simp [check, refuse, passes]
    · rw [ofDocument_of_clean passes, back]
      rfl

/-- A management server with everything it needs, and thresholds written as an integer and as a
fraction. -/
theorem ofDocument_encode_server :
    let v : Value := .object
      [("circuitBreakers", .bool true), ("managementServer", .bool true), ("metrics", .bool true),
       ("resourceLimits", .object
         [("memoryWarningThresholds", .array [.nat 80, .number (.double 90.5)])])]
    let config : Config :=
      { circuitBreakers := true, managementServer := true, metrics := true
        resourceLimits := some { warningThresholds := [80.0, 90.5] } }
    ofDocument v = .ok config ∧ config.check = .ok () ∧ ofDocument config.encode = .ok config := by
  intro v config
  have loaded : ofDocument v = .ok config := rfl
  have thresholds : (Value.array [.nat 80, .number (.double 90.5)]).Ordered := by
    refine .array ?_
    simp only [List.forall_mem_cons]
    exact ⟨.number _, .number _, by simp⟩
  have limits : (Value.object
      [("memoryWarningThresholds", .array [.nat 80, .number (.double 90.5)])]).Ordered := by
    refine .object (List.pairwise_singleton _ _) ?_
    simp only [List.forall_mem_singleton]
    exact thresholds
  have ordered : v.Ordered := by
    refine .object (by unfold Ascending; decide) ?_
    simp only [List.forall_mem_cons]
    exact ⟨.bool _, .bool _, .bool _, limits, by simp⟩
  exact ⟨loaded, ofDocument_encode ordered loaded⟩

end Tarkib.Config
