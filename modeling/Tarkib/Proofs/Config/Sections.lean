import Tarkib.Proofs.Config.Layout

/-!
# The sections of a configuration

Each section is laid out once, with the keys, forms and places of its settings. What is checked,
decoded and written for the section is what its layout says. The check of the whole configuration
asks for more: the management server needs two switches.
-/

namespace Tarkib.Config

open Json
open List hiding find?_cons find?_append

/-! ## Members that may be left out -/

theorem find?_member? (key k : String) (value : Option Value) :
    find? key (member? k value) = if key = k then value else none := by
  cases value <;> simp [member?, find?_cons]

theorem reverse_member? (k : String) (value : Option Value) :
    (member? k value).reverse = member? k value := by
  cases value <;> rfl

/-! ## Resolution -/

theorem extensionViolations_default :
    extensionViolations ({} : Resolution).extensions = [] := by
  decide +kernel

def resolutionLayout : Layout Resolution where
  settings :=
    [⟨"baseUrl", .optional (.path "resolution.baseUrl"), (·.baseUrl),
        fun x c => { c with baseUrl := x }, (Form.sound_path _).optional rfl, fun _ _ => rfl⟩,
     ⟨"paths", .aliases, (·.paths), fun x c => { c with paths := x }, Form.sound_aliases,
        fun _ _ => rfl⟩,
     ⟨"extensions", .texts "resolution.extensions" extensionViolations, (·.extensions),
        fun x c => { c with extensions := x }, Form.sound_texts _ _, fun _ _ => rfl⟩,
     ⟨"moduleDirectories", .texts "resolution.moduleDirectories" (fun _ => []),
        (·.moduleDirectories), fun x c => { c with moduleDirectories := x }, Form.sound_texts _ _,
        fun _ _ => rfl⟩,
     ⟨"allowJs", .switch "resolution.allowJs", (·.allowJs), fun x c => { c with allowJs := x },
        Form.sound_switch _, fun _ _ => rfl⟩,
     ⟨"resolveJsonModule", .switch "resolution.resolveJsonModule", (·.resolveJsonModule),
        fun x c => { c with resolveJsonModule := x }, Form.sound_switch _, fun _ _ => rfl⟩]
  start := {}
  keys := by decide
  independent := by simp
  determined := by
    rintro ⟨⟩ ⟨⟩ same
    simpa using same
  defaults := by
    simp only [forall_mem_cons]
    refine ⟨Form.returns_none _, ?_, Form.returns_ofValue extensionViolations_default rfl,
      Form.returns_ofValue rfl rfl, Form.returns_ofValue rfl rfl, Form.returns_ofValue rfl rfl,
      by simp⟩
    intro w written
    cases written
    exact ⟨rfl, rfl⟩
  leftOut := by
    simp only [forall_mem_cons]
    refine ⟨fun _ => Form.eq_none_of_encode (by simp), ?_⟩
    simp

/-- The section on resolution. -/
def resolutionForm : Form Resolution :=
  resolutionLayout.form "resolution" "ResolutionConfig" checkResolution Resolution.encode

theorem checkResolution_eq_nil_iff (ms : List (String × Value)) :
    checkResolution ms = [] ↔ resolutionLayout.Passes ms := by
  simp only [Layout.Passes, resolutionLayout, checkResolution, append_eq_nil_iff, and_assoc,
    forall_mem_cons, not_mem_nil, false_imp_iff, implies_true, and_true]
  exact Iff.rfl

theorem exists_written_resolution (c : Resolution) :
    ∃ ms, c.encode = .ofMembers ms ∧ resolutionLayout.Writes (gathered ms) c := by
  refine ⟨_, rfl, ?_⟩
  simp [Layout.Writes, resolutionLayout, find?_gathered, find?_cons, find?_member?,
    reverse_member?, Option.map_eq_bind]

/-- The section with the extensions and aliases is a sound form. -/
theorem sound_resolution : resolutionForm.Sound :=
  Layout.sound_of_iff checkResolution_eq_nil_iff exists_written_resolution

/-! ## Loading -/

theorem isKnownEncoding_default : isKnownEncoding ({} : Loading).encoding = true := by
  decide +kernel

def encodingViolations (s : String) : List Violation :=
  if isKnownEncoding s then [] else [.encoding s]

def loadingLayout : Layout Loading where
  settings :=
    [⟨"encoding", .text "loading.encoding" encodingViolations, (·.encoding),
        fun x c => { c with encoding := x }, Form.sound_text _ _, fun _ _ => rfl⟩,
     ⟨"cache", .switch "loading.cache", (·.cache), fun x c => { c with cache := x },
        Form.sound_switch _, fun _ _ => rfl⟩,
     ⟨"circularDependencyStrategy",
        .choice "loading.circularDependencyStrategy" CyclePolicy.names CyclePolicy.name,
        (·.cyclePolicy), fun x c => { c with cyclePolicy := x },
        Form.sound_choice _ (by rintro ⟨⟩ <;> rfl), fun _ _ => rfl⟩,
     ⟨"maxCacheSize", .optional (.integer "loading.maxCacheSize" 1 none), (·.maxCacheSize),
        fun x c => { c with maxCacheSize := x }, (Form.sound_integer _ _ _).optional rfl,
        fun _ _ => rfl⟩,
     ⟨"maxCacheMemory", .optional (.integer "loading.maxCacheMemory" 1 none), (·.maxCacheMemory),
        fun x c => { c with maxCacheMemory := x }, (Form.sound_integer _ _ _).optional rfl,
        fun _ _ => rfl⟩]
  start := {}
  keys := by decide
  independent := by simp
  determined := by
    rintro ⟨⟩ ⟨⟩ same
    simpa using same
  defaults := by
    simp only [forall_mem_cons]
    refine ⟨Form.returns_ofValue (if_pos isKnownEncoding_default) rfl, Form.returns_ofValue rfl rfl,
      Form.returns_ofValue rfl rfl, Form.returns_none _, Form.returns_none _, by simp⟩
  leftOut := by
    simp only [forall_mem_cons]
    refine ⟨by simp, by simp, by simp, fun _ => Form.eq_none_of_encode (by simp),
      fun _ => Form.eq_none_of_encode (by simp), by simp⟩

/-- The section on loading. -/
def loadingForm : Form Loading :=
  loadingLayout.form "loading" "LoadingConfig" checkLoading Loading.encode

theorem sound_loading : loadingForm.Sound := by
  apply Layout.sound_of_iff
  · intro ms
    simp only [Layout.Passes, loadingLayout, checkLoading, append_eq_nil_iff, and_assoc,
      forall_mem_cons, not_mem_nil, false_imp_iff, implies_true, and_true]
    exact Iff.rfl
  · intro c
    refine ⟨_, rfl, ?_⟩
    simp [Layout.Writes, loadingLayout, find?_gathered, find?_append, find?_cons, find?_member?,
      reverse_member?, Option.map_eq_bind]

/-! ## Compilation -/

def compilationLayout : Layout Compilation where
  settings :=
    [⟨"target", .choice "compilation.target" targetNames Compile.Target.name, (·.target),
        fun x c => { c with target := x }, Form.sound_choice _ (by rintro ⟨⟩ <;> rfl),
        fun _ _ => rfl⟩,
     ⟨"sourceMap", .switch "compilation.sourceMap", (·.sourceMap),
        fun x c => { c with sourceMap := x }, Form.sound_switch _, fun _ _ => rfl⟩,
     ⟨"minify", .switch "compilation.minify", (·.minify), fun x c => { c with minify := x },
        Form.sound_switch _, fun _ _ => rfl⟩,
     ⟨"noTypeCheck", .switch "compilation.noTypeCheck", (·.noTypeCheck),
        fun x c => { c with noTypeCheck := x }, Form.sound_switch _, fun _ _ => rfl⟩,
     ⟨"strict", .switch "compilation.strict", (·.strict), fun x c => { c with strict := x },
        Form.sound_switch _, fun _ _ => rfl⟩,
     ⟨"watch", .switch "compilation.watch", (·.watch), fun x c => { c with watch := x },
        Form.sound_switch _, fun _ _ => rfl⟩,
     ⟨"compileOnSave", .switch "compilation.compileOnSave", (·.compileOnSave),
        fun x c => { c with compileOnSave := x }, Form.sound_switch _, fun _ _ => rfl⟩,
     ⟨"output", .optional (.path "compilation.output"), (·.output),
        fun x c => { c with output := x }, (Form.sound_path _).optional rfl, fun _ _ => rfl⟩,
     ⟨"outDir", .optional (.path "compilation.outDir"), (·.outDir),
        fun x c => { c with outDir := x }, (Form.sound_path _).optional rfl, fun _ _ => rfl⟩,
     ⟨"timeout", .integer "compilation.timeout" 1 (some 600000), (·.timeoutMs),
        fun x c => { c with timeoutMs := x }, Form.sound_integer _ _ _, fun _ _ => rfl⟩]
  start := {}
  keys := by decide
  independent := by simp
  determined := by
    rintro ⟨⟩ ⟨⟩ same
    simpa using same
  defaults := by
    simp only [forall_mem_cons]
    refine ⟨Form.returns_ofValue rfl rfl, Form.returns_ofValue rfl rfl,
      Form.returns_ofValue rfl rfl, Form.returns_ofValue rfl rfl, Form.returns_ofValue rfl rfl,
      Form.returns_ofValue rfl rfl, Form.returns_ofValue rfl rfl, Form.returns_none _,
      Form.returns_none _, Form.returns_ofValue rfl rfl, by simp⟩
  leftOut := by
    simp only [forall_mem_cons]
    refine ⟨by simp, by simp, by simp, by simp, by simp, by simp, by simp,
      fun _ => Form.eq_none_of_encode (by simp), fun _ => Form.eq_none_of_encode (by simp),
      by simp, by simp⟩

/-- The section on compilation. -/
def compilationForm : Form Compilation :=
  compilationLayout.form "compilation" "CompilationConfig" checkCompilation Compilation.encode

theorem sound_compilation : compilationForm.Sound := by
  apply Layout.sound_of_iff
  · intro ms
    simp only [Layout.Passes, compilationLayout, checkCompilation, append_eq_nil_iff,
      and_assoc, forall_mem_cons, not_mem_nil, false_imp_iff, implies_true, and_true,
      flatMap_cons, flatMap_nil]
    exact Iff.rfl
  · intro c
    refine ⟨_, rfl, ?_⟩
    simp [Layout.Writes, compilationLayout, find?_gathered, find?_append, find?_cons, find?_member?,
      reverse_member?, Option.map_eq_bind]

/-! ## Ceilings -/

theorem checkThresholds_default :
    checkThresholds (some (.array (({} : Limits).warningThresholds.map fun x =>
      .number (.double x)))) = [] := by
  decide

/-- The layout of the section on ceilings. -/
def limitsLayout : Layout Limits where
  settings :=
    [⟨"maxMemoryBytes", .integer "resourceLimits.maxMemoryBytes" 1048576 none, (·.maxMemoryBytes),
        fun x c => { c with maxMemoryBytes := x }, Form.sound_integer _ _ _, fun _ _ => rfl⟩,
     ⟨"maxFileHandles", .integer "resourceLimits.maxFileHandles" 1 none, (·.maxFileHandles),
        fun x c => { c with maxFileHandles := x }, Form.sound_integer _ _ _, fun _ _ => rfl⟩,
     ⟨"maxCachedModules", .integer "resourceLimits.maxCachedModules" 1 none, (·.maxCachedModules),
        fun x c => { c with maxCachedModules := x }, Form.sound_integer _ _ _, fun _ _ => rfl⟩,
     ⟨"checkInterval", .integer "resourceLimits.checkInterval" 100 (some 60000),
        (·.checkIntervalMs), fun x c => { c with checkIntervalMs := x }, Form.sound_integer _ _ _,
        fun _ _ => rfl⟩,
     ⟨"memoryWarningThresholds", .thresholds, (·.warningThresholds),
        fun x c => { c with warningThresholds := x }, Form.sound_thresholds, fun _ _ => rfl⟩]
  start := {}
  keys := by decide
  independent := by simp
  determined := by
    rintro ⟨⟩ ⟨⟩ same
    simpa using same
  defaults := by
    simp only [forall_mem_cons]
    refine ⟨Form.returns_ofValue rfl rfl, Form.returns_ofValue rfl rfl,
      Form.returns_ofValue rfl rfl, Form.returns_ofValue rfl rfl,
      Form.returns_ofValue checkThresholds_default rfl, by simp⟩
  leftOut := by simp

/-- The section on ceilings. -/
def limitsForm : Form Limits :=
  limitsLayout.form "resourceLimits" "ResourceLimitsConfig" checkLimits Limits.encode

theorem sound_limits : limitsForm.Sound := by
  apply Layout.sound_of_iff
  · intro ms
    simp only [Layout.Passes, limitsLayout, checkLimits, append_eq_nil_iff, and_assoc,
      forall_mem_cons, not_mem_nil, false_imp_iff, implies_true, and_true]
    exact Iff.rfl
  · intro c
    refine ⟨_, rfl, ?_⟩
    simp [Layout.Writes, limitsLayout, find?_gathered, find?_cons]

/-! ## Circuit breakers -/

/-- The layout of the section on circuit breakers. -/
def breakerLayout : Layout Breaker.Settings where
  settings :=
    [⟨"failureThreshold", .integer "circuitBreaker.failureThreshold" 1 none, (·.threshold),
        fun x c => { c with threshold := x }, Form.sound_integer _ _ _, fun _ _ => rfl⟩,
     ⟨"recoveryTimeout", .integer "circuitBreaker.recoveryTimeout" 1 none, (·.recoveryMs),
        fun x c => { c with recoveryMs := x }, Form.sound_integer _ _ _, fun _ _ => rfl⟩]
  start := {}
  keys := by decide
  independent := by simp
  determined := by
    rintro ⟨⟩ ⟨⟩ same
    simpa using same
  defaults := by
    simp only [forall_mem_cons]
    refine ⟨Form.returns_ofValue rfl rfl, Form.returns_ofValue rfl rfl, by simp⟩
  leftOut := by simp

/-- The section on circuit breakers. -/
def breakerForm : Form Breaker.Settings :=
  breakerLayout.form "circuitBreaker" "CircuitBreakerConfig" checkBreaker Breaker.Settings.encode

theorem sound_breaker : breakerForm.Sound := by
  apply Layout.sound_of_iff
  · intro ms
    simp only [Layout.Passes, breakerLayout, checkBreaker, append_eq_nil_iff,
      forall_mem_cons, not_mem_nil, false_imp_iff, implies_true, and_true]
    exact Iff.rfl
  · intro c
    refine ⟨_, rfl, ?_⟩
    simp [Layout.Writes, breakerLayout, find?_gathered, find?_cons]

/-! ## The whole configuration -/

def documentLayout : Layout Config where
  settings :=
    [⟨"resolution", resolutionForm, (·.resolution), fun x c => { c with resolution := x },
        sound_resolution, fun _ _ => rfl⟩,
     ⟨"loading", loadingForm, (·.loading), fun x c => { c with loading := x }, sound_loading,
        fun _ _ => rfl⟩,
     ⟨"compilation", compilationForm, (·.compilation), fun x c => { c with compilation := x },
        sound_compilation, fun _ _ => rfl⟩,
     ⟨"metrics", .switch "metrics", (·.metrics), fun x c => { c with metrics := x },
        Form.sound_switch _, fun _ _ => rfl⟩,
     ⟨"circuitBreakers", .switch "circuitBreakers", (·.circuitBreakers),
        fun x c => { c with circuitBreakers := x }, Form.sound_switch _, fun _ _ => rfl⟩,
     ⟨"managementServer", .switch "managementServer", (·.managementServer),
        fun x c => { c with managementServer := x }, Form.sound_switch _, fun _ _ => rfl⟩,
     ⟨"managementPort", .integer "managementPort" 1 (some 65535), (·.managementPort),
        fun x c => { c with managementPort := x }, Form.sound_integer _ _ _, fun _ _ => rfl⟩,
     ⟨"operationTimeout", .integer "operationTimeout" 1000 (some 600000), (·.operationTimeoutMs),
        fun x c => { c with operationTimeoutMs := x }, Form.sound_integer _ _ _, fun _ _ => rfl⟩,
     ⟨"resourceLimits", limitsForm.optional, (·.resourceLimits),
        fun x c => { c with resourceLimits := x }, sound_limits.optional (.inl rfl),
        fun _ _ => rfl⟩,
     ⟨"circuitBreaker", breakerForm, (·.circuitBreaker), fun x c => { c with circuitBreaker := x },
        sound_breaker, fun _ _ => rfl⟩]
  start := {}
  keys := by decide
  independent := by simp
  determined := by
    rintro ⟨⟩ ⟨⟩ same
    simpa using same
  defaults := by
    simp only [forall_mem_cons]
    refine ⟨sound_resolution.returns .empty rfl rfl, sound_loading.returns .empty rfl rfl,
      sound_compilation.returns .empty rfl rfl, Form.returns_ofValue rfl rfl,
      Form.returns_ofValue rfl rfl, Form.returns_ofValue rfl rfl, Form.returns_ofValue rfl rfl,
      Form.returns_ofValue rfl rfl, Form.returns_none _, sound_breaker.returns .empty rfl rfl,
      by simp⟩
  leftOut := by
    simp only [forall_mem_cons]
    refine ⟨?_, ?_, ?_, by simp, by simp, by simp, by simp, by simp,
      fun _ => Form.eq_none_of_encode ?_, ?_, by simp⟩ <;> intro _ <;> rintro ⟨⟩

/-- A whole configuration. -/
def documentForm : Form Config :=
  documentLayout.form "configuration" "ModuleSystemConfig" checkMembers Config.encode

/-- Whether a switch is on is the same for a document and for what it is decoded to. -/
theorem isOn_of_reads {α : Type} {key name : String} {get : α → Bool} {put : Bool → α → α}
    {sound : (Form.switch name).Sound} {get_put : ∀ x a, get (put x a) = x}
    {ms : List (String × Value)} {first c : α} (off : get first = false)
    (reads : Setting.Reads ⟨key, .switch name, get, put, sound, get_put⟩ ms first c) :
    isOn (setting? key ms) = get c := by
  rw [setting?_eq]
  cases found : find? key ms with
  | none =>
    have kept : get c = get first := (Setting.reads_iff_of_none _ found).mp reads
    rw [kept, off]
    rfl
  | some v =>
    have decoded : Decoder.bool v = .ok (get c) := (Setting.reads_iff_of_some _ found).mp reads
    cases v with
    | bool b =>
      cases decoded
      rfl
    | _ => cases decoded

theorem checkServer_of_reads {ms ms' : List (String × Value)} {c : Config}
    (reads : documentLayout.Reads ms c) (reads' : documentLayout.Reads ms' c) :
    checkServer ms' = checkServer ms := by
  simp only [Layout.Reads, documentLayout, forall_mem_cons] at reads reads'
  obtain ⟨_, _, _, metrics, breakers, server, _⟩ := reads
  obtain ⟨_, _, _, metrics', breakers', server', _⟩ := reads'
  have sameMetrics : isOn (setting? "metrics" ms') = isOn (setting? "metrics" ms) :=
    (isOn_of_reads rfl metrics').trans (isOn_of_reads rfl metrics).symm
  have sameBreakers :
      isOn (setting? "circuitBreakers" ms') = isOn (setting? "circuitBreakers" ms) :=
    (isOn_of_reads rfl breakers').trans (isOn_of_reads rfl breakers).symm
  have sameServer :
      isOn (setting? "managementServer" ms') = isOn (setting? "managementServer" ms) :=
    (isOn_of_reads rfl server').trans (isOn_of_reads rfl server).symm
  simp only [checkServer, flatMap_cons, flatMap_nil, sameMetrics, sameBreakers,
    sameServer]

/-- A document that passes the check passes those of all its sections. -/
theorem passes_of_checkMembers {ms : List (String × Value)} (checked : checkMembers ms = []) :
    documentLayout.Passes ms := by
  simp only [checkMembers, append_eq_nil_iff, and_assoc] at checked
  obtain ⟨resolution, loading, compilation, metrics, breakers, server, _, port, timeout, limits,
    breaker⟩ := checked
  simp only [Layout.Passes, documentLayout, forall_mem_cons]
  exact ⟨resolution, loading, compilation, metrics, breakers, server, port, timeout, limits,
    breaker, by simp⟩

/-- A configuration is written section by section. -/
theorem exists_written_document (c : Config) :
    ∃ ms, c.encode = .ofMembers ms ∧ documentLayout.Writes (gathered ms) c := by
  refine ⟨_, rfl, ?_⟩
  simp [Layout.Writes, documentLayout, find?_gathered, find?_append, find?_cons, find?_member?,
    reverse_member?, Option.map_eq_bind, resolutionForm, loadingForm, compilationForm, limitsForm,
    breakerForm]

/-- The whole configuration is a sound form. -/
theorem sound_document : documentForm.Sound := by
  refine Layout.sound (fun ms => passes_of_checkMembers) ?_ exists_written_document
  intro ms ms' c checked reads reads' passes
  simp only [checkMembers, append_eq_nil_iff, and_assoc] at checked
  have server : checkServer ms' = [] := by
    rw [checkServer_of_reads reads reads']
    exact checked.2.2.2.2.2.2.1
  simp only [Layout.Passes, documentLayout, forall_mem_cons] at passes
  obtain ⟨resolution, loading, compilation, metrics, breakers, switch, port, timeout, limits,
    breaker, _⟩ := passes
  simp only [checkMembers, append_eq_nil_iff, and_assoc]
  exact ⟨resolution, loading, compilation, metrics, breakers, switch, server, port, timeout,
    limits, breaker⟩

end Tarkib.Config
