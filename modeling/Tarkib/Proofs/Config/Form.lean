import Mathlib.Data.Set.List
import Tarkib.Config.Document
import Tarkib.Config.Check
import Tarkib.Proofs.Fallible
import Tarkib.Proofs.Json.Members

/-!
# Forms of settings

A setting is described three times: by the check of its value, by the decoder that reads it and by
the document that it is written as. A form is such a triple, with the places inside the value that
may not be null (`Form.needs`). The three belong together (`Form.Sound`) if every value that passes
the check is decoded unless something needed is null in it, if a refusal is then about this null,
and if what was decoded is written as a document that passes the check and is decoded to the same.
-/

namespace Tarkib

open Json

variable {v : Value}
open List hiding find?_cons

namespace Config

/-! ## Forms -/

/-- The value itself, unless it is null. -/
def given : Value → Option Value
  | .null => none
  | v => some v

theorem setting?_eq (key : String) (members : List (String × Value)) :
    setting? key members = (find? key members).bind given := by
  unfold setting?
  rcases find? key members with _ | v
  · rfl
  · cases v <;> rfl

/-- How the values of a setting are checked, decoded and written, and which places inside them may
not be null. A value that is not written is left out. -/
structure Form (β : Type) where
  check : Option Value → List Violation
  decode : Decoder β
  encode : β → Option Value
  needs : List String → Prop

namespace Form

variable {β : Type}

/-- Something that is needed is null. -/
def Lacks (f : Form β) (v : Value) : Prop :=
  ∃ place, f.needs place ∧ v.at? place = some .null

/-- What is written passes the check and is decoded to the same. -/
def Returns (f : Form β) (x : β) : Prop :=
  ∀ w, f.encode x = some w → f.check (given w) = [] ∧ f.decode w = .ok x

/-- The result of decoding a value that has passed the check. -/
def Fits (f : Form β) (v : Value) : Except Mismatch β → Prop
  | .ok x => ¬ f.Lacks v ∧ f.Returns x
  | .error e => f.Lacks v ∧ ∃ expected, e = .type .null expected

/-- The check, the decoder and the written document belong together. -/
structure Sound (f : Form β) : Prop where
  absent : f.check none = []
  fits : ∀ v, v.Ordered → f.check (given v) = [] → f.Fits v (f.decode v)

theorem Sound.returns {f : Form β} (sound : f.Sound) (ordered : v.Ordered)
    (passes : f.check (given v) = []) {x : β} (decoded : f.decode v = .ok x) : f.Returns x := by
  have fits := sound.fits v ordered passes
  rw [decoded] at fits
  exact fits.2

/-- A form of which the value itself, and nothing inside it, may not be null. -/
@[simp]
def ofValue (check : Option Value → List Violation) (decode : Decoder β) (encode : β → Value) :
    Form β where
  check
  decode
  encode x := some (encode x)
  needs place := place = []

section OfValue

variable {check : Option Value → List Violation} {decode : Decoder β} {encode : β → Value}

theorem lacks_ofValue_iff : (ofValue check decode encode).Lacks v ↔ v = .null := by
  simp [Lacks, ofValue]

theorem returns_ofValue {x : β} (passes : check (given (encode x)) = [])
    (back : decode (encode x) = .ok x) : (ofValue check decode encode).Returns x := by
  intro w written
  cases written
  exact ⟨passes, back⟩

/-- A form whose document is a single value is sound if only null passes and is not decoded. -/
theorem sound_ofValue (absent : check none = [])
    (null : ∃ expected, decode .null = .error (.type .null expected))
    (passes : ∀ v, v ≠ .null → check (some v) = [] →
      ∃ x, decode v = .ok x ∧ check (given (encode x)) = [] ∧ decode (encode x) = .ok x) :
    (ofValue check decode encode).Sound := by
  refine ⟨absent, ?_⟩
  intro v _ checked
  by_cases here : v = .null
  · obtain ⟨expected, refused⟩ := null
    subst here
    change Fits _ _ (decode .null)
    rw [refused]
    exact ⟨lacks_ofValue_iff.mpr rfl, expected, rfl⟩
  · have present : given v = some v := by
      cases v with
      | null => exact absurd rfl here
      | _ => rfl
    rw [present] at checked
    obtain ⟨x, decoded, again, back⟩ := passes v here checked
    change Fits _ _ (decode v)
    rw [decoded]
    exact ⟨fun lacks => here (lacks_ofValue_iff.mp lacks), returns_ofValue again back⟩

end OfValue

/-! ### Single values -/

@[simp]
def switch (name : String) : Form Bool :=
  ofValue (checkSwitch name) .bool .bool

theorem sound_switch (name : String) : (switch name).Sound := by
  apply sound_ofValue rfl ⟨_, rfl⟩
  intro v _ checked
  cases v with
  | bool b => exact ⟨b, rfl, rfl, rfl⟩
  | _ => cases checked

@[simp]
def text (name : String) (check : String → List Violation) : Form String :=
  ofValue (checkText name check) .string .string

theorem sound_text (name : String) (check : String → List Violation) :
    (text name check).Sound := by
  apply sound_ofValue rfl ⟨_, rfl⟩
  intro v _ checked
  cases v with
  | string s => exact ⟨s, rfl, checked, rfl⟩
  | _ => cases checked

@[simp]
def path (name : String) : Form Path :=
  ofValue (checkText name fun _ => []) Config.path fun p => .string p.text

theorem sound_path (name : String) : (path name).Sound := by
  apply sound_ofValue rfl ⟨_, rfl⟩
  intro v _ checked
  cases v with
  | string s => exact ⟨⟨s⟩, rfl, rfl, rfl⟩
  | _ => cases checked

@[simp]
def integer (name : String) (least : Nat) (most : Option Nat) : Form Nat :=
  ofValue (checkInteger name least most) .natural .nat

theorem sound_integer (name : String) (least : Nat) (most : Option Nat) :
    (integer name least most).Sound := by
  apply sound_ofValue rfl ⟨_, rfl⟩
  intro v _ checked
  cases v with
  | number n =>
    cases n with
    | natural n => exact ⟨n, rfl, checked, rfl⟩
    | _ => cases checked
  | _ => cases checked

@[simp]
def choice (name : String) (names : List (String × β)) (nameOf : β → String) : Form β :=
  ofValue (checkChoice name (names.map Prod.fst)) (.oneOf names) fun x => .string (nameOf x)

/-- A name of several is sound if the names are told apart. -/
theorem sound_choice (name : String) {names : List (String × β)} {nameOf : β → String}
    (named : ∀ x, names.lookup (nameOf x) = some x) : (choice name names nameOf).Sound := by
  apply sound_ofValue rfl ⟨_, rfl⟩
  intro v _ checked
  cases v with
  | string s =>
    have listed : s ∈ names.map Prod.fst := by
      by_contra other
      simp [checkChoice, checkText, other] at checked
    obtain ⟨x, found⟩ : ∃ x, names.lookup s = some x := by
      have known : (names.lookup s).isSome = true := by
        obtain ⟨⟨_, x⟩, member, rfl⟩ := mem_map.mp listed
        simp only [lookup_isSome_iff]
        exact ⟨_, member, by simp⟩
      exact Option.isSome_iff_exists.mp known
    have own : nameOf x ∈ names.map Prod.fst := by
      obtain ⟨before, after, split, _⟩ := List.lookup_eq_some_iff.mp (named x)
      simp [split]
    refine ⟨x, ?_, ?_, ?_⟩
    · simp [Decoder.oneOf, Decoder.named, found]
    · simp only [checkChoice, checkText, given]
      rw [if_pos (contains_iff_mem.mpr own)]
    · simp [Decoder.oneOf, Decoder.named, named]
  | _ => cases checked

/-! ### Lists -/

theorem flatMap_zipIdx_eq_nil_iff {α γ : Type} {items : List α} {find : α × Nat → List γ}
    {p : α → Prop} (spec : ∀ item index, find (item, index) = [] ↔ p item) :
    items.zipIdx.flatMap find = [] ↔ ∀ item ∈ items, p item := by
  rw [flatMap_eq_nil_iff]
  constructor
  · intro none item member
    obtain ⟨index, found⟩ := mem_iff_getElem?.mp member
    exact (spec item index).mp (none _ (mk_mem_zipIdx_iff_getElem?.mpr found))
  · rintro all ⟨item, index⟩ member
    exact (spec item index).mpr (all item (fst_mem_of_mem_zipIdx member))

/-- A list has no wrong items exactly if all are texts. -/
theorem itemViolations_eq_nil_iff {name : String} {items : List Value} :
    itemViolations name items = [] ↔ ∃ texts : List String, texts.map .string = items := by
  have texts := Set.ext_iff.mp (Set.range_list_map Value.string).symm items
  refine (flatMap_zipIdx_eq_nil_iff ?_).trans texts
  intro v index
  cases v <;> simp

theorem textItems_map (texts : List String) : textItems (texts.map .string) = texts := by
  rw [textItems, filterMap_map]
  exact filterMap_some

@[simp]
def texts (name : String) (check : List String → List Violation) : Form (List String) :=
  ofValue (checkTexts name check) (.list .string) Config.texts

/-- A list of texts is sound, whatever else is asked of the texts. -/
theorem sound_texts (name : String) (check : List String → List Violation) :
    (texts name check).Sound := by
  apply sound_ofValue rfl ⟨_, rfl⟩
  intro v _ checked
  cases v with
  | array items =>
    obtain ⟨single, whole⟩ := append_eq_nil_iff.mp checked
    obtain ⟨texts, rfl⟩ := itemViolations_eq_nil_iff.mp single
    have decoded : (texts.map Value.string).mapM Decoder.string = .ok texts := by
      refine (mapM_map_eq_ok (h := id) ?_).trans (by rw [map_id])
      intro _ _
      rfl
    rw [textItems_map] at whole
    refine ⟨texts, decoded, ?_, decoded⟩
    exact checked
  | _ => cases checked

@[simp]
def thresholds : Form (List Float) :=
  ofValue checkThresholds (.list .double) fun xs => .array (xs.map fun x => .number (.double x))

theorem checkThresholds_eq_nil_iff {items : List Value} :
    checkThresholds (some (.array items)) = [] ↔ ∀ v ∈ items, isPercentage v = true := by
  apply flatMap_zipIdx_eq_nil_iff
  intro v index
  by_cases fits : isPercentage v = true <;> simp [fits]

/-- Thresholds are written as the doubles that they were read as. -/
theorem sound_thresholds : thresholds.Sound := by
  apply sound_ofValue rfl ⟨_, rfl⟩
  intro v _ checked
  cases v with
  | array items =>
    rw [checkThresholds_eq_nil_iff] at checked
    have numbers : ∀ v ∈ items, v ∈ Set.range Value.number := by
      intro v member
      have fits := checked v member
      cases v with
      | number n => exact ⟨n, rfl⟩
      | _ => cases fits
    obtain ⟨ns, rfl⟩ := (Set.ext_iff.mp (Set.range_list_map Value.number) items).mpr numbers
    refine ⟨ns.map Number.toDouble, ?_, ?_, ?_⟩
    · exact mapM_map_eq_ok (f := Decoder.double) (g := Value.number) (h := Number.toDouble)
        fun _ _ => rfl
    · -- A number and the double that it is held as are the same percentage.
      change checkThresholds (some (.array _)) = []
      rw [checkThresholds_eq_nil_iff]
      intro v member
      simp only [mem_map] at member
      obtain ⟨_, ⟨n, listed, rfl⟩, rfl⟩ := member
      exact checked (.number n) (mem_map_of_mem listed)
    · change ((ns.map Number.toDouble).map _).mapM Decoder.double = _
      refine (mapM_map_eq_ok (h := id) ?_).trans (by rw [map_id])
      intro _ _
      rfl
  | _ => cases checked

/-! ### What may be left out -/

/-- The same values, or none, which is left out and may also be null. -/
@[simp]
def optional (f : Form β) : Form (Option β) where
  check := f.check
  decode := .optional f.decode
  encode x := x.bind f.encode
  needs place := place ≠ [] ∧ f.needs place

theorem returns_none (f : Form β) : f.optional.Returns none := by
  intro w written
  cases written

theorem eq_none_of_encode {f : Form β} (always : ∀ x, f.encode x ≠ none) {x : Option β}
    (leftOut : f.optional.encode x = none) : x = none := by
  cases x with
  | none => rfl
  | some x => exact absurd leftOut (always x)

theorem Sound.ne_null_of_decode {f : Form β} (sound : f.Sound) (required : f.needs [])
    {x : β} (decoded : f.decode v = .ok x) : v ≠ .null := by
  rintro rfl
  have fits := sound.fits .null .null sound.absent
  rw [decoded] at fits
  exact fits.1 ⟨[], required, rfl⟩

theorem decode_optional {f : Form β} (present : v ≠ .null) :
    f.optional.decode v = (f.decode v).map some := by
  cases v with
  | null => exact absurd rfl present
  | _ => rfl

/-- A form that may be left out is sound if the form itself is, and does not let null pass. -/
theorem Sound.optional {f : Form β} (sound : f.Sound) (required : f.needs []) :
    f.optional.Sound := by
  refine ⟨sound.absent, ?_⟩
  intro v ordered checked
  by_cases null : v = .null
  · subst null
    refine ⟨?_, returns_none f⟩
    rintro ⟨_ | ⟨key, place⟩, ⟨inside, _⟩, found⟩
    · exact inside rfl
    · cases found
  · have fits := sound.fits v ordered checked
    rw [decode_optional null]
    cases decoded : f.decode v with
    | ok x =>
      rw [decoded] at fits
      refine ⟨?_, ?_⟩
      · rintro ⟨place, ⟨_, needed⟩, found⟩
        exact fits.1 ⟨place, needed, found⟩
      · intro w written
        obtain ⟨again, back⟩ := fits.2 w written
        refine ⟨again, ?_⟩
        rw [decode_optional (sound.ne_null_of_decode required back), back]
        rfl
    | error e =>
      rw [decoded] at fits
      obtain ⟨⟨place, needed, found⟩, reason⟩ := fits
      refine ⟨⟨place, ⟨?_, needed⟩, found⟩, reason⟩
      rintro rfl
      rw [Value.at?_nil] at found
      exact null (Option.some.inj found)

/-! ### Aliases -/

/-- The name that an alias has in violations. -/
def aliasName (pattern : String) : String :=
  s!"resolution.paths[\"{pattern}\"]"

/-- Aliases with their targets. -/
@[simp]
def aliases : Form (List (String × List String)) where
  check := checkSection "resolution.paths" fun paths => paths.flatMap fun (pattern, targets) =>
    checkTexts (aliasName pattern) (fun _ => []) (setting? pattern [(pattern, targets)])
  decode := .map (.list .string)
  encode paths :=
    some (.object (paths.map fun (pattern, targets) => (pattern, Config.texts targets)))
  needs place := place = [] ∨ ∃ pattern, place = [pattern]

def targets (pattern : String) : Form (List String) :=
  texts (aliasName pattern) fun _ => []

theorem check_aliases_eq_nil_iff {members : List (String × Value)} :
    aliases.check (some (.object members)) = [] ↔
      ∀ m ∈ members, (targets m.1).check (given m.2) = [] := by
  change (members.flatMap fun m =>
    checkTexts (aliasName m.1) (fun _ => []) (setting? m.1 [(m.1, m.2)])) = [] ↔ _
  rw [flatMap_eq_nil_iff]
  refine forall₂_congr fun m _ => ?_
  rw [setting?_eq, find?_cons, if_pos rfl]
  rfl

theorem lacks_aliases_iff {members : List (String × Value)} (keys : Ascending members) :
    aliases.Lacks (.object members) ↔ ∃ m ∈ members, m.2 = .null := by
  constructor
  · rintro ⟨place, rfl | ⟨pattern, rfl⟩, null⟩
    · cases null
    · simp only [Value.at?_object, Option.bind_eq_some_iff, Value.at?_nil] at null
      obtain ⟨v, found, same⟩ := null
      exact ⟨_, mem_of_find? found, Option.some.inj same⟩
  · rintro ⟨⟨pattern, v⟩, member, rfl⟩
    refine ⟨[pattern], .inr ⟨pattern, rfl⟩, ?_⟩
    rw [Value.at?_object, (find?_eq_some_iff keys).mpr member]
    rfl

/-- Aliases are sound: no two of them have the same name. -/
theorem sound_aliases : aliases.Sound := by
  refine ⟨rfl, ?_⟩
  intro v ordered checked
  cases ordered with
  | null => exact ⟨⟨[], .inl rfl, rfl⟩, _, rfl⟩
  | @object members keys each =>
    have single : ∀ m ∈ members, (targets m.1).Fits m.2 (Decoder.list .string m.2) := by
      intro m member
      have clean := check_aliases_eq_nil_iff.mp checked m member
      exact (sound_texts _ _).fits m.2 (each m member) clean
    change Fits _ _ (members.mapM fun m => (Decoder.list .string m.2).map fun a => (m.1, a))
    cases decoded : members.mapM fun m => (Decoder.list .string m.2).map fun a => (m.1, a) with
    | error e =>
      obtain ⟨m, member, failed⟩ := exists_of_mapM decoded
      have fits := single m member
      cases result : Decoder.list .string m.2 with
      | ok targets =>
        rw [result] at failed
        cases failed
      | error e' =>
        rw [result] at failed fits
        cases failed
        refine ⟨(lacks_aliases_iff keys).mpr ⟨m, member, ?_⟩, fits.2⟩
        exact lacks_ofValue_iff.mp fits.1
    | ok paths =>
      obtain ⟨forth, back⟩ := mem_of_mapM decoded
      have returns : ∀ p ∈ paths, (targets p.1).Returns p.2 := by
        intro p member
        obtain ⟨m, listed, same⟩ := back p member
        have fits := single m listed
        cases result : Decoder.list .string m.2 with
        | error e =>
          rw [result] at same
          cases same
        | ok targets =>
          rw [result] at same fits
          cases same
          exact fits.2
      refine ⟨?_, ?_⟩
      · intro lacks
        obtain ⟨m, member, null⟩ := (lacks_aliases_iff keys).mp lacks
        obtain ⟨p, _, same⟩ := forth m member
        rw [null] at same
        cases same
      · intro w written
        cases written
        constructor
        · refine check_aliases_eq_nil_iff.mpr ?_
          intro m member
          obtain ⟨p, listed, rfl⟩ := mem_map.mp member
          exact (returns p listed _ rfl).1
        · refine (mapM_map_eq_ok (h := id) fun p listed => ?_).trans (by rw [map_id])
          have decoded : Decoder.list .string (Config.texts p.2) = .ok p.2 :=
            (returns p listed _ rfl).2
          simp [decoded, Except.map]
  | _ => cases checked

end Form

end Config

end Tarkib
