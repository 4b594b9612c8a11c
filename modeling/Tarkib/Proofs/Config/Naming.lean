import Mathlib.Data.List.TakeWhile
import Tarkib.Proofs.Config.Form

/-!
# What violations name

Extensions are checked twice. All items are looked at for those that are no texts, and these are
named by their numbers in the list. Then the texts among them are looked at for those that are no
extensions, and these are named by their numbers among the texts. The two numbers agree up to the
first item that is no text. So if a text that is no extension stands behind an item that is no text,
the last such text is not named at all.
-/

namespace Tarkib.Config

open Json List

variable {items : List Value}

/-! ## Names of settings -/

/-- The second text starts with the first one. -/
def Opens (front text : String) : Prop :=
  front.toList <+: text.toList

instance (front text : String) : Decidable (Opens front text) :=
  inferInstanceAs (Decidable (_ <+: _))

theorem Opens.append {front text : String} (opens : Opens front text) (rest : String) :
    Opens front (text ++ rest) := by
  unfold Opens
  rw [String.toList_append]
  exact opens.trans (prefix_append ..)

theorem opens_append (front rest : String) : Opens front (front ++ rest) :=
  Opens.append prefix_rfl rest

namespace Violation

/-- The name of the setting that is wrong. -/
def setting : Violation → String
  | kind setting _ _ | item setting _ _ | choice setting _ _ | range setting _ _ _ => setting
  | extension _ _ => "resolution.extensions"
  | encoding _ => "loading.encoding"
  | percentage _ _ => "resourceLimits.memoryWarningThresholds"
  | serverNeeds _ => "managementServer"

/-- A message starts with the name of the setting that is wrong. -/
theorem opens_message (v : Violation) : Opens v.setting v.message := by
  cases v with
  | kind | item | choice => exact ((((opens_append ..).append _).append _).append _).append _
  | range setting least most found =>
    cases most with
    | none => exact ((((opens_append ..).append _).append _).append _).append _
    | some =>
      exact ((((((opens_append ..).append _).append _).append _).append _).append _).append _
  | extension index =>
    have front : Opens "resolution.extensions" "resolution.extensions[" := by decide
    exact (((front.append index.repr).append _).append _).append _
  | encoding found =>
    have front : Opens "loading.encoding" "loading.encoding must be \"utf-8\" (got \"" := by decide
    exact (front.append found).append _
  | percentage index =>
    have front : Opens "resourceLimits.memoryWarningThresholds"
      "resourceLimits.memoryWarningThresholds[" := by decide
    exact (((front.append (Decimal.digitText index)).append _).append _).append _
  | serverNeeds switch =>
    have front : Opens "managementServer" "managementServer requires " := by decide
    exact (front.append switch).append _

/-- The message starts with the name of the extension with the given number. -/
def namesExtension (index : Nat) (v : Violation) : Bool :=
  ("resolution.extensions[" ++ index.repr ++ "] ").toList.isPrefixOf v.message.toList

end Violation

open Violation

def IsApart (name : String) : Prop :=
  ¬ Opens name "resolution.extensions[" ∧ ¬ Opens "resolution.extensions[" name

instance (name : String) : Decidable (IsApart name) :=
  inferInstanceAs (Decidable (_ ∧ _))

/-- No violation is one of an extension. -/
def OfOthers (found : List Violation) : Prop :=
  ∀ v ∈ found, IsApart v.setting

section Others

variable {name : String} {value : Option Value}

theorem IsApart.append {name : String} (apart : IsApart name) (rest : String) :
    IsApart (name ++ rest) := by
  have sides {front : String} (opens : Opens front (name ++ rest)) :
      Opens front name ∨ Opens name front := by
    unfold Opens at *
    exact prefix_or_prefix_of_prefix opens (opens_append name rest)
  refine ⟨fun shorter => ?_, fun longer => ?_⟩
  · exact apart.1 (List.IsPrefix.trans (opens_append name rest) shorter)
  · exact (sides longer).elim apart.2 apart.1

theorem ofOthers_append (found more : List Violation) :
    OfOthers (found ++ more) ↔ OfOthers found ∧ OfOthers more :=
  forall_mem_append

theorem ofOthers_flatMap {α : Type} {xs : List α} {find : α → List Violation}
    (each : ∀ x, OfOthers (find x)) : OfOthers (xs.flatMap find) := by
  intro v member
  obtain ⟨x, _, found⟩ := mem_flatMap.mp member
  exact each x v found

section Apart

variable (apart : IsApart name)
include apart

theorem ofOthers_checkSwitch : OfOthers (checkSwitch name value) := by
  fun_cases checkSwitch <;> simp [OfOthers, setting, apart]

theorem ofOthers_checkInteger {least : Nat} {most : Option Nat} :
    OfOthers (checkInteger name least most value) := by
  fun_cases checkInteger <;> simp [OfOthers, setting, apart]

theorem ofOthers_checkText {check : String → List Violation} (inner : ∀ s, OfOthers (check s)) :
    OfOthers (checkText name check value) := by
  fun_cases checkText
  · exact forall_mem_nil _
  · exact inner _
  · simp [OfOthers, setting, apart]

theorem ofOthers_checkPlainText : OfOthers (checkText name (fun _ => []) value) :=
  ofOthers_checkText apart fun _ => forall_mem_nil _

theorem ofOthers_checkChoice {allowed : List String} :
    OfOthers (checkChoice name allowed value) := by
  refine ofOthers_checkText apart fun s => ?_
  split <;> simp [OfOthers, setting, apart]

theorem ofOthers_checkTexts : OfOthers (checkTexts name (fun _ => []) value) := by
  fun_cases checkTexts
  · exact forall_mem_nil _
  · rw [append_nil]
    refine ofOthers_flatMap fun (v, index) => ?_
    cases v <;> simp [OfOthers, setting, apart]
  · simp [OfOthers, setting, apart]

theorem ofOthers_checkSection {check : List (String × Value) → List Violation}
    (inner : ∀ ms, OfOthers (check ms)) :
    OfOthers (checkSection name check value) := by
  fun_cases checkSection
  · exact forall_mem_nil _
  · exact inner _
  · simp [OfOthers, setting, apart]

end Apart

variable (ms : List (String × Value))

theorem ofOthers_checkLoading : OfOthers (checkLoading ms) := by
  simp (disch := decide) only [checkLoading, ofOthers_append, ofOthers_checkSwitch,
    ofOthers_checkChoice, ofOthers_checkInteger, and_true]
  refine ofOthers_checkText (by decide) fun s => ?_
  split
  · exact forall_mem_nil _
  · exact forall_mem_singleton.mpr (show IsApart "loading.encoding" by decide)

theorem ofOthers_checkCompilation : OfOthers (checkCompilation ms) := by
  simp (disch := decide) only [checkCompilation, ofOthers_append, ofOthers_checkChoice,
    ofOthers_checkPlainText, ofOthers_checkInteger, and_true, true_and]
  refine ofOthers_flatMap fun switch => ofOthers_checkSwitch ?_
  exact (show IsApart "compilation." by decide).append switch

theorem ofOthers_checkLimits : OfOthers (checkLimits ms) := by
  simp (disch := decide) only [checkLimits, ofOthers_append, ofOthers_checkInteger, true_and]
  have apart : IsApart "resourceLimits.memoryWarningThresholds" := by decide
  unfold checkThresholds
  split
  · exact forall_mem_nil _
  · refine ofOthers_flatMap fun (v, index) => ?_
    dsimp only
    split
    · exact forall_mem_nil _
    · exact forall_mem_singleton.mpr apart
  · exact forall_mem_singleton.mpr apart

theorem ofOthers_checkBreaker : OfOthers (checkBreaker ms) := by
  simp (disch := decide) only [checkBreaker, ofOthers_append, ofOthers_checkInteger, and_self]

theorem ofOthers_checkServer : OfOthers (checkServer ms) := by
  unfold checkServer
  split
  · refine ofOthers_flatMap fun switch => ?_
    split
    · exact forall_mem_nil _
    · exact forall_mem_singleton.mpr (show IsApart "managementServer" by decide)
  · exact forall_mem_nil _

end Others

/-! ## Names of extensions -/

variable {index : Nat}

/-- No violation of another setting can be taken for one of the extensions. -/
theorem OfOthers.countP_eq_zero {found : List Violation} (others : OfOthers found) :
    found.countP (namesExtension index) = 0 := by
  refine List.countP_eq_zero.mpr fun v member names => ?_
  rw [namesExtension, isPrefixOf_iff_prefix] at names
  have front : Opens "resolution.extensions[" v.message :=
    (((opens_append ..).append _).trans names : _ <+: _)
  rcases prefix_or_prefix_of_prefix (opens_message v) front with shorter | longer
  · exact (others v member).1 shorter
  · exact (others v member).2 longer

/-- Only the section with the extensions can name one of them. -/
theorem countP_checkMembers (root : List (String × Value)) :
    (checkMembers root).countP (namesExtension index) =
      (checkSection "resolution" checkResolution (setting? "resolution" root)).countP
        (namesExtension index) := by
  simp (disch := decide) only [checkMembers, countP_append,
    (ofOthers_checkSwitch _).countP_eq_zero, (ofOthers_checkInteger _).countP_eq_zero,
    (ofOthers_checkServer _).countP_eq_zero,
    (ofOthers_checkSection _ ofOthers_checkLoading).countP_eq_zero,
    (ofOthers_checkSection _ ofOthers_checkCompilation).countP_eq_zero,
    (ofOthers_checkSection _ ofOthers_checkLimits).countP_eq_zero,
    (ofOthers_checkSection _ ofOthers_checkBreaker).countP_eq_zero, Nat.add_zero]

theorem countP_checkResolution (ms : List (String × Value)) :
    (checkResolution ms).countP (namesExtension index) =
      (checkTexts "resolution.extensions" extensionViolations (setting? "extensions" ms)).countP
        (namesExtension index) := by
  simp (disch := decide) only [checkResolution, countP_append,
    (ofOthers_checkPlainText _).countP_eq_zero, (ofOthers_checkSwitch _).countP_eq_zero,
    (ofOthers_checkTexts _).countP_eq_zero, Nat.zero_add, Nat.add_zero]
  rw [OfOthers.countP_eq_zero, Nat.zero_add]
  refine ofOthers_checkSection (by decide) fun paths => ofOthers_flatMap fun entry => ?_
  obtain ⟨pattern, targets⟩ := entry
  refine ofOthers_checkTexts ?_
  exact ((show IsApart "resolution.paths[\"" by decide).append pattern).append _

/-- The name of an item tells its number. -/
theorem name_isPrefixOf (number index : Nat) (rest : String) :
    ("resolution.extensions[" ++ index.repr ++ "] ").toList.isPrefixOf
        ("resolution.extensions[" ++ number.repr ++ "] " ++ rest).toList =
      decide (number = index) := by
  have digits (n : Nat) (rest : List Char) :
      (n.repr.toList ++ ("] ".toList ++ rest)).takeWhile Char.isDigit = n.repr.toList := by
    have all : ∀ c ∈ n.repr.toList, c.isDigit = true := by
      rw [Nat.toList_repr]
      exact fun c member => Nat.isDigit_of_mem_toDigits (by decide) (by decide) member
    rw [takeWhile_append_of_pos all]
    exact append_nil _
  rw [Bool.eq_iff_iff, isPrefixOf_iff_prefix, decide_eq_true_iff]
  simp only [String.toList_append, append_assoc]
  constructor
  · rintro ⟨more, same⟩
    simp only [append_assoc] at same
    have numerals := congrArg (List.takeWhile Char.isDigit) (append_cancel_left same)
    rw [digits, digits, Nat.toList_repr, Nat.toList_repr] at numerals
    rw [← Nat.ofDigitChars_ten_toDigits (n := number), ← numerals, Nat.ofDigitChars_ten_toDigits]
  · rintro rfl
    exact ⟨rest.toList, by simp only [append_assoc]⟩

theorem namesExtension_item (number : Nat) (found : Value) :
    namesExtension index (.item "resolution.extensions" number found) =
      decide (number = index) := by
  rw [← name_isPrefixOf number index ("must be a string (got " ++ kindName found ++ ")")]
  change List.isPrefixOf _ ("resolution.extensions" ++ "[" ++ number.repr ++
    "] must be a string (got " ++ kindName found ++ ")").toList = _
  rw [show "resolution.extensions[" = "resolution.extensions" ++ "[" by decide,
    show "] must be a string (got " = "] " ++ "must be a string (got " by decide]
  simp only [String.append_assoc]

theorem namesExtension_extension (number : Nat) (found : String) :
    namesExtension index (.extension number found) = decide (number = index) := by
  rw [← name_isPrefixOf number index ("must start with \".\" (got \"" ++ found ++ "\")")]
  change List.isPrefixOf _ ("resolution.extensions[" ++ number.repr ++
    "] must start with \".\" (got \"" ++ found ++ "\")").toList = _
  rw [show "] must start with \".\" (got \"" = "] " ++ "must start with \".\" (got \"" by decide]
  simp only [String.append_assoc]

/-! ## How often an extension is named -/

theorem countP_flatMap_zipIdx {α γ : Type} {find : α × Nat → List γ} {p : γ → Bool} {index : Nat}
    (own : ∀ item number, number ≠ index → (find (item, number)).countP p = 0) (items : List α) :
    (items.zipIdx.flatMap find).countP p =
      items[index]?.elim 0 fun item => (find (item, index)).countP p := by
  suffices shifted : ∀ start place, index = start + place →
      ((items.zipIdx start).flatMap find).countP p =
        items[place]?.elim 0 fun item => (find (item, index)).countP p from
    shifted 0 index (Nat.zero_add index).symm
  induction items with
  | nil => intros; rfl
  | cons item items ih =>
    intro start place reached
    rw [zipIdx_cons, flatMap_cons, countP_append]
    cases place with
    | zero =>
      -- the numbers behind the first one are greater
      have later : ((items.zipIdx (start + 1)).flatMap find).countP p = 0 := by
        refine List.countP_eq_zero.mpr fun v member holds => ?_
        obtain ⟨⟨other, number⟩, listed, found⟩ := mem_flatMap.mp member
        have greater := le_snd_of_mem_zipIdx listed
        have none := List.countP_eq_zero.mp (own other number (by simp at greater; omega)) v found
        exact none holds
      rw [later, reached]
      rfl
    | succ place =>
      rw [own item start (by omega), ih (start + 1) place (by omega), Nat.zero_add]
      rfl

/-- Whether an item is a text. -/
def isText : Value → Bool
  | .string _ => true
  | _ => false

/-- Whether an item is a text that is no extension. -/
def isMisspelt : Value → Bool
  | .string s => !isExtension s
  | _ => false

/-- Whether an item is no text, or one that is no extension. -/
def isWrong (v : Value) : Bool :=
  !isText v || isMisspelt v

theorem countP_itemViolations (items : List Value) :
    (itemViolations "resolution.extensions" items).countP (namesExtension index) =
      if items[index]?.any (!isText ·) then 1 else 0 := by
  rw [itemViolations, countP_flatMap_zipIdx]
  · rcases items[index]? with _ | v
    · rfl
    · cases v <;> simp [isText, namesExtension_item]
  · intro v number other
    cases v <;> simp [namesExtension_item, other]

theorem countP_extensionViolations (texts : List String) :
    (extensionViolations texts).countP (namesExtension index) =
      if texts[index]?.any (!isExtension ·) then 1 else 0 := by
  rw [extensionViolations, countP_flatMap_zipIdx]
  · rcases texts[index]? with _ | s
    · rfl
    · by_cases good : isExtension s = true <;> simp [good, namesExtension_extension]
  · intro s number other
    by_cases good : isExtension s = true <;> simp [good, namesExtension_extension, other]

/-- An item is named once for being no text, and once more if the text of its number is no
extension. -/
theorem countP_namesExtension (index : Nat) {root ms : List (String × Value)}
    (resolution : find? "resolution" root = some (.object ms))
    (extensions : find? "extensions" ms = some (.array items)) :
    (violations (.object root)).countP (namesExtension index) =
      (if items[index]?.any (!isText ·) then 1 else 0) +
        if (textItems items)[index]?.any (!isExtension ·) then 1 else 0 := by
  have inside : setting? "resolution" root = some (.object ms) := by
    rw [setting?_eq, resolution]
    rfl
  have listed : setting? "extensions" ms = some (.array items) := by
    rw [setting?_eq, extensions]
    rfl
  change (checkMembers root).countP _ = _
  rw [countP_checkMembers, inside, checkSection, countP_checkResolution, listed, checkTexts,
    countP_append, countP_itemViolations, countP_extensionViolations]

/-! ## When all names are right -/

/-- No misspelt text stands behind an item that is no text. -/
def MisspeltFirst (items : List Value) : Prop :=
  items.Pairwise fun earlier later => isMisspelt later = true → isText earlier = true

def misspeltAt (texts : List String) (index : Nat) : Bool :=
  texts[index]?.any (!isExtension ·)

theorem misspeltAt_zero (s : String) (texts : List String) :
    misspeltAt (s :: texts) 0 = isMisspelt (.string s) := rfl

theorem misspeltAt_succ (s : String) (texts : List String) (index : Nat) :
    misspeltAt (s :: texts) (index + 1) = misspeltAt texts index := rfl

theorem misspeltAt_of_right (right : ∀ v ∈ items, isMisspelt v = false) (index : Nat) :
    misspeltAt (textItems items) index = false := by
  cases found : (textItems items)[index]? with
  | none => simp [misspeltAt, found]
  | some s =>
    obtain ⟨v, member, text⟩ := mem_filterMap.mp (mem_of_getElem? found)
    have spelled := right v member
    cases v with
    | string t =>
      cases text
      simpa [misspeltAt, found, isMisspelt] using spelled
    | _ => cases text

theorem any_isMisspelt_of_right (right : ∀ v ∈ items, isMisspelt v = false) (index : Nat) :
    items[index]?.any isMisspelt = false := by
  rw [← Bool.not_eq_true, Option.any_eq_true]
  rintro ⟨v, found, misspelt⟩
  rw [right v (mem_of_getElem? found)] at misspelt
  cases misspelt

theorem textItems_cons_string (s : String) (items : List Value) :
    textItems (.string s :: items) = s :: textItems items := rfl

theorem textItems_cons_of_noText {v : Value} (other : isText v = false) (items : List Value) :
    textItems (v :: items) = textItems items := by
  cases v with
  | string s => cases other
  | _ => rfl

theorem isMisspelt_of_noText {v : Value} (other : isText v = false) : isMisspelt v = false := by
  cases v with
  | string s => cases other
  | _ => rfl

/-- Texts whose numbers are shifted are all right if none is wrong both at its place and at its
number. -/
theorem right_of_shifted {shift : Nat}
    (front : ∀ index ≤ shift, misspeltAt (textItems items) index = false)
    (later : ∀ index,
      misspeltAt (textItems items) (index + (shift + 1)) = items[index]?.any isMisspelt) :
    ∀ v ∈ items, isMisspelt v = false := by
  induction items generalizing shift with
  | nil => simp
  | cons v items ih =>
    have first : isMisspelt v = misspeltAt (textItems (v :: items)) (shift + 1) := by
      rw [← Nat.zero_add (shift + 1), later]
      rfl
    cases text : isText v with
    | true =>
      obtain ⟨s, rfl⟩ : ∃ s, v = .string s := by
        cases v with
        | string s => exact ⟨s, rfl⟩
        | _ => cases text
      have right : isMisspelt (.string s) = false := front 0 (Nat.zero_le shift)
      refine forall_mem_cons.mpr ⟨right, @ih shift ?_ fun index => ?_⟩
      · intro index near
        rcases Nat.lt_or_eq_of_le near with less | rfl
        · exact front (index + 1) less
        · exact first.symm.trans right
      · have next := later (index + 1)
        rwa [Nat.add_right_comm] at next
    | false =>
      have right := isMisspelt_of_noText text
      rw [textItems_cons_of_noText text] at front later first
      refine forall_mem_cons.mpr ⟨right, @ih (shift + 1) ?_ fun index => ?_⟩
      · intro index near
        rcases Nat.lt_or_eq_of_le near with less | rfl
        · exact front index (Nat.le_of_lt_succ less)
        · exact first.symm.trans right
      · have next := later (index + 1)
        rwa [Nat.add_assoc, Nat.add_comm 1] at next

/-- The two numbers lead to the same exactly if no wrong text stands behind an item that is no text.
-/
theorem misspeltAt_iff (items : List Value) :
    (∀ index, misspeltAt (textItems items) index = items[index]?.any isMisspelt) ↔
      MisspeltFirst items := by
  induction items with
  | nil => simp [MisspeltFirst, misspeltAt, textItems]
  | cons v items ih =>
    rw [MisspeltFirst, pairwise_cons, ← MisspeltFirst, ← ih, ← Nat.and_forall_add_one]
    cases text : isText v with
    | true =>
      cases v with
      | string s => simp [textItems_cons_string, misspeltAt_zero, misspeltAt_succ]
      | _ => cases text
    | false =>
      simp only [textItems_cons_of_noText text, isMisspelt_of_noText text, Option.any_some,
        getElem?_cons_zero, getElem?_cons_succ]
      constructor
      · rintro ⟨first, later⟩
        have right := right_of_shifted (fun index near => Nat.le_zero.mp near ▸ first) later
        refine ⟨fun w member misspelt => ?_, fun index => ?_⟩
        · exact (right w member).symm.trans misspelt
        · rw [misspeltAt_of_right right, any_isMisspelt_of_right right]
      · rintro ⟨none, _⟩
        have right : ∀ w ∈ items, isMisspelt w = false := by
          intro w member
          by_contra misspelt
          cases none w member (by simpa using misspelt)
        refine ⟨misspeltAt_of_right right 0, fun index => ?_⟩
        rw [misspeltAt_of_right right, any_isMisspelt_of_right right]

theorem named_iff (item : Option Value) (misspelt : Bool) :
    ((if item.any (!isText ·) then 1 else 0) + (if misspelt then 1 else 0) =
      if item.any isWrong then 1 else 0) ↔ misspelt = item.any isMisspelt := by
  cases item with
  | none => cases misspelt <;> decide
  | some v =>
    cases text : isText v with
    | false => cases misspelt <;> simp [text, isWrong, isMisspelt_of_noText text]
    | true =>
      cases wrong : isMisspelt v <;> cases misspelt <;> simp [text, wrong, isWrong]

/-- **Which extensions are named.** In a document whose extensions are a list, a number is named
once if the item with this number is no text, and once if the text with this number among the texts
is no extension. So every wrong item is named exactly once, and no other number is named, if and
only if there is no text that is no extension behind an item that is no text. -/
theorem extensions_named_iff {root ms : List (String × Value)} {items : List Value}
    (resolution : find? "resolution" root = some (.object ms))
    (extensions : find? "extensions" ms = some (.array items)) :
    let found := violations (.object root)
    (∀ index, found.countP (namesExtension index) =
      (if items[index]?.any (!isText ·) then 1 else 0) +
        if (textItems items)[index]?.any (!isExtension ·) then 1 else 0) ∧
    ((∀ index, found.countP (namesExtension index) =
        if items[index]?.any isWrong then 1 else 0) ↔
      MisspeltFirst items) := by
  intro found
  have times (index : Nat) := countP_namesExtension index resolution extensions
  refine ⟨times, ?_⟩
  rw [← misspeltAt_iff]
  refine forall_congr' fun index => ?_
  rw [times]
  exact named_iff ..

/-- Behind a number the text `x` is wrong, but the number is named twice and the text is not. -/
theorem extensions_named_iff_shifted :
    let items : List Value := [.nat 1, .string "x"]
    let found := violations (.object [("resolution", .object [("extensions", .array items)])])
    isWrong (.string "x") = true ∧ ¬ MisspeltFirst items ∧
      found.countP (namesExtension 0) = 2 ∧ found.countP (namesExtension 1) = 0 := by
  intro items found
  have wrong : isExtension "x" = false := by decide +kernel
  have times :=
    (@extensions_named_iff [("resolution", .object [("extensions", .array items)])] _ _ rfl rfl).1
  refine ⟨by simp [isWrong, isMisspelt, wrong], ?_, ?_, ?_⟩
  · simp [MisspeltFirst, items, isMisspelt, isText, wrong, Value.nat]
  · rw [times 0]
    simp [items, textItems, isText, wrong, Value.nat]
  · rw [times 1]
    simp [items, textItems, isText, Value.nat]

end Tarkib.Config
