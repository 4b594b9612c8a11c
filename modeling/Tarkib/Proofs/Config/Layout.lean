import Mathlib.Data.List.Nodup
import Tarkib.Proofs.Config.Form

/-!
# Records of settings

A record is laid out by its settings, each with a key, a form and a place in the record (`Setting`,
`Layout`). Settings do not touch each other's places, and together they make up the whole record.
The check of a section may ask for more than the checks of its settings, as long as that depends on
the decoded record only.
-/

namespace Tarkib.Config

open Json

variable {members ms : List (String × Value)} {v : Value} {e : Mismatch}

/-- A setting of a record: its key, its form, and its place in the record. -/
structure Setting (α : Type) where
  key : String
  {Kind : Type}
  form : Form Kind
  get : α → Kind
  put : Kind → α → α
  sound : form.Sound
  get_put : ∀ x a, get (put x a) = x

namespace Setting

variable {α : Type} (s : Setting α)

def field : Decoder.Field α :=
  .of s.key s.form.decode s.put

def Reads (members : List (String × Value)) (first last : α) : Prop :=
  match find? s.key members with
  | some v => s.form.decode v = .ok (s.get last)
  | none => s.get last = s.get first

theorem reads_iff_of_some {first last : α} (found : find? s.key members = some v) :
    s.Reads members first last ↔ s.form.decode v = .ok (s.get last) := by
  unfold Reads
  rw [found]

theorem reads_iff_of_none {first last : α} (absent : find? s.key members = none) :
    s.Reads members first last ↔ s.get last = s.get first := by
  unfold Reads
  rw [absent]

theorem set_field_eq_ok {a b : α} (done : s.field.set v a = .ok b) :
    ∃ x, s.form.decode v = .ok x ∧ b = s.put x a := by
  change (s.form.decode v).map _ = _ at done
  cases decoded : s.form.decode v with
  | error e =>
    rw [decoded] at done
    cases done
  | ok x =>
    rw [decoded] at done
    cases done
    exact ⟨x, rfl, rfl⟩

theorem set_field_eq_error {a : α} (failed : s.field.set v a = .error e) :
    s.form.decode v = .error e := by
  change (s.form.decode v).map _ = _ at failed
  cases decoded : s.form.decode v with
  | error e' =>
    rw [decoded] at failed
    cases failed
    rfl
  | ok x =>
    rw [decoded] at failed
    cases failed

end Setting

/-- The layout of a record, with its defaults. -/
structure Layout (α : Type) where
  settings : List (Setting α)
  start : α
  keys : (settings.map Setting.key).Nodup
  independent : ∀ s ∈ settings, ∀ t ∈ settings, s.key ≠ t.key →
    ∀ x a, s.get (t.put x a) = s.get a
  determined : ∀ a b, (∀ s ∈ settings, s.get a = s.get b) → a = b
  defaults : ∀ s ∈ settings, s.form.Returns (s.get start)
  leftOut : ∀ s ∈ settings, ∀ x, s.form.encode x = none → x = s.get start

namespace Layout

variable {α : Type} (L : Layout α)

def fields : List (Decoder.Field α) :=
  L.settings.map Setting.field

theorem find?_fields (key : String) :
    L.fields.find? (·.key == key) = (L.settings.find? (·.key == key)).map Setting.field := by
  unfold fields
  rw [List.find?_map]
  rfl

theorem fromMembers_cons (key : String) (v : Value) (members : List (String × Value)) (a : α) :
    Decoder.fromMembers L.fields ((key, v) :: members) a =
      match L.settings.find? (·.key == key) with
      | some s => (s.field.set v a).bind (Decoder.fromMembers L.fields members)
      | none => Decoder.fromMembers L.fields members a := by
  rw [Decoder.fromMembers, find?_fields]
  cases L.settings.find? (·.key == key) <;> rfl

/-- A record is refused for a value that one of its settings refuses. -/
theorem exists_of_fromMembers {a : α} (failed : Decoder.fromMembers L.fields members a = .error e) :
    ∃ s ∈ L.settings, ∃ v, (s.key, v) ∈ members ∧ s.form.decode v = .error e := by
  induction members generalizing a with
  | nil => cases failed
  | cons m members ih =>
    obtain ⟨key, v⟩ := m
    have later (a : α) (failed : Decoder.fromMembers L.fields members a = .error e) :
        ∃ s ∈ L.settings, ∃ w, (s.key, w) ∈ (key, v) :: members ∧
          s.form.decode w = .error e := by
      obtain ⟨s, listed, w, member, reason⟩ := ih failed
      exact ⟨s, listed, w, List.mem_cons_of_mem _ member, reason⟩
    rw [fromMembers_cons] at failed
    cases found : L.settings.find? (·.key == key) with
    | none =>
      rw [found] at failed
      exact later a failed
    | some s =>
      rw [found] at failed
      rcases bind_eq_error failed with first | ⟨b, _, failed⟩
      · have own : s.key = key := by simpa using List.find?_some found
        refine ⟨s, List.mem_of_find?_eq_some found, v, ?_, s.set_field_eq_error first⟩
        rw [own]
        exact List.mem_cons_self
      · exact later b failed

/-- Decoding puts into each place what is decoded for its key, or leaves the default there. -/
theorem reads_of_fromMembers (keys : Ascending members) {a c : α}
    (done : Decoder.fromMembers L.fields members a = .ok c) :
    ∀ s ∈ L.settings, s.Reads members a c := by
  induction members generalizing a with
  | nil =>
    cases done
    intro s _
    rfl
  | cons m members ih =>
    obtain ⟨key, v⟩ := m
    obtain ⟨least, rest⟩ := List.pairwise_cons.mp keys
    intro s listed
    have lookup := find?_cons s.key key v members
    rw [fromMembers_cons] at done
    cases found : L.settings.find? (·.key == key) with
    | none =>
      have other : s.key ≠ key := by
        simpa using List.find?_eq_none.mp found s listed
      rw [found] at done
      rw [if_neg other] at lookup
      have reads := ih rest done s listed
      unfold Setting.Reads at reads ⊢
      rwa [lookup]
    | some t =>
      have own : t.key = key := by simpa using List.find?_some found
      have member := List.mem_of_find?_eq_some found
      rw [found] at done
      obtain ⟨b, first, done⟩ := bind_eq_ok done
      obtain ⟨x, decoded, rfl⟩ := t.set_field_eq_ok first
      have reads := ih rest done s listed
      by_cases same : s.key = key
      · -- No later member has this key, so the place keeps what was put there.
        obtain rfl : s = t :=
          List.inj_on_of_nodup_map L.keys listed member (same.trans own.symm)
        have absent : find? s.key members = none := by
          rw [Option.eq_none_iff_forall_ne_some]
          intro w later
          have before := least _ (mem_of_find? later)
          rw [same] at before
          exact String.lt_irrefl key before
        rw [if_pos same] at lookup
        rw [s.reads_iff_of_none absent] at reads
        rw [s.reads_iff_of_some lookup, reads, s.get_put]
        exact decoded
      · have kept : s.get (t.put x a) = s.get a :=
          L.independent s listed t member (fun h => same (h.trans own)) x a
        rw [if_neg same] at lookup
        unfold Setting.Reads at reads ⊢
        rw [lookup, ← kept]
        exact reads

/-! ## Sections -/

/-- The values of all settings pass their checks. -/
def Passes (members : List (String × Value)) : Prop :=
  ∀ s ∈ L.settings, s.form.check (setting? s.key members) = []

def Reads (members : List (String × Value)) (c : α) : Prop :=
  ∀ s ∈ L.settings, s.Reads members L.start c

/-- A section of this layout. Its value may not be null, nor what its settings need. -/
def form (title label : String) (check : List (String × Value) → List Violation)
    (encode : α → Value) : Form α where
  check := checkSection title check
  decode := .record label L.fields L.start
  encode c := some (encode c)
  needs place := place = [] ∨ ∃ s ∈ L.settings, ∃ rest, place = s.key :: rest ∧ s.form.needs rest

variable {L} {title label : String} {check : List (String × Value) → List Violation}
  {encode : α → Value}

@[simp]
theorem encode_form : (L.form title label check encode).encode = fun c => some (encode c) := rfl

@[simp]
theorem needs_form_nil : (L.form title label check encode).needs [] :=
  .inl rfl

@[simp]
theorem needs_form_cons {key : String} {rest : List String} :
    (L.form title label check encode).needs (key :: rest) ↔
      ∃ s ∈ L.settings, key = s.key ∧ s.form.needs rest := by
  simp [form, and_assoc]

/-- What a section lacks is lacking in one of its settings. -/
theorem lacks_form_iff :
    (L.form title label check encode).Lacks (.object ms) ↔
      ∃ s ∈ L.settings, ∃ v, find? s.key ms = some v ∧ s.form.Lacks v := by
  constructor
  · rintro ⟨place, rfl | ⟨s, listed, rest, rfl, needed⟩, null⟩
    · cases null
    · rw [Value.at?_object, Option.bind_eq_some_iff] at null
      obtain ⟨v, found, null⟩ := null
      exact ⟨s, listed, v, found, rest, needed, null⟩
  · rintro ⟨s, listed, v, found, rest, needed, null⟩
    refine ⟨s.key :: rest, .inr ⟨s, listed, rest, rfl, needed⟩, ?_⟩
    rw [Value.at?_object, found]
    exact null

theorem Passes.fits (passes : L.Passes ms) (each : ∀ m ∈ ms, m.2.Ordered) {s : Setting α}
    (listed : s ∈ L.settings) (found : find? s.key ms = some v) :
    s.form.Fits v (s.form.decode v) := by
  have checked := passes s listed
  rw [setting?_eq, found] at checked
  exact s.sound.fits v (each _ (mem_of_find? found)) checked

theorem Reads.returns (passes : L.Passes ms) (each : ∀ m ∈ ms, m.2.Ordered) {c : α}
    (reads : L.Reads ms c) : ∀ s ∈ L.settings, s.form.Returns (s.get c) := by
  intro s listed
  cases found : find? s.key ms with
  | none =>
    rw [(s.reads_iff_of_none found).mp (reads s listed)]
    exact L.defaults s listed
  | some v =>
    have fits := passes.fits each listed found
    rw [(s.reads_iff_of_some found).mp (reads s listed)] at fits
    exact fits.2

/-- The members are those that are written for the record. -/
def Writes (L : Layout α) (ms : List (String × Value)) (c : α) : Prop :=
  ∀ s ∈ L.settings, find? s.key ms = s.form.encode (s.get c)

theorem Passes.check_eq_nil {c : α} (passes : L.Passes ms) (written : L.Writes ms c) {s : Setting α}
    (listed : s ∈ L.settings) {w : Value} (encoded : s.form.encode (s.get c) = some w) :
    s.form.check (given w) = [] := by
  have checked := passes s listed
  rw [setting?_eq, written s listed, encoded] at checked
  exact checked

section Written

variable {c : α} (written : L.Writes ms c) (returns : ∀ s ∈ L.settings, s.form.Returns (s.get c))
include written returns

theorem passes_of_written : L.Passes ms := by
  intro s listed
  rw [setting?_eq, written s listed]
  cases encoded : s.form.encode (s.get c) with
  | none => exact s.sound.absent
  | some w => exact (returns s listed w encoded).1

/-- What is written for a record is read as the record. -/
theorem reads_of_written : L.Reads ms c := by
  intro s listed
  unfold Setting.Reads
  rw [written s listed]
  cases encoded : s.form.encode (s.get c) with
  | none => exact L.leftOut s listed _ encoded
  | some w => exact (returns s listed w encoded).2

/-- So it is decoded to the record. -/
theorem fromMembers_of_written (keys : Ascending ms) :
    Decoder.fromMembers L.fields ms L.start = .ok c := by
  have reads := reads_of_written written returns
  cases decoded : Decoder.fromMembers L.fields ms L.start with
  | error e =>
    obtain ⟨s, listed, v, member, failed⟩ := L.exists_of_fromMembers decoded
    have found := (find?_eq_some_iff keys).mpr member
    have here := (s.reads_iff_of_some found).mp (reads s listed)
    rw [failed] at here
    cases here
  | ok c' =>
    have again := L.reads_of_fromMembers keys decoded
    congr 1
    apply L.determined
    intro s listed
    cases found : find? s.key ms with
    | none =>
      have one := (s.reads_iff_of_none found).mp (again s listed)
      have two := (s.reads_iff_of_none found).mp (reads s listed)
      exact one.trans two.symm
    | some v =>
      have one := (s.reads_iff_of_some found).mp (again s listed)
      have two := (s.reads_iff_of_some found).mp (reads s listed)
      exact Except.ok.inj (one.symm.trans two)

end Written

/-- If all settings are sound, the section is. -/
theorem sound (passes : ∀ ms, check ms = [] → L.Passes ms)
    (again : ∀ ms ms' c, check ms = [] → L.Reads ms c → L.Reads ms' c → L.Passes ms' →
      check ms' = [])
    (written : ∀ c, ∃ ms, encode c = .ofMembers ms ∧ L.Writes (gathered ms) c) :
    (L.form title label check encode).Sound := by
  refine ⟨rfl, ?_⟩
  intro v ordered checked
  cases ordered with
  | null => exact ⟨⟨[], .inl rfl, rfl⟩, _, rfl⟩
  | @object ms keys each =>
    have pass := passes ms checked
    change Form.Fits _ _ (Decoder.fromMembers L.fields ms L.start)
    cases decoded : Decoder.fromMembers L.fields ms L.start with
    | error e =>
      obtain ⟨s, listed, w, member, failed⟩ := L.exists_of_fromMembers decoded
      have found := (find?_eq_some_iff keys).mpr member
      have fits := pass.fits each listed found
      rw [failed] at fits
      exact ⟨lacks_form_iff.mpr ⟨s, listed, w, found, fits.1⟩, fits.2⟩
    | ok c =>
      have reads : L.Reads ms c := L.reads_of_fromMembers keys decoded
      have returns := reads.returns pass each
      refine ⟨?_, ?_⟩
      · intro lacks
        obtain ⟨s, listed, w, found, lacks⟩ := lacks_form_iff.mp lacks
        have fits := pass.fits each listed found
        rw [(s.reads_iff_of_some found).mp (reads s listed)] at fits
        exact fits.1 lacks
      · obtain ⟨list, encoded, writes⟩ := written c
        intro w here
        cases here
        rw [encoded]
        constructor
        · refine again ms _ c checked reads ?_ ?_
          · exact reads_of_written writes returns
          · exact passes_of_written writes returns
        · exact fromMembers_of_written writes returns (ascending_gathered list)
  | _ => cases checked

theorem sound_of_iff (checks : ∀ ms, check ms = [] ↔ L.Passes ms)
    (written : ∀ c, ∃ ms, encode c = .ofMembers ms ∧ L.Writes (gathered ms) c) :
    (L.form title label check encode).Sound :=
  sound (fun ms => (checks ms).mp) (fun _ ms' _ _ _ _ => (checks ms').mpr) written

end Layout

end Tarkib.Config
