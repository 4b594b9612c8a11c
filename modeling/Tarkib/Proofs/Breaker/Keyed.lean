import Mathlib.Data.List.Pairwise
import Tarkib.Proofs.Breaker.Call

/-!
# Breakers by key

The breakers of a loader are a table from keys to breakers in which a key that was never used has a
new breaker (`breakerAt`). A step changes the breaker with the key that was asked, as the breaker
itself says, and no other one (`Stepped`). This holds as long as keys and serial numbers tell
breakers apart (`Sound`), which every step preserves.
-/

namespace Tarkib

open List

variable {bs : Breakers} {key : String} {serial : Nat}

namespace Breakers

/-- Keys and serial numbers tell breakers apart, and the next serial number is new. -/
structure Sound (bs : Breakers) : Prop where
  keys : bs.entries.Pairwise fun e f => e.key ≠ f.key
  serials : bs.entries.Pairwise fun e f => e.serial ≠ f.serial
  issued : ∀ e ∈ bs.entries, e.serial < bs.nextSerial

/-- The breaker with a key. A key that was never used has a new breaker. -/
def breakerAt (bs : Breakers) (key : String) : Breaker :=
  ((bs.find? key).map Entry.breaker).getD {}

/-- The breaker that the key has now is the one with this serial number. -/
def Current (bs : Breakers) (key : String) (serial : Nat) : Prop :=
  ∃ e, bs.find? key = some e ∧ e.serial = serial

theorem sound_of_no_entries (none : bs.entries = []) : bs.Sound := by
  refine ⟨?_, ?_, ?_⟩ <;> simp [none]

/-! ## Making sure that there is a breaker -/

theorem insertEntry_perm (e : Entry) (entries : List Entry) :
    (insertEntry e entries).Perm (e :: entries) := by
  induction entries with
  | nil => exact List.Perm.refl _
  | cons f rest ih =>
    rw [insertEntry]
    split
    · exact List.Perm.refl _
    · exact (ih.cons f).trans (List.Perm.swap e f rest)

theorem find?_insertEntry_other (e : Entry) (entries : List Entry) (other : e.key ≠ key) :
    (insertEntry e entries).find? (·.key == key) = entries.find? (·.key == key) := by
  induction entries with
  | nil => simp [insertEntry, other]
  | cons f rest ih =>
    rw [insertEntry]
    split
    · simp [other]
    · simp only [List.find?_cons, ih]

theorem find?_insertEntry_self (e : Entry) (entries : List Entry)
    (absent : entries.find? (·.key == e.key) = none) :
    (insertEntry e entries).find? (·.key == e.key) = some e := by
  induction entries with
  | nil => simp [insertEntry]
  | cons f rest ih =>
    rw [find?_eq_none] at absent
    have later : rest.find? (·.key == e.key) = none :=
      find?_eq_none.mpr fun g hg => absent g (mem_cons_of_mem _ hg)
    rw [insertEntry]
    split
    · simp
    · have passed : (f.key == e.key) = false := by simpa using absent f mem_cons_self
      rw [List.find?_cons, passed]
      exact ih later

@[simp]
theorem settings_ensure (bs : Breakers) (key : String) :
    (bs.ensure key).settings = bs.settings := by
  unfold ensure
  split <;> rfl

theorem Sound.ensure (sound : bs.Sound) (key : String) : (bs.ensure key).Sound := by
  unfold Breakers.ensure
  split
  · exact sound
  · next absent =>
      have new := insertEntry_perm ⟨key, bs.nextSerial, {}⟩ bs.entries
      refine ⟨?_, ?_, ?_⟩
      · refine (new.pairwise_iff fun h => h.symm).mpr (pairwise_cons.mpr ⟨?_, sound.keys⟩)
        intro e he same
        have := find?_eq_none.mp absent e he
        exact this (by simpa using same.symm)
      · refine (new.pairwise_iff fun h => h.symm).mpr (pairwise_cons.mpr ⟨?_, sound.serials⟩)
        intro e he
        exact Nat.ne_of_gt (sound.issued e he)
      · intro e he
        rcases mem_cons.mp (new.mem_iff.mp he) with rfl | he
        · exact Nat.lt_succ_self _
        · exact Nat.lt_succ_of_lt (sound.issued e he)

/-- A new entry changes no breaker: an unused key had a new one before. -/
@[simp]
theorem breakerAt_ensure (bs : Breakers) (key other : String) :
    (bs.ensure key).breakerAt other = bs.breakerAt other := by
  unfold ensure
  split
  · rfl
  · next absent =>
      by_cases same : key = other
      · subst same
        have found := find?_insertEntry_self ⟨key, bs.nextSerial, {}⟩ bs.entries absent
        have none : bs.find? key = none := absent
        simp only [breakerAt, none]
        simp only [find?]
        rw [found]
        rfl
      · have kept := find?_insertEntry_other ⟨key, bs.nextSerial, {}⟩ bs.entries same
        simp only [breakerAt, find?]
        rw [kept]

theorem exists_find?_ensure (bs : Breakers) (key : String) :
    ∃ e, (bs.ensure key).find? key = some e := by
  unfold ensure
  split
  · next e found => exact ⟨e, found⟩
  · next absent =>
      exact ⟨_, find?_insertEntry_self ⟨key, bs.nextSerial, {}⟩ bs.entries absent⟩

/-! ## Changing the breaker with a serial number -/

theorem find?_modify (bs : Breakers) (serial : Nat) (f : Breaker → Breaker) (key : String) :
    (bs.modify serial f).find? key =
      (bs.find? key).map fun e =>
        if e.serial = serial then { e with breaker := f e.breaker } else e := by
  have keys : ((fun e : Entry => e.key == key) ∘ fun e =>
      if e.serial = serial then { e with breaker := f e.breaker } else e) = (·.key == key) := by
    funext e
    by_cases here : e.serial = serial <;> simp [here]
  simp only [find?, modify, find?_map, keys]

theorem Sound.modify (sound : bs.Sound) (serial : Nat) (f : Breaker → Breaker) :
    (bs.modify serial f).Sound := by
  have key (e : Entry) :
      (if e.serial = serial then { e with breaker := f e.breaker } else e).key = e.key := by
    split <;> rfl
  have number (e : Entry) :
      (if e.serial = serial then { e with breaker := f e.breaker } else e).serial = e.serial := by
    split <;> rfl
  refine ⟨?_, ?_, ?_⟩
  · exact pairwise_map.mpr (sound.keys.imp fun h => by rwa [key, key])
  · exact pairwise_map.mpr (sound.serials.imp fun h => by rwa [number, number])
  · intro e he
    obtain ⟨old, ho, rfl⟩ := mem_map.mp he
    rw [number]
    exact sound.issued old ho

theorem Current.modify (current : bs.Current key serial) (number : Nat) (f : Breaker → Breaker) :
    (bs.modify number f).Current key serial := by
  obtain ⟨e, found, rfl⟩ := current
  refine ⟨_, by rw [find?_modify, found]; rfl, ?_⟩
  dsimp only
  split <;> rfl

theorem breakerAt_modify_self (current : bs.Current key serial) (f : Breaker → Breaker) :
    (bs.modify serial f).breakerAt key = f (bs.breakerAt key) := by
  obtain ⟨e, found, rfl⟩ := current
  simp [breakerAt, find?_modify, found]

/-- Serial numbers tell breakers apart, so no other key is touched. -/
theorem breakerAt_modify_other (sound : bs.Sound) {key other : String}
    (current : bs.Current key serial) (different : other ≠ key) (f : Breaker → Breaker) :
    (bs.modify serial f).breakerAt other = bs.breakerAt other := by
  obtain ⟨e, found, rfl⟩ := current
  simp only [breakerAt, find?_modify]
  cases theirs : bs.find? other with
  | none => rfl
  | some g =>
    have keyE : e.key = key := by simpa using find?_some found
    have keyG : g.key = other := by simpa using find?_some theirs
    have apart : g ≠ e := by
      intro equal
      exact different (by rw [← keyG, equal, keyE])
    have symmetric : Std.Symm fun e f : Entry => e.serial ≠ f.serial := ⟨fun _ _ h => h.symm⟩
    have numbers : g.serial ≠ e.serial :=
      sound.serials.forall (mem_of_find?_eq_some theirs) (mem_of_find?_eq_some found)
        apart
    simp [numbers]

/-! ## Calls -/

/-- `bs'` is `bs` with the breaker `b` at the key, and is sound. -/
structure Stepped (bs : Breakers) (key : String) (b : Breaker) (bs' : Breakers) : Prop where
  sound : bs'.Sound
  settings : bs'.settings = bs.settings
  here : bs'.breakerAt key = b
  others : ∀ other, other ≠ key → bs'.breakerAt other = bs.breakerAt other

theorem Stepped.trans {bs bs' bs'' : Breakers} {b b' : Breaker} (first : Stepped bs key b bs')
    (second : Stepped bs' key b' bs'') : Stepped bs key b' bs'' where
  sound := second.sound
  settings := second.settings.trans first.settings
  here := second.here
  others other different := (second.others other different).trans (first.others other different)

def answer (key : String) (serial : Nat) : Breaker.Admission → Except Refusal Ticket
  | .normal => .ok ⟨key, serial, false⟩
  | .trial => .ok ⟨key, serial, true⟩
  | .refused retryInMs => .error ⟨key, retryInMs⟩

/-- Asking changes the breaker with the key, as the breaker itself says. -/
theorem request_spec (sound : bs.Sound) (key : String) (now : Nat) :
    ∃ serial,
      (bs.request key now).2 =
        answer key serial ((bs.breakerAt key).request bs.settings now).2 ∧
      Stepped bs key ((bs.breakerAt key).request bs.settings now).1 (bs.request key now).1 ∧
      (bs.request key now).1.Current key serial := by
  obtain ⟨e, found⟩ := exists_find?_ensure bs key
  have here : e.breaker = bs.breakerAt key := by
    rw [← breakerAt_ensure bs key key, breakerAt, found]
    rfl
  have current : (bs.ensure key).Current key e.serial := ⟨e, found, rfl⟩
  have state : (bs.request key now).1 = (bs.ensure key).modify e.serial
      fun _ => ((bs.breakerAt key).request bs.settings now).1 := by
    simp only [request, found, here, settings_ensure]
    split <;> rfl
  refine ⟨e.serial, ?_, ?_, ?_⟩
  · simp only [request, found, here, settings_ensure]
    cases ((bs.breakerAt key).request bs.settings now).2 <;> rfl
  · rw [state]
    refine ⟨(sound.ensure key).modify _ _, settings_ensure bs key, ?_, ?_⟩
    · rw [breakerAt_modify_self current]
    · intro other different
      rw [breakerAt_modify_other (sound.ensure key) current different, breakerAt_ensure]
  · rw [state]
    exact current.modify _ _

/-- Telling an outcome changes the breaker that let the call through. -/
theorem complete_spec (sound : bs.Sound) (ticket : Ticket)
    (current : bs.Current ticket.key ticket.serial) (success : Bool) (now : Nat) :
    Stepped bs ticket.key
      (if success then (bs.breakerAt ticket.key).succeed
        else (bs.breakerAt ticket.key).fail bs.settings ticket.trial now)
      (bs.complete ticket success now) := by
  refine ⟨sound.modify _ _, rfl, ?_, ?_⟩
  · exact breakerAt_modify_self current _
  · intro other different
    exact breakerAt_modify_other sound current different _

/-- A call that is over before the next one begins. The refusal is there if the call did not go
through. -/
def call (bs : Breakers) (key : String) (success : Bool) (now : Nat) :
    Breakers × Option Refusal :=
  match bs.request key now with
  | (bs, .ok ticket) => (bs.complete ticket success now, none)
  | (bs, .error refusal) => (bs, some refusal)

/-- A call that is over before the next one begins asks and tells in one step. -/
theorem call_spec (sound : bs.Sound) (key : String) (success : Bool) (now : Nat) :
    Stepped bs key ((bs.breakerAt key).call bs.settings success now).1
      (bs.call key success now).1 ∧
    (bs.call key success now).2 =
      match ((bs.breakerAt key).call bs.settings success now).2 with
      | .refused retryInMs => some ⟨key, retryInMs⟩
      | _ => none := by
  obtain ⟨serial, answered, stepped, current⟩ := request_spec sound key now
  unfold call Breaker.call
  rcases asked : bs.request key now with ⟨bs', outcome⟩
  rcases response : (bs.breakerAt key).request bs.settings now with ⟨b, admission⟩
  rw [asked, response] at answered stepped
  rw [asked] at current
  have here : bs'.breakerAt key = b := stepped.here
  have settings : bs'.settings = bs.settings := stepped.settings
  have told (trial : Bool) := complete_spec stepped.sound ⟨key, serial, trial⟩ current success now
  simp only [here, settings] at told
  cases admission with
  | normal =>
    cases answered
    exact ⟨stepped.trans (told false), rfl⟩
  | trial =>
    cases answered
    exact ⟨stepped.trans (told true), rfl⟩
  | refused retryInMs =>
    cases answered
    exact ⟨stepped, rfl⟩

/-- The breaker with the key lets no call through at this time. -/
def RefusesAt (bs : Breakers) (key : String) (now : Nat) : Prop :=
  (bs.breakerAt key).Refuses bs.settings now

section Refusal

variable (sound : bs.Sound) {now : Nat}
include sound

theorem call_of_refuses (refuses : bs.RefusesAt key now) (success : Bool) :
    ∃ bs' refusal, bs.call key success now = (bs', some refusal) ∧
      Stepped bs key (bs.breakerAt key) bs' := by
  obtain ⟨stepped, answered⟩ := call_spec sound key success now
  rw [Breaker.call_of_refuses refuses success] at stepped answered
  rcases made : bs.call key success now with ⟨bs', refusal⟩
  rw [made] at stepped answered
  cases answered
  exact ⟨bs', _, rfl, stepped⟩

theorem call_of_admits (admits : ¬ bs.RefusesAt key now) (success : Bool) :
    ∃ bs', bs.call key success now = (bs', none) ∧
      Stepped bs key ((bs.breakerAt key).call bs.settings success now).1 bs' := by
  have through := Breaker.call_of_admits admits success
  obtain ⟨stepped, answered⟩ := call_spec sound key success now
  rcases made : bs.call key success now with ⟨bs', refusal⟩
  rw [made] at stepped answered
  refine ⟨bs', ?_, stepped⟩
  cases admission : ((bs.breakerAt key).call bs.settings success now).2 with
  | refused retryInMs => exact absurd admission (through retryInMs)
  | normal | trial => rw [admission] at answered; cases answered; rfl

end Refusal

end Breakers

end Tarkib
