import Tarkib.Json.Parser
import Tarkib.Proofs.Fallible
import Tarkib.Proofs.Json.Members

/-!
# Documents that are read

A document that is read has its members in ascending order of the keys at every depth. The functions
that read values, items and members call each other with less and less fuel, and the proof follows
them.
-/

namespace Tarkib.Json

theorem mem_gathered {m : String × Value} {members : List (String × Value)}
    (member : m ∈ gathered members) : m ∈ members := by
  have kept : ∀ m ∈ gathered members, m ∈ members := by
    refine List.foldlRecOn (motive := fun sorted => ∀ m ∈ sorted, m ∈ members) members _
      (List.forall_mem_nil _) fun sorted kept first listed m member => ?_
    rcases mem_insertMember member with rfl | old
    · exact listed
    · exact kept m old
  exact kept m member

/-- An object of ordered values is ordered. -/
theorem ordered_ofMembers {members : List (String × Value)} (each : ∀ m ∈ members, m.2.Ordered) :
    (Value.ofMembers members).Ordered :=
  .object (ascending_gathered members) fun m member => each m (mem_gathered member)

/-- Whatever is read with this fuel has its members in ascending order. -/
structure ReadsOrdered (fuel : Nat) : Prop where
  value : ∀ {depth here v after}, readValue fuel depth here = .ok (v, after) → v.Ordered
  items : ∀ {depth first here items after}, readItems fuel depth first here = .ok (items, after) →
    ∀ v ∈ items, v.Ordered
  members : ∀ {depth first here members after},
    readMembers fuel depth first here = .ok (members, after) → ∀ m ∈ members, m.2.Ordered
  member : ∀ {depth here members after},
    readMember fuel depth here = .ok (members, after) → ∀ m ∈ members, m.2.Ordered

namespace ReadsOrdered

variable {fuel : Nat} (less : ReadsOrdered fuel)
include less

variable {depth : Nat} {here after : Cursor} {first : Bool} {members : List (String × Value)}

theorem value_succ {v : Value} (h : readValue (fuel + 1) depth here = .ok (v, after)) :
    v.Ordered := by
  unfold readValue at h
  dsimp only at h
  split at h
  · cases h
  split at h
  · obtain ⟨_, _, result⟩ := bind_eq_ok h
    cases result
    exact .null
  split at h
  · obtain ⟨_, _, result⟩ := bind_eq_ok h
    cases result
    exact .bool true
  split at h
  · obtain ⟨_, _, result⟩ := bind_eq_ok h
    cases result
    exact .bool false
  split at h
  · obtain ⟨_, _, result⟩ := bind_eq_ok h
    cases result
    exact .number _
  split at h
  · obtain ⟨_, _, result⟩ := bind_eq_ok h
    cases result
    exact .number _
  split at h
  · obtain ⟨_, _, result⟩ := bind_eq_ok h
    cases result
    exact .string _
  split at h
  · split at h
    · cases h
    · obtain ⟨_, read, result⟩ := bind_eq_ok h
      cases result
      exact .array (less.items read)
  split at h
  · split at h
    · cases h
    · obtain ⟨_, read, result⟩ := bind_eq_ok h
      cases result
      exact ordered_ofMembers (less.members read)
  · cases h

theorem items_succ {items : List Value}
    (h : readItems (fuel + 1) depth first here = .ok (items, after)) : ∀ v ∈ items, v.Ordered := by
  unfold readItems at h
  dsimp only at h
  split at h
  · cases h
  split at h
  · cases h
    simp
  split at h
  · obtain ⟨_, read, h⟩ := bind_eq_ok h
    obtain ⟨_, rest, result⟩ := bind_eq_ok h
    cases result
    exact List.forall_mem_cons.mpr ⟨less.value read, less.items rest⟩
  split at h
  · split at h
    · cases h
    · cases h
    · obtain ⟨_, read, h⟩ := bind_eq_ok h
      obtain ⟨_, rest, result⟩ := bind_eq_ok h
      cases result
      exact List.forall_mem_cons.mpr ⟨less.value read, less.items rest⟩
  · cases h

theorem members_succ (h : readMembers (fuel + 1) depth first here = .ok (members, after)) :
    ∀ m ∈ members, m.2.Ordered := by
  unfold readMembers at h
  dsimp only at h
  split at h
  · cases h
  split at h
  · cases h
    simp
  split at h
  · split at h
    · exact less.member h
    · cases h
  split at h
  · split at h
    · cases h
    · exact less.member h
    · cases h
    · cases h
  · cases h

theorem member_succ (h : readMember (fuel + 1) depth here = .ok (members, after)) :
    ∀ m ∈ members, m.2.Ordered := by
  unfold readMember at h
  obtain ⟨_, _, h⟩ := bind_eq_ok h
  obtain ⟨_, _, h⟩ := bind_eq_ok h
  obtain ⟨_, read, h⟩ := bind_eq_ok h
  obtain ⟨_, rest, result⟩ := bind_eq_ok h
  cases result
  exact List.forall_mem_cons.mpr ⟨less.value read, less.members rest⟩

end ReadsOrdered

/-- Whatever is read with some fuel is ordered. -/
theorem ordered_read (fuel : Nat) : ReadsOrdered fuel := by
  induction fuel with
  | zero => exact ⟨by simp [readValue], by simp [readItems], by simp [readMembers],
      by simp [readMember]⟩
  | succ fuel less => exact ⟨less.value_succ, less.items_succ, less.members_succ, less.member_succ⟩

/-- Every document that is read from a text is ordered. -/
theorem ordered_parse {source : String} {v : Value} (parsed : parse source = .ok v) :
    v.Ordered := by
  unfold parse at parsed
  obtain ⟨_, read, parsed⟩ := bind_eq_ok parsed
  dsimp only at parsed
  split at parsed
  · cases parsed
    exact (ordered_read _).value read
  · cases parsed

end Tarkib.Json
