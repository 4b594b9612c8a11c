import Tarkib.Json.Decode

/-!
# Members of objects

The objects of a document have their members in ascending order of the keys, each key once
(`Value.Ordered`). What stands deeper in a document is found by the keys on the way to it
(`Value.at?`).
-/

namespace Tarkib.Json

open List

/-! ## Documents -/

/-- The keys of the members are ascending, so that none occurs twice. -/
def Ascending (members : List (String × Value)) : Prop :=
  members.Pairwise fun m n => m.1 < n.1

/-- A document all of whose objects have their members in ascending order of the keys. -/
inductive Value.Ordered : Value → Prop where
  | null : Ordered .null
  | bool (b : Bool) : Ordered (.bool b)
  | number (n : Number) : Ordered (.number n)
  | string (s : String) : Ordered (.string s)
  | array {items : List Value} (each : ∀ v ∈ items, Ordered v) : Ordered (.array items)
  | object {members : List (String × Value)} (keys : Ascending members)
      (each : ∀ m ∈ members, Ordered m.2) : Ordered (.object members)

theorem Value.Ordered.empty : (Value.object []).Ordered := by
  refine .object List.Pairwise.nil ?_
  intro m member
  cases member

/-- What stands at a place of a document, given by the keys that lead there. -/
def Value.at? : Value → List String → Option Value
  | v, [] => some v
  | .object members, key :: place => (find? key members).bind fun v => v.at? place
  | _, _ :: _ => none

@[simp] theorem Value.at?_nil (v : Value) : v.at? [] = some v := by
  cases v <;> rfl

@[simp] theorem Value.at?_object (members : List (String × Value)) (key : String)
    (place : List String) :
    (Value.object members).at? (key :: place) = (find? key members).bind (·.at? place) := rfl

/-! ## Finding members -/

@[simp] theorem find?_nil (key : String) : find? key [] = none := rfl

theorem find?_cons (key k : String) (v : Value) (members : List (String × Value)) :
    find? key ((k, v) :: members) = if key = k then some v else find? key members := by
  unfold find?
  rw [lookup_cons]
  by_cases same : key = k
  · subst same
    simp
  · rw [beq_eq_false_iff_ne.mpr same, if_neg same]

theorem find?_append (key : String) (members more : List (String × Value)) :
    find? key (members ++ more) = (find? key members).or (find? key more) := by
  induction members with
  | nil => rfl
  | cons m members ih =>
    obtain ⟨k, v⟩ := m
    rw [cons_append, find?_cons, find?_cons, ih]
    by_cases same : key = k <;> simp [same]

variable {key : String} {v : Value} {members : List (String × Value)}

theorem mem_of_find? (found : find? key members = some v) : (key, v) ∈ members := by
  obtain ⟨before, after, split, _⟩ := List.lookup_eq_some_iff.mp found
  simp [split]

/-- A key leads to the one member that has it. -/
theorem find?_eq_some_iff (keys : Ascending members) :
    find? key members = some v ↔ (key, v) ∈ members := by
  refine ⟨mem_of_find?, ?_⟩
  induction members with
  | nil => simp
  | cons m members ih =>
    obtain ⟨k, w⟩ := m
    obtain ⟨least, rest⟩ := pairwise_cons.mp keys
    intro member
    rw [find?_cons]
    rcases mem_cons.mp member with same | later
    · cases same
      rw [if_pos rfl]
    · have before : k < key := least (key, v) later
      have different : key ≠ k := by
        rintro rfl
        exact String.lt_irrefl key before
      rw [if_neg different]
      exact ih rest later

/-! ## Putting objects together -/

/-- A member that is put in takes the place of one with the same key. -/
theorem find?_insertMember (key k : String) (v : Value) (members : List (String × Value)) :
    find? key (insertMember k v members) = if key = k then some v else find? key members := by
  induction members with
  | nil => simp [insertMember, find?_cons]
  | cons m members ih =>
    obtain ⟨other, w⟩ := m
    unfold insertMember
    split
    · rw [find?_cons]
    · split
      · next same =>
          subst same
          rw [find?_cons, find?_cons]
          by_cases here : key = k <;> simp [here]
      · next different =>
          rw [find?_cons, ih, find?_cons]
          by_cases here : key = k
          · subst here
            simp [different]
          · simp [here]

theorem mem_insertMember {m : String × Value} (member : m ∈ insertMember key v members) :
    m = (key, v) ∨ m ∈ members := by
  induction members with
  | nil => simpa [insertMember] using member
  | cons first members ih =>
    obtain ⟨k, w⟩ := first
    unfold insertMember at member
    split at member
    · exact mem_cons.mp member
    · split at member
      · rcases mem_cons.mp member with here | later
        · exact .inl here
        · exact .inr (mem_cons_of_mem _ later)
      · rcases mem_cons.mp member with rfl | later
        · exact .inr mem_cons_self
        · exact (ih later).imp_right (mem_cons_of_mem _)

theorem ascending_insertMember (keys : Ascending members) (key : String) (v : Value) :
    Ascending (insertMember key v members) := by
  induction members with
  | nil => exact pairwise_singleton _ _
  | cons first members ih =>
    obtain ⟨k, w⟩ := first
    obtain ⟨least, rest⟩ := pairwise_cons.mp keys
    unfold insertMember
    split
    · next before =>
        refine pairwise_cons.mpr ⟨?_, keys⟩
        intro m member
        rcases mem_cons.mp member with rfl | later
        · exact before
        · exact String.lt_trans before (least m later)
    · next notBefore =>
        split
        · next same =>
            subst same
            exact pairwise_cons.mpr ⟨least, rest⟩
        · next different =>
            refine pairwise_cons.mpr ⟨?_, ih rest⟩
            intro m member
            rcases mem_insertMember member with rfl | old
            · exact Std.lt_of_le_of_ne notBefore (Ne.symm different)
            · exact least m old

/-- The members of an object that is put together. -/
def gathered (members : List (String × Value)) : List (String × Value) :=
  members.foldl (fun sorted m => insertMember m.1 m.2 sorted) []

/-- Put together member by member, an object is in order, whatever the order in which they come. -/
theorem ascending_gathered (members : List (String × Value)) : Ascending (gathered members) :=
  List.foldlRecOn members _ List.Pairwise.nil
    fun _ keys m _ => ascending_insertMember keys m.1 m.2

/-- The last member with a key counts. -/
theorem find?_gathered (key : String) (members : List (String × Value)) :
    find? key (gathered members) = find? key members.reverse := by
  have found (members : List (String × Value)) (sorted : List (String × Value)) :
      find? key (members.foldl (fun sorted m => insertMember m.1 m.2 sorted) sorted) =
        (find? key members.reverse).or (find? key sorted) := by
    induction members generalizing sorted with
    | nil => rfl
    | cons m members ih =>
      rw [foldl_cons, ih, find?_insertMember, reverse_cons, find?_append, find?_cons]
      by_cases same : key = m.1 <;> cases find? key members.reverse <;> simp [same]
  simpa [gathered] using found members []

end Tarkib.Json
