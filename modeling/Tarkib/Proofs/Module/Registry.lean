import Tarkib.Module.Registry
import Tarkib.Proofs.Path.Order

/-!
# Entries of the registry

Which spelling of a path is asked for does not matter to the registry, but each entry has one.
-/

namespace Tarkib.Registry

/-- A path under which something is registered, in any spelling. -/
def Holds (r : Registry) (p : Path) : Prop :=
  ∃ q ∈ r.ids, q.same p = true

theorem find?_isSome_iff (r : Registry) (p : Path) : (r.find? p).isSome = true ↔ r.Holds p := by
  simp [find?, Holds, ids, List.find?_isSome]

theorem insertEntry_perm (m : Module) {entries : List (Path × Module)}
    (absent : ∀ e ∈ entries, e.1.same m.id = false) :
    (insertEntry m entries).Perm ((m.id, m) :: entries) := by
  induction entries with
  | nil => exact List.Perm.refl _
  | cons e rest ih =>
    obtain ⟨key, old⟩ := e
    have keyOther : key.same m.id = false := absent (key, old) (by simp)
    have restAbsent : ∀ e ∈ rest, e.1.same m.id = false :=
      fun e he => absent e (List.mem_cons_of_mem _ he)
    rw [insertEntry]
    split
    · exact List.Perm.refl _
    · next equal =>
        rw [Path.compare_eq_iff, Path.same_comm, keyOther] at equal
        exact absurd equal (by simp)
    · exact ((ih restAbsent).cons _).trans (List.Perm.swap _ _ _)

/-- A module whose path is not registered yet adds one entry, under its own spelling. -/
theorem ids_register_perm {r : Registry} {m : Module} (absent : ¬ r.Holds m.id) :
    (r.register m).ids.Perm (m.id :: r.ids) := by
  refine (insertEntry_perm m fun e he => ?_).map Prod.fst
  rw [← Bool.not_eq_true]
  intro found
  exact absent ⟨e.1, List.mem_map_of_mem he, found⟩

theorem mem_ids_of_register {r : Registry} {m : Module} {p : Path} (h : p ∈ (r.register m).ids) :
    p = m.id ∨ p ∈ r.ids := by
  have entered (entries : List (Path × Module)) (h : p ∈ (insertEntry m entries).map Prod.fst) :
      p = m.id ∨ p ∈ entries.map Prod.fst := by
    induction entries with
    | nil => exact .inl (List.mem_singleton.mp h)
    | cons e rest ih =>
      obtain ⟨key, old⟩ := e
      rw [insertEntry] at h
      split at h
      · exact List.mem_cons.mp h
      · exact .inr h
      · rcases List.mem_cons.mp h with here | later
        · exact .inr (List.mem_cons.mpr (.inl here))
        · exact (ih later).imp_right (List.mem_cons_of_mem _)
  exact entered r.entries h

theorem eq_empty_of_ids {r : Registry} (h : r.ids = []) : r = {} := by
  have none : r.entries = [] := List.map_eq_nil_iff.mp h
  cases r
  exact congrArg Registry.mk none

/-- Removing a path takes away the entries that have it and no others. -/
theorem ids_unregister (r : Registry) (p : Path) :
    (r.unregister p).ids = r.ids.filter fun q => !q.same p := by
  simp [unregister, ids, List.filter_map, Function.comp_def]

end Tarkib.Registry
