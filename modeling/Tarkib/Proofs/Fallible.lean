import Mathlib.Data.List.Forall2

/-!
# Computations that may fail

A computation that is made of others has a result exactly if all of them have one, and otherwise its
error is that of the first one that fails.
-/

namespace Tarkib

open List

variable {α β γ ε : Type} {items : List α} {results : List β}

theorem bind_eq_ok {x : Except ε α} {f : α → Except ε β} {b : β} (h : (x >>= f) = .ok b) :
    ∃ a, x = .ok a ∧ f a = .ok b := by
  cases x with
  | error e => cases h
  | ok a => exact ⟨a, rfl, h⟩

theorem bind_eq_error {x : Except ε α} {f : α → Except ε β} {e : ε} (h : (x >>= f) = .error e) :
    x = .error e ∨ ∃ a, x = .ok a ∧ f a = .error e := by
  cases x with
  | error other =>
    cases h
    exact .inl rfl
  | ok a => exact .inr ⟨a, rfl, h⟩

theorem exists_ok_of_map {x : Except ε α} {f : α → β} {b : β} (mapped : x.map f = .ok b) :
    ∃ a, x = .ok a ∧ b = f a := by
  cases x with
  | error e => cases mapped
  | ok a =>
    cases mapped
    exact ⟨a, rfl, rfl⟩

/-! ## Lists -/

variable {f : α → Except ε β}

/-- One result for each item, in order. -/
theorem mapM_eq_ok_iff :
    items.mapM f = .ok results ↔ List.Forall₂ (fun a b => f a = .ok b) items results := by
  constructor
  · intro all
    induction items generalizing results with
    | nil =>
      cases all
      exact .nil
    | cons item items ih =>
      rw [mapM_cons] at all
      obtain ⟨result, first, all⟩ := bind_eq_ok all
      obtain ⟨others, rest, all⟩ := bind_eq_ok all
      cases all
      exact .cons first (ih rest)
  · intro all
    induction all with
    | nil => rfl
    | cons first _ ih =>
      rw [mapM_cons, first, ih]
      rfl

theorem mapM_map_eq_ok {f : β → Except ε γ} {g : α → β} {h : α → γ}
    (each : ∀ a ∈ items, f (g a) = .ok (h a)) : (items.map g).mapM f = .ok (items.map h) := by
  rw [mapM_eq_ok_iff, forall₂_map_left_iff, forall₂_map_right_iff]
  exact forall₂_same.mpr each

theorem exists_of_mem_left {R : α → β → Prop} (related : List.Forall₂ R items results) :
    ∀ item ∈ items, ∃ result ∈ results, R item result := by
  induction related with
  | nil => exact forall_mem_nil _
  | cons here _ ih =>
    refine forall_mem_cons.mpr ⟨⟨_, mem_cons_self, here⟩, fun item member => ?_⟩
    obtain ⟨result, listed, related⟩ := ih item member
    exact ⟨result, mem_cons_of_mem _ listed, related⟩

theorem mem_of_mapM (all : items.mapM f = .ok results) :
    (∀ item ∈ items, ∃ result ∈ results, f item = .ok result) ∧
      ∀ result ∈ results, ∃ item ∈ items, f item = .ok result := by
  have related := mapM_eq_ok_iff.mp all
  exact ⟨exists_of_mem_left related, exists_of_mem_left (List.Forall₂.flip related)⟩

/-- The error is that of an item. -/
theorem exists_of_mapM {e : ε} (failed : items.mapM f = .error e) :
    ∃ item ∈ items, f item = .error e := by
  induction items with
  | nil => cases failed
  | cons item items ih =>
    rw [mapM_cons] at failed
    rcases bind_eq_error failed with first | ⟨result, _, failed⟩
    · exact ⟨item, mem_cons_self, first⟩
    · rcases bind_eq_error failed with rest | ⟨others, _, failed⟩
      · obtain ⟨culprit, member, reason⟩ := ih rest
        exact ⟨culprit, mem_cons_of_mem _ member, reason⟩
      · cases failed

end Tarkib
