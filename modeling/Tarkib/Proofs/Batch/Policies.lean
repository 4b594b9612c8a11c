import Mathlib.Data.List.Nodup
import Mathlib.Order.Nat
import Tarkib.Batch

/-!
# The two policies of a batch agree

The ends of the operations of a batch come in an order of their own, and each is put down with the
number of its operation. The numbers bring everything back into the order of the operations, so what
a batch reports does not depend on the order of the ends.

An operation is cut off if it takes longer than the timer waits for the limit. So the policies agree
on the limit as long as the timer keeps it, and a timer that ends a longer wait too early cuts off
operations that are in time.
-/

namespace Tarkib

open List

variable {α : Type} {timer : Timer} {limitMs : Nat}

namespace Operation

variable {o : Operation α}

theorem isLate_iff : o.isLate timer limitMs = true ↔ timer.waited limitMs < o.delayMs :=
  decide_eq_true_iff

theorem endMs_of_isLate (late : o.isLate timer limitMs = true) :
    o.endMs timer limitMs = timer.waited limitMs :=
  Nat.min_eq_right (Nat.le_of_lt (of_decide_eq_true late))

end Operation

namespace Batch

variable {ops : List (Operation α)}

/-! ## Numbers -/

/-- The operations with their numbers. -/
def numbered (ops : List (Operation α)) : List (Nat × Operation α) :=
  (List.range ops.length).zip ops

theorem map_snd_numbered (ops : List (Operation α)) : (numbered ops).map Prod.snd = ops :=
  map_snd_zip (by simp)

theorem pairwise_numbered (ops : List (Operation α)) :
    (numbered ops).Pairwise fun a b => a.1 < b.1 := by
  have numbers : (numbered ops).map Prod.fst = List.range ops.length := map_fst_zip (by simp)
  exact pairwise_map.mp (numbers ▸ pairwise_lt_range)

theorem inOrder_perm (timer : Timer) (limitMs : Nat) (ops : List (Operation α)) :
    (inOrder timer limitMs ops).Perm (numbered ops) :=
  mergeSort_perm ..

theorem pairwise_mergeSort_key {β : Type} (key : β → Nat) (xs : List β) :
    (xs.mergeSort fun a b => key a ≤ key b).Pairwise fun a b => key a ≤ key b := by
  have sorted : (xs.mergeSort fun a b => key a ≤ key b).Pairwise
      fun a b => decide (key a ≤ key b) = true := by
    refine pairwise_mergeSort ?_ ?_ xs
    · intro a b c first second
      exact decide_eq_true (Nat.le_trans (of_decide_eq_true first) (of_decide_eq_true second))
    · intro a b
      simpa using Nat.le_total (key a) (key b)
  exact sorted.imp of_decide_eq_true

theorem pairwise_inOrder (timer : Timer) (limitMs : Nat) (ops : List (Operation α)) :
    (inOrder timer limitMs ops).Pairwise fun a b =>
      a.2.endMs timer limitMs ≤ b.2.endMs timer limitMs :=
  pairwise_mergeSort_key (fun x : Nat × Operation α => x.2.endMs timer limitMs) _

/-- The numbers bring entries back into the order of the operations, whatever their own order is. -/
theorem byNumber_of_perm {β : Type} {pick : Nat × Operation α → Option (Nat × β)}
    (keeps : ∀ x y, pick x = some y → y.1 = x.1) {entries : List (Nat × β)}
    (perm : entries.Perm ((numbered ops).filterMap pick)) :
    byNumber entries = ((numbered ops).filterMap pick).map Prod.snd := by
  have ascending : ((numbered ops).filterMap pick).Pairwise fun a b => a.1 < b.1 := by
    refine pairwise_filterMap.mpr ((pairwise_numbered ops).imp ?_)
    intro x x' before y found y' found'
    rwa [keeps x y found, keeps x' y' found']
  have distinct : (((numbered ops).filterMap pick).map Prod.fst).Nodup :=
    pairwise_map.mpr (ascending.imp Nat.ne_of_lt)
  have whole := (mergeSort_perm entries fun a b => a.1 ≤ b.1).trans perm
  rw [byNumber, List.Perm.eq_of_pairwise ?_ (pairwise_mergeSort_key Prod.fst entries)
    (ascending.imp Nat.le_of_lt) whole]
  intro a b first second le ge
  exact inj_on_of_nodup_map distinct (whole.mem_iff.mp first) second (Nat.le_antisymm le ge)

/-! ## Ends -/

def resultOf? (timer : Timer) (limitMs : Nat) (x : Nat × Operation α) : Option (Nat × α) :=
  (x.2.limited timer limitMs).map fun result => (x.1, result)

def lateOf? (timer : Timer) (limitMs : Nat) (x : Nat × Operation α) : Option (Nat × String) :=
  if x.2.isLate timer limitMs then some (x.1, x.2.name) else none

theorem gather_eq (g : Gathered α) (x : Nat × Operation α) :
    gather timer limitMs g x =
      ⟨g.results ++ (resultOf? timer limitMs x).toList, g.late ++ (lateOf? timer limitMs x).toList,
        x.2.endMs timer limitMs⟩ := by
  by_cases late : x.2.isLate timer limitMs = true <;>
    simp [gather, Operation.limited, resultOf?, lateOf?, late]

/-- What is put down over a row of ends: results, names of late operations, and the last time. -/
theorem foldl_gather (g : Gathered α) (xs : List (Nat × Operation α)) :
    xs.foldl (gather timer limitMs) g =
      ⟨g.results ++ xs.filterMap (resultOf? timer limitMs),
        g.late ++ xs.filterMap (lateOf? timer limitMs),
        (xs.map (·.2.endMs timer limitMs)).getLast?.getD g.nowMs⟩ := by
  induction xs generalizing g with
  | nil => simp
  | cons x xs ih =>
    rw [foldl_cons, ih, gather_eq, map_cons, getLast?_cons, Option.getD_some]
    cases result : resultOf? timer limitMs x <;> cases late : lateOf? timer limitMs x <;>
      simp [result, late]

theorem handle_collectAll (g : Gathered α) (xs : List (Nat × Operation α)) :
    handle .collectAll timer limitMs g xs = xs.foldl (gather timer limitMs) g := by
  induction xs generalizing g with
  | nil => rfl
  | cons x xs ih => exact ih _

/-! ## Awaiting all ends -/

theorem mem_of_mem_inOrder {x : Nat × Operation α} (member : x ∈ inOrder timer limitMs ops) :
    x.2 ∈ ops := by
  rw [← map_snd_numbered ops]
  exact mem_map_of_mem ((inOrder_perm timer limitMs ops).mem_iff.mp member)

theorem exists_mem_inOrder (timer : Timer) (limitMs : Nat) {o : Operation α} (member : o ∈ ops) :
    ∃ number, (number, o) ∈ inOrder timer limitMs ops := by
  rw [← map_snd_numbered ops] at member
  obtain ⟨⟨number, _⟩, listed, rfl⟩ := mem_map.mp member
  exact ⟨number, (inOrder_perm timer limitMs ops).mem_iff.mpr listed⟩

/-- The late operations are named in the order in which they were given. -/
theorem byNumber_late (timer : Timer) (limitMs : Nat) (ops : List (Operation α)) :
    byNumber ((inOrder timer limitMs ops).filterMap (lateOf? timer limitMs)) =
      (ops.filter (·.isLate timer limitMs)).map (·.name) := by
  have keeps (x : Nat × Operation α) (y : Nat × String) (put : lateOf? timer limitMs x = some y) :
      y.1 = x.1 := by
    unfold lateOf? at put
    split_ifs at put
    cases put
    rfl
  have names : (fun x : Nat × Operation α => (lateOf? timer limitMs x).map Prod.snd) =
      (fun o => if o.isLate timer limitMs then some o.name else none) ∘ Prod.snd := by
    funext x
    by_cases late : x.2.isLate timer limitMs = true <;> simp [lateOf?, late]
  rw [byNumber_of_perm keeps ((inOrder_perm timer limitMs ops).filterMap _), map_filterMap, names,
    ← filterMap_map, map_snd_numbered, ← filterMap_eq_map, filterMap_filter]
  rfl

theorem byNumber_results (punctual : ∀ o ∈ ops, o.isLate timer limitMs = false) :
    byNumber ((inOrder timer limitMs ops).filterMap (resultOf? timer limitMs)) =
      ops.map (·.result) := by
  have keeps (x : Nat × Operation α) (y : Nat × α) (put : resultOf? timer limitMs x = some y) :
      y.1 = x.1 := by
    obtain ⟨_, _, rfl⟩ := Option.map_eq_some_iff.mp put
    rfl
  have results : (fun x : Nat × Operation α => (resultOf? timer limitMs x).map Prod.snd) =
      (·.limited timer limitMs) ∘ Prod.snd := by
    funext x
    cases ended : x.2.limited timer limitMs <;> simp [resultOf?, ended]
  rw [byNumber_of_perm keeps ((inOrder_perm timer limitMs ops).filterMap _), map_filterMap, results,
    ← filterMap_map, map_snd_numbered, ← filterMap_eq_map]
  exact filterMap_congr fun o member => by simp [Operation.limited, punctual o member]

theorem getLast?_eq_max? {times others : List Nat} (ascending : times.Pairwise (· ≤ ·))
    (perm : times.Perm others) : times.getLast? = others.max? := by
  rcases eq_nil_or_concat' times with rfl | ⟨before, last, rfl⟩
  · obtain rfl := nil_perm.mp perm
    rfl
  · rw [getLast?_concat, eq_comm, max?_eq_some_iff]
    constructor
    · exact perm.mem_iff.mp (by simp)
    · intro time member
      rcases mem_append.mp (perm.mem_iff.mpr member) with earlier | same
      · exact (pairwise_append.mp ascending).2.2 time earlier last (by simp)
      · exact (mem_singleton.mp same).le

/-- A batch that awaits all ends names exactly the operations that were cut off, or returns all
results, and takes as long as the last end. -/
theorem run_collectAll (timer : Timer) (limitMs : Nat) (ops : List (Operation α)) :
    run .collectAll timer limitMs ops =
      (if ops.any (·.isLate timer limitMs) then
          .late ((ops.filter (·.isLate timer limitMs)).map (·.name))
        else .finished (ops.map (·.result)),
        (ops.map (·.endMs timer limitMs)).max?.getD 0) := by
  have time : ((inOrder timer limitMs ops).map (·.2.endMs timer limitMs)).getLast? =
      (ops.map (·.endMs timer limitMs)).max? := by
    refine getLast?_eq_max? (pairwise_map.mpr (pairwise_inOrder timer limitMs ops)) ?_
    have perm := (inOrder_perm timer limitMs ops).map fun x => x.2.endMs timer limitMs
    have ends : (numbered ops).map (fun x => x.2.endMs timer limitMs) =
        ops.map (·.endMs timer limitMs) := by
      rw [← map_snd_numbered ops, map_map, map_snd_numbered]
      rfl
    rwa [ends] at perm
  rw [run, handle_collectAll, foldl_gather]
  simp only [nil_append, time, Gathered.outcome, byNumber_late]
  congr 1
  by_cases late : ops.any (·.isLate timer limitMs) = true
  · obtain ⟨o, member, isLate⟩ := any_eq_true.mp late
    obtain ⟨number, listed⟩ := exists_mem_inOrder timer limitMs member
    have put : (number, o.name) ∈ (inOrder timer limitMs ops).filterMap (lateOf? timer limitMs) :=
      mem_filterMap.mpr ⟨_, listed, if_pos isLate⟩
    rw [if_pos late, if_neg (by simpa using ne_nil_of_mem put)]
  · have punctual : ∀ o ∈ ops, o.isLate timer limitMs = false := by simpa using late
    have none : (inOrder timer limitMs ops).filterMap (lateOf? timer limitMs) = [] :=
      filterMap_eq_nil_iff.mpr fun x listed =>
        if_neg (by simp [punctual _ (mem_of_mem_inOrder listed)])
    rw [if_neg late, none, if_pos isEmpty_nil, byNumber_results punctual]

/-! ## Ending with the first cut -/

theorem late_gather_of_punctual {g : Gathered α} {x : Nat × Operation α}
    (clean : g.late = []) (punctual : x.2.isLate timer limitMs = false) :
    (gather timer limitMs g x).late = [] := by
  simp [gather_eq, lateOf?, clean, punctual]

/-- As long as nothing is cut off both policies do the same. -/
theorem handle_failFast_of_punctual {g : Gathered α} {xs : List (Nat × Operation α)}
    (clean : g.late = []) (punctual : ∀ x ∈ xs, x.2.isLate timer limitMs = false) :
    handle .failFast timer limitMs g xs = handle .collectAll timer limitMs g xs := by
  induction xs generalizing g with
  | nil => rfl
  | cons x xs ih =>
    obtain ⟨first, rest⟩ := forall_mem_cons.mp punctual
    have still := late_gather_of_punctual clean first
    simp only [handle, still]
    exact ih still rest

/-- A batch that ends with the first cut names one operation that was cut off. -/
theorem handle_failFast_of_late {g : Gathered α} {xs : List (Nat × Operation α)}
    (clean : g.late = []) (late : ∃ x ∈ xs, x.2.isLate timer limitMs = true) :
    ∃ x ∈ xs, x.2.isLate timer limitMs = true ∧
      (handle .failFast timer limitMs g xs).late = [(x.1, x.2.name)] ∧
      (handle .failFast timer limitMs g xs).nowMs = timer.waited limitMs := by
  induction xs generalizing g with
  | nil => simp at late
  | cons x xs ih =>
    by_cases here : x.2.isLate timer limitMs = true
    · have gathered : (gather timer limitMs g x).late = [(x.1, x.2.name)] := by
        simp [gather_eq, lateOf?, clean, here]
      refine ⟨x, mem_cons_self, here, ?_⟩
      simp only [handle, gathered]
      exact ⟨gathered, (congrArg Gathered.nowMs (gather_eq g x)).trans (x.2.endMs_of_isLate here)⟩
    · have still := late_gather_of_punctual clean (Bool.eq_false_iff.mpr here)
      obtain ⟨y, member, isLate⟩ := late
      have later : ∃ x ∈ xs, x.2.isLate timer limitMs = true := by
        rcases mem_cons.mp member with rfl | inside
        · exact absurd isLate here
        · exact ⟨y, inside, isLate⟩
      obtain ⟨z, inside, facts⟩ := ih still later
      refine ⟨z, mem_cons_of_mem _ inside, ?_⟩
      simp only [handle, still]
      exact facts

theorem run_failFast_of_punctual (punctual : ∀ o ∈ ops, o.isLate timer limitMs = false) :
    run .failFast timer limitMs ops = run .collectAll timer limitMs ops := by
  rw [run, run, handle_failFast_of_punctual rfl fun x listed =>
    punctual _ (mem_of_mem_inOrder listed)]

/-- It ends when the limit does, as all late operations do. -/
theorem exists_run_failFast_of_late (late : ∃ o ∈ ops, o.isLate timer limitMs = true) :
    ∃ o ∈ ops, o.isLate timer limitMs = true ∧
      run .failFast timer limitMs ops = (.late [o.name], timer.waited limitMs) := by
  obtain ⟨o, member, isLate⟩ := late
  obtain ⟨number, listed⟩ := exists_mem_inOrder timer limitMs member
  obtain ⟨x, inside, cut, names, time⟩ :=
    handle_failFast_of_late (g := ({} : Gathered α)) rfl ⟨_, listed, isLate⟩
  refine ⟨x.2, mem_of_mem_inOrder inside, cut, ?_⟩
  rw [run, Gathered.outcome, names, time]
  simp [byNumber]

/-! ## The policies together -/

/-- The policies agree on what the timer makes of the limit. -/
theorem run_of_timer (timer : Timer) (limitMs : Nat) (ops : List (Operation α)) :
    let limit := timer.waited limitMs
    let late := ops.filter fun o => limit < o.delayMs
    let results := ops.map (·.result)
    let time := (ops.map fun o => min o.delayMs limit).max?.getD 0
    (late = [] → run .collectAll timer limitMs ops = (.finished results, time) ∧
      run .failFast timer limitMs ops = (.finished results, time)) ∧
    (late ≠ [] → run .collectAll timer limitMs ops = (.late (late.map (·.name)), time) ∧
      ∃ o ∈ late, run .failFast timer limitMs ops = (.late [o.name], limit)) := by
  intro limit late results time
  have any_iff : ops.any (·.isLate timer limitMs) = true ↔ late ≠ [] := by
    rw [Ne, filter_eq_nil_iff, any_eq_true]
    simp [Operation.isLate_iff, limit]
  have collected := run_collectAll timer limitMs ops
  constructor
  · intro none
    rw [if_neg (any_iff.not.mpr (not_not.mpr none))] at collected
    have punctual : ∀ o ∈ ops, o.isLate timer limitMs = false := by
      simpa using any_iff.not.mpr (not_not.mpr none)
    exact ⟨collected, (run_failFast_of_punctual punctual).trans collected⟩
  · intro some
    rw [if_pos (any_iff.mpr some)] at collected
    obtain ⟨o, member, cut, ended⟩ :=
      exists_run_failFast_of_late (any_eq_true.mp (any_iff.mpr some))
    exact ⟨collected, o, mem_filter.mpr ⟨member, cut⟩, ended⟩

/-- **The policies agree.** Under a limit that the timer keeps, a batch that awaits all ends names
exactly the operations that take longer than the limit, in their order, if there are any, and
returns all results in their order otherwise. It takes as long as the longest operation, but no
longer than the limit. A batch that ends with the first cut returns the same results in the same
time if no operation takes longer, and otherwise the name of one that does, when the limit is over.
-/
theorem policies_agree {timer : Timer} {limitMs : Nat} (within : limitMs ≤ timer.longest)
    (ops : List (Operation α)) :
    let late := ops.filter fun o => limitMs < o.delayMs
    let results := ops.map (·.result)
    let time := (ops.map fun o => min o.delayMs limitMs).max?.getD 0
    (late = [] → run .collectAll timer limitMs ops = (.finished results, time) ∧
      run .failFast timer limitMs ops = (.finished results, time)) ∧
    (late ≠ [] → run .collectAll timer limitMs ops = (.late (late.map (·.name)), time) ∧
      ∃ o ∈ late, run .failFast timer limitMs ops = (.late [o.name], limitMs)) := by
  have agree := run_of_timer timer limitMs ops
  rw [timer.kept limitMs within] at agree
  exact agree

/-- Two operations of one name take longer than a limit at which a third one ends. -/
theorem policies_agree_twice_late :
    let timer := Timer.capped 946080000000
    let ops : List (Operation Nat) := [⟨"a", 30, 1⟩, ⟨"b", 20, 2⟩, ⟨"a", 21, 3⟩]
    run .collectAll timer 20 ops = (.late ["a", "a"], 20) ∧
      ∃ o ∈ ops, o.name = "a" ∧ run .failFast timer 20 ops = (.late [o.name], 20) := by
  intro timer ops
  have kept : 20 ≤ timer.longest := by decide
  obtain ⟨collected, o, late, first⟩ := (policies_agree kept ops).2 (by decide)
  refine ⟨collected, o, (mem_filter.mp late).1, ?_, first⟩
  have names : (ops.filter fun o => 20 < o.delayMs).all (·.name == "a") = true := by decide
  exact eq_of_beq (all_eq_true.mp names o late)

/-- A timer that ends every wait after thirty years cuts off an operation of thirty-two years under
a limit of thirty-five, which the operation does not exceed. -/
theorem punctual_operation_cut_off :
    let timer := Timer.capped 946080000000
    let limitMs := 1103760000000
    let o : Operation Nat := ⟨"a", 1009152000000, 0⟩
    o.delayMs ≤ limitMs ∧
      run .collectAll timer limitMs [o] = (.late ["a"], 946080000000) ∧
      run .failFast timer limitMs [o] = (.late ["a"], 946080000000) ∧
      run .collectAll timer limitMs [o] ≠ (.finished [0], o.delayMs) := by
  intro timer limitMs o
  have waited : timer.waited limitMs = 946080000000 := by decide
  have late : [o].filter (fun o => timer.waited limitMs < o.delayMs) = [o] := by decide
  have agree := run_of_timer timer limitMs [o]
  dsimp only at agree
  rw [late, waited] at agree
  obtain ⟨collected, other, member, first⟩ := agree.2 (cons_ne_nil _ _)
  obtain rfl := mem_singleton.mp member
  have time : ([o].map fun o => min o.delayMs 946080000000).max?.getD 0 = 946080000000 := by decide
  rw [time] at collected
  refine ⟨by decide, collected, first, ?_⟩
  rw [collected]
  simp

end Batch

end Tarkib
