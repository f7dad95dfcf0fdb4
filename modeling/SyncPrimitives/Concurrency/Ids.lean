import Mathlib.Data.List.Nodup
import SyncPrimitives.Concurrency.Runs
import SyncPrimitives.Concurrency.Words

/-!
# Ids from a counter

Objects that are made by any number of threads draw their ids from one 64-bit counter by
`fetch_add`. The counter wraps around, so the ids of a run are distinct as long as there are at most
`2 ^ 64` of them, and no longer (`drawn_injective_iff`).
-/

set_option autoImplicit false
set_option relaxedAutoImplicit false

namespace SyncPrimitives.Concurrency

/-- A counter, and the ids that have been drawn from it in the order of the draws. -/
structure IdCounter where
  next : ℕ
  drawn : List ℕ

/-- The `fetch_add` of one on the counter returns an id. -/
def IdCounter.fetchAdd (counter : IdCounter) : IdCounter where
  next := addUsize counter.next 1
  drawn := counter.drawn ++ [counter.next]

/-- Threads that draw ids. The label of a step is the thread that draws. -/
def drawing (Tid : Type) : System IdCounter Tid where
  init := { next := 0, drawn := [] }
  step := fun counter _ ↦ some counter.fetchAdd

variable {Tid : Type} {counter : IdCounter}

/-- The ids of a run are the numbers of the draws, modulo `2 ^ 64`. -/
theorem drawn_eq (h : (drawing Tid).Reachable counter) :
    counter.next = counter.drawn.length % 2 ^ 64 ∧
      counter.drawn = (List.range counter.drawn.length).map (· % 2 ^ 64) := by
  refine h.invariant (P := fun counter ↦ counter.next = counter.drawn.length % 2 ^ 64 ∧
    counter.drawn = (List.range counter.drawn.length).map (· % 2 ^ 64)) ⟨rfl, rfl⟩ ?_
  rintro counter t counter' - ⟨hnext, hdrawn⟩ - hmove
  obtain rfl : counter.fetchAdd = counter' := Option.some.inj hmove
  constructor
  · show addUsize counter.next 1 = (counter.drawn ++ [counter.next]).length % 2 ^ 64
    rw [hnext, addUsize, List.length_append, List.length_singleton]
    omega
  · show counter.drawn ++ [counter.next] =
      (List.range (counter.drawn ++ [counter.next]).length).map (· % 2 ^ 64)
    rw [List.length_append, List.length_singleton, List.range_succ, List.map_append, ← hdrawn,
      hnext]
    rfl

/-- The ids of a run are distinct if and only if there are at most `2 ^ 64` of them. -/
theorem drawn_injective_iff (h : (drawing Tid).Reachable counter) :
    Function.Injective counter.drawn.get ↔ counter.drawn.length ≤ 2 ^ 64 := by
  have hdrawn := (drawn_eq h).2
  rw [← List.nodup_iff_injective_get]
  constructor
  · intro hnodup
    rw [hdrawn] at hnodup
    by_contra hmany
    -- the draw number `2 ^ 64` gets the id of the first
    have hzero : (0 : ℕ) ∈ List.range counter.drawn.length := List.mem_range.mpr (by omega)
    have hwrap : 2 ^ 64 ∈ List.range counter.drawn.length := List.mem_range.mpr (by omega)
    have hsame := List.inj_on_of_nodup_map hnodup hzero hwrap (Nat.mod_self _).symm
    omega
  · intro hfew
    rw [hdrawn]
    refine List.nodup_range.map_on fun i hi j hj hsame ↦ ?_
    rw [List.mem_range] at hi hj
    omega

end SyncPrimitives.Concurrency
