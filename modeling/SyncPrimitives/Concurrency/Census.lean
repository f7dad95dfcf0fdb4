import Mathlib.Algebra.BigOperators.Group.Finset.Basic
import Mathlib.Algebra.BigOperators.Group.Finset.Piecewise
import Mathlib.Algebra.Order.BigOperators.Group.Finset
import Mathlib.Data.Fintype.BigOperators

/-!
# Counting the threads at a position

A state of several threads is a function from thread names to local states. An invariant over any
number of threads is stated through totals `∑ t, w (f t)` of a weight on local states: the number of
threads at a position is the total of the weight that is one there and zero elsewhere. A step that
changes one thread changes every total by the difference of two weights (`total_update`), which is
what linear arithmetic needs; a total is positive exactly when some thread has positive weight
(`total_pos_iff`).
-/

set_option autoImplicit false
set_option relaxedAutoImplicit false

namespace SyncPrimitives.Concurrency

open Finset Function

variable {Tid α : Type*} [Fintype Tid]

/-- The total of a weight over all threads. -/
def total (w : α → ℕ) (f : Tid → α) : ℕ := ∑ t, w (f t)

/-- Changing one thread changes the total by the difference of its weights, stated without
subtraction. -/
theorem total_update [DecidableEq Tid] (w : α → ℕ) (f : Tid → α) (t : Tid) (b : α) :
    total w (update f t b) + w (f t) = total w f + w b := by
  have hrest : ∑ u ∈ univ.erase t, w (update f t b u) = ∑ u ∈ univ.erase t, w (f u) :=
    Finset.sum_congr rfl fun u hu ↦ by rw [update_of_ne (Finset.ne_of_mem_erase hu)]
  have hnew := Finset.sum_erase_add univ (fun u ↦ w (update f t b u)) (Finset.mem_univ t)
  have hold := Finset.sum_erase_add univ (fun u ↦ w (f u)) (Finset.mem_univ t)
  simp only [update_self] at hnew
  unfold total
  omega

/-- The weight of one thread is at most the total. -/
theorem le_total (w : α → ℕ) (f : Tid → α) (t : Tid) : w (f t) ≤ total w f :=
  Finset.single_le_sum (f := fun u ↦ w (f u)) (fun _ _ ↦ Nat.zero_le _) (Finset.mem_univ t)

/-- The weights of two threads together are at most the total. -/
theorem add_le_total (w : α → ℕ) (f : Tid → α) {t u : Tid} (hne : t ≠ u) :
    w (f t) + w (f u) ≤ total w f := by
  classical
  rw [← Finset.sum_pair (f := fun v ↦ w (f v)) hne]
  exact Finset.sum_le_sum_of_subset (Finset.subset_univ _)

/-- A total is positive exactly when some thread has positive weight. -/
theorem total_pos_iff (w : α → ℕ) (f : Tid → α) : 0 < total w f ↔ ∃ t, 0 < w (f t) := by
  unfold total
  rw [Finset.sum_pos_iff]
  simp

/-- A total is zero exactly when every thread has weight zero. -/
theorem total_eq_zero_iff (w : α → ℕ) (f : Tid → α) : total w f = 0 ↔ ∀ t, w (f t) = 0 := by
  unfold total
  rw [Finset.sum_eq_zero_iff]
  simp

/-- Two states whose threads have the same weights have the same total. -/
theorem total_congr {w : α → ℕ} {f g : Tid → α} (h : ∀ t, w (f t) = w (g t)) :
    total w f = total w g :=
  Finset.sum_congr rfl fun t _ ↦ h t

/-- A weight of at most one counts at most all threads. -/
theorem total_le_card {w : α → ℕ} (hw : ∀ a, w a ≤ 1) (f : Tid → α) :
    total w f ≤ Fintype.card Tid := by
  calc total w f ≤ ∑ _t : Tid, 1 := Finset.sum_le_sum fun t _ ↦ hw (f t)
    _ = Fintype.card Tid := by simp

/-! ### Threads of a class -/

section Classes

variable {κ : Type*} [DecidableEq κ] (class_ : α → κ)

/-- The number of threads whose local state is in a class. -/
def countAt (k : κ) (f : Tid → α) : ℕ := total (fun a ↦ if class_ a = k then 1 else 0) f

variable {class_}

/-- Some thread is in a class exactly when the number of threads there is positive. -/
theorem countAt_pos_iff {k : κ} {f : Tid → α} : 0 < countAt class_ k f ↔ ∃ t, class_ (f t) = k := by
  unfold countAt
  rw [total_pos_iff]
  refine exists_congr fun t ↦ ?_
  split_ifs with h <;> simp [h]

/-- No thread is in a class exactly when the number of threads there is zero. -/
theorem countAt_eq_zero_iff {k : κ} {f : Tid → α} :
    countAt class_ k f = 0 ↔ ∀ t, class_ (f t) ≠ k := by
  have h : ¬ 0 < countAt class_ k f ↔ ¬ ∃ t, class_ (f t) = k := not_congr countAt_pos_iff
  rw [Nat.pos_iff_ne_zero, not_not, not_exists] at h
  exact h

/-- At most all threads are in a class. -/
theorem countAt_le_card {k : κ} {f : Tid → α} : countAt class_ k f ≤ Fintype.card Tid :=
  total_le_card (fun _ ↦ by split_ifs <;> omega) f

/-- At most all threads are in one of several classes. -/
theorem sum_countAt_le_card (classes : Finset κ) {f : Tid → α} :
    ∑ k ∈ classes, countAt class_ k f ≤ Fintype.card Tid := by
  have hone (t : Tid) : ∑ k ∈ classes, (if class_ (f t) = k then 1 else 0) ≤ 1 := by
    rw [Finset.sum_ite_eq]
    split_ifs <;> omega
  calc ∑ k ∈ classes, countAt class_ k f
      = ∑ t : Tid, ∑ k ∈ classes, (if class_ (f t) = k then 1 else 0) := Finset.sum_comm
    _ ≤ ∑ _t : Tid, 1 := Finset.sum_le_sum fun t _ ↦ hone t
    _ = Fintype.card Tid := by simp

/-- Moving one thread moves one unit between the counts of its two classes. -/
theorem countAt_update [DecidableEq Tid] {f : Tid → α} {t : Tid} {b : α} {k k' : κ}
    (hbefore : class_ (f t) = k) (hafter : class_ b = k') (r : κ) :
    countAt class_ r (update f t b) + (if k = r then 1 else 0) =
      countAt class_ r f + if k' = r then 1 else 0 := by
  have h := total_update (fun a ↦ if class_ a = r then 1 else 0) f t b
  simp only [hbefore, hafter] at h
  exact h

end Classes

end SyncPrimitives.Concurrency
