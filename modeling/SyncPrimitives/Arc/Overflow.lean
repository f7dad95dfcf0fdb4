import SyncPrimitives.Arc.Model
import SyncPrimitives.Concurrency.Calls

/-!
# Clones that overflow

`clone` adds to `strong_count` before it compares, and aborts in a later step. One thread can make
as many handles as a clone allows (`reachable_handles`), and any number of other threads can then
stand between the addition and the abort (`reachable_clones`).
-/

set_option autoImplicit false
set_option relaxedAutoImplicit false

namespace SyncPrimitives.Arc

open Concurrency Function

variable {Tid : Type}

/-- A block with a payload and no `Weak`, and shared borrows only. -/
def holding (strongCount arcs arcBorrows : ℕ) : Shared ℕ where
  strongCount := strongCount
  refCount := 1
  data := some 7
  arcs := arcs
  arcBorrows := arcBorrows
  mutBorrows := 0
  weaks := 0
  weakBorrows := 0
  ended := false
  removals := 0
  frees := 0
  strayAccesses := 0

variable {strongCount arcs arcBorrows : ℕ} {t : Tid} {result : Option (Result ℕ)}

/-- A clone that returns. -/
theorem silentRun_clone (hcount : strongCount ≤ maxRefCount) (harcs : 0 < arcs) :
    (machine Tid ℕ).silentRun t [.clone, .access]
        (holding strongCount arcs arcBorrows, ⟨.idle, result⟩) =
      some (holding (addUsize strongCount 1) (arcs + 1) arcBorrows, ⟨.idle, some .cloned⟩) := by
  simp [Machine.silentRun, Machine.silentStep, machine, step, idleStep, Shared.hasArc, holding,
    harcs, Thread.goto, cloneStep, Shared.touch, hcount.not_gt, Thread.ret]

/-- A clone that is about to abort. -/
theorem silentRun_overflow (hcount : maxRefCount < strongCount) (harcs : 0 < arcs) :
    (machine Tid ℕ).silentRun t [.clone, .access]
        (holding strongCount arcs arcBorrows, ⟨.idle, result⟩) =
      some (holding (addUsize strongCount 1) arcs (arcBorrows + 1),
        ⟨.clone .abort, result⟩) := by
  simp [Machine.silentRun, Machine.silentStep, machine, step, idleStep, Shared.hasArc, holding,
    harcs, Thread.goto, cloneStep, Shared.touch, hcount]

/-- `n` threads and one more, the first `k` of the `n` about to abort. -/
def clones (n k : ℕ) (th : Thread ℕ) : Option (Fin n) → Thread ℕ
  | none => th
  | some i => if i.val < k then ⟨.clone .abort, none⟩ else ⟨.idle, none⟩

theorem update_clones_none {n k : ℕ} {th th' : Thread ℕ} :
    update (clones n k th) none th' = clones n k th' := by
  funext t
  cases t with
  | none => exact update_self ..
  | some i => exact update_of_ne (Option.some_ne_none i) ..

theorem update_clones_some {n k : ℕ} {th : Thread ℕ} (hk : k < n) :
    update (clones n k th) (some ⟨k, hk⟩) ⟨.clone .abort, none⟩ = clones n (k + 1) th := by
  funext t
  cases t with
  | none => rfl
  | some i =>
    by_cases hi : i = ⟨k, hk⟩
    · subst hi
      simp [clones]
    · have hne : i.val ≠ k := fun heq ↦ hi (Fin.ext heq)
      rw [update_of_ne (fun heq ↦ hi (Option.some.inj heq))]
      simp only [clones]
      congr 1
      exact propext ⟨fun hlt ↦ Nat.lt_succ_of_lt hlt, fun hlt ↦ by omega⟩

/-- One thread makes as many handles as a clone allows. -/
theorem reachable_handles (n : ℕ) : ∀ m, m ≤ maxRefCount →
    ∃ result, (system (Option (Fin n)) 7).Reachable
      ⟨holding (m + 1) (m + 1) 0, clones n 0 ⟨.idle, result⟩⟩ := by
  intro m
  induction m with
  | zero =>
    intro _
    refine ⟨none, ?_⟩
    have hnew : clones n 0 ⟨.idle, none⟩ = fun _ ↦ ⟨.idle, none⟩ := by
      funext t
      cases t <;> rfl
    rw [hnew]
    exact .init
  | succ m ih =>
    intro hm
    obtain ⟨result, hbefore⟩ := ih (Nat.le_of_succ_le hm)
    have hmax : maxRefCount = 9223372036854775807 := rfl
    have hafter := Machine.reachable_of_silentRun (t := none) [.clone, .access] hbefore
      (silentRun_clone hm (Nat.succ_pos m))
    rw [Machine.put, update_clones_none, addUsize_of_lt (by omega)] at hafter
    exact ⟨_, hafter⟩

/-- Beside these handles any number of clones waits to abort, as long as `strong_count` does not
wrap. -/
theorem reachable_clones (n : ℕ) : ∀ k, k ≤ n → k ≤ maxRefCount + 1 →
    ∃ result, (system (Option (Fin n)) 7).Reachable
      ⟨holding ((maxRefCount + 1 + k) % 2 ^ 64) (maxRefCount + 1) k,
        clones n k ⟨.idle, result⟩⟩ := by
  have hmax : maxRefCount = 9223372036854775807 := rfl
  intro k
  induction k with
  | zero =>
    intro _ _
    rw [Nat.add_zero, Nat.mod_eq_of_lt (by omega)]
    exact reachable_handles n maxRefCount le_rfl
  | succ k ih =>
    intro hn hk
    obtain ⟨result, hbefore⟩ := ih (Nat.le_of_succ_le hn) (Nat.le_of_succ_le hk)
    rw [Nat.mod_eq_of_lt (by omega)] at hbefore
    have hidle : clones n k ⟨.idle, result⟩ (some ⟨k, hn⟩) = ⟨.idle, none⟩ := by simp [clones]
    have hafter := Machine.reachable_of_silentRun (t := some ⟨k, hn⟩) [.clone, .access] hbefore (by
      show (machine _ ℕ).silentRun _ _ (_, clones n k ⟨.idle, result⟩ (some ⟨k, hn⟩)) = _
      rw [hidle]
      exact silentRun_overflow (by omega) (Nat.succ_pos maxRefCount))
    rw [Machine.put, update_clones_some] at hafter
    exact ⟨_, hafter⟩

end SyncPrimitives.Arc
