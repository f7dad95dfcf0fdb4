import SyncPrimitives.Concurrency.RaceFreedom
import SyncPrimitives.SpinLock.Exclusion

/-!
# The orderings of the spin lock

`access` gives every step of `lock` and of the drop of a `SpinGuard` the ordering written in the
source. The compare-and-exchange acquires only when it succeeds, and the store of zero releases; by
`owned_of_run` at most one guard is outstanding, so that the uses of the data through guards are
ordered by happens-before (`spin_data_raceFree`).
-/

set_option autoImplicit false
set_option relaxedAutoImplicit false

namespace SyncPrimitives.SpinLock

open Concurrency Memory
open MutexV1 (ThreadIds)

/-- The atomic word of a spin lock. -/
inductive Word
  | lockingThread
  deriving DecidableEq

/-- The access of a step to `locking_thread`. -/
def Call.access (shared : Shared) : Call → Choice → Access Word
  | .lock .loadOwner, .go => .load .lockingThread false
  | .lock .load, .go => .load .lockingThread false
  | .lock .compareExchangeWeak, .go =>
    if shared.lockingThread = 0 then .rmw .lockingThread true false
    else .load .lockingThread false
  | .lock .compareExchangeWeak, .spurious => .load .lockingThread false
  | .drop, .go => .store .lockingThread true
  | _, _ => .none

/-- The access of a step of a thread. -/
def access (shared : Shared) (th : Thread) (choice : Choice) : Access Word :=
  th.call.access shared choice

variable {Tid : Type} {ids : ThreadIds Tid} {self : Tid} {before after : Shared}
  {th moved : Thread} {choice : Choice}

/-- A step that keeps the guards and stores nothing is a passage. -/
theorem passage_stay {call : Call} (hcall : th.call = call) (hdrop : call ≠ .drop)
    (hcall' : moved.call ≠ .drop) (hguards : moved.guards = th.guards)
    (haccess : ¬ (call.access before choice).Stores .lockingThread) :
    Passage .lockingThread th.outstanding moved.outstanding (access before th choice) .none := by
  refine .stay ?_ (fun hne ↦ absurd rfl hne) ?_
  · rw [access, hcall]
    exact haccess
  · rw [outstanding_of_call hcall hdrop, outstanding_of_call rfl hcall', hguards]

theorem lockStep_passage {pc : LockPc} (hcall : th.call = .lock pc)
    (h : lockStep (ids.get self) before th pc choice = some (after, moved)) :
    Passage .lockingThread th.outstanding moved.outstanding (access before th choice) .none := by
  cases pc <;> cases choice <;> simp only [lockStep, reduceCtorEq] at h
  case loadOwner.go =>
    split_ifs at h
    all_goals
      obtain ⟨-, rfl⟩ := by simpa using h
      exact passage_stay hcall (by simp) (by simp [Thread.goto]) rfl id
  case load.go =>
    split_ifs at h
    all_goals obtain ⟨-, rfl⟩ := by simpa using h
    · exact passage_stay hcall (by simp) (by simp [Thread.goto]) rfl id
    · exact passage_stay hcall (by simp) (by simp [hcall]) rfl id
  case compareExchangeWeak.go =>
    split_ifs at h with hfree
    all_goals obtain ⟨-, rfl⟩ := by simpa using h
    · refine .enter ?_ rfl ?_
      · rw [access, hcall, Call.access, if_pos hfree]
        exact ⟨rfl, rfl⟩
      · rw [outstanding_of_call hcall (by simp)]
        rfl
    · refine passage_stay hcall (by simp) (by simp [Thread.goto]) rfl ?_
      rw [Call.access, if_neg hfree]
      exact id
  case compareExchangeWeak.spurious =>
    obtain ⟨-, rfl⟩ := by simpa using h
    exact passage_stay hcall (by simp) (by simp [Thread.goto]) rfl id

/-- Every step of a thread is a passage: the guard is taken by the acquiring compare-and-exchange
and given up by the releasing store. -/
theorem step_passage (h : step (ids.get self) before th choice = some (after, moved)) :
    Passage .lockingThread th.outstanding moved.outstanding (access before th choice) .none := by
  unfold step at h
  split at h
  case h_1 hcall =>
    cases choice <;> simp only [idleStep, reduceCtorEq] at h
    case lock =>
      obtain ⟨-, rfl⟩ := by simpa using h
      exact passage_stay hcall (by simp) (by simp [Thread.goto]) rfl id
    case drop =>
      split_ifs at h with hguard
      obtain ⟨-, rfl⟩ := by simpa using h
      refine .stay ?_ (fun hne ↦ absurd rfl hne) ?_
      · rw [access, hcall]
        exact id
      · rw [outstanding_of_call hcall (by simp)]
        exact Nat.sub_add_cancel hguard
  case h_2 hcall => exact lockStep_passage hcall h
  case h_3 hcall =>
    cases choice <;> simp only [dropStep, reduceCtorEq] at h
    case go =>
      obtain ⟨-, rfl⟩ := by simpa using h
      refine .leave ?_ rfl ?_
      · rw [access, hcall]
        exact ⟨rfl, rfl⟩
      · show th.guards + 1 = th.outstanding
        rw [Thread.outstanding, hcall, if_pos rfl]

/-- No run of the spin lock has a data race on the data behind it: of any two uses through guards by
different threads, one of them a store, the earlier one happens before the later one. -/
theorem spin_data_raceFree {α : Type} [DecidableEq Tid] [Fintype Tid] (ids : ThreadIds Tid)
    (data : α) (x : Pool Tid (Guarded.Shared Shared α) (Guarded.Local Thread α) × Trace Tid Word)
    (h : (tracing (systemWithData ids data) (stepEvent (Guarded.access access)
      Guarded.touch)).Reachable x) : RaceFree x.2 := by
  refine Guarded.raceFree Thread.outstanding .lockingThread (fun _ ↦ rfl) (fun _ ↦ rfl)
    (fun _ ↦ rfl) (fun p hrun t u ht ↦ ?_) (fun th howns ↦ ?_) ?_ h
  · have howned := owned_of_run hrun
    exact ⟨howned.outstanding_eq_one ht, fun hu ↦ howned.eq_of_outstanding ht hu⟩
  · exact Nat.add_pos_left (of_decide_eq_true howns) _
  · intro t before th choice after moved signal hstep
    obtain ⟨⟨after', moved'⟩, hlocal, hsame⟩ := Option.map_eq_some_iff.mp hstep
    obtain ⟨-, rfl, -⟩ := by simpa using hsame
    exact step_passage hlocal

/-- `spin_data_raceFree` on a run in which each of two threads adds to the data under the lock, so
that two stores by different threads are ordered. -/
theorem spin_data_raceFree_two_threads :
    ∃ x : Pool (Fin 2) (Guarded.Shared Shared ℕ) (Guarded.Local Thread ℕ) × Trace (Fin 2) Word,
      ((x.2[5]?.map Event.touch = some .write ∧ x.2[13]?.map Event.touch = some .write) ∧
        x.1.shared.data = 12) ∧ RaceFree x.2 := by
  obtain ⟨x, hrun, hx⟩ := System.exists_reachableWhen_of_exec
    (M := tracing (systemWithData MutexV1.twoThreadIds 5)
      (stepEvent (Guarded.access access) Guarded.touch)) (fun _ _ ↦ True)
    (P := fun x ↦ (x.2[5]?.map Event.touch = some .write ∧
      x.2[13]?.map Event.touch = some .write) ∧ x.1.shared.data = 12)
    ([⟨0, .lock .lock, none⟩] ++ List.replicate 3 ⟨0, .lock .go, none⟩ ++
      [⟨0, .load, none⟩, ⟨0, .store (· + 3), none⟩, ⟨0, .lock .drop, none⟩, ⟨0, .lock .go, none⟩] ++
      [⟨1, .lock .lock, none⟩] ++ List.replicate 3 ⟨1, .lock .go, none⟩ ++
      [⟨1, .load, none⟩, ⟨1, .store (· + 4), none⟩]) (by decide)
  exact ⟨x, hx, spin_data_raceFree MutexV1.twoThreadIds 5 x hrun⟩

end SyncPrimitives.SpinLock
