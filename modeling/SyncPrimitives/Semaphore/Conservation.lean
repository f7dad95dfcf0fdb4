import SyncPrimitives.Semaphore.Permits

/-!
# Permits lost at the end of the count

`wait` and `try_wait` subtract from `count` only what they have seen there; `signal` adds to it
without looking. `withWraps` counts the increments that have found `count` at `u32::MAX`. The
balance of a run is exact: `count` and the permits acquired are the permits there have ever been,
less `2 ^ 32` for every such increment (`balance`). So a run keeps all its permits if and only if no
increment has wrapped `count` around (`permits_conserved`), and a semaphore that starts with
`u32::MAX` permits loses them to its first `signal` (`permits_lost`).
-/

set_option autoImplicit false
set_option relaxedAutoImplicit false

namespace SyncPrimitives.Semaphore

open Concurrency Function

section Steps

variable {Tid : Type} {before after : Shared} {th moved : Thread} {signal : Signal Tid Addr}
  {choice : Choice}

/-- Only the `fetch_add` of `signal` adds to the permits there have ever been. -/
theorem increments_of_step (h : step before th choice = some (after, moved, signal))
    (hcall : th.call ≠ .signal .fetchAdd) : after.increments = before.increments := by
  unfold step at h
  split at h
  case h_1 =>
    cases choice <;> simp only [idleStep, reduceCtorEq] at h
    all_goals
      obtain ⟨rfl, -, -⟩ := quiet_eq_some_iff.mp h
      rfl
  case h_2 pc _ =>
    cases pc <;> cases choice <;> simp only [waitStep, reduceCtorEq] at h
    all_goals try split_ifs at h
    all_goals
      obtain ⟨rfl, -, -⟩ := quiet_eq_some_iff.mp h
      rfl
  case h_3 pc _ =>
    cases pc <;> cases choice <;> simp only [tryWaitStep, reduceCtorEq] at h
    all_goals try split_ifs at h
    all_goals
      obtain ⟨rfl, -, -⟩ := quiet_eq_some_iff.mp h
      rfl
  case h_4 pc hpc =>
    cases pc with
    | fetchAdd => exact absurd hpc hcall
    | load =>
      cases choice <;> simp only [signalStep, reduceCtorEq] at h
      split_ifs at h
      all_goals
        obtain ⟨rfl, -, -⟩ := quiet_eq_some_iff.mp h
        rfl
    | wakeOne =>
      cases choice <;> simp only [signalStep, reduceCtorEq] at h
      obtain ⟨rfl, -, -⟩ := by simpa using h
      rfl

/-- What a step does to the permits: the `fetch_add` of `signal` adds one to `count`, every other
step leaves the sum of `count` and the acquisitions and does not add to `count`. -/
theorem permits_of_step (h : step before th choice = some (after, moved, signal)) :
    (th.call = .signal .fetchAdd ∧ after.count = addU32 before.count 1 ∧
        after.acquisitions = before.acquisitions ∧ after.increments = before.increments + 1) ∨
      (th.call ≠ .signal .fetchAdd ∧
        after.count ≤ before.count ∧
        after.count + after.acquisitions = before.count + before.acquisitions ∧
        after.increments = before.increments) := by
  by_cases hcall : th.call = .signal .fetchAdd
  · refine .inl ⟨hcall, ?_⟩
    cases choice <;> simp only [step, hcall, signalStep, reduceCtorEq] at h
    obtain ⟨rfl, -, -⟩ := quiet_eq_some_iff.mp h
    exact ⟨rfl, rfl, rfl⟩
  · have hincrements := increments_of_step h hcall
    refine .inr ⟨hcall, ?_⟩
    cases step_event h with
    | increment hafter =>
      rw [hafter] at hincrements
      exact absurd hincrements (Nat.succ_ne_self _)
    | acquire havailable hafter | tryAcquire havailable hafter =>
      rw [hafter]
      refine ⟨Nat.sub_le _ _, ?_, rfl⟩
      show before.count - 1 + (before.acquisitions + 1) = before.count + before.acquisitions
      omega
    | stay hafter | enter hafter | sleep _ hafter | wakeUp hafter | leave hafter | skip _ hafter
    | wakeOne hafter =>
      rw [hafter]
      exact ⟨le_rfl, rfl, rfl⟩

end Steps

section Runs

variable {Tid : Type} [DecidableEq Tid] [Fintype Tid] {initialCount : ℕ}

omit [DecidableEq Tid] [Fintype Tid] in
/-- `count` and the successful acquisitions are at least the permits there have ever been. -/
def Conserved (initialCount : ℕ) (p : Pool Tid Shared Thread) : Prop :=
  initialCount + p.shared.increments ≤ p.shared.count + p.shared.acquisitions

instance (p : Pool Tid Shared Thread) : Decidable (Conserved initialCount p) :=
  inferInstanceAs (Decidable (_ ≤ _))

/-- Whether the step is a `fetch_add` of `signal` that finds `count` at `u32::MAX`. -/
def Wraps (p : Pool Tid Shared Thread) (label : Label Tid Choice) : Prop :=
  (p.threads label.thread).call = .signal .fetchAdd ∧ p.shared.count = u32Max

instance (p : Pool Tid Shared Thread) (label : Label Tid Choice) : Decidable (Wraps p label) :=
  inferInstanceAs (Decidable (_ ∧ _))

/-- The threads of a semaphore, with the number of increments that have wrapped `count` around. -/
def withWraps (Tid : Type) [DecidableEq Tid] [Fintype Tid] (initialCount : ℕ) :
    System (Pool Tid Shared Thread × ℕ) (Label Tid Choice) :=
  (system Tid initialCount).recording 0 fun wraps p label _ ↦
    if Wraps p label then wraps + 1 else wraps

variable {x : Pool Tid Shared Thread × ℕ}

/-- The exact balance of a run. Assumes: the initial count is a word. -/
theorem balance (hinitial : initialCount ≤ u32Max) (h : (withWraps Tid initialCount).Reachable x) :
    x.1.shared.count ≤ u32Max ∧
      x.1.shared.count + x.1.shared.acquisitions + 2 ^ 32 * x.2 =
        initialCount + x.1.shared.increments := by
  refine h.invariant (P := fun x ↦ x.1.shared.count ≤ u32Max ∧
    x.1.shared.count + x.1.shared.acquisitions + 2 ^ 32 * x.2 =
      initialCount + x.1.shared.increments) ⟨hinitial, rfl⟩ ?_
  rintro x label x' - ⟨hword, hbalance⟩ - hmove
  obtain ⟨hstep, hwraps⟩ := System.recording_step hmove
  obtain ⟨moved, signal, hlocal, -⟩ := Machine.step_cases hstep
  rcases permits_of_step hlocal with ⟨hcall, hcount, hacquisitions, hincrements⟩ |
    ⟨hcall, hless, hsum, hincrements⟩
  · by_cases hmax : x.1.shared.count = u32Max
    · rw [if_pos ⟨hcall, hmax⟩] at hwraps
      rw [hmax, addU32, u32Max_eq] at hcount
      rw [u32Max_eq] at hmax ⊢
      omega
    · rw [if_neg fun hwrap ↦ hmax hwrap.2] at hwraps
      rw [u32Max_eq] at hword hmax ⊢
      rw [addU32_of_lt (by omega)] at hcount
      omega
  · rw [if_neg fun hwrap ↦ hcall hwrap.1] at hwraps
    omega

/-- A run keeps all its permits if and only if none of its increments has found `count` at
`u32::MAX`. Assumes: the initial count is a word. -/
theorem permits_conserved (hinitial : initialCount ≤ u32Max)
    (h : (withWraps Tid initialCount).Reachable x) : Conserved initialCount x.1 ↔ x.2 = 0 := by
  obtain ⟨hword, hbalance⟩ := balance hinitial h
  unfold Conserved
  omega

/-- `permits_conserved` on a run that takes one of `u32::MAX` permits and gives it back. -/
theorem permits_conserved_last_word : ∃ x : Pool (Fin 1) Shared Thread × ℕ,
    x.1.shared.count = u32Max ∧ x.1.shared.increments = 1 ∧ Conserved u32Max x.1 := by
  obtain ⟨x, hrun, hcount, hincrements, hwraps⟩ := System.exists_reachableWhen_of_exec
    (M := withWraps (Fin 1) u32Max) (fun _ _ ↦ True)
    (P := fun x ↦ x.1.shared.count = u32Max ∧ x.1.shared.increments = 1 ∧ x.2 = 0)
    [⟨0, .tryWait, none⟩, ⟨0, .go, none⟩, ⟨0, .go, none⟩, ⟨0, .signal, none⟩, ⟨0, .go, none⟩]
    (by decide)
  exact ⟨x, hcount, hincrements, (permits_conserved le_rfl hrun).mpr hwraps⟩

/-- A semaphore that starts with `u32::MAX` permits has none after a `signal`. -/
theorem permits_lost : ∃ p : Pool (Fin 1) Shared Thread,
    (system (Fin 1) u32Max).Reachable p ∧ p.shared.count = 0 ∧ ¬Conserved u32Max p :=
  System.exists_reachableWhen_of_exec (M := system (Fin 1) u32Max) (fun _ _ ↦ True)
    (P := fun p ↦ p.shared.count = 0 ∧ ¬Conserved u32Max p)
    [⟨0, .signal, none⟩, ⟨0, .go, none⟩] (by decide)

end Runs

end SyncPrimitives.Semaphore
