import SyncPrimitives.Concurrency.ThreadPool

/-!
# Runs that can always be finished

`Continues ok s s'` says that steps which meet the condition `ok` lead from `s` to `s'`. A program
is free of deadlocks and of dead ends if from every state reached such steps lead to a goal. That
follows by descent (`exists_goal`): whenever the goal is not reached, some steps lower a measure.
For a machine the measure is the total of a weight of the local states, and `exists_descent` is the
descent by one step of one thread: the signal may wake others, which must not gain weight.
-/

set_option autoImplicit false
set_option relaxedAutoImplicit false

namespace SyncPrimitives.Concurrency

open Function

namespace System

variable {σ ι : Type*} {M : System σ ι} {ok ok' : σ → ι → Prop} {s s' s'' : σ}

variable (M) in
/-- Steps that meet the condition lead from one state to another. -/
inductive Continues (ok : σ → ι → Prop) (s : σ) : σ → Prop
  | refl : Continues ok s s
  | step {s' s'' : σ} {i : ι} (path : Continues ok s s') (meets : ok s' i)
      (moves : M.step s' i = some s'') : Continues ok s s''

theorem Continues.single {i : ι} (hmeets : ok s i) (hmove : M.step s i = some s') :
    M.Continues ok s s' :=
  .step .refl hmeets hmove

theorem Continues.trans (h : M.Continues ok s s') (h' : M.Continues ok s' s'') :
    M.Continues ok s s'' := by
  induction h' with
  | refl => exact h
  | step _ meets moves ih => exact .step ih meets moves

/-- What every step keeps holds at the end if it holds at the start. -/
theorem Continues.invariant {P : σ → Prop} (h : M.Continues ok s s') (hstart : P s)
    (hstep : ∀ s i s', P s → M.step s i = some s' → P s') : P s' := by
  induction h with
  | refl => exact hstart
  | step _ _ moves ih => exact hstep _ _ _ ih moves

/-- A run goes on along steps that meet its own condition. -/
theorem ReachableWhen.continues (hrun : M.ReachableWhen ok s) (h : M.Continues ok' s s')
    (hok : ∀ s i, ok' s i → ok s i) : M.ReachableWhen ok s' := by
  induction h with
  | refl => exact hrun
  | step _ meets moves ih => exact .step ih (hok _ _ meets) moves

/-- The rule of descent. Assumes: the steps of a continuation meet the condition of the runs, and
from every state of a run that is no goal a continuation leads to a state of smaller measure. -/
theorem ReachableWhen.exists_goal (μ : σ → ℕ) (goal : σ → Prop)
    (hok : ∀ s i, ok' s i → ok s i)
    (hdescent : ∀ s, M.ReachableWhen ok s → ¬ goal s → ∃ s', M.Continues ok' s s' ∧ μ s' < μ s)
    (hrun : M.ReachableWhen ok s) : ∃ s', M.Continues ok' s s' ∧ goal s' := by
  induction hn : μ s using Nat.strong_induction_on generalizing s with
  | _ n ih =>
    by_cases hgoal : goal s
    · exact ⟨s, .refl, hgoal⟩
    · obtain ⟨middle, hpath, hless⟩ := hdescent s hrun hgoal
      obtain ⟨s', hrest, hreached⟩ := ih (μ middle) (hn ▸ hless) (hrun.continues hpath hok) rfl
      exact ⟨s', hpath.trans hrest, hreached⟩

end System

namespace Machine

variable {Tid Shared Local Choice Addr : Type*} [DecidableEq Tid] [DecidableEq Addr]
  {M : Machine Tid Shared Local Choice Addr}

variable [Fintype Tid] {start : Pool Tid Shared Local} {p : Pool Tid Shared Local} {t : Tid}
  {choice : Choice} {after : Shared} {moved : Local} {signal : Signal Tid Addr}

/-- A step of one thread that sends no signal is a step of the pool. -/
theorem step_of_silent
    (h : M.step t p.shared (p.threads t) choice = some (after, moved, .silent)) :
    (M.system start).step p ⟨t, choice, none⟩ = some ⟨after, update p.threads t moved⟩ := by
  simp only [system, h, Option.bind_some, deliver, Option.map_some]

/-- Descent by one step of one thread. Assumes: waking and unparking add no weight, and the thread
loses weight. -/
theorem exists_descent {w : Local → ℕ}
    (hwake : ∀ a addr, M.asleepOn a = some addr → w (M.wake a) ≤ w a)
    (hunpark : ∀ a, w (M.unpark a) ≤ w a)
    (h : M.step t p.shared (p.threads t) choice = some (after, moved, signal))
    (hless : w moved < w (p.threads t)) :
    ∃ woken p', (M.system start).step p ⟨t, choice, woken⟩ = some p' ∧
      total w p'.threads < total w p.threads := by
  obtain ⟨threads, hdelivered⟩ := M.exists_delivered signal (update p.threads t moved)
  obtain ⟨woken, hmove⟩ : ∃ woken,
      (M.system start).step p ⟨t, choice, woken⟩ = some ⟨after, threads⟩ :=
    exists_step h hdelivered
  have hwoken : total w threads ≤ total w (update p.threads t moved) :=
    hdelivered.le_total hwake hunpark
  have hupdate := total_update w p.threads t moved
  exact ⟨woken, _, hmove, by show total w threads < _; omega⟩

end Machine

end SyncPrimitives.Concurrency
