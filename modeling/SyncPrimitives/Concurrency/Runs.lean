import Mathlib.Logic.Basic
import Mathlib.Tactic.SplitIfs

/-!
# Runs of a labelled transition system

A `System` is an initial state and a partial step function: `step s i = some s'` says that in the
state `s` the step labelled `i` is enabled and leads to `s'`. A run is a sequence of steps from the
initial state. `ReachableWhen` collects the states at the end of the runs all of whose steps meet a
condition on the state before the step and the label; `Reachable` is the case without a condition.

The induction over runs is stated once, as `ReachableWhen.invariant`: a predicate that holds of the
initial state and is kept by every step that meets the condition holds of every state reached.
`ReachableWhen.map` carries a run of one system to a run of another along a function of the states
that sends every step to a step or to a stutter. `recording` adds a record to the states, for
properties that speak of earlier states of the run. `exec` runs a list of labels, so that a run on
fixed labels is evaluated rather than built by hand (`exists_reachableWhen_of_exec`).
-/

set_option autoImplicit false
set_option relaxedAutoImplicit false

namespace SyncPrimitives.Concurrency

/-- A labelled transition system with one initial state and computed steps. -/
structure System (σ ι : Type*) where
  init : σ
  step : σ → ι → Option σ

namespace System

variable {σ ι τ κ : Type*} (M : System σ ι)

/-- The states at the end of the runs all of whose steps meet the condition `ok` on the state before
the step and the label. -/
inductive ReachableWhen (ok : σ → ι → Prop) : σ → Prop
  | init : ReachableWhen ok M.init
  | step {s s' : σ} {i : ι} (run : ReachableWhen ok s) (meets : ok s i)
      (moves : M.step s i = some s') : ReachableWhen ok s'

/-- The states at the end of some run. -/
def Reachable (s : σ) : Prop := M.ReachableWhen (fun _ _ ↦ True) s

variable {M}

/-- The invariant rule. Assumes: the predicate holds of the initial state, and every step that meets
the condition and leaves a state reached by a run keeps it. -/
theorem ReachableWhen.invariant {ok : σ → ι → Prop} {P : σ → Prop} (hinit : P M.init)
    (hstep : ∀ s i s', M.ReachableWhen ok s → P s → ok s i → M.step s i = some s' → P s')
    {s : σ} (h : M.ReachableWhen ok s) : P s := by
  induction h with
  | init => exact hinit
  | step run meets moves ih => exact hstep _ _ _ run ih meets moves

/-- A weaker condition on the steps admits more runs. -/
theorem ReachableWhen.mono {ok ok' : σ → ι → Prop} (hok : ∀ s i, ok s i → ok' s i) {s : σ}
    (h : M.ReachableWhen ok s) : M.ReachableWhen ok' s := by
  induction h with
  | init => exact .init
  | step _ meets moves ih => exact .step ih (hok _ _ meets) moves

/-- A run under a condition is a run. -/
theorem ReachableWhen.reachable {ok : σ → ι → Prop} {s : σ} (h : M.ReachableWhen ok s) :
    M.Reachable s :=
  h.mono fun _ _ _ ↦ trivial

/-- Projection of runs. Assumes: the function sends the initial state to the initial state, and
every step that meets `ok` to a stutter or to a step that meets `ok'`. -/
theorem ReachableWhen.map {N : System τ κ} {ok : σ → ι → Prop} {ok' : τ → κ → Prop} (f : σ → τ)
    (hinit : f M.init = N.init)
    (hstep : ∀ s i s', M.ReachableWhen ok s → ok s i → M.step s i = some s' →
      f s' = f s ∨ ∃ j, ok' (f s) j ∧ N.step (f s) j = some (f s'))
    {s : σ} (h : M.ReachableWhen ok s) : N.ReachableWhen ok' (f s) := by
  induction h with
  | init => rw [hinit]; exact .init
  | step run meets moves ih =>
    rcases hstep _ _ _ run meets moves with hstutter | ⟨j, hj, hmove⟩
    · rw [hstutter]; exact ih
    · exact .step ih hj hmove

/-! ### Records -/

section Records

variable {ρ : Type*}

variable (M) in
/-- The system with a record of its runs, to which every step adds a note. -/
def recording (start : ρ) (note : ρ → σ → ι → σ → ρ) : System (σ × ρ) ι where
  init := (M.init, start)
  step := fun x i ↦ (M.step x.1 i).map fun s' ↦ (s', note x.2 x.1 i s')

variable {start : ρ} {note : ρ → σ → ι → σ → ρ}

/-- A recorded step is a step with its note. -/
theorem recording_step {x x' : σ × ρ} {i : ι} (h : (M.recording start note).step x i = some x') :
    M.step x.1 i = some x'.1 ∧ x'.2 = note x.2 x.1 i x'.1 := by
  obtain ⟨s', hmove, rfl⟩ := Option.map_eq_some_iff.mp h
  exact ⟨hmove, rfl⟩

/-- A recorded run is a run. -/
theorem ReachableWhen.of_recording {ok : σ → ι → Prop} {x : σ × ρ}
    (h : (M.recording start note).ReachableWhen (fun x i ↦ ok x.1 i) x) :
    M.ReachableWhen ok x.1 :=
  h.map Prod.fst rfl fun _ i _ _ hmeets hmove ↦ .inr ⟨i, hmeets, (recording_step hmove).1⟩

theorem Reachable.of_recording {x : σ × ρ} (h : (M.recording start note).Reachable x) :
    M.Reachable x.1 :=
  ReachableWhen.of_recording (h.mono fun _ _ ↦ id)

end Records

variable (M)

/-- The state after a list of labels, if every one of them meets the condition and is enabled in
turn. -/
def exec (ok : σ → ι → Prop) [∀ s i, Decidable (ok s i)] : σ → List ι → Option σ
  | s, [] => some s
  | s, i :: rest => if ok s i then (M.step s i).bind fun s' ↦ exec ok s' rest else none

variable {M} (ok : σ → ι → Prop) [∀ s i, Decidable (ok s i)]

variable {ok} in
/-- The end of an executed list of labels is reached whenever its start is. -/
theorem reachableWhen_of_exec {s s' : σ} (labels : List ι) (h : M.ReachableWhen ok s)
    (hexec : M.exec ok s labels = some s') : M.ReachableWhen ok s' := by
  induction labels generalizing s with
  | nil =>
    simp only [exec, Option.some.injEq] at hexec
    exact hexec ▸ h
  | cons i rest ih =>
    simp only [exec] at hexec
    split_ifs at hexec with hmeets
    obtain ⟨middle, hmove, hrest⟩ := Option.bind_eq_some_iff.mp hexec
    exact ih (.step h hmeets hmove) hrest

/-- A list of labels whose execution ends in a state with a decidable property shows that a run
ends in such a state. -/
theorem exists_reachableWhen_of_exec {P : σ → Prop} [DecidablePred P] (labels : List ι)
    (h : (M.exec ok M.init labels).any (fun s ↦ decide (P s)) = true) :
    ∃ s, M.ReachableWhen ok s ∧ P s := by
  cases hexec : M.exec ok M.init labels with
  | none => rw [hexec] at h; cases h
  | some s =>
    rw [hexec] at h
    exact ⟨s, reachableWhen_of_exec labels .init hexec, of_decide_eq_true h⟩

/-- The same for a property of the state and of the one after a last step. -/
theorem exists_move_of_exec {P : σ → σ → Prop} [∀ s s', Decidable (P s s')] (labels : List ι)
    (i : ι)
    (h : (M.exec ok M.init labels).any (fun s ↦ (M.step s i).any fun s' ↦ decide (P s s')) = true) :
    ∃ s s', M.ReachableWhen ok s ∧ M.step s i = some s' ∧ P s s' := by
  obtain ⟨s, hexec, hs⟩ := (Option.any_eq_true ..).mp h
  obtain ⟨s', hmove, hP⟩ := (Option.any_eq_true ..).mp hs
  exact ⟨s, s', reachableWhen_of_exec labels .init hexec, hmove, of_decide_eq_true hP⟩

end System

end SyncPrimitives.Concurrency
