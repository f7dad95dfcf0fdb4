import SyncPrimitives.Concurrency.ThreadPool
import Mathlib.Computability.StateTransition

/-!
# Calls run one at a time

`Machine.alone` is the step of a thread while nobody else moves. A call that runs alone to its end
is the evaluation of this step in the sense of `StateTransition.eval`: it ends where the step is
`none`, which is where the call has returned or where it blocks. The steps of a thread alone are
steps of the whole pool (`Machine.exists_reachable_alone`). `Machine.solo` is the same with the
whole pool for the state.

An `Object` is what a program does when its calls are run one after the other: a call leads from a
state to a state and returns a result. `Object.Runs` are the finite sequences of calls all of which
meet a condition. A simulation between two objects carries the sequences of calls of one with their
results to the other (`Object.Runs.simulate`).
-/

set_option autoImplicit false
set_option relaxedAutoImplicit false

namespace SyncPrimitives.Concurrency

open Function Relation StateTransition

/-- A run that stays where it is does not end. -/
theorem not_mem_eval_of_loop {State : Type*} {f : State → Option State} {a b : State}
    (hloop : f a = some a) : b ∉ eval f a := by
  intro hends
  obtain ⟨hreaches, hstuck⟩ := mem_eval.mp hends
  have hstays (c : State) (hc : Reaches f a c) : c = a := by
    induction hc with
    | refl => rfl
    | tail _ hstep ih =>
      subst ih
      exact Option.some.inj (hstep.symm.trans hloop)
  rw [hstays b hreaches, hloop] at hstuck
  cases hstuck

/-! ### A thread that runs alone -/

namespace Machine

variable {Tid Shared Local Choice Addr : Type*} (M : Machine Tid Shared Local Choice Addr)

/-- The step of a thread while nobody else moves. -/
def alone (t : Tid) (choice : Choice) (state : Shared × Local) : Option (Shared × Local) :=
  (M.step t state.1 state.2 choice).map fun (shared, moved, _) ↦ (shared, moved)

variable {M} {t : Tid} {choice : Choice}

theorem alone_eq_some_iff {state after : Shared × Local} :
    M.alone t choice state = some after ↔
      ∃ signal, M.step t state.1 state.2 choice = some (after.1, after.2, signal) := by
  simp only [alone, Option.map_eq_some_iff, Prod.exists]
  constructor
  · rintro ⟨shared, moved, signal, hstep, rfl⟩
    exact ⟨signal, hstep⟩
  · rintro ⟨signal, hstep⟩
    exact ⟨after.1, after.2, signal, hstep, rfl⟩

variable (M) in
/-- A step of a thread that asks nothing of the others. -/
def silentStep (t : Tid) (choice : Choice) (state : Shared × Local) : Option (Shared × Local) :=
  match M.step t state.1 state.2 choice with
  | some (after, moved, .silent) => some (after, moved)
  | _ => none

theorem step_of_silentStep {state after : Shared × Local}
    (h : M.silentStep t choice state = some after) :
    M.step t state.1 state.2 choice = some (after.1, after.2, .silent) := by
  unfold silentStep at h
  split at h
  case h_1 hstep =>
    obtain rfl := Option.some.inj h
    exact hstep
  case h_2 => cases h

variable (M) in
/-- Several steps of a thread that ask nothing of the others. -/
def silentRun (t : Tid) : List Choice → Shared × Local → Option (Shared × Local)
  | [], state => some state
  | choice :: rest, state => (M.silentStep t choice state).bind (silentRun t rest)

section Delivery

variable [DecidableEq Tid] [DecidableEq Addr]

/-- A delivery leaves its sender as it is. Assumes: a sender that wakes others is awake, and it
unparks another thread. -/
theorem Delivered.self_eq {signal : Signal Tid Addr} {f f' : Tid → Local} {moved : Local}
    (h : M.Delivered signal (update f t moved) f')
    (hawake : signal = .silent ∨ M.asleepOn moved = none ∧ signal ≠ .unpark t) : f' t = moved := by
  have hself : update f t moved t = moved := update_self ..
  cases signal with
  | silent => rw [h.silent_eq, hself]
  | wakeOne addr =>
    obtain ⟨hnone, -⟩ := hawake.resolve_left nofun
    rcases h.wakeOne_cases with ⟨rfl, -⟩ | ⟨u, hu, rfl⟩
    · exact hself
    · have hut : t ≠ u := by
        rintro rfl
        rw [hself, hnone] at hu
        cases hu
      rw [update_of_ne hut, hself]
  | wakeAll addr =>
    obtain ⟨hnone, -⟩ := hawake.resolve_left nofun
    have hnot : M.asleepOn (update f t moved t) ≠ some addr := by rw [hself, hnone]; exact nofun
    rw [h.wakeAll_eq]
    exact (if_neg hnot).trans hself
  | unpark u =>
    obtain ⟨-, hother⟩ := hawake.resolve_left nofun
    have hut : t ≠ u := fun heq ↦ hother (congrArg Signal.unpark heq.symm)
    rw [h.unpark_eq, update_of_ne hut, hself]

variable [Fintype Tid] {start : Pool Tid Shared Local}

variable (M) in
/-- The step of the whole pool while only one thread moves. Nobody is asleep on an address it
wakes. -/
def solo (t : Tid) (choice : Choice) (p : Pool Tid Shared Local) : Option (Pool Tid Shared Local) :=
  (M.system p).step p ⟨t, choice, none⟩

theorem solo_eq_some {p : Pool Tid Shared Local} {after : Shared} {moved : Local}
    (h : M.step t p.shared (p.threads t) choice = some (after, moved, .silent)) :
    M.solo t choice p = some ⟨after, update p.threads t moved⟩ := by
  simp [solo, system, deliver, h]

theorem solo_eq_none {p : Pool Tid Shared Local}
    (h : M.step t p.shared (p.threads t) choice = none) : M.solo t choice p = none := by
  simp [solo, system, h]

/-- The pool with another shared state and another state of one thread. -/
def put (p : Pool Tid Shared Local) (t : Tid) (state : Shared × Local) : Pool Tid Shared Local where
  shared := state.1
  threads := update p.threads t state.2

omit [Fintype Tid] in
theorem put_self (p : Pool Tid Shared Local) : put p t (p.shared, p.threads t) = p :=
  Pool.ext rfl (update_eq_self t p.threads)

theorem solo_put {p : Pool Tid Shared Local} {state after : Shared × Local}
    (h : M.silentStep t choice state = some after) :
    M.solo t choice (put p t state) = some (put p t after) := by
  have hstep : M.step t (put p t state).shared ((put p t state).threads t) choice =
      some (after.1, after.2, .silent) := by
    simpa [put] using step_of_silentStep h
  simpa [put] using solo_eq_some hstep

/-- What a thread does alone without a signal it does in the pool. -/
theorem reaches_put (p : Pool Tid Shared Local) {state after : Shared × Local}
    (h : Reaches (M.silentStep t choice) state after) :
    Reaches (M.solo t choice) (put p t state) (put p t after) :=
  ReflTransGen.lift (put p t) (fun _ _ hstep ↦ solo_put hstep) _ _ h

theorem reachable_put_of_silentRun {p : Pool Tid Shared Local} {choices : List Choice}
    {state after : Shared × Local} (h : (M.system start).Reachable (put p t state))
    (hrun : M.silentRun t choices state = some after) :
    (M.system start).Reachable (put p t after) := by
  induction choices generalizing state with
  | nil => exact Option.some.inj hrun ▸ h
  | cons choice rest ih =>
    obtain ⟨middle, hstep, hrest⟩ := Option.bind_eq_some_iff.mp hrun
    exact ih (.step h trivial (solo_put hstep)) hrest

/-- The pool after several silent steps of a thread is reached whenever the pool before them is. -/
theorem reachable_of_silentRun {p : Pool Tid Shared Local} (choices : List Choice)
    {after : Shared × Local} (h : (M.system start).Reachable p)
    (hrun : M.silentRun t choices (p.shared, p.threads t) = some after) :
    (M.system start).Reachable (put p t after) :=
  reachable_put_of_silentRun ((put_self p).symm ▸ h) hrun

/-- What a thread does alone it can do in the pool. Assumes: a thread that wakes others is awake
itself, and it unparks another thread. -/
theorem exists_reachable_alone
    (hawake : ∀ shared a after moved signal,
      M.step t shared a choice = some (after, moved, signal) →
        signal = .silent ∨ M.asleepOn moved = none ∧ signal ≠ .unpark t)
    {p : Pool Tid Shared Local} (h : (M.system start).Reachable p) {state : Shared × Local}
    (hrun : Reaches (M.alone t choice) (p.shared, p.threads t) state) :
    ∃ p', (M.system start).Reachable p' ∧ p'.shared = state.1 ∧ p'.threads t = state.2 := by
  induction hrun with
  | refl => exact ⟨p, h, rfl, rfl⟩
  | tail _ hstep ih =>
    obtain ⟨middle, hmiddle, hshared, hthread⟩ := ih
    obtain ⟨signal, hlocal⟩ := alone_eq_some_iff.mp hstep
    rw [← hshared, ← hthread] at hlocal
    rename_i after _
    obtain ⟨f, hdelivered⟩ := M.exists_delivered signal (update middle.threads t after.2)
    have hmove : ∃ woken, (M.system start).step middle ⟨t, choice, woken⟩ = some ⟨after.1, f⟩ :=
      exists_step hlocal hdelivered
    obtain ⟨woken, hmove⟩ := hmove
    refine ⟨⟨after.1, f⟩, .step hmiddle trivial hmove, rfl, ?_⟩
    exact hdelivered.self_eq (hawake _ _ _ _ _ hlocal)

end Delivery

end Machine

/-! ### Objects -/

/-- A program whose calls are run one at a time. -/
structure Object (State Call Result : Type*) where
  call : State → Call → State → Result → Prop

namespace Object

variable {State State' Call Result : Type*}

/-- The sequences of calls, each of which meets a condition on the state before it, with their
results. -/
inductive Runs (O : Object State Call Result) (ok : State → Call → Prop) :
    State → List Call → State → List Result → Prop
  | nil {s : State} : Runs O ok s [] s []
  | cons {s s' s'' : State} {call : Call} {calls : List Call} {result : Result}
      {results : List Result} (meets : ok s call) (returns : O.call s call s' result)
      (rest : Runs O ok s' calls s'' results) : Runs O ok s (call :: calls) s'' (result :: results)

variable {O : Object State Call Result} {A : Object State' Call Result}
  {ok : State → Call → Prop} {ok' : State' → Call → Prop}

/-- Two sequences of calls, one after the other. -/
theorem Runs.append {s s' s'' : State} {calls calls' : List Call} {results results' : List Result}
    (h : O.Runs ok s calls s' results) (h' : O.Runs ok s' calls' s'' results') :
    O.Runs ok s (calls ++ calls') s'' (results ++ results') := by
  induction h with
  | nil => exact h'
  | cons meets returns _ ih => exact .cons meets returns (ih h')

/-- A sequence of calls has one outcome. Assumes: every call has one outcome. -/
theorem Runs.unique
    (hcall : ∀ s call s₁ s₂ result₁ result₂, O.call s call s₁ result₁ → O.call s call s₂ result₂ →
      s₁ = s₂ ∧ result₁ = result₂)
    {s s₁ s₂ : State} {calls : List Call} {results₁ results₂ : List Result}
    (h₁ : O.Runs ok s calls s₁ results₁) (h₂ : O.Runs ok s calls s₂ results₂) :
    s₁ = s₂ ∧ results₁ = results₂ := by
  induction h₁ generalizing results₂ with
  | nil =>
    cases h₂
    exact ⟨rfl, rfl⟩
  | cons _ returns _ ih =>
    cases h₂ with
    | cons _ returns' rest' =>
      obtain ⟨rfl, rfl⟩ := hcall _ _ _ _ _ _ returns returns'
      obtain ⟨rfl, rfl⟩ := ih rest'
      exact ⟨rfl, rfl⟩

/-- Simulation of sequences of calls. Assumes: from related states, a call of the first object that
meets its condition meets the one of the second, which returns the same result and leads to a state
that is related again. -/
theorem Runs.simulate {R : State → State' → Prop}
    (hcall : ∀ s a call s' result, R s a → ok s call → O.call s call s' result →
      ok' a call ∧ ∃ a', A.call a call a' result ∧ R s' a')
    {s s' : State} {a : State'} {calls : List Call} {results : List Result}
    (h : O.Runs ok s calls s' results) (hrel : R s a) :
    ∃ a', A.Runs ok' a calls a' results ∧ R s' a' := by
  induction h generalizing a with
  | nil => exact ⟨a, .nil, hrel⟩
  | cons meets returns _ ih =>
    obtain ⟨hmeets, middle, hreturns, hmiddle⟩ := hcall _ _ _ _ _ hrel meets returns
    obtain ⟨last, hrest, hlast⟩ := ih hmiddle
    exact ⟨last, .cons hmeets hreturns hrest, hlast⟩

end Object

end SyncPrimitives.Concurrency
