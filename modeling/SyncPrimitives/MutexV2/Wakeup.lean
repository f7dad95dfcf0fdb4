import SyncPrimitives.MutexV2.Model
import Mathlib.Tactic.SplitIfs

/-!
# Wake-ups of the three-valued mutex

A thread that takes the fast path or `try_lock` installs `LOCKED` and wakes nobody when it releases.
The duty to wake the remaining sleepers is then carried by a thread awake in the slow loop, whose
acquiring compare-and-exchange installs `LOCKED_HAS_WAITERS`, or by a drop that has read
`LOCKED_HAS_WAITERS` and has yet to wake. `WakeMove` lists what one step does to the word and to the
place of its thread, `Owed` is the invariant on the counts, and `sleeper_owed` is the result.
-/

set_option autoImplicit false
set_option relaxedAutoImplicit false

namespace SyncPrimitives.MutexV2

open Concurrency Function MutexCommon

/-! ### Places -/

/-- The positions that matter for wake-ups. -/
inductive Place
  | elsewhere
  | slowLoop
  | sleeping
  | waking
  deriving DecidableEq

/-- The place of a position. -/
def Call.place : Call → Place
  | .lock .slowCompareExchange => .slowLoop
  | .lock .wait => .slowLoop
  | .lock .asleep => .sleeping
  | .drop .wakeOne => .waking
  | _ => .elsewhere

/-- The place of a thread. -/
def Thread.place (th : Thread) : Place := th.call.place

/-- The number of threads at a place. -/
def threadsAt {Tid : Type} [Fintype Tid] (p : Pool Tid Shared Thread) (place : Place) : ℕ :=
  countAt Thread.place place p.threads

theorem Place.forall {P : Place → Prop} :
    (∀ place, P place) ↔ P .elsewhere ∧ P .slowLoop ∧ P .sleeping ∧ P .waking := by
  constructor
  · intro h
    exact ⟨h _, h _, h _, h _⟩
  · rintro ⟨h₁, h₂, h₃, h₄⟩ place
    cases place <;> assumption

section Local

variable {th : Thread}

theorem place_of_call {call : Call} (hcall : th.call = call) : th.place = call.place := by
  rw [Thread.place, hcall]

@[simp] theorem place_spinLoop {counter : ℕ} : (spinLoop th counter).place = .elsewhere := by
  unfold spinLoop
  split_ifs <;> rfl

/-- A thread is asleep exactly at the place of a sleeper. -/
theorem asleepOn_state_iff : asleepOn th = some .state ↔ th.place = .sleeping := by
  unfold asleepOn Thread.place
  cases th.call with
  | lock pc => cases pc <;> simp [Call.place]
  | drop pc => cases pc <;> simp [Call.place]
  | _ => simp [Call.place]

/-- A woken thread is awake in the slow loop. -/
theorem place_wake (h : th.place = .sleeping) : (wake th).place = .slowLoop := by
  have hasleep := asleepOn_state_iff.mpr h
  unfold asleepOn at hasleep
  split at hasleep
  · rename_i hcall
    simp [wake, hcall, Thread.place, Thread.goto, Call.place]
  · cases hasleep

end Local

/-! ### What a step does to the place of its thread -/

/-- The steps that matter for wake-ups. -/
inductive WakeMove {Tid : Type} (before : Shared) (th : Thread) (after : Shared) (moved : Thread)
    (signal : Signal Tid Addr) : Prop
  | stay (hstate : after.state = before.state) (hplace : moved.place = th.place)
      (hsignal : signal = .silent)
  | acquireFast (hfree : before.state = unlocked) (hstate : after.state = locked)
      (hbefore : th.place = .elsewhere) (hplace : moved.place = .elsewhere)
      (hsignal : signal = .silent)
  | enterSlowLoop (hstate : after.state = before.state) (hbefore : th.place = .elsewhere)
      (hplace : moved.place = .slowLoop) (hsignal : signal = .silent)
  | acquireSlow (hfree : before.state = unlocked) (hstate : after.state = lockedHasWaiters)
      (hbefore : th.place = .slowLoop) (hplace : moved.place = .elsewhere)
      (hsignal : signal = .silent)
  | fallAsleep (hwaiters : before.state = lockedHasWaiters) (hstate : after.state = before.state)
      (hbefore : th.place = .slowLoop) (hplace : moved.place = .sleeping)
      (hsignal : signal = .silent)
  | returnSpuriously (hstate : after.state = before.state) (hbefore : th.place = .sleeping)
      (hplace : moved.place = .slowLoop) (hsignal : signal = .silent)
  | swap (hstate : after.state = unlocked) (hbefore : th.place = .elsewhere)
      (hplace : moved.place = if before.state = lockedHasWaiters then .waking else .elsewhere)
      (hsignal : signal = .silent)
  | wakeOne (hstate : after.state = before.state) (hbefore : th.place = .waking)
      (hplace : moved.place = .elsewhere) (hsignal : signal = .wakeOne .state)

section Steps

variable {Tid : Type} {before after : Shared} {th moved : Thread} {signal : Signal Tid Addr}
  {choice : Choice}

theorem quiet_eq_some :
    quiet before th = some (after, moved, signal) ↔
      before = after ∧ th = moved ∧ .silent = signal := by
  simp [quiet]

theorem lockStep_wakeMove {pc : LockPc} (hcall : th.call = .lock pc)
    (h : lockStep before th pc choice = some (after, moved, signal)) :
    WakeMove before th after moved signal := by
  have hbefore := place_of_call hcall
  cases pc <;> cases choice <;> simp only [lockStep, reduceCtorEq] at h
  case acquiredCheck.go =>
    obtain ⟨rfl, rfl, rfl⟩ := quiet_eq_some.mp h
    refine .stay rfl ?_ rfl
    unfold acquiredCheck
    split_ifs <;> exact hbefore.symm
  case compareExchangeWeak.go =>
    split_ifs at h with hcas
    all_goals obtain ⟨rfl, rfl, rfl⟩ := quiet_eq_some.mp h
    · exact .acquireFast hcas rfl hbefore rfl rfl
    · exact .stay rfl (place_spinLoop.trans hbefore.symm) rfl
  case compareExchangeWeak.spurious =>
    obtain ⟨rfl, rfl, rfl⟩ := quiet_eq_some.mp h
    exact .stay rfl (place_spinLoop.trans hbefore.symm) rfl
  case spin.go counter bounded =>
    split_ifs at h
    all_goals obtain ⟨rfl, rfl, rfl⟩ := quiet_eq_some.mp h
    · exact .stay rfl hbefore.symm rfl
    · exact .stay rfl (place_spinLoop.trans hbefore.symm) rfl
  case compareExchange.go =>
    split_ifs at h with hcas
    all_goals obtain ⟨rfl, rfl, rfl⟩ := quiet_eq_some.mp h
    · exact .acquireFast hcas rfl hbefore rfl rfl
    · exact .enterSlowLoop rfl hbefore rfl rfl
  case slowCompareExchange.go =>
    split_ifs at h with hcas
    all_goals obtain ⟨rfl, rfl, rfl⟩ := quiet_eq_some.mp h
    · exact .acquireSlow hcas rfl hbefore rfl rfl
    · exact .stay rfl hbefore.symm rfl
  case wait.go =>
    split_ifs at h with hsame
    all_goals obtain ⟨rfl, rfl, rfl⟩ := quiet_eq_some.mp h
    · exact .fallAsleep hsame rfl hbefore rfl rfl
    · exact .stay rfl hbefore.symm rfl
  case wait.spurious =>
    obtain ⟨rfl, rfl, rfl⟩ := quiet_eq_some.mp h
    exact .stay rfl hbefore.symm rfl
  case asleep.spurious =>
    obtain ⟨rfl, rfl, rfl⟩ := quiet_eq_some.mp h
    exact .returnSpuriously rfl hbefore rfl rfl

theorem tryLockStep_wakeMove {pc : TryLockPc} (hcall : th.call = .tryLock pc)
    (h : tryLockStep before th pc choice = some (after, moved, signal)) :
    WakeMove before th after moved signal := by
  have hbefore := place_of_call hcall
  cases pc <;> cases choice <;> simp only [tryLockStep, reduceCtorEq] at h
  case acquiredCheck.go =>
    obtain ⟨rfl, rfl, rfl⟩ := quiet_eq_some.mp h
    refine .stay rfl ?_ rfl
    unfold acquiredCheck
    split_ifs <;> exact hbefore.symm
  case compareExchangeWeak.go =>
    split_ifs at h with hcas
    all_goals obtain ⟨rfl, rfl, rfl⟩ := quiet_eq_some.mp h
    · exact .acquireFast hcas rfl hbefore rfl rfl
    · exact .stay rfl hbefore.symm rfl
  case compareExchangeWeak.spurious =>
    obtain ⟨rfl, rfl, rfl⟩ := quiet_eq_some.mp h
    exact .stay rfl hbefore.symm rfl

theorem dropStep_wakeMove {pc : DropPc} (hcall : th.call = .drop pc)
    (h : dropStep before th pc choice = some (after, moved, signal)) :
    WakeMove before th after moved signal := by
  have hbefore := place_of_call hcall
  cases pc <;> cases choice <;> simp only [dropStep, reduceCtorEq] at h
  case removeAcquired.go =>
    obtain ⟨rfl, rfl, rfl⟩ := quiet_eq_some.mp h
    exact .stay rfl hbefore.symm rfl
  case swap.go =>
    obtain ⟨rfl, rfl, rfl⟩ := quiet_eq_some.mp h
    refine .swap rfl hbefore ?_ rfl
    split_ifs <;> rfl
  case wakeOne.go =>
    obtain ⟨rfl, rfl, rfl⟩ := by simpa using h
    exact .wakeOne rfl hbefore rfl rfl

theorem idleStep_wakeMove (hcall : th.call = .idle)
    (h : idleStep before th choice = some (after, moved, signal)) :
    WakeMove before th after moved signal := by
  have hbefore := place_of_call hcall
  cases choice with
  | call method =>
    cases method
    all_goals obtain ⟨rfl, rfl, rfl⟩ := quiet_eq_some.mp h
    all_goals exact .stay rfl hbefore.symm rfl
  | drop panicking =>
    simp only [idleStep] at h
    split_ifs at h
    obtain ⟨rfl, rfl, rfl⟩ := quiet_eq_some.mp h
    exact .stay rfl hbefore.symm rfl
  | clearPoison =>
    obtain ⟨rfl, rfl, rfl⟩ := quiet_eq_some.mp h
    exact .stay rfl rfl rfl
  | go => cases h
  | spurious => cases h

/-- Every step of a thread is one of the moves. -/
theorem step_wakeMove (h : step before th choice = some (after, moved, signal)) :
    WakeMove before th after moved signal := by
  unfold step at h
  split at h
  case h_1 hcall => exact idleStep_wakeMove hcall h
  case h_2 hcall => exact lockStep_wakeMove hcall h
  case h_3 hcall => exact tryLockStep_wakeMove hcall h
  case h_4 hcall =>
    split_ifs at h
    obtain ⟨rfl, rfl, rfl⟩ := quiet_eq_some.mp h
    exact .stay rfl (place_of_call hcall).symm rfl
  case h_5 hcall => exact dropStep_wakeMove hcall h

end Steps

/-! ### The invariant -/

/-- A sleeper is owed a wake-up: the word says that there are waiters, or a drop has yet to wake, or
a thread is awake in the slow loop. -/
def Owed (state : ℕ) (count : Place → ℕ) : Prop :=
  0 < count .sleeping →
    state = lockedHasWaiters ∨ 0 < count .waking ∨ 0 < count .slowLoop

section Pool

variable {Tid : Type} [DecidableEq Tid] [Fintype Tid]

/-- Moving one thread between places changes the counts of the two places by one. -/
theorem threadsAt_update {p : Pool Tid Shared Thread} {t : Tid} {moved : Thread}
    {place place' : Place} (hbefore : (p.threads t).place = place) (hafter : moved.place = place')
    (other : Place) :
    countAt Thread.place other (update p.threads t moved) + (if place = other then 1 else 0) =
      threadsAt p other + if place' = other then 1 else 0 :=
  countAt_update hbefore hafter other

/-- One step keeps the invariant. -/
theorem owed_step {p p' : Pool Tid Shared Thread} {label : Label Tid Choice}
    (howed : Owed p.shared.state (threadsAt p)) (hmove : (system Tid).step p label = some p') :
    Owed p'.shared.state (threadsAt p') := by
  obtain ⟨moved, signal, hlocal, hdelivered⟩ := Machine.step_cases hmove
  have hsilent (h : signal = .silent) (place : Place) :
      threadsAt p' place =
        countAt Thread.place place (update p.threads label.thread moved) := by
    subst h
    rw [threadsAt, hdelivered.silent_eq]
  simp only [Owed, lockedHasWaiters] at howed ⊢
  cases step_wakeMove hlocal with
  | stay hstate hplace hsignal =>
    have hsame : threadsAt p' = threadsAt p := by
      funext place
      have h := threadsAt_update (p := p) (t := label.thread) rfl hplace place
      rw [hsilent hsignal]
      omega
    rw [hsame, hstate]
    exact howed
  | acquireFast hfree hstate hbefore hplace hsignal =>
    have hcount := Place.forall.mp (threadsAt_update hbefore hplace)
    simp only [reduceCtorEq, if_true, if_false] at hcount
    simp only [unlocked] at hfree
    simp only [hsilent hsignal]
    omega
  | enterSlowLoop hstate hbefore hplace hsignal =>
    have hcount := Place.forall.mp (threadsAt_update hbefore hplace)
    simp only [reduceCtorEq, if_true, if_false] at hcount
    simp only [hsilent hsignal]
    omega
  | acquireSlow hfree hstate hbefore hplace hsignal =>
    exact fun _ ↦ .inl hstate
  | fallAsleep hwaiters hstate hbefore hplace hsignal =>
    exact fun _ ↦ .inl (hstate.trans hwaiters)
  | returnSpuriously hstate hbefore hplace hsignal =>
    have hcount := Place.forall.mp (threadsAt_update hbefore hplace)
    simp only [reduceCtorEq, if_true, if_false] at hcount
    simp only [hsilent hsignal]
    omega
  | swap hstate hbefore hplace hsignal =>
    simp only [hsilent hsignal]
    split_ifs at hplace with hwaiters
    all_goals
      have hcount := Place.forall.mp (threadsAt_update hbefore hplace)
      simp only [reduceCtorEq, if_true, if_false] at hcount
      simp only [lockedHasWaiters] at hwaiters
      omega
  | wakeOne hstate hbefore hplace hsignal =>
    have hcount := Place.forall.mp (threadsAt_update hbefore hplace)
    simp only [reduceCtorEq, if_true, if_false] at hcount
    subst hsignal
    rcases hdelivered.countAt_wakeOne (fun _ ↦ asleepOn_state_iff) (fun _ ↦ place_wake) with
      ⟨hthreads, hzero⟩ | hwoken
    · simp only [threadsAt, hthreads] at hcount ⊢
      omega
    · have hwoken := Place.forall.mp hwoken
      simp only [reduceCtorEq, if_true, if_false] at hwoken
      simp only [threadsAt] at hcount ⊢
      omega

/-- The invariant holds in every reachable state. -/
theorem owed {p : Pool Tid Shared Thread} (h : (system Tid).Reachable p) :
    Owed p.shared.state (threadsAt p) := by
  refine h.invariant (P := fun p ↦ Owed p.shared.state (threadsAt p)) ?_ ?_
  · intro hpos
    have hzero : threadsAt (new Tid) .sleeping = 0 :=
      countAt_eq_zero_iff.mpr fun _ ↦ by simp [new, Thread.place, Call.place]
    exact absurd hpos (by rw [system, Machine.system, hzero]; exact lt_irrefl 0)
  · intro p label p' _ howed _ hmove
    exact owed_step howed hmove

/-! ### Every sleeper is owed a wake-up -/

/-- Whether a position is inside `lock`. -/
def Call.insideLock : Call → Bool
  | .lock _ => true
  | _ => false

/-- Whether a position is inside the drop of a guard. -/
def Call.insideDrop : Call → Bool
  | .drop _ => true
  | _ => false

/-- Whether a position is awake inside the slow loop of `lock`. -/
def Call.awakeInSlowLoop : Call → Bool
  | .lock .slowCompareExchange => true
  | .lock .wait => true
  | _ => false

theorem place_eq_slowLoop_iff {th : Thread} : th.place = .slowLoop ↔ th.call.awakeInSlowLoop := by
  unfold Thread.place
  cases th.call with
  | lock pc => cases pc <;> simp [Call.place, Call.awakeInSlowLoop]
  | drop pc => cases pc <;> simp [Call.place, Call.awakeInSlowLoop]
  | _ => simp [Call.place, Call.awakeInSlowLoop]

theorem place_eq_waking_iff {th : Thread} : th.place = .waking ↔ th.call = .drop .wakeOne := by
  unfold Thread.place
  cases th.call with
  | lock pc => cases pc <;> simp [Call.place]
  | drop pc => cases pc <;> simp [Call.place]
  | _ => simp [Call.place]

/-- A thread that acquires from the slow loop installs `LOCKED_HAS_WAITERS`. -/
theorem state_of_acquire_slow {p p' : Pool Tid Shared Thread} {label : Label Tid Choice}
    (hmove : (system Tid).step p label = some p')
    (hslow : (p.threads label.thread).call.awakeInSlowLoop)
    (hacquired : (p'.threads label.thread).call = .acquired) :
    p'.shared.state = lockedHasWaiters := by
  obtain ⟨moved, signal, hlocal, hdelivered⟩ := Machine.step_cases hmove
  have hplace := place_eq_slowLoop_iff.mpr hslow
  have helse : (p'.threads label.thread).place = .elsewhere := by
    rw [Thread.place, hacquired]
    rfl
  have hsilent (h : signal = .silent) : moved.place = .elsewhere := by
    subst h
    rw [hdelivered.silent_eq, update_self] at helse
    exact helse
  cases step_wakeMove hlocal with
  | acquireSlow hfree hstate hbefore hafter hsignal => exact hstate
  | stay hstate hafter hsignal =>
    rw [hsilent hsignal, hplace] at hafter
    cases hafter
  | fallAsleep hwaiters hstate hbefore hafter hsignal =>
    rw [hsilent hsignal] at hafter
    cases hafter
  | acquireFast hfree hstate hbefore hafter hsignal => rw [hplace] at hbefore; cases hbefore
  | enterSlowLoop hstate hbefore hafter hsignal => rw [hplace] at hbefore; cases hbefore
  | returnSpuriously hstate hbefore hafter hsignal => rw [hplace] at hbefore; cases hbefore
  | swap hstate hbefore hafter hsignal => rw [hplace] at hbefore; cases hbefore
  | wakeOne hstate hbefore hafter hsignal => rw [hplace] at hbefore; cases hbefore

/-- In every reachable state with a sleeping thread the word is `LOCKED_HAS_WAITERS`, or a drop is
between its swap that returned `LOCKED_HAS_WAITERS` and its `wake_one`, or a thread is awake inside
the slow loop, from which it acquires only by installing `LOCKED_HAS_WAITERS`. Hence no reachable
state is unlocked without a drop in progress while a thread is asleep inside `lock` and none is
awake inside it. -/
theorem sleeper_owed {p : Pool Tid Shared Thread} (h : (system Tid).Reachable p) :
    (∀ t, asleepOn (p.threads t) = some .state →
      p.shared.state = lockedHasWaiters ∨ (∃ u, (p.threads u).call = .drop .wakeOne) ∨
        ∃ u, (p.threads u).call.awakeInSlowLoop) ∧
      (∀ label p', (system Tid).step p label = some p' →
        (p.threads label.thread).call.awakeInSlowLoop →
        (p'.threads label.thread).call = .acquired → p'.shared.state = lockedHasWaiters) ∧
      ¬ (p.shared.state = unlocked ∧ (∀ u, (p.threads u).call.insideDrop = false) ∧
        (∃ t, asleepOn (p.threads t) = some .state) ∧
        ∀ u, (p.threads u).call.insideLock → asleepOn (p.threads u) = some .state) := by
  have howed (t : Tid) (ht : asleepOn (p.threads t) = some .state) :
      p.shared.state = lockedHasWaiters ∨ (∃ u, (p.threads u).call = .drop .wakeOne) ∨
        ∃ u, (p.threads u).call.awakeInSlowLoop := by
    have hpos : 0 < threadsAt p .sleeping := countAt_pos_iff.mpr ⟨t, asleepOn_state_iff.mp ht⟩
    rcases owed h hpos with hword | hwaking | hslow
    · exact .inl hword
    · obtain ⟨u, hu⟩ := countAt_pos_iff.mp hwaking
      exact .inr (.inl ⟨u, place_eq_waking_iff.mp hu⟩)
    · obtain ⟨u, hu⟩ := countAt_pos_iff.mp hslow
      exact .inr (.inr ⟨u, place_eq_slowLoop_iff.mp hu⟩)
  refine ⟨howed, fun _ _ ↦ state_of_acquire_slow, ?_⟩
  rintro ⟨hunlocked, hnodrop, ⟨t, ht⟩, hallAsleep⟩
  rcases howed t ht with hword | ⟨u, hu⟩ | ⟨u, hu⟩
  · rw [hunlocked] at hword
    cases hword
  · have hdrop := hnodrop u
    rw [hu] at hdrop
    cases hdrop
  · have hplace := place_eq_slowLoop_iff.mpr hu
    have hlock : (p.threads u).call.insideLock := by
      cases hcall : (p.threads u).call <;> simp_all [Call.awakeInSlowLoop, Call.insideLock]
    rw [asleepOn_state_iff.mp (hallAsleep u hlock)] at hplace
    cases hplace

/-- Thread 0 locks and thread 1 reaches the slow loop, from which it acquires once thread 0 has
released. Thread 2 then sleeps, thread 1 releases up to its `wake_one`, and thread 0 acquires
through the fast path. -/
def bargingRun : List (Label (Fin 3) Choice) :=
  [⟨0, .call .lock, none⟩, ⟨0, .go, none⟩, ⟨0, .go, none⟩, ⟨0, .go, none⟩,
    ⟨1, .call .lock, none⟩] ++ List.replicate 103 ⟨1, .go, none⟩ ++
  [⟨0, .drop false, none⟩, ⟨0, .go, none⟩, ⟨0, .go, none⟩, ⟨1, .go, none⟩, ⟨1, .go, none⟩,
    ⟨2, .call .lock, none⟩] ++ List.replicate 105 ⟨2, .go, none⟩ ++
  [⟨1, .drop false, none⟩, ⟨1, .go, none⟩, ⟨1, .go, none⟩,
    ⟨0, .call .lock, none⟩, ⟨0, .go, none⟩, ⟨0, .go, none⟩]

/-- `sleeper_owed` on a run of three threads: thread 2 sleeps, thread 1 has released and has yet to
wake it, and thread 0 has barged in through the fast path. -/
theorem sleeper_owed_barging : ∃ p : Pool (Fin 3) Shared Thread, p.shared.state = locked ∧
    asleepOn (p.threads 2) = some .state ∧
    ((∃ u, (p.threads u).call = .drop .wakeOne) ∨ ∃ u, (p.threads u).call.awakeInSlowLoop) := by
  obtain ⟨p, hrun, hstate, hasleep⟩ := System.exists_reachableWhen_of_exec
    (M := system (Fin 3)) (fun _ _ ↦ True)
    (P := fun p ↦ p.shared.state = locked ∧ asleepOn (p.threads 2) = some .state)
    bargingRun (by decide +kernel)
  refine ⟨p, hstate, hasleep, ?_⟩
  rcases (sleeper_owed hrun).1 2 hasleep with hword | howed
  · rw [hstate] at hword
    cases hword
  · exact howed

end Pool

end SyncPrimitives.MutexV2
