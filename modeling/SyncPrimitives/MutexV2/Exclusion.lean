import SyncPrimitives.MutexV2.Model
import SyncPrimitives.Concurrency.Guarded
import Mathlib.Tactic.SplitIfs

/-!
# Exclusion of the three-valued mutex

Ownership is kept in two places: `state` is `UNLOCKED` exactly if nobody owns the mutex, and the set
`ACQUIRED_BY_THREAD` of a thread between two calls contains the mutex exactly if the thread owns it.
An acquiring compare-and-exchange changes the word before the set, a drop the set before the word.
`OwnMove` lists what a step does to the word and the guards, `Thread.Marked` is what the set says at
each position, and `Exclusive` the invariant.
-/

set_option autoImplicit false
set_option relaxedAutoImplicit false

namespace SyncPrimitives.MutexV2

open Concurrency Function MutexCommon

/-- Whether a position is inside a drop that has yet to swap `state`. -/
def Call.dropping : Call → Bool
  | .drop .removeAcquired => true
  | .drop .swap => true
  | _ => false

/-- The guards of a thread, the one that is being dropped included until its swap. -/
def Thread.outstanding (th : Thread) : ℕ := th.guards + if th.call.dropping then 1 else 0

/-- What the membership in `ACQUIRED_BY_THREAD` says about the guards of a thread. -/
def Thread.Marked (th : Thread) : Prop :=
  match th.call with
  | .idle => th.acquired = decide (0 < th.guards)
  | .lock .acquiredCheck => th.acquired = decide (0 < th.guards)
  | .lock _ => th.acquired = false ∧ th.guards = 0
  | .tryLock .acquiredCheck => th.acquired = decide (0 < th.guards)
  | .tryLock .compareExchangeWeak => th.acquired = false ∧ th.guards = 0
  | .acquired => 0 < th.guards
  | .drop .removeAcquired => th.guards = 0
  | .drop _ => th.acquired = false ∧ th.guards = 0

/-- What a step does to the word and to the guards. -/
inductive OwnMove (before : Shared) (th : Thread) (after : Shared) (moved : Thread) : Prop
  | stay (hstate : after.state = before.state) (hguards : moved.outstanding = th.outstanding)
  | acquire (hfree : before.state = unlocked) (hstate : after.state ≠ unlocked)
      (hguards : moved.outstanding = th.outstanding + 1)
  | release (hstate : after.state = unlocked) (hguards : moved.outstanding + 1 = th.outstanding)

section Steps

variable {Tid : Type} {before after : Shared} {th moved : Thread} {signal : Signal Tid Addr}
  {choice : Choice}

theorem quiet_eq_some_iff :
    quiet before th = some (after, moved, signal) ↔
      before = after ∧ th = moved ∧ .silent = signal := by
  simp [quiet]

theorem outstanding_of_call {call : Call} (hcall : th.call = call)
    (hdropping : call.dropping = false) :
    th.outstanding = th.guards := by
  rw [Thread.outstanding, hcall, hdropping]
  rfl

@[simp] theorem outstanding_goto_lock {pc : LockPc} :
    (th.goto (.lock pc)).outstanding = th.guards := rfl

@[simp] theorem outstanding_ret {result : LockResult} :
    (th.ret result).outstanding = th.guards := rfl

@[simp] theorem outstanding_acquire : th.acquire.outstanding = th.guards + 1 := rfl

@[simp] theorem outstanding_spinLoop {counter : ℕ} :
    (spinLoop th counter).outstanding = th.guards := by
  unfold spinLoop
  split_ifs <;> rfl

theorem guards_spinLoop {counter : ℕ} : (spinLoop th counter).guards = th.guards := by
  unfold spinLoop
  split_ifs <;> rfl

theorem guards_acquiredCheck {next : Call} : (acquiredCheck th next).guards = th.guards := by
  unfold acquiredCheck
  split_ifs <;> rfl

theorem acquiredCheck_ne {next call : Call} (hidle : .idle ≠ call) (hnext : next ≠ call) :
    (acquiredCheck th next).call ≠ call := by
  unfold acquiredCheck
  split_ifs
  · exact hidle
  · exact hnext

theorem spinLoop_ne {counter : ℕ} {call : Call} (hlock : ∀ pc, .lock pc ≠ call) :
    (spinLoop th counter).call ≠ call := by
  unfold spinLoop
  split_ifs
  · exact hlock _
  · exact hlock _

theorem marked_spinLoop {counter : ℕ} (hnone : th.acquired = false ∧ th.guards = 0) :
    (spinLoop th counter).Marked := by
  unfold spinLoop
  split_ifs
  · exact hnone
  · exact hnone

theorem acquiredCheck_own {next : Call} (hbefore : th.outstanding = th.guards)
    (hmarked : th.acquired = decide (0 < th.guards)) (hnext : next.dropping = false)
    (hchecked : th.acquired = false ∧ th.guards = 0 → (th.goto next).Marked) :
    (acquiredCheck th next).outstanding = th.outstanding ∧ (acquiredCheck th next).Marked := by
  unfold acquiredCheck
  split_ifs with hacquired
  · exact ⟨hbefore.symm, hmarked⟩
  · have hfalse : th.acquired = false := Bool.eq_false_iff.mpr hacquired
    rw [hfalse] at hmarked
    refine ⟨?_, hchecked ⟨hfalse, Nat.eq_zero_of_not_pos (of_decide_eq_false hmarked.symm)⟩⟩
    rw [hbefore]
    exact outstanding_of_call rfl hnext

/-- Inside `lock` a thread acquires, or it keeps its set and its guards. -/
theorem lockStep_own {pc : LockPc} (hcall : th.call = .lock pc) (hmarked : th.Marked)
    (h : lockStep before th pc choice = some (after, moved, signal)) :
    OwnMove before th after moved ∧ moved.Marked := by
  have hbefore : th.outstanding = th.guards := outstanding_of_call hcall rfl
  rw [Thread.Marked, hcall] at hmarked
  have hstays (hstate : after.state = before.state) (hguards : moved.outstanding = th.guards) :
      OwnMove before th after moved := .stay hstate (hguards.trans hbefore.symm)
  cases pc <;> cases choice <;> simp only [lockStep, reduceCtorEq] at h
  case acquiredCheck.go =>
    obtain ⟨rfl, rfl, -⟩ := quiet_eq_some_iff.mp h
    obtain ⟨hguards, hmoved⟩ := acquiredCheck_own hbefore hmarked
      (show (Call.lock .compareExchangeWeak).dropping = false from rfl) id
    exact ⟨.stay rfl hguards, hmoved⟩
  case compareExchangeWeak.go | compareExchange.go =>
    split_ifs at h with hfree
    all_goals obtain ⟨rfl, rfl, -⟩ := quiet_eq_some_iff.mp h
    · exact ⟨.acquire hfree (by simp [locked, unlocked]) (congrArg (· + 1) hbefore.symm),
        Nat.succ_pos _⟩
    · first
        | exact ⟨hstays rfl outstanding_spinLoop, marked_spinLoop hmarked⟩
        | exact ⟨hstays rfl rfl, hmarked⟩
  case slowCompareExchange.go =>
    split_ifs at h with hfree
    all_goals obtain ⟨rfl, rfl, -⟩ := quiet_eq_some_iff.mp h
    · exact ⟨.acquire hfree (by simp [lockedHasWaiters, unlocked]) (congrArg (· + 1) hbefore.symm),
        Nat.succ_pos _⟩
    · exact ⟨hstays rfl rfl, hmarked⟩
  case spin.go =>
    split_ifs at h
    all_goals obtain ⟨rfl, rfl, -⟩ := quiet_eq_some_iff.mp h
    · exact ⟨hstays rfl rfl, hmarked⟩
    · exact ⟨hstays rfl outstanding_spinLoop, marked_spinLoop hmarked⟩
  case compareExchangeWeak.spurious =>
    obtain ⟨rfl, rfl, -⟩ := quiet_eq_some_iff.mp h
    exact ⟨hstays rfl outstanding_spinLoop, marked_spinLoop hmarked⟩
  all_goals
    try split_ifs at h
    all_goals
      obtain ⟨rfl, rfl, -⟩ := quiet_eq_some_iff.mp h
      exact ⟨hstays rfl rfl, hmarked⟩

/-- Inside `try_lock` a thread acquires, or it keeps its set and its guards. -/
theorem tryLockStep_own {pc : TryLockPc} (hcall : th.call = .tryLock pc) (hmarked : th.Marked)
    (h : tryLockStep before th pc choice = some (after, moved, signal)) :
    OwnMove before th after moved ∧ moved.Marked := by
  have hbefore : th.outstanding = th.guards := outstanding_of_call hcall rfl
  rw [Thread.Marked, hcall] at hmarked
  have hnone (hmarked : th.acquired = false ∧ th.guards = 0) :
      th.acquired = decide (0 < th.guards) := by rw [hmarked.1, hmarked.2]; rfl
  cases pc <;> cases choice <;> simp only [tryLockStep, reduceCtorEq] at h
  case acquiredCheck.go =>
    obtain ⟨rfl, rfl, -⟩ := quiet_eq_some_iff.mp h
    obtain ⟨hguards, hmoved⟩ := acquiredCheck_own hbefore hmarked
      (show (Call.tryLock .compareExchangeWeak).dropping = false from rfl) id
    exact ⟨.stay rfl hguards, hmoved⟩
  case compareExchangeWeak.go =>
    split_ifs at h with hfree
    all_goals obtain ⟨rfl, rfl, -⟩ := quiet_eq_some_iff.mp h
    · exact ⟨.acquire hfree (by simp [locked, unlocked]) (congrArg (· + 1) hbefore.symm),
        Nat.succ_pos _⟩
    · exact ⟨.stay rfl hbefore.symm, hnone hmarked⟩
  case compareExchangeWeak.spurious =>
    obtain ⟨rfl, rfl, -⟩ := quiet_eq_some_iff.mp h
    exact ⟨.stay rfl hbefore.symm, hnone hmarked⟩

/-- A drop takes the mutex out of the set before it swaps the word. -/
theorem dropStep_own {pc : DropPc} (hcall : th.call = .drop pc) (hmarked : th.Marked)
    (h : dropStep before th pc choice = some (after, moved, signal)) :
    OwnMove before th after moved ∧ moved.Marked := by
  rw [Thread.Marked, hcall] at hmarked
  cases pc <;> cases choice <;> simp only [dropStep, reduceCtorEq] at h
  case removeAcquired.go =>
    obtain ⟨rfl, rfl, -⟩ := quiet_eq_some_iff.mp h
    refine ⟨.stay rfl ?_, rfl, hmarked⟩
    rw [Thread.outstanding, Thread.outstanding, hcall]
    rfl
  case swap.go =>
    obtain ⟨rfl, rfl, -⟩ := quiet_eq_some_iff.mp h
    have hout : th.outstanding = th.guards + 1 := by
      rw [Thread.outstanding, hcall]
      rfl
    refine ⟨.release rfl ?_, ?_⟩
    · rw [hout]
      split_ifs <;> rfl
    · split_ifs
      · exact hmarked
      · show th.acquired = decide (0 < th.guards)
        rw [hmarked.1, hmarked.2]
        rfl
  case wakeOne.go =>
    obtain ⟨rfl, rfl, -⟩ := by simpa using h
    refine ⟨.stay rfl (outstanding_of_call hcall rfl).symm, ?_⟩
    show th.acquired = decide (0 < th.guards)
    rw [hmarked.1, hmarked.2]
    rfl

/-- A call begins. Assumes: the thread owns at most one guard. -/
theorem idleStep_own (hcall : th.call = .idle) (hmarked : th.Marked) (hone : th.outstanding ≤ 1)
    (h : idleStep before th choice = some (after, moved, signal)) :
    OwnMove before th after moved ∧ moved.Marked := by
  have hbefore : th.outstanding = th.guards := outstanding_of_call hcall rfl
  have hidle : th.acquired = decide (0 < th.guards) := by
    rw [Thread.Marked, hcall] at hmarked
    exact hmarked
  cases choice with
  | call method =>
    cases method
    all_goals
      obtain ⟨rfl, rfl, -⟩ := quiet_eq_some_iff.mp h
      exact ⟨.stay rfl hbefore.symm, hidle⟩
  | drop panicking =>
    simp only [idleStep] at h
    split_ifs at h with hguard
    obtain ⟨rfl, rfl, -⟩ := quiet_eq_some_iff.mp h
    refine ⟨.stay rfl ?_, ?_⟩
    · show th.guards - 1 + 1 = th.outstanding
      omega
    · show th.guards - 1 = 0
      omega
  | clearPoison =>
    obtain ⟨rfl, rfl, -⟩ := quiet_eq_some_iff.mp h
    exact ⟨.stay rfl rfl, hmarked⟩
  | go => cases h
  | spurious => cases h

/-- Every step of a thread respects the ownership. Assumes: the thread owns at most one guard. -/
theorem step_own (hmarked : th.Marked) (hone : th.outstanding ≤ 1)
    (h : step before th choice = some (after, moved, signal)) :
    OwnMove before th after moved ∧ moved.Marked := by
  unfold step at h
  split at h
  case h_1 hcall => exact idleStep_own hcall hmarked hone h
  case h_2 hcall => exact lockStep_own hcall hmarked h
  case h_3 hcall => exact tryLockStep_own hcall hmarked h
  case h_4 hcall =>
    split_ifs at h
    obtain ⟨rfl, rfl, -⟩ := quiet_eq_some_iff.mp h
    rw [Thread.Marked, hcall] at hmarked
    exact ⟨.stay rfl (outstanding_of_call hcall rfl).symm, (decide_eq_true hmarked).symm⟩
  case h_5 hcall => exact dropStep_own hcall hmarked h

/-! ### The refusal of a re-entrance -/

/-- Whether a position is inside `lock`; `acquired` is also the end of `try_lock`. -/
def Call.locking : Call → Bool
  | .lock _ => true
  | .acquired => true
  | _ => false

/-- The call of a thread has returned `WouldBlock`. -/
def Thread.Refused (th : Thread) : Prop :=
  th.call = .idle ∧ th.result = some (.error .wouldBlock)

theorem not_refused {call : Call} (hcall : th.call = call) (hbusy : call ≠ .idle) : ¬ th.Refused :=
  fun hrefused ↦ hbusy (hcall.symm.trans hrefused.1)

theorem spinLoop_not_refused {counter : ℕ} : ¬ (spinLoop th counter).Refused := by
  unfold spinLoop
  split_ifs
  · exact not_refused rfl nofun
  · exact not_refused rfl nofun

/-- A refusal changes neither the mutex nor the set and the guards of the thread. -/
structure Unchanged (before : Shared) (th : Thread) (after : Shared) (moved : Thread) : Prop where
  shared : after = before
  acquired : moved.acquired = th.acquired
  guards : moved.guards = th.guards

theorem lockStep_refused {pc : LockPc}
    (h : lockStep before th pc choice = some (after, moved, signal)) :
    signal = .silent ∧ (moved.Refused ↔ pc = .acquiredCheck ∧ th.acquired = true) ∧
      (moved.Refused → Unchanged before th after moved) := by
  have hfails (hmoved : ¬ moved.Refused) (hpc : pc ≠ .acquiredCheck) :
      (moved.Refused ↔ pc = .acquiredCheck ∧ th.acquired = true) ∧
        (moved.Refused → Unchanged before th after moved) :=
    ⟨⟨fun hrefused ↦ absurd hrefused hmoved, fun ⟨hcheck, _⟩ ↦ absurd hcheck hpc⟩,
      fun hrefused ↦ absurd hrefused hmoved⟩
  cases pc <;> cases choice <;> simp only [lockStep, reduceCtorEq] at h
  case acquiredCheck.go =>
    obtain ⟨rfl, rfl, rfl⟩ := quiet_eq_some_iff.mp h
    unfold acquiredCheck
    split_ifs with hacquired
    · exact ⟨rfl, ⟨fun _ ↦ ⟨rfl, hacquired⟩, fun _ ↦ ⟨rfl, rfl⟩⟩, fun _ ↦ ⟨rfl, rfl, rfl⟩⟩
    · exact ⟨rfl, ⟨nofun, fun ⟨_, htrue⟩ ↦ absurd htrue hacquired⟩, nofun⟩
  all_goals
    try split_ifs at h
    all_goals
      obtain ⟨rfl, rfl, rfl⟩ := quiet_eq_some_iff.mp h
      first
        | exact ⟨rfl, hfails spinLoop_not_refused nofun⟩
        | exact ⟨rfl, hfails nofun nofun⟩

/-- A step inside `lock` wakes nobody, and it refuses exactly if the set contains the mutex. -/
theorem step_refused (hlocking : th.call.locking = true)
    (h : step before th choice = some (after, moved, signal)) :
    signal = .silent ∧ (moved.Refused ↔ th.call = .lock .acquiredCheck ∧ th.acquired = true) ∧
      (moved.Refused → Unchanged before th after moved) := by
  unfold step at h
  split at h
  case h_2 pc hcall =>
    rw [hcall, Call.lock.injEq]
    exact lockStep_refused h
  case h_4 hcall =>
    split_ifs at h
    obtain ⟨rfl, rfl, rfl⟩ := quiet_eq_some_iff.mp h
    have hnot : ¬ (finish before th).Refused := by
      rintro ⟨-, hresult⟩
      simp only [finish, Thread.ret, lockResult] at hresult
      split_ifs at hresult
      · cases hresult
      · cases hresult
    refine ⟨rfl, ⟨fun hrefused ↦ absurd hrefused hnot, fun ⟨hcheck, _⟩ ↦ ?_⟩,
      fun hrefused ↦ absurd hrefused hnot⟩
    cases hcall.symm.trans hcheck
  all_goals
    rename_i hcall
    rw [hcall] at hlocking
    cases hlocking

end Steps

/-! ### Every run -/

section Runs

variable {Tid : Type} [DecidableEq Tid] [Fintype Tid] {p p' : Pool Tid Shared Thread}
  {label : Label Tid Choice}

omit [DecidableEq Tid] in
/-- The word is `UNLOCKED` exactly if no guard is outstanding, there is at most one, and the set of
every thread says what it has to say. -/
structure Exclusive (p : Pool Tid Shared Thread) : Prop where
  count : total Thread.outstanding p.threads = if p.shared.state = unlocked then 0 else 1
  marked : ∀ t, (p.threads t).Marked

omit [DecidableEq Tid] in
theorem Exclusive.total_le_one (h : Exclusive p) : total Thread.outstanding p.threads ≤ 1 := by
  rw [h.count]
  split_ifs <;> omega

omit [DecidableEq Tid] in
/-- The word differs from `UNLOCKED` exactly if some thread owns the mutex. -/
theorem Exclusive.state_ne_unlocked_iff (h : Exclusive p) :
    p.shared.state ≠ unlocked ↔ ∃ t, 0 < (p.threads t).outstanding := by
  rw [← total_pos_iff, h.count]
  split_ifs with hstate <;> simp [hstate]

omit [DecidableEq Tid] in
/-- At most one thread owns the mutex. -/
theorem Exclusive.eq_of_outstanding (h : Exclusive p) {t u : Tid}
    (ht : 0 < (p.threads t).outstanding) (hu : 0 < (p.threads u).outstanding) : t = u := by
  by_contra hne
  have hsum := add_le_total Thread.outstanding p.threads hne
  have hle := h.total_le_one
  omega

theorem outstanding_wake {th : Thread} : (wake th).outstanding = th.outstanding := by
  unfold wake
  split
  case h_1 hcall => exact (outstanding_of_call hcall rfl).symm
  case h_2 => rfl

theorem marked_wake {th : Thread} (h : th.Marked) : (wake th).Marked := by
  unfold wake
  split
  case h_1 hcall =>
    rw [Thread.Marked, hcall] at h
    exact h
  case h_2 => exact h

/-- One step keeps the invariant. -/
theorem exclusive_step (h : Exclusive p) (hmove : (system Tid).step p label = some p') :
    Exclusive p' := by
  obtain ⟨moved, signal, hlocal, hdelivered⟩ := Machine.step_cases hmove
  have hle := le_total Thread.outstanding p.threads label.thread
  obtain ⟨hown, hmoved⟩ := step_own (h.marked label.thread) (hle.trans h.total_le_one) hlocal
  have htotal := hdelivered.total_eq (w := Thread.outstanding) (fun _ _ _ ↦ outstanding_wake)
    fun _ ↦ rfl
  have hupdate := total_update Thread.outstanding p.threads label.thread moved
  have hcount := h.count
  constructor
  · rw [htotal]
    cases hown with
    | stay hstate hguards =>
      rw [hstate, ← hcount]
      omega
    | acquire hfree hstate hguards =>
      rw [if_pos hfree] at hcount
      rw [if_neg hstate]
      omega
    | release hstate hguards =>
      have hone := h.total_le_one
      rw [if_pos hstate]
      omega
  · intro t
    have hmid : (update p.threads label.thread moved t).Marked := by
      by_cases ht : t = label.thread
      · rw [ht, update_self]
        exact hmoved
      · rw [update_of_ne ht]
        exact h.marked t
    rcases hdelivered.thread t with heq | ⟨_, _, heq⟩ | heq
    · rw [heq]
      exact hmid
    · rw [heq]
      exact marked_wake hmid
    · rw [heq]
      exact hmid

/-- The invariant holds in every state of every run. -/
theorem exclusive (h : (system Tid).Reachable p) : Exclusive p := by
  refine h.invariant (P := Exclusive) ⟨?_, fun t ↦ ?_⟩ ?_
  · exact (total_eq_zero_iff _ _).mpr fun _ ↦ rfl
  · show false = decide (0 < 0)
    rfl
  · intro p label p' _ hexclusive _ hmove
    exact exclusive_step hexclusive hmove

/-- The set of a thread between two calls contains the mutex exactly if the thread owns it. -/
theorem Thread.Marked.acquired_iff {th : Thread} (h : th.Marked)
    (hcall : th.call = .idle ∨ th.call = .lock .acquiredCheck) :
    th.acquired = true ↔ 0 < th.outstanding := by
  have hout : th.outstanding = th.guards := by
    rcases hcall with hcall | hcall
    · exact outstanding_of_call hcall rfl
    · exact outstanding_of_call hcall rfl
  have hacquired : th.acquired = decide (0 < th.guards) := by
    rcases hcall with hcall | hcall
    all_goals
      rw [Thread.Marked, hcall] at h
      exact h
  rw [hout, hacquired, decide_eq_true_eq]

end Runs

end SyncPrimitives.MutexV2
