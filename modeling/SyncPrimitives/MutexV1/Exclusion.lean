import SyncPrimitives.MutexV1.Model
import SyncPrimitives.Concurrency.Guarded
import SyncPrimitives.Concurrency.OwnerWord
import Mathlib.Tactic.SplitIfs

/-!
# Exclusion of the queueing mutex

The word `state` names the thread that owns the mutex: every step of a thread is an `OwnerMove`. A
guard is outstanding from the compare-and-exchange that acquires to the store of zero in its drop;
what the drop does to the queue after that is no longer part of the ownership. Hence `lock` refuses
exactly the owner, and no update of the data through guards is lost.
-/

set_option autoImplicit false
set_option relaxedAutoImplicit false

namespace SyncPrimitives.MutexV1

open Concurrency Function MutexCommon

variable {Tid α : Type}

/-- The guards of a thread, the one that is being dropped included until its store. -/
def Thread.outstanding (th : Thread Tid) : ℕ :=
  th.guards + match th.call with
    | .drop .store => 1
    | _ => 0

/-- The word `state`, and the guards. -/
def ownerWord (ids : ThreadIds Tid) : OwnerWord Tid (Shared Tid) (Thread Tid) where
  id := ids.get
  id_ne_zero := ids.get_ne_zero
  id_injective := ids.get_injective
  word := Shared.state
  outstanding := Thread.outstanding

/-- A thread uses the data between two calls, through a guard. -/
def guards : Guards (Thread Tid) where
  owns := fun th ↦ 0 < th.guards
  idle := fun th ↦ match th.call with
    | .idle => true
    | _ => false

/-- The mutex with the data behind it. -/
def systemWithData [DecidableEq Tid] [Fintype Tid] (ids : ThreadIds Tid) (data : α) :=
  ((machine ids).guarded guards α).system (Guarded.start (new Tid) data)

section Local

variable {th : Thread Tid} {call : Call Tid}

theorem outstanding_of_call (hcall : th.call = call) (hstore : call ≠ .drop .store) :
    th.outstanding = th.guards := by
  unfold Thread.outstanding
  split
  case h_1 hdrop => exact absurd (hcall.symm.trans hdrop) hstore
  case h_2 => rfl

theorem outstanding_goto (hstore : call ≠ .drop .store) : (th.goto call).outstanding = th.guards :=
  outstanding_of_call rfl hstore

@[simp] theorem outstanding_ret {result : LockResult} :
    (th.ret result).outstanding = th.guards := rfl

@[simp] theorem outstanding_acquire : th.acquire.outstanding = th.guards + 1 := rfl

@[simp] theorem outstanding_unparked : th.unparked.outstanding = th.guards := rfl

@[simp] theorem outstanding_spinLoop {spinCounter : ℕ} :
    (spinLoop th spinCounter).outstanding = th.guards := by
  unfold spinLoop
  split_ifs <;> rfl

theorem outstanding_unpark : (unpark th).outstanding = th.outstanding := by
  unfold unpark
  split
  case h_1 hcall => exact (outstanding_of_call hcall (by simp)).symm
  case h_2 => rfl

end Local

/-! ### What a step does to the word and to the guards -/

section Steps

variable {ids : ThreadIds Tid} {self : Tid} {before after : Shared Tid} {th moved : Thread Tid}
  {signal : Signal Tid Addr} {choice : Choice}

theorem quiet_eq_some_iff :
    quiet before th = some (after, moved, signal) ↔
      before = after ∧ th = moved ∧ .silent = signal := by
  simp [quiet]

/-- A step that leaves the word and the guards alone, between positions other than the store. -/
theorem ownerMove_stay {call call' : Call Tid} (hcall : th.call = call)
    (hcall' : moved.call = call') (hstore : call ≠ .drop .store) (hstore' : call' ≠ .drop .store)
    (hword : after.state = before.state) (hguards : moved.guards = th.guards) :
    OwnerMove (ownerWord ids) self before th after moved :=
  .stay hword ((outstanding_of_call hcall' hstore').trans
    (hguards.trans (outstanding_of_call hcall hstore).symm))

/-- Inside `enqueue_thread` a thread stays inside `lock`. -/
theorem enqueueThreadStep_frame {pc : EnqueuePc} (hcall : th.call = .lock (.enqueue pc))
    (h : enqueueThreadStep self before th pc choice = some (after, moved, signal)) :
    signal = .silent ∧ after.state = before.state ∧ moved.guards = th.guards ∧
      ∃ pc, moved.call = .lock pc := by
  unfold enqueueThreadStep at h
  split at h
  case h_9 => cases h
  all_goals
    try split_ifs at h
    all_goals
      obtain ⟨rfl, rfl, rfl⟩ := quiet_eq_some_iff.mp h
      first
        | exact ⟨rfl, rfl, rfl, _, rfl⟩
        | exact ⟨rfl, rfl, rfl, _, hcall⟩

/-- The queue is no part of the ownership. -/
theorem dequeueThreadStep_frame {pc : DequeuePc Tid} (hcall : th.call = .drop (.dequeue pc))
    (h : dequeueThreadStep before th pc choice = some (after, moved, signal)) :
    after.state = before.state ∧ moved.guards = th.guards ∧ moved.call ≠ .drop .store := by
  unfold dequeueThreadStep at h
  split at h
  case h_8 =>
    obtain ⟨rfl, rfl, -⟩ := by simpa using h
    exact ⟨rfl, rfl, by simp [Thread.goto]⟩
  case h_9 => cases h
  all_goals
    try split_ifs at h
    all_goals
      obtain ⟨rfl, rfl, -⟩ := quiet_eq_some_iff.mp h
      refine ⟨rfl, rfl, fun hstore ↦ ?_⟩
      first
        | cases hstore
        | cases hcall.symm.trans hstore

theorem lockStep_ownerMove {pc : LockPc} (hcall : th.call = .lock pc)
    (h : lockStep self (ids.get self) before th pc choice = some (after, moved, signal)) :
    OwnerMove (ownerWord ids) self before th after moved := by
  have hbefore : th.outstanding = th.guards := outstanding_of_call hcall (by simp)
  cases pc with
  | enqueue pc =>
    cases choice
    all_goals
      obtain ⟨-, hword, hguards, pc', hcall'⟩ := enqueueThreadStep_frame hcall h
      exact ownerMove_stay hcall hcall' (by simp) (by simp) hword hguards
  | loadOwner =>
    cases choice <;> simp only [lockStep, reduceCtorEq] at h
    case go =>
      split_ifs at h
      all_goals obtain ⟨rfl, rfl, -⟩ := quiet_eq_some_iff.mp h
      · exact .stay rfl hbefore.symm
      · exact .stay rfl (outstanding_spinLoop.trans hbefore.symm)
  | load spinCounter =>
    cases choice <;> simp only [lockStep, reduceCtorEq] at h
    case go =>
      split_ifs at h
      all_goals obtain ⟨rfl, rfl, -⟩ := quiet_eq_some_iff.mp h
      · exact .stay rfl hbefore.symm
      · exact .stay rfl (outstanding_spinLoop.trans hbefore.symm)
  | compareExchange spinCounter =>
    cases choice <;> simp only [lockStep, reduceCtorEq] at h
    case go =>
      split_ifs at h with hfree
      all_goals obtain ⟨rfl, rfl, -⟩ := quiet_eq_some_iff.mp h
      · exact .acquire hfree rfl (congrArg (· + 1) hbefore.symm)
      · exact .stay rfl (outstanding_spinLoop.trans hbefore.symm)
    case spurious =>
      obtain ⟨rfl, rfl, -⟩ := quiet_eq_some_iff.mp h
      exact .stay rfl (outstanding_spinLoop.trans hbefore.symm)

theorem tryLockStep_ownerMove {pc : TryLockPc} (hcall : th.call = .tryLock pc)
    (h : tryLockStep (ids.get self) before th pc choice = some (after, moved, signal)) :
    OwnerMove (ownerWord ids) self before th after moved := by
  have hbefore : th.outstanding = th.guards := outstanding_of_call hcall (by simp)
  cases pc <;> cases choice <;> simp only [tryLockStep, reduceCtorEq] at h
  case loadOwner.go =>
    split_ifs at h
    all_goals
      obtain ⟨rfl, rfl, -⟩ := quiet_eq_some_iff.mp h
      exact .stay rfl hbefore.symm
  case compareExchange.go =>
    split_ifs at h with hfree
    all_goals obtain ⟨rfl, rfl, -⟩ := quiet_eq_some_iff.mp h
    · exact .acquire hfree rfl (congrArg (· + 1) hbefore.symm)
    · exact .stay rfl hbefore.symm

theorem dropStep_ownerMove {pc : DropPc Tid} (hcall : th.call = .drop pc)
    (h : dropStep before th pc choice = some (after, moved, signal)) :
    OwnerMove (ownerWord ids) self before th after moved := by
  cases pc with
  | store =>
    cases choice <;> simp only [dropStep, reduceCtorEq] at h
    case go =>
      obtain ⟨rfl, rfl, -⟩ := quiet_eq_some_iff.mp h
      refine .release rfl ?_
      show th.guards + 1 = th.outstanding
      rw [Thread.outstanding, hcall]
  | dequeue pc =>
    cases choice
    all_goals
      obtain ⟨hword, hguards, hcall'⟩ := dequeueThreadStep_frame hcall h
      exact ownerMove_stay hcall rfl (by simp) hcall' hword hguards

theorem idleStep_ownerMove (hcall : th.call = .idle)
    (h : idleStep before th choice = some (after, moved, signal)) :
    OwnerMove (ownerWord ids) self before th after moved := by
  have hbefore : th.outstanding = th.guards := outstanding_of_call hcall (by simp)
  cases choice with
  | call method =>
    cases method
    all_goals
      obtain ⟨rfl, rfl, -⟩ := quiet_eq_some_iff.mp h
      exact .stay rfl hbefore.symm
  | drop panicking =>
    simp only [idleStep] at h
    split_ifs at h with hguard
    obtain ⟨rfl, rfl, -⟩ := quiet_eq_some_iff.mp h
    refine .stay rfl ?_
    show th.guards - 1 + 1 = th.outstanding
    omega
  | clearPoison =>
    obtain ⟨rfl, rfl, -⟩ := quiet_eq_some_iff.mp h
    exact .stay rfl rfl
  | go => cases h
  | spurious => cases h

/-- Every step of a thread respects the ownership. -/
theorem step_ownerMove
    (h : step self (ids.get self) before th choice = some (after, moved, signal)) :
    OwnerMove (ownerWord ids) self before th after moved := by
  unfold step at h
  split at h
  case h_1 hcall => exact idleStep_ownerMove hcall h
  case h_2 hcall => exact lockStep_ownerMove hcall h
  case h_3 hcall => exact tryLockStep_ownerMove hcall h
  case h_4 hcall =>
    split_ifs at h
    obtain ⟨rfl, rfl, -⟩ := quiet_eq_some_iff.mp h
    exact .stay rfl (outstanding_of_call hcall (by simp)).symm
  case h_5 hcall => exact dropStep_ownerMove hcall h

/-- The call has acquired and has not returned yet. -/
def Call.returning : Call Tid → Bool
  | .acquired => true
  | _ => false

/-- The step leaves the flag and the guards, and it does not acquire. -/
def Stays (before : Shared Tid) (th : Thread Tid) (after : Shared Tid) (moved : Thread Tid) :
    Prop :=
  after.poisoned = before.poisoned ∧ moved.guards = th.guards ∧ moved.call.returning = false

theorem stays_spinLoop {spinCounter : ℕ} : Stays before th before (spinLoop th spinCounter) := by
  unfold spinLoop
  split_ifs
  · exact ⟨rfl, rfl, rfl⟩
  · exact ⟨rfl, rfl, rfl⟩

theorem enqueueThreadStep_stays {pc : EnqueuePc} (hcall : th.call = .lock (.enqueue pc))
    (h : enqueueThreadStep self before th pc choice = some (after, moved, signal)) :
    Stays before th after moved := by
  unfold enqueueThreadStep at h
  split at h
  case h_9 => cases h
  all_goals
    try split_ifs at h
    all_goals
      obtain ⟨rfl, rfl, -⟩ := quiet_eq_some_iff.mp h
      first
        | exact ⟨rfl, rfl, rfl⟩
        | exact ⟨rfl, rfl, by rw [hcall]; rfl⟩

theorem dequeueThreadStep_stays {pc : DequeuePc Tid} (hcall : th.call = .drop (.dequeue pc))
    (h : dequeueThreadStep before th pc choice = some (after, moved, signal)) :
    Stays before th after moved := by
  unfold dequeueThreadStep at h
  split at h
  case h_8 =>
    obtain ⟨rfl, rfl, -⟩ := by simpa using h
    exact ⟨rfl, rfl, rfl⟩
  case h_9 => cases h
  all_goals
    try split_ifs at h
    all_goals
      obtain ⟨rfl, rfl, -⟩ := quiet_eq_some_iff.mp h
      first
        | exact ⟨rfl, rfl, rfl⟩
        | exact ⟨rfl, rfl, by rw [hcall]; rfl⟩

/-- A step inside a call acquires a free mutex, or leaves the flag and the guards. -/
theorem stays_of_step (hbusy : th.call ≠ .idle)
    (h : step self (ids.get self) before th choice = some (after, moved, signal)) :
    Stays before th after moved ∨
      before.state = 0 ∧ after.poisoned = before.poisoned ∧ moved = th.acquire := by
  unfold step at h
  split at h
  case h_1 hcall => exact absurd hcall hbusy
  case h_2 pc hcall =>
    cases pc with
    | enqueue pc =>
      cases choice
      all_goals exact .inl (enqueueThreadStep_stays hcall h)
    | _ =>
      cases choice <;> simp only [lockStep, reduceCtorEq] at h
      all_goals try split_ifs at h with hfree
      all_goals
        obtain ⟨rfl, rfl, -⟩ := quiet_eq_some_iff.mp h
        first
          | exact .inl stays_spinLoop
          | exact .inl ⟨rfl, rfl, rfl⟩
          | exact .inr ⟨hfree, rfl, rfl⟩
  case h_3 pc hcall =>
    cases pc <;> cases choice <;> simp only [tryLockStep, reduceCtorEq] at h
    all_goals split_ifs at h with hfree
    all_goals
      obtain ⟨rfl, rfl, -⟩ := quiet_eq_some_iff.mp h
      first
        | exact .inl ⟨rfl, rfl, rfl⟩
        | exact .inr ⟨hfree, rfl, rfl⟩
  case h_4 hcall =>
    split_ifs at h
    obtain ⟨rfl, rfl, -⟩ := quiet_eq_some_iff.mp h
    exact .inl ⟨rfl, rfl, rfl⟩
  case h_5 pc hcall =>
    cases pc with
    | dequeue pc =>
      cases choice
      all_goals exact .inl (dequeueThreadStep_stays hcall h)
    | store =>
      cases choice <;> simp only [dropStep, reduceCtorEq] at h
      case go =>
        obtain ⟨rfl, rfl, -⟩ := quiet_eq_some_iff.mp h
        exact .inl ⟨rfl, rfl, rfl⟩

/-- A step that ends with a thread that has acquired has given it a guard. -/
theorem guards_pos_of_step
    (h : step self (ids.get self) before th choice = some (after, moved, signal))
    (hmoved : moved.call = .acquired) : 0 < moved.guards := by
  by_cases hbusy : th.call ≠ .idle
  · rcases stays_of_step hbusy h with ⟨-, -, hcall⟩ | ⟨-, -, rfl⟩
    · rw [hmoved] at hcall
      cases hcall
    · exact Nat.succ_pos _
  · simp only [step, not_not.mp hbusy] at h
    cases choice with
    | call method =>
      cases method
      all_goals
        obtain ⟨-, rfl, -⟩ := quiet_eq_some_iff.mp h
        cases hmoved
    | drop panicking =>
      simp only [idleStep] at h
      split_ifs at h
      obtain ⟨-, rfl, -⟩ := quiet_eq_some_iff.mp h
      cases hmoved
    | clearPoison =>
      obtain ⟨-, rfl, -⟩ := quiet_eq_some_iff.mp h
      exact absurd (not_not.mp hbusy) (by rw [hmoved]; simp)
    | go => cases h
    | spurious => cases h

/-- Whether a position is inside `lock`; `acquired` is also the end of `try_lock`. -/
def Call.locking : Call Tid → Bool
  | .lock _ => true
  | .acquired => true
  | _ => false

/-- The call of a thread has returned `WouldBlock`. -/
def Thread.Refused (th : Thread Tid) : Prop :=
  th.call = .idle ∧ th.result = some (.error .wouldBlock)

theorem not_refused {call : Call Tid} (hcall : th.call = call) (hbusy : call ≠ .idle) :
    ¬ th.Refused :=
  fun hrefused ↦ hbusy (hcall.symm.trans hrefused.1)

theorem spinLoop_not_refused {spinCounter : ℕ} : ¬ (spinLoop th spinCounter).Refused := by
  unfold spinLoop
  split_ifs
  · exact not_refused rfl nofun
  · exact not_refused rfl nofun

theorem lockStep_refused {pc : LockPc} (hcall : th.call = .lock pc)
    (h : lockStep self (ids.get self) before th pc choice = some (after, moved, signal)) :
    signal = .silent ∧ (moved.Refused ↔ pc = .loadOwner ∧ before.state = ids.get self) ∧
      (moved.Refused → after = before) := by
  have hfails (hmoved : ¬ moved.Refused) (hpc : pc ≠ .loadOwner) :
      (moved.Refused ↔ pc = .loadOwner ∧ before.state = ids.get self) ∧
        (moved.Refused → after = before) :=
    ⟨⟨fun hrefused ↦ absurd hrefused hmoved, fun ⟨hload, _⟩ ↦ absurd hload hpc⟩,
      fun hrefused ↦ absurd hrefused hmoved⟩
  cases pc with
  | enqueue pc =>
    cases choice
    all_goals
      obtain ⟨hsignal, -, -, pc', hcall'⟩ := enqueueThreadStep_frame hcall h
      exact ⟨hsignal, hfails (not_refused hcall' nofun) (by simp)⟩
  | loadOwner =>
    cases choice <;> simp only [lockStep, reduceCtorEq] at h
    case go =>
      split_ifs at h with howner
      all_goals obtain ⟨rfl, rfl, rfl⟩ := quiet_eq_some_iff.mp h
      · exact ⟨rfl, ⟨fun _ ↦ ⟨rfl, howner⟩, fun _ ↦ ⟨rfl, rfl⟩⟩, fun _ ↦ rfl⟩
      · exact ⟨rfl, ⟨fun hrefused ↦ absurd hrefused spinLoop_not_refused,
          fun ⟨_, hsame⟩ ↦ absurd hsame howner⟩, fun _ ↦ rfl⟩
  | load spinCounter =>
    cases choice <;> simp only [lockStep, reduceCtorEq] at h
    case go =>
      split_ifs at h
      all_goals obtain ⟨rfl, rfl, rfl⟩ := quiet_eq_some_iff.mp h
      · exact ⟨rfl, hfails (not_refused rfl nofun) (by simp)⟩
      · exact ⟨rfl, hfails spinLoop_not_refused (by simp)⟩
  | compareExchange spinCounter =>
    cases choice <;> simp only [lockStep, reduceCtorEq] at h
    case go =>
      split_ifs at h
      all_goals obtain ⟨rfl, rfl, rfl⟩ := quiet_eq_some_iff.mp h
      · exact ⟨rfl, hfails (not_refused rfl nofun) (by simp)⟩
      · exact ⟨rfl, hfails spinLoop_not_refused (by simp)⟩
    case spurious =>
      obtain ⟨rfl, rfl, rfl⟩ := quiet_eq_some_iff.mp h
      exact ⟨rfl, hfails spinLoop_not_refused (by simp)⟩

/-- A step inside `lock` wakes nobody, and it refuses exactly if it reads the own id. -/
theorem step_refused (hinside : th.call.locking = true)
    (h : step self (ids.get self) before th choice = some (after, moved, signal)) :
    signal = .silent ∧ (moved.Refused ↔ th.call = .lock .loadOwner ∧ before.state = ids.get self) ∧
      (moved.Refused → after = before) := by
  unfold step at h
  split at h
  case h_2 pc hcall =>
    rw [hcall, Call.lock.injEq]
    exact lockStep_refused hcall h
  case h_4 hcall =>
    split_ifs at h
    obtain ⟨rfl, rfl, rfl⟩ := quiet_eq_some_iff.mp h
    have hnot : ¬ (th.ret (lockResult before.poisoned)).Refused := by
      rintro ⟨-, hresult⟩
      unfold lockResult at hresult
      split_ifs at hresult
      · cases hresult
      · cases hresult
    refine ⟨rfl, ⟨fun hrefused ↦ absurd hrefused hnot, fun ⟨hload, _⟩ ↦ ?_⟩, fun _ ↦ rfl⟩
    cases hcall.symm.trans hload
  all_goals
    rename_i hcall
    rw [hcall] at hinside
    cases hinside

end Steps

/-! ### Every run -/

section Runs

variable [DecidableEq Tid] [Fintype Tid] {ids : ThreadIds Tid} {data : α}

/-- The word names the owner in every state of every run. -/
theorem owned_of_run {p : Pool Tid (Shared Tid) (Thread Tid)} (h : (system ids).Reachable p) :
    Owned (ownerWord ids) p :=
  owned (M := machine ids) rfl (fun _ ↦ rfl)
    (fun _ _ _ _ _ _ _ hstep ↦ step_ownerMove hstep) (fun _ ↦ rfl) (fun _ ↦ outstanding_unpark) h

/-- A thread that has just acquired owns a guard. -/
theorem guards_pos_of_acquired {p : Pool Tid (Shared Tid) (Thread Tid)}
    (h : (system ids).Reachable p) {t : Tid} (hcall : (p.threads t).call = .acquired) :
    0 < (p.threads t).guards := by
  refine Machine.forall_threads (M := machine ids)
    (Q := fun _ th ↦ th.call = .acquired → 0 < th.guards) (fun _ hacquired ↦ by cases hacquired)
    (fun _ _ _ _ _ _ _ _ hstep ↦ guards_pos_of_step hstep) (fun _ _ h ↦ h)
    (fun _ th hth ↦ ?_) h t hcall
  show (unpark th).call = .acquired → 0 < (unpark th).guards
  unfold unpark
  split
  case h_1 => exact fun hacquired ↦ by cases hacquired
  case h_2 => exact hth

variable {p p' : Pool Tid (Guarded.Shared (Shared Tid) α) (Guarded.Local (Thread Tid) α)}
  {label : Label Tid (Guarded.Choice Choice α)}

/-- The word names the owner in every state of every run with data. -/
theorem owned_lockPool (h : (systemWithData ids data).Reachable p) :
    Owned (ownerWord ids) (Guarded.lockPool p) :=
  owned_of_run (Guarded.lockPool_reachable h)

/-- No update of the data is lost. -/
theorem intact_of_run (h : (systemWithData ids data).Reachable p) :
    Guarded.Intact guards data p := by
  refine Guarded.intact (fun p hrun t u ht hu ↦ ?_) (fun _ ↦ rfl) (fun th ↦ ?_) h
  · have howned : Owned (ownerWord ids) p := owned_of_run hrun
    simp only [guards, decide_eq_true_eq] at ht hu
    exact howned.eq_of_outstanding (Nat.add_pos_left ht _) (Nat.add_pos_left hu _)
  · show decide (0 < (unpark th).guards) = decide (0 < th.guards)
    unfold unpark
    split <;> rfl

/-- `lock` refuses exactly the owner, and changes nothing when it does. -/
theorem refused_of_step (h : (systemWithData ids data).Reachable p)
    (hmove : (systemWithData ids data).step p label = some p')
    (hinside : (p.threads label.thread).lock.call.locking = true) :
    ((p'.threads label.thread).lock.Refused ↔
      (p.threads label.thread).lock.call = .lock .loadOwner ∧
        0 < (p.threads label.thread).lock.outstanding) ∧
      ((p'.threads label.thread).lock.Refused → p'.shared = p.shared) := by
  obtain ⟨moved, signal, hlocal, hdelivered⟩ := Machine.step_cases hmove
  have hbusy : guards.idle (p.threads label.thread).lock = false := by
    cases hcall : (p.threads label.thread).lock.call with
    | idle => rw [hcall] at hinside; cases hinside
    | _ => simp only [guards, hcall]
  have hword := (owned_lockPool h).word_eq_id_iff (t := label.thread)
  cases Guarded.step_move hlocal with
  | lock choice hstep hdata hupdates hloaded =>
    obtain ⟨hsignal, hrefused, hkept⟩ := step_refused hinside hstep
    have hmoved : p'.threads label.thread = moved := by
      subst hsignal
      rw [hdelivered.silent_eq, update_self]
    rw [hmoved]
    refine ⟨hrefused.trans (and_congr_right fun _ ↦ hword), fun hmovedRefused ↦ ?_⟩
    exact Guarded.Shared.ext (hkept hmovedRefused) hdata hupdates
  | load _ hidle => exact absurd (hidle.symm.trans hbusy) Bool.noConfusion
  | store _ _ _ hidle => exact absurd (hidle.symm.trans hbusy) Bool.noConfusion

end Runs

end SyncPrimitives.MutexV1
