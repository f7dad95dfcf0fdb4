import SyncPrimitives.MutexV1.Exclusion

/-!
# The queueing mutex as its callers see it

Code that locks and unlocks the mutex runs these calls step by step. `Thread.standing` is what such
code knows of a thread: whether it holds a guard, and how far the call it is in has come. The
lemmas below say what one step does to the standing, to the word `state` and to the flag `poisoned`,
so that a caller need not look at the queue.
-/

set_option autoImplicit false
set_option relaxedAutoImplicit false

namespace SyncPrimitives.MutexV1

open Concurrency MutexCommon

variable {Tid : Type}

/-- How a thread that locks and unlocks stands to the mutex. Inside `lock` it goes from `locking` to
`acquired`, inside the drop of its guard from `dropping` to `dequeuing`; `other` is everything
else. -/
inductive Standing
  | outside
  | holding
  | locking
  | acquired
  | dropping
  | dequeuing
  | other
  deriving DecidableEq

/-- The standing of a thread. -/
def Thread.standing (th : Thread Tid) : Standing :=
  match th.call with
  | .idle => if th.guards = 0 then .outside else .holding
  | .lock _ => if th.guards = 0 then .locking else .other
  | .tryLock _ => .other
  | .acquired => if th.guards = 0 then .other else .acquired
  | .drop .store => if th.guards = 0 then .dropping else .other
  | .drop (.dequeue _) => if th.guards = 0 then .dequeuing else .other

section Standings

variable {th : Thread Tid}

/-- What a standing says of a thread: its position, and whether it has a guard. -/
def Standing.Says (th : Thread Tid) : Standing → Prop
  | .outside => th.call = .idle ∧ th.guards = 0
  | .holding => th.call = .idle ∧ 0 < th.guards
  | .locking => (∃ pc, th.call = .lock pc) ∧ th.guards = 0
  | .acquired => th.call = .acquired ∧ 0 < th.guards
  | .dropping => th.call = .drop .store ∧ th.guards = 0
  | .dequeuing => (∃ pc, th.call = .drop (.dequeue pc)) ∧ th.guards = 0
  | .other => th.standing = .other

/-- A thread has the standing that describes it. -/
theorem standing_eq_iff (standing : Standing) : th.standing = standing ↔ standing.Says th := by
  obtain ⟨call, token, guards, result⟩ := th
  by_cases hnone : guards = 0
  case pos =>
    cases standing <;> rcases call with _ | _ | _ | _ | (_ | _)
    all_goals simp [Thread.standing, Standing.Says, hnone]
  case neg =>
    have hpos : 0 < guards := Nat.pos_of_ne_zero hnone
    cases standing <;> rcases call with _ | _ | _ | _ | (_ | _)
    all_goals simp [Thread.standing, Standing.Says, hnone, hpos]

theorem standing_eq_outside_iff : th.standing = .outside ↔ th.call = .idle ∧ th.guards = 0 :=
  standing_eq_iff .outside

theorem standing_eq_holding_iff : th.standing = .holding ↔ th.call = .idle ∧ 0 < th.guards :=
  standing_eq_iff .holding

theorem standing_eq_locking_iff :
    th.standing = .locking ↔ (∃ pc, th.call = .lock pc) ∧ th.guards = 0 :=
  standing_eq_iff .locking

theorem standing_eq_acquired_iff : th.standing = .acquired ↔ th.call = .acquired ∧ 0 < th.guards :=
  standing_eq_iff .acquired

theorem standing_eq_dropping_iff :
    th.standing = .dropping ↔ th.call = .drop .store ∧ th.guards = 0 :=
  standing_eq_iff .dropping

theorem standing_eq_dequeuing_iff :
    th.standing = .dequeuing ↔ (∃ pc, th.call = .drop (.dequeue pc)) ∧ th.guards = 0 :=
  standing_eq_iff .dequeuing

/-- An unpark changes no standing. -/
@[simp] theorem standing_unpark : (unpark th).standing = th.standing := by
  unfold unpark
  split
  case h_1 hcall =>
    rw [Thread.standing, Thread.standing, hcall]
    rfl
  case h_2 => rfl

@[simp] theorem standing_spinLoop {spinCounter : ℕ} (hnone : th.guards = 0) :
    (spinLoop th spinCounter).standing = .locking := by
  unfold spinLoop
  split_ifs
  all_goals exact standing_eq_locking_iff.mpr ⟨⟨_, rfl⟩, hnone⟩

end Standings

section Steps

variable {self : Tid} {currentThread : ℕ} {before after : Shared Tid} {th moved : Thread Tid}
  {signal : Signal Tid Addr} {choice : Choice}

/-- What a step of a call does that is not at its turning point: nothing that the caller sees. -/
structure Hidden (before after : Shared Tid) : Prop where
  state : after.state = before.state
  poisoned : after.poisoned = before.poisoned

theorem enqueueThreadStep_hidden {pc : EnqueuePc} (hcall : th.call = .lock (.enqueue pc))
    (hnone : th.guards = 0)
    (h : enqueueThreadStep self before th pc choice = some (after, moved, signal)) :
    Hidden before after ∧ moved.standing = .locking ∧ signal = .silent := by
  have hlocking {pc' : LockPc} (hpc : moved.call = .lock pc') (hguards : moved.guards = th.guards) :
      moved.standing = .locking :=
    standing_eq_locking_iff.mpr ⟨⟨pc', hpc⟩, hguards.trans hnone⟩
  unfold enqueueThreadStep at h
  split at h
  case h_9 => cases h
  all_goals
    try split_ifs at h
    all_goals
      obtain ⟨rfl, rfl, rfl⟩ := quiet_eq_some_iff.mp h
      first
        | exact ⟨⟨rfl, rfl⟩, hlocking rfl rfl, rfl⟩
        | exact ⟨⟨rfl, rfl⟩, hlocking hcall rfl, rfl⟩

/-- Inside `lock`, unless the thread finds its own id, it goes on or acquires the free mutex. -/
theorem step_locking (hstanding : th.standing = .locking) (howner : before.state ≠ currentThread)
    (h : step self currentThread before th choice = some (after, moved, signal)) :
    signal = .silent ∧ after.poisoned = before.poisoned ∧
      (moved.standing = .locking ∧ after.state = before.state ∨
        moved.standing = .acquired ∧ before.state = 0 ∧ after.state = currentThread) := by
  obtain ⟨⟨pc, hcall⟩, hnone⟩ := standing_eq_locking_iff.mp hstanding
  have hgoes {call : LockPc} : (th.goto (.lock call)).standing = .locking :=
    standing_eq_locking_iff.mpr ⟨⟨_, rfl⟩, hnone⟩
  simp only [step, hcall] at h
  cases pc with
  | enqueue pc =>
    obtain ⟨hhidden, hmoved, hsignal⟩ : Hidden before after ∧ moved.standing = .locking ∧
        signal = .silent := by
      cases choice <;> exact enqueueThreadStep_hidden hcall hnone h
    exact ⟨hsignal, hhidden.poisoned, .inl ⟨hmoved, hhidden.state⟩⟩
  | loadOwner =>
    cases choice <;> simp only [lockStep, reduceCtorEq] at h
    case go =>
      rw [if_neg howner] at h
      obtain ⟨rfl, rfl, rfl⟩ := quiet_eq_some_iff.mp h
      exact ⟨rfl, rfl, .inl ⟨standing_spinLoop hnone, rfl⟩⟩
  | load spinCounter =>
    cases choice <;> simp only [lockStep, reduceCtorEq] at h
    case go =>
      split_ifs at h
      all_goals obtain ⟨rfl, rfl, rfl⟩ := quiet_eq_some_iff.mp h
      · exact ⟨rfl, rfl, .inl ⟨hgoes, rfl⟩⟩
      · exact ⟨rfl, rfl, .inl ⟨standing_spinLoop hnone, rfl⟩⟩
  | compareExchange spinCounter =>
    cases choice <;> simp only [lockStep, reduceCtorEq] at h
    case go =>
      split_ifs at h with hfree
      all_goals obtain ⟨rfl, rfl, rfl⟩ := quiet_eq_some_iff.mp h
      · exact ⟨rfl, rfl, .inr
          ⟨standing_eq_acquired_iff.mpr ⟨rfl, Nat.succ_pos _⟩, hfree, rfl⟩⟩
      · exact ⟨rfl, rfl, .inl ⟨standing_spinLoop hnone, rfl⟩⟩
    case spurious =>
      obtain ⟨rfl, rfl, rfl⟩ := quiet_eq_some_iff.mp h
      exact ⟨rfl, rfl, .inl ⟨standing_spinLoop hnone, rfl⟩⟩

/-- A call of `lock` that has acquired returns with the guard. -/
theorem step_acquired (hstanding : th.standing = .acquired)
    (h : step self currentThread before th choice = some (after, moved, signal)) :
    after = before ∧ moved.standing = .holding ∧
      moved.result = some (lockResult before.poisoned) ∧ signal = .silent := by
  obtain ⟨hcall, hpos⟩ := standing_eq_acquired_iff.mp hstanding
  simp only [step, hcall] at h
  split_ifs at h
  obtain ⟨rfl, rfl, rfl⟩ := quiet_eq_some_iff.mp h
  exact ⟨rfl, standing_eq_holding_iff.mpr ⟨rfl, hpos⟩, rfl, rfl⟩

/-- The store of a drop gives the mutex up. -/
theorem step_dropping (hstanding : th.standing = .dropping)
    (h : step self currentThread before th choice = some (after, moved, signal)) :
    moved.standing = .dequeuing ∧ after.state = 0 ∧ after.poisoned = before.poisoned ∧
      signal = .silent := by
  obtain ⟨hcall, hnone⟩ := standing_eq_dropping_iff.mp hstanding
  simp only [step, hcall] at h
  cases choice <;> simp only [dropStep, reduceCtorEq] at h
  obtain ⟨rfl, rfl, rfl⟩ := quiet_eq_some_iff.mp h
  exact ⟨standing_eq_dequeuing_iff.mpr ⟨⟨_, rfl⟩, hnone⟩, rfl, rfl, rfl⟩

/-- The rest of a drop is hidden, and ends outside. -/
theorem step_dequeuing (hstanding : th.standing = .dequeuing)
    (h : step self currentThread before th choice = some (after, moved, signal)) :
    Hidden before after ∧ (moved.standing = .dequeuing ∨ moved.standing = .outside) := by
  obtain ⟨⟨pc, hcall⟩, hnone⟩ := standing_eq_dequeuing_iff.mp hstanding
  have hdequeues {pc' : DequeuePc Tid} :
      (th.goto (.drop (.dequeue pc'))).standing = .dequeuing :=
    standing_eq_dequeuing_iff.mpr ⟨⟨_, rfl⟩, hnone⟩
  have hleaves : (th.goto .idle).standing = .outside :=
    standing_eq_outside_iff.mpr ⟨rfl, hnone⟩
  have hstep : dequeueThreadStep before th pc choice = some (after, moved, signal) := by
    simp only [step, hcall] at h
    cases choice <;> exact h
  unfold dequeueThreadStep at hstep
  split at hstep
  case h_8 =>
    obtain ⟨rfl, rfl, -⟩ := by simpa using hstep
    exact ⟨⟨rfl, rfl⟩, .inr hleaves⟩
  case h_9 => cases hstep
  all_goals
    try split_ifs at hstep
    all_goals
      obtain ⟨rfl, rfl, -⟩ := quiet_eq_some_iff.mp hstep
      first
        | exact ⟨⟨rfl, rfl⟩, .inl hdequeues⟩
        | exact ⟨⟨rfl, rfl⟩, .inr hleaves⟩
        | exact ⟨⟨rfl, rfl⟩, .inl hstanding⟩

/-- A call of `lock` begins. -/
theorem step_callLock (hstanding : th.standing = .outside)
    (h : step self currentThread before th (.call .lock) = some (after, moved, signal)) :
    after = before ∧ moved.standing = .locking ∧ signal = .silent := by
  obtain ⟨hcall, hnone⟩ := standing_eq_outside_iff.mp hstanding
  simp only [step, hcall, idleStep] at h
  obtain ⟨rfl, rfl, rfl⟩ := quiet_eq_some_iff.mp h
  exact ⟨rfl, standing_eq_locking_iff.mpr ⟨⟨_, rfl⟩, hnone⟩, rfl⟩

/-- The drop of the only guard of a thread begins. -/
theorem step_callDrop (hstanding : th.standing = .holding) (hone : th.guards ≤ 1)
    (h : step self currentThread before th (.drop false) = some (after, moved, signal)) :
    after = before ∧ moved.standing = .dropping ∧ signal = .silent := by
  obtain ⟨hcall, hpos⟩ := standing_eq_holding_iff.mp hstanding
  simp only [step, hcall, idleStep, if_pos hpos, Bool.or_false] at h
  obtain ⟨rfl, rfl, rfl⟩ := quiet_eq_some_iff.mp h
  exact ⟨rfl, standing_eq_dropping_iff.mpr ⟨rfl, Nat.sub_eq_zero_of_le hone⟩, rfl⟩

/-- Without a guard there is nothing to drop. -/
theorem not_callDrop (hstanding : th.standing = .outside) (panicking : Bool) :
    step self currentThread before th (.drop panicking) = none := by
  obtain ⟨hcall, hnone⟩ := standing_eq_outside_iff.mp hstanding
  simp [step, hcall, idleStep, hnone]

end Steps

end SyncPrimitives.MutexV1
