import SyncPrimitives.RwLock.Exclusion

/-!
# The record of a thread

`rwlock_id` enters `ACQUIRED_BY_THREAD` after the acquiring compare-and-exchange and leaves it in
the drop of the guard, so the set and the guards of a thread disagree at some positions of its
calls. `Recorded` says how they stand at each position; it speaks of one thread only, and every step
and every wake-up of a thread keeps it (`recorded_step`, `recorded_wake`). Between two calls the id
is in the set exactly if the thread owns a guard, of which it has one at most. A holder that calls
one of the four acquiring methods is still at `acquired_check`, which refuses it
(`refused_of_holder`).
-/

set_option autoImplicit false
set_option relaxedAutoImplicit false

namespace SyncPrimitives.RwLock

open Concurrency

/-- How the set and the guards of a thread stand to each other. -/
inductive Standing
  | settled
  | without
  | unrecorded
  | releasing
  deriving DecidableEq

/-- The standing at a position: a call that has passed `acquired_check` is without a guard, a guard
that has just been acquired is not recorded yet, and a drop removes the record of a guard that has
left the thread. -/
def Call.standing : Call → Standing
  | .idle => .settled
  | .read .acquiredCheck => .settled
  | .write .acquiredCheck => .settled
  | .tryRead .acquiredCheck => .settled
  | .tryWrite .acquiredCheck => .settled
  | .acquired _ => .unrecorded
  | .dropRead .removeAcquired => .releasing
  | .dropWrite .removeAcquired => .releasing
  | _ => .without

/-- The guards a thread owns, of both kinds. -/
def Thread.guards (th : Thread) : ℕ := th.readGuards + th.writeGuards

/-- The record and the guards agree with the standing. -/
def Standing.Agrees (acquired : Bool) (guards : ℕ) : Standing → Prop
  | .settled => guards = if acquired then 1 else 0
  | .without => acquired = false ∧ guards = 0
  | .unrecorded => acquired = false ∧ guards = 1
  | .releasing => acquired = true ∧ guards = 0

/-- The record of a thread at its position. -/
def Thread.Recorded (th : Thread) : Prop := th.call.standing.Agrees th.acquired th.guards

/-- Whether a thread is inside one of the four methods that acquire. -/
def Call.acquiring : Call → Bool
  | .read _ => true
  | .write _ => true
  | .tryRead _ => true
  | .tryWrite _ => true
  | _ => false

section Local

variable {th : Thread} {state : ℕ}

/-- A thread without a guard that has moved to a settled position or stays without. -/
theorem recorded_of_without (hnone : th.acquired = false ∧ th.guards = 0) {moved : Thread}
    (hacquired : moved.acquired = th.acquired) (hguards : moved.guards = th.guards)
    (hstanding : moved.call.standing = .settled ∨ moved.call.standing = .without) :
    moved.Recorded := by
  unfold Thread.Recorded
  rw [hacquired, hguards, hnone.1, hnone.2]
  rcases hstanding with hstanding | hstanding <;> rw [hstanding]
  · rfl
  · exact ⟨rfl, rfl⟩

theorem recorded_readWhile (hnone : th.acquired = false ∧ th.guards = 0) :
    (readWhile th state).Recorded := by
  unfold readWhile
  split_ifs <;> exact recorded_of_without hnone rfl rfl (.inr rfl)

theorem recorded_readLoop (hnone : th.acquired = false ∧ th.guards = 0) :
    (readLoop th state).Recorded := by
  unfold readLoop
  split_ifs
  · exact recorded_of_without hnone rfl rfl (.inr rfl)
  · exact recorded_of_without hnone rfl rfl (.inl rfl)
  · exact recorded_readWhile hnone

theorem recorded_writeLoop (hnone : th.acquired = false ∧ th.guards = 0) :
    (writeLoop th state).Recorded := by
  unfold writeLoop
  split_ifs <;> exact recorded_of_without hnone rfl rfl (.inr rfl)

theorem recorded_acquire {guard : Guard} (hnone : th.acquired = false ∧ th.guards = 0) :
    (th.acquire guard).Recorded := by
  obtain ⟨hacquired, hguards⟩ := hnone
  unfold Thread.guards at hguards
  cases guard
  all_goals
    refine ⟨hacquired, ?_⟩
    simp only [Thread.guards, Thread.acquire]
    omega

/-- `acquired_check` lets only a thread without a guard through. -/
theorem recorded_acquiredCheck {next : Call}
    (hsettled : Standing.settled.Agrees th.acquired th.guards)
    (hnext : next.standing = .without) : (acquiredCheck th next).Recorded := by
  unfold acquiredCheck
  split_ifs with hacquired
  · exact hsettled
  · have hnone : th.acquired = false := Bool.eq_false_iff.mpr hacquired
    have hguards : th.guards = 0 := by
      have hagrees : th.guards = if th.acquired then 1 else 0 := hsettled
      rwa [if_neg hacquired] at hagrees
    exact recorded_of_without ⟨hnone, hguards⟩ rfl rfl (.inr hnext)

theorem recorded_finish {shared : Shared} {guard : Guard}
    (h : th.acquired = false ∧ th.guards = 1) : (finish shared th guard).Recorded := h.2

/-- A thread has at most one guard outstanding, of one kind or the other. -/
theorem outstanding_le_one (h : th.Recorded) :
    th.outstanding .read + th.outstanding .write ≤ 1 := by
  have hsum : th.outstanding .read + th.outstanding .write =
      th.guards + (th.call.dropping .read + th.call.dropping .write) := by
    simp only [Thread.outstanding, Thread.owned, Thread.guards]
    omega
  have hsettled (hagrees : th.guards = if th.acquired then 1 else 0) : th.guards ≤ 1 := by
    rw [hagrees]
    split_ifs <;> omega
  unfold Thread.Recorded at h
  rw [hsum]
  cases hcall : th.call with
  | idle =>
    rw [hcall] at h
    exact hsettled h
  | acquired guard =>
    rw [hcall] at h
    exact h.2.le
  | read pc | write pc | tryRead pc | tryWrite pc =>
    rw [hcall] at h
    cases pc
    all_goals
      first
      | exact hsettled h
      | exact h.2.le.trans zero_le_one
  | dropRead pc | dropWrite pc =>
    rw [hcall] at h
    cases pc
    all_goals
      rw [h.2]
      decide

/-- A wake-up keeps the record. -/
theorem recorded_wake (h : th.Recorded) : (wake th).Recorded := by
  unfold wake
  split
  case h_4 => exact h
  all_goals
    rename_i hcall
    unfold Thread.Recorded at h
    rw [hcall] at h
  case h_1 => exact h
  case h_2 => exact recorded_readLoop h
  case h_3 => exact h

end Local

section Steps

variable {Tid : Type} {before after : Shared} {th moved : Thread} {signal : Signal Tid Addr}
  {choice : Choice}

theorem readStep_recorded {pc : ReadPc}
    (hrecorded : (Call.read pc).standing.Agrees th.acquired th.guards)
    (h : readStep before th pc choice = some (after, moved, signal)) : moved.Recorded := by
  cases pc <;> cases choice <;> simp only [readStep, reduceCtorEq] at h
  all_goals try split_ifs at h
  all_goals obtain ⟨rfl, rfl, -⟩ := quiet_eq_some.mp h
  case acquiredCheck.go => exact recorded_acquiredCheck hrecorded rfl
  all_goals
    first
    | exact recorded_readLoop hrecorded
    | exact recorded_readWhile hrecorded
    | exact recorded_acquire hrecorded
    | exact recorded_of_without hrecorded rfl rfl (.inr rfl)

theorem writeStep_recorded {pc : WritePc}
    (hrecorded : (Call.write pc).standing.Agrees th.acquired th.guards)
    (h : writeStep before th pc choice = some (after, moved, signal)) : moved.Recorded := by
  cases pc <;> cases choice <;> simp only [writeStep, reduceCtorEq] at h
  all_goals try split_ifs at h
  all_goals obtain ⟨rfl, rfl, -⟩ := quiet_eq_some.mp h
  case acquiredCheck.go => exact recorded_acquiredCheck hrecorded rfl
  all_goals
    first
    | exact recorded_writeLoop hrecorded
    | exact recorded_acquire hrecorded
    | exact recorded_of_without hrecorded rfl rfl (.inr rfl)

theorem tryReadStep_recorded {pc : TryReadPc}
    (hrecorded : (Call.tryRead pc).standing.Agrees th.acquired th.guards)
    (h : tryReadStep before th pc choice = some (after, moved, signal)) : moved.Recorded := by
  cases pc <;> cases choice <;> simp only [tryReadStep, reduceCtorEq] at h
  all_goals try split_ifs at h
  all_goals obtain ⟨rfl, rfl, -⟩ := quiet_eq_some.mp h
  case acquiredCheck.go => exact recorded_acquiredCheck hrecorded rfl
  all_goals
    first
    | exact recorded_acquire hrecorded
    | exact recorded_of_without hrecorded rfl rfl (.inl rfl)
    | exact recorded_of_without hrecorded rfl rfl (.inr rfl)

theorem tryWriteStep_recorded {pc : TryWritePc}
    (hrecorded : (Call.tryWrite pc).standing.Agrees th.acquired th.guards)
    (h : tryWriteStep before th pc choice = some (after, moved, signal)) : moved.Recorded := by
  cases pc <;> cases choice <;> simp only [tryWriteStep, reduceCtorEq] at h
  all_goals try split_ifs at h
  all_goals obtain ⟨rfl, rfl, -⟩ := quiet_eq_some.mp h
  case acquiredCheck.go => exact recorded_acquiredCheck hrecorded rfl
  all_goals
    first
    | exact recorded_acquire hrecorded
    | exact recorded_of_without hrecorded rfl rfl (.inl rfl)
    | exact recorded_of_without hrecorded rfl rfl (.inr rfl)

theorem dropReadStep_recorded {pc : DropReadPc}
    (hrecorded : (Call.dropRead pc).standing.Agrees th.acquired th.guards)
    (h : dropReadStep before th pc choice = some (after, moved, signal)) : moved.Recorded := by
  cases pc <;> cases choice <;> simp only [dropReadStep, reduceCtorEq] at h
  case removeAcquired.go =>
    obtain ⟨rfl, rfl, -⟩ := quiet_eq_some.mp h
    exact ⟨rfl, hrecorded.2⟩
  case fetchSub.go =>
    obtain ⟨rfl, rfl, -⟩ := quiet_eq_some.mp h
    split_ifs
    · exact recorded_of_without hrecorded rfl rfl (.inr rfl)
    · exact recorded_of_without hrecorded rfl rfl (.inl rfl)
  case wakeOne.go =>
    obtain ⟨rfl, rfl, -⟩ := by simpa using h
    exact recorded_of_without hrecorded rfl rfl (.inl rfl)

theorem dropWriteStep_recorded {pc : DropWritePc}
    (hrecorded : (Call.dropWrite pc).standing.Agrees th.acquired th.guards)
    (h : dropWriteStep before th pc choice = some (after, moved, signal)) : moved.Recorded := by
  cases pc <;> cases choice <;> simp only [dropWriteStep, quiet, Option.some.injEq, Prod.mk.injEq,
    reduceCtorEq] at h
  all_goals obtain ⟨rfl, rfl, -⟩ := h
  case removeAcquired.go => exact ⟨rfl, hrecorded.2⟩
  case loadWaiting.go => split_ifs <;> exact recorded_of_without hrecorded rfl rfl (.inr rfl)
  all_goals
    first
    | exact recorded_of_without hrecorded rfl rfl (.inl rfl)
    | exact recorded_of_without hrecorded rfl rfl (.inr rfl)

theorem idleStep_recorded (hcall : th.call = .idle)
    (hrecorded : Standing.settled.Agrees th.acquired th.guards)
    (h : idleStep before th choice = some (after, moved, signal)) : moved.Recorded := by
  have hsum : th.readGuards + th.writeGuards = if th.acquired then 1 else 0 := hrecorded
  cases choice with
  | call method =>
    cases method
    all_goals
      obtain ⟨rfl, rfl, -⟩ := quiet_eq_some.mp h
      exact hrecorded
  | drop guard panicking =>
    cases guard
    all_goals
      simp only [idleStep] at h
      split_ifs at h with howned
      obtain ⟨rfl, rfl, -⟩ := quiet_eq_some.mp h
      split_ifs at hsum with hacquired
      · refine ⟨hacquired, ?_⟩
        simp only [Thread.guards]
        omega
      · omega
  | clearPoison =>
    obtain ⟨rfl, rfl, -⟩ := quiet_eq_some.mp h
    unfold Thread.Recorded
    rw [hcall]
    exact hrecorded
  | go => cases h
  | spurious => cases h

/-- Every step keeps the record. -/
theorem recorded_step (hrecorded : th.Recorded)
    (h : step before th choice = some (after, moved, signal)) : moved.Recorded := by
  unfold Thread.Recorded at hrecorded
  unfold step at h
  split at h
  all_goals
    rename_i hcall
    rw [hcall] at hrecorded
  case h_1 => exact idleStep_recorded hcall hrecorded h
  case h_2 => exact readStep_recorded hrecorded h
  case h_3 => exact writeStep_recorded hrecorded h
  case h_4 => exact tryReadStep_recorded hrecorded h
  case h_5 => exact tryWriteStep_recorded hrecorded h
  case h_6 =>
    split_ifs at h
    obtain ⟨rfl, rfl, -⟩ := quiet_eq_some.mp h
    exact recorded_finish hrecorded
  case h_7 => exact dropReadStep_recorded hrecorded h
  case h_8 => exact dropWriteStep_recorded hrecorded h

/-- A holder inside one of the four methods is at `acquired_check`, with its id in the set. -/
theorem check_of_holder (hrecorded : th.Recorded) (hacquiring : th.call.acquiring = true)
    (hholds : 0 < th.guards) :
    th.acquired = true ∧ (th.call = .read .acquiredCheck ∨ th.call = .write .acquiredCheck ∨
      th.call = .tryRead .acquiredCheck ∨ th.call = .tryWrite .acquiredCheck) := by
  unfold Thread.Recorded at hrecorded
  have hacquired (hsettled : Standing.settled.Agrees th.acquired th.guards) :
    th.acquired = true := by
    have hagrees : th.guards = if th.acquired then 1 else 0 := hsettled
    split_ifs at hagrees with hacquired
    · exact hacquired
    · omega
  have hnever (hwithout : Standing.without.Agrees th.acquired th.guards) : False :=
    hholds.ne' hwithout.2
  cases hcall : th.call with
  | read pc | write pc | tryRead pc | tryWrite pc =>
    rw [hcall] at hrecorded
    cases pc
    all_goals
      first
      | exact (hnever hrecorded).elim
      | exact ⟨hacquired hrecorded, by simp⟩
  | _ =>
    rw [hcall] at hacquiring
    cases hacquiring

/-- A holder inside one of the four methods is refused by its next step, which changes nothing. -/
theorem refused_of_holder (hrecorded : th.Recorded) (hacquiring : th.call.acquiring = true)
    (hholds : 0 < th.guards) :
    step before th choice = some (after, moved, signal) ↔
      choice = .go ∧ after = before ∧ moved = th.ret (.error .wouldBlock) ∧ signal = .silent := by
  obtain ⟨hacquired, hcall⟩ := check_of_holder hrecorded hacquiring hholds
  have hrefused (next : Call) : acquiredCheck th next = th.ret (.error .wouldBlock) :=
    if_pos hacquired
  rcases hcall with hcall | hcall | hcall | hcall
  all_goals
    cases choice
    case go =>
      simp only [step, hcall, readStep, writeStep, tryReadStep, tryWriteStep, hrefused,
        quiet_eq_some, true_and]
      rw [eq_comm, @eq_comm _ moved, @eq_comm _ signal]
    all_goals
      simp [step, hcall, readStep, writeStep, tryReadStep, tryWriteStep]

/-- A thread without a guard inside one of the four methods has no record. -/
theorem not_acquired_of_without (hrecorded : th.Recorded) (hacquiring : th.call.acquiring = true)
    (hnone : th.guards = 0) : th.acquired = false := by
  unfold Thread.Recorded at hrecorded
  generalize hstanding : th.call.standing = standing at hrecorded
  cases standing with
  | settled =>
    have hagrees : th.guards = if th.acquired then 1 else 0 := hrecorded
    rw [hnone] at hagrees
    by_contra hacquired
    rw [if_pos (Bool.not_eq_false _ ▸ hacquired)] at hagrees
    cases hagrees
  | without => exact hrecorded.1
  | unrecorded => exact hrecorded.1
  | releasing =>
    cases hcall : th.call <;> rw [hcall] at hacquiring hstanding <;> cases hacquiring
    all_goals
      rename_i pc
      cases pc <;> cases hstanding

end Steps

/-- A thread of a lock has the right record in every state of a run. -/
theorem recorded {Tid : Type} [DecidableEq Tid] [Fintype Tid]
    {ok : Pool Tid Shared Thread → Label Tid Choice → Prop} {p : Pool Tid Shared Thread}
    (h : (system Tid).ReachableWhen ok p) (t : Tid) : (p.threads t).Recorded := by
  have hnew (t : Tid) : ((new Tid).threads t).Recorded := rfl
  exact Machine.forall_threads (Q := fun _ th ↦ th.Recorded) hnew
    (fun _ _ _ _ _ _ _ hrecorded hstep ↦ recorded_step hrecorded hstep)
    (fun _ _ hrecorded ↦ recorded_wake hrecorded) (fun _ _ hrecorded ↦ hrecorded) h t

/-- A thread that has just acquired owns a guard. -/
theorem owns_of_acquired {Tid : Type} [DecidableEq Tid] [Fintype Tid]
    {ok : Pool Tid Shared Thread → Label Tid Choice → Prop}
    {p : Pool Tid Shared Thread} (h : (system Tid).ReachableWhen ok p) {t : Tid} {guard : Guard}
    (hcall : (p.threads t).call = .acquired guard) :
    0 < (p.threads t).outstanding .read ∨ 0 < (p.threads t).outstanding .write := by
  have hrecorded : (p.threads t).Recorded := recorded h t
  rw [Thread.Recorded, hcall] at hrecorded
  have hone : (p.threads t).readGuards + (p.threads t).writeGuards = 1 := hrecorded.2
  rcases Nat.eq_zero_or_pos (p.threads t).readGuards with hzero | hpos
  · exact .inr (Nat.add_pos_left (show 0 < (p.threads t).writeGuards by omega) _)
  · exact .inl (Nat.add_pos_left hpos _)

end SyncPrimitives.RwLock
