import SyncPrimitives.Concurrency.Poisoning
import SyncPrimitives.MutexV1.Exclusion

/-!
# Poisoning of the queueing mutex

`poisoned` is set at the start of the drop of a guard in a panicking thread, before the word is set
to zero, and it is read by the call that acquires next, after its compare-and-exchange. So a call of
`lock` or `try_lock` that returns `Ok` finds consistent data, provided that guards are dropped
without a panic only if the data is consistent or the mutex is poisoned, and that `clear_poison` is
called only while the data is consistent or with a guard (`queueing_poison_protects`).
-/

set_option autoImplicit false
set_option relaxedAutoImplicit false

namespace SyncPrimitives.MutexV1

open Concurrency Function MutexCommon

variable {Tid α : Type}

/-- The field `poisoned`. -/
def poisonFlag : PoisonFlag (Shared Tid) (Thread Tid) Choice where
  poisoned := Shared.poisoned
  writes := fun th ↦ 0 < th.guards && !th.call.returning
  gives := fun choice ↦ choice = .drop false
  clears := fun choice ↦ choice = .clearPoison

section Steps

variable {ids : ThreadIds Tid} {self : Tid} {before after : Shared Tid} {th moved : Thread Tid}
  {signal : Signal Tid Addr} {choice : Choice}

theorem writes_iff :
    poisonFlag.writes th = true ↔ 0 < th.guards ∧ th.call.returning = false := by
  simp [poisonFlag]

theorem writes_of_keep (hguards : moved.guards = th.guards)
    (hcall : moved.call.returning = false) :
    poisonFlag.writes th = true → poisonFlag.writes moved = true := by
  rw [writes_iff, writes_iff]
  rintro ⟨hpos, -⟩
  exact ⟨hguards ▸ hpos, hcall⟩

theorem writes_unpark : poisonFlag.writes (unpark th) = poisonFlag.writes th := by
  unfold unpark
  split
  case h_1 hcall =>
    simp only [poisonFlag, hcall]
    rfl
  case h_2 => rfl

/-- Every step of a thread is one of the moves of the flag. Assumes: the thread has no guard while
the word is zero. -/
theorem step_flagMove (hnone : before.state = 0 → th.guards = 0)
    (h : step self (ids.get self) before th choice = some (after, moved, signal)) :
    FlagMove poisonFlag before th choice after moved := by
  by_cases hbusy : th.call ≠ .idle
  · rcases stays_of_step hbusy h with ⟨hflag, hguards, hcall⟩ | ⟨hfree, hflag, -⟩
    · exact .keep hflag (writes_of_keep hguards hcall)
    · refine .keep hflag fun hwrites ↦ ?_
      exact absurd (writes_iff.mp hwrites).1 (by rw [hnone hfree]; exact lt_irrefl 0)
  · simp only [step, not_not.mp hbusy] at h
    cases choice with
    | call method =>
      cases method
      all_goals
        obtain ⟨rfl, rfl, -⟩ := quiet_eq_some_iff.mp h
        exact .keep rfl (writes_of_keep rfl rfl)
    | drop panicking =>
      simp only [idleStep] at h
      split_ifs at h
      obtain ⟨rfl, rfl, -⟩ := quiet_eq_some_iff.mp h
      cases panicking
      · exact .give rfl (Bool.or_false _)
      · exact .poison (Bool.or_true _)
    | clearPoison =>
      obtain ⟨rfl, rfl, -⟩ := quiet_eq_some_iff.mp h
      exact .clear rfl id
    | go => cases h
    | spurious => cases h

/-- The call returns what the flag says. -/
theorem result_of_acquired (hcall : th.call = .acquired)
    (h : step self (ids.get self) before th choice = some (after, moved, signal)) :
    moved.result = some (lockResult before.poisoned) ∧ signal = .silent := by
  simp only [step, hcall] at h
  split_ifs at h
  obtain ⟨-, rfl, rfl⟩ := quiet_eq_some_iff.mp h
  exact ⟨rfl, rfl⟩

end Steps

section Runs

variable [DecidableEq Tid] [Fintype Tid] {ids : ThreadIds Tid} {data : α} {consistent : α → Prop}
  {p p' : Pool Tid (Guarded.Shared (Shared Tid) α) (Guarded.Local (Thread Tid) α)}
  {label : Label Tid (Guarded.Choice Choice α)}

omit [DecidableEq Tid] [Fintype Tid] in
/-- A thread that uses the data writes. -/
theorem writes_of_owns {th : Thread Tid} (howns : guards.owns th = true)
    (hidle : guards.idle th = true) : poisonFlag.writes th = true := by
  refine writes_iff.mpr ⟨of_decide_eq_true howns, ?_⟩
  cases hcall : th.call with
  | idle => rfl
  | _ => simp [guards, hcall] at hidle

/-- While a thread is about to return with a guard nobody writes. -/
theorem nobody_writes {p : Pool Tid (Shared Tid) (Thread Tid)} (h : (system ids).Reachable p)
    {t : Tid} (hcall : (p.threads t).call = .acquired) (u : Tid) :
    poisonFlag.writes (p.threads u) = false := by
  refine Bool.eq_false_iff.mpr fun hwrites ↦ ?_
  obtain ⟨hguards, hreturning⟩ := writes_iff.mp hwrites
  have heq : u = t := (owned_of_run h).eq_of_outstanding (Nat.add_pos_left hguards _)
    (Nat.add_pos_left (guards_pos_of_acquired h hcall) _)
  rw [heq, hcall] at hreturning
  cases hreturning

/-- In every run of careful users the data is consistent, or the mutex is poisoned, or a thread may
write. -/
theorem protected_of_run (hdata : consistent data)
    (h : (systemWithData ids data).ReachableWhen (Guarded.Careful poisonFlag consistent) p) :
    Guarded.Protected poisonFlag consistent p := by
  refine Guarded.consistent_or_poisoned hdata (fun _ ↦ rfl) (fun _ ↦ writes_unpark) ?_
    (fun _ _ hmeets ↦ hmeets) (fun _ _ _ _ ↦ writes_of_owns) h
  intro p label choice after moved signal hrun _ hstep
  refine step_flagMove (fun hfree ↦ ?_) hstep
  rcases owned_lockPool hrun.reachable with ⟨-, hnone⟩ | ⟨owner, hword, -⟩
  · exact Nat.eq_zero_of_add_eq_zero_right (hnone label.thread)
  · exact absurd (hword.symm.trans hfree) (ids.get_ne_zero owner)

end Runs

end SyncPrimitives.MutexV1
