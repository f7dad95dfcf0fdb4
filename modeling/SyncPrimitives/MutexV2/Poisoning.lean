import SyncPrimitives.Concurrency.Poisoning
import SyncPrimitives.MutexV2.ManyMutexes

/-!
# Poisoning of the three-valued mutex

`poisoned` is set at the start of the drop of a guard in a panicking thread, before the drop takes
the mutex out of the set and swaps the word, and it is read by the call that acquires next, after
its compare-and-exchange. So a call of `lock` or `try_lock` that returns `Ok` finds consistent data,
provided that guards are dropped without a panic only if the data is consistent or the mutex is
poisoned, and that `clear_poison` is called only while the data is consistent or with a guard
(`futex_poison_protects`).
-/

set_option autoImplicit false
set_option relaxedAutoImplicit false

namespace SyncPrimitives.MutexV2

open Concurrency Function MutexCommon

/-- The field `poisoned`. -/
def poisonFlag : PoisonFlag Shared Thread Choice where
  poisoned := Shared.poisoned
  writes := fun th ↦ 0 < th.guards && th.call ≠ .acquired
  gives := fun choice ↦ choice = .drop false
  clears := fun choice ↦ choice = .clearPoison

section Steps

variable {Tid : Type} {before after : Shared} {th moved : Thread} {signal : Signal Tid Addr}
  {choice : Choice}

theorem writes_of_keep (hguards : moved.guards = th.guards) (hcall : moved.call ≠ .acquired) :
    poisonFlag.writes th = true → poisonFlag.writes moved = true := by
  simp only [poisonFlag, Bool.and_eq_true, decide_eq_true_eq]
  rintro ⟨hpos, -⟩
  exact ⟨hguards ▸ hpos, hcall⟩

/-- A thread without a guard does not write. -/
theorem not_writes (hnone : th.guards = 0) : poisonFlag.writes th = false := by
  simp [poisonFlag, hnone]

theorem writes_wake : poisonFlag.writes (wake th) = poisonFlag.writes th := by
  unfold wake
  split
  case h_1 hcall => simp [poisonFlag, Thread.goto, hcall]
  case h_2 => rfl

/-- A step inside a call leaves the flag, and it acquires, or leaves the guards. -/
theorem guards_of_step (hbusy : th.call ≠ .idle)
    (h : step before th choice = some (after, moved, signal)) :
    after.poisoned = before.poisoned ∧
      (before.state = unlocked ∨ moved.guards = th.guards ∧ moved.call ≠ .acquired) := by
  unfold step at h
  split at h
  case h_1 hcall => exact absurd hcall hbusy
  case h_2 pc hcall =>
    cases pc <;> cases choice <;> simp only [lockStep, reduceCtorEq] at h
    all_goals try split_ifs at h with hfree
    all_goals
      obtain ⟨rfl, rfl, -⟩ := quiet_eq_some_iff.mp h
      first
        | exact ⟨rfl, .inl hfree⟩
        | exact ⟨rfl, .inr ⟨rfl, Call.noConfusion⟩⟩
        | exact ⟨rfl, .inr ⟨guards_spinLoop, spinLoop_ne fun _ ↦ Call.noConfusion⟩⟩
        | exact ⟨rfl, .inr ⟨guards_acquiredCheck,
            acquiredCheck_ne Call.noConfusion Call.noConfusion⟩⟩
  case h_3 pc hcall =>
    cases pc <;> cases choice <;> simp only [tryLockStep, reduceCtorEq] at h
    all_goals try split_ifs at h with hfree
    all_goals
      obtain ⟨rfl, rfl, -⟩ := quiet_eq_some_iff.mp h
      first
        | exact ⟨rfl, .inl hfree⟩
        | exact ⟨rfl, .inr ⟨rfl, Call.noConfusion⟩⟩
        | exact ⟨rfl, .inr ⟨guards_acquiredCheck,
            acquiredCheck_ne Call.noConfusion Call.noConfusion⟩⟩
  case h_4 hcall =>
    split_ifs at h
    obtain ⟨rfl, rfl, -⟩ := quiet_eq_some_iff.mp h
    exact ⟨rfl, .inr ⟨rfl, Call.noConfusion⟩⟩
  case h_5 pc hcall =>
    cases pc <;> cases choice <;> simp only [dropStep, reduceCtorEq] at h
    case swap.go =>
      obtain ⟨rfl, rfl, -⟩ := quiet_eq_some_iff.mp h
      split_ifs
      · exact ⟨rfl, .inr ⟨rfl, Call.noConfusion⟩⟩
      · exact ⟨rfl, .inr ⟨rfl, Call.noConfusion⟩⟩
    all_goals
      obtain ⟨rfl, rfl, -⟩ := by simpa [quiet] using h
      exact ⟨rfl, .inr ⟨rfl, Call.noConfusion⟩⟩

/-- Every step of a thread is one of the moves of the flag. Assumes: the thread has no guard while
the word is `UNLOCKED`. -/
theorem step_flagMove (hnone : before.state = unlocked → th.guards = 0)
    (h : step before th choice = some (after, moved, signal)) :
    FlagMove poisonFlag before th choice after moved := by
  by_cases hidle : th.call = .idle
  · simp only [step, hidle] at h
    cases choice with
    | call method =>
      cases method
      all_goals
        obtain ⟨rfl, rfl, -⟩ := quiet_eq_some_iff.mp h
        exact .keep rfl (writes_of_keep rfl Call.noConfusion)
    | drop panicking =>
      simp only [idleStep] at h
      split_ifs at h
      obtain ⟨rfl, rfl, -⟩ := quiet_eq_some_iff.mp h
      cases panicking
      · exact .give rfl (Bool.or_false _)
      · exact .poison (Bool.or_true _)
    | clearPoison =>
      obtain ⟨rfl, rfl, -⟩ := quiet_eq_some_iff.mp h
      exact .clear rfl id
    | go => cases h
    | spurious => cases h
  · obtain ⟨hflag, hfree | ⟨hguards, hcall⟩⟩ := guards_of_step hidle h
    · exact .keep hflag fun hwrites ↦ by
        rw [not_writes (hnone hfree)] at hwrites
        cases hwrites
    · exact .keep hflag (writes_of_keep hguards hcall)

/-- The call returns what the flag says. -/
theorem result_of_acquired (hcall : th.call = .acquired)
    (h : step before th choice = some (after, moved, signal)) :
    moved.result = some (lockResult before.poisoned) ∧ signal = .silent := by
  simp only [step, hcall] at h
  split_ifs at h
  obtain ⟨-, rfl, rfl⟩ := quiet_eq_some_iff.mp h
  exact ⟨rfl, rfl⟩

end Steps

section Runs

variable {Tid α : Type} [DecidableEq Tid] [Fintype Tid] {data : α} {consistent : α → Prop}
  {p p' : Pool Tid (Guarded.Shared Shared α) (Guarded.Local Thread α)}
  {label : Label Tid (Guarded.Choice Choice α)}

omit [DecidableEq Tid] [Fintype Tid] in
/-- A thread that uses the data writes. -/
theorem writes_of_owns {th : Thread} (howns : Many.guards.owns th = true)
    (hidle : Many.guards.idle th = true) : poisonFlag.writes th = true := by
  have hcall : th.call = .idle := of_decide_eq_true hidle
  simp only [poisonFlag, hcall, Bool.and_eq_true]
  exact ⟨howns, rfl⟩

omit [DecidableEq Tid] in
/-- While a thread is about to return with a guard nobody writes. -/
theorem nobody_writes {p : Pool Tid Shared Thread} (h : Exclusive p) {t : Tid}
    (hcall : (p.threads t).call = .acquired) (u : Tid) :
    poisonFlag.writes (p.threads u) = false := by
  have hmarked := h.marked t
  rw [Thread.Marked, hcall] at hmarked
  refine Bool.eq_false_iff.mpr fun hwrites ↦ ?_
  simp only [poisonFlag, Bool.and_eq_true, decide_eq_true_eq] at hwrites
  have heq : u = t :=
    h.eq_of_outstanding (Nat.add_pos_left hwrites.1 _) (Nat.add_pos_left hmarked _)
  exact hwrites.2 (heq ▸ hcall)

/-- In every run of careful users the data is consistent, or the mutex is poisoned, or a thread may
write. -/
theorem protected_of_run (hdata : consistent data)
    (h : (Many.systemOfOne Tid data).ReachableWhen (Guarded.Careful poisonFlag consistent) p) :
    Guarded.Protected poisonFlag consistent p := by
  refine Guarded.consistent_or_poisoned hdata (fun _ ↦ writes_wake) (fun _ ↦ rfl) ?_
    (fun _ _ hmeets ↦ hmeets) (fun _ _ _ _ ↦ writes_of_owns) h
  intro p label choice after moved signal hrun _ hstep
  refine step_flagMove (fun hfree ↦ ?_) hstep
  have hcount := (exclusive (Guarded.lockPool_reachable hrun.reachable)).count
  have hnone := (total_eq_zero_iff _ _).mp (hcount.trans (if_pos hfree)) label.thread
  exact Nat.eq_zero_of_add_eq_zero_right hnone

end Runs

end SyncPrimitives.MutexV2
