import SyncPrimitives.Concurrency.Poisoning
import SyncPrimitives.RwLock.Data
import SyncPrimitives.RwLock.Records

/-!
# Poisoning of the read-write lock

Only the drop of a write guard in a panicking thread sets `poisoned`, before it releases the word;
the drop of a read guard does not, and a reader cannot have changed the data. The flag is read by
every call that acquires, for reading too. So a call that returns `Ok` finds consistent data,
provided that write guards are dropped without a panic only if the data is consistent or the lock is
poisoned, and that `clear_poison` is called only while the data is consistent or with a write guard
(`rwlock_poison_protects`).
-/

set_option autoImplicit false
set_option relaxedAutoImplicit false

namespace SyncPrimitives.RwLock

open Concurrency Function

/-- The call has acquired and has not returned yet. -/
def Call.returning : Call → Bool
  | .acquired _ => true
  | _ => false

/-- The field `poisoned`. -/
def poisonFlag : PoisonFlag Shared Thread Choice where
  poisoned := Shared.poisoned
  writes := fun th ↦ 0 < th.writeGuards && !th.call.returning
  gives := fun choice ↦ choice = .drop .write false
  clears := fun choice ↦ choice = .clearPoison

section Steps

variable {Tid : Type} {before after : Shared} {th moved : Thread} {signal : Signal Tid Addr}
  {choice : Choice}

theorem writes_iff :
    poisonFlag.writes th = true ↔ 0 < th.writeGuards ∧ th.call.returning = false := by
  simp [poisonFlag]

theorem writes_of_keep (hguards : moved.writeGuards = th.writeGuards)
    (hcall : moved.call.returning = false) :
    poisonFlag.writes th = true → poisonFlag.writes moved = true := by
  rw [writes_iff, writes_iff]
  rintro ⟨hpos, -⟩
  exact ⟨hguards ▸ hpos, hcall⟩

/-- A step inside a call leaves the flag. -/
theorem poisoned_of_busy (hbusy : th.call ≠ .idle)
    (h : step before th choice = some (after, moved, signal)) :
    after.poisoned = before.poisoned := by
  unfold step at h
  split at h
  case h_1 hcall => exact absurd hcall hbusy
  case h_6 =>
    split_ifs at h
    obtain ⟨rfl, -, -⟩ := quiet_eq_some.mp h
    rfl
  all_goals
    rename_i pc hcall
    cases pc <;> cases choice <;>
      simp only [readStep, writeStep, tryReadStep, tryWriteStep, dropReadStep, dropWriteStep,
        Option.some.injEq, Prod.mk.injEq, reduceCtorEq] at h
    all_goals try split_ifs at h
    all_goals
      first
      | obtain ⟨rfl, -, -⟩ := quiet_eq_some.mp h
        rfl
      | obtain ⟨rfl, -, -⟩ := h
        rfl

/-- Who writes and is inside a call is refused by the next step. -/
theorem writes_of_busy (hrecorded : th.Recorded) (hbusy : th.call ≠ .idle)
    (h : step before th choice = some (after, moved, signal))
    (hwrites : poisonFlag.writes th = true) : poisonFlag.writes moved = true := by
  obtain ⟨hpos, hreturning⟩ := writes_iff.mp hwrites
  have hholds : 0 < th.guards := Nat.add_pos_right _ hpos
  by_cases hacquiring : th.call.acquiring = true
  · obtain ⟨-, -, rfl, -⟩ := (refused_of_holder hrecorded hacquiring hholds).mp h
    exact writes_iff.mpr ⟨hpos, rfl⟩
  -- inside a drop the thread has no guard left
  · exfalso
    unfold Thread.Recorded at hrecorded
    cases hcall : th.call with
    | idle => exact hbusy hcall
    | acquired guard =>
      rw [hcall] at hreturning
      cases hreturning
    | read pc | write pc | tryRead pc | tryWrite pc =>
      rw [hcall] at hacquiring
      exact hacquiring rfl
    | dropRead pc | dropWrite pc =>
      rw [hcall] at hrecorded
      cases pc <;> exact hholds.ne' hrecorded.2

theorem writes_of_same (hguards : moved.writeGuards = th.writeGuards)
    (hcall : moved.call.returning = th.call.returning) :
    poisonFlag.writes moved = poisonFlag.writes th := by
  simp only [poisonFlag, hguards, hcall]

/-- A wake-up ends in another position of the same call, or in its return with an error. -/
theorem writes_wake : poisonFlag.writes (wake th) = poisonFlag.writes th := by
  unfold wake
  split
  case h_2 hcall =>
    unfold readLoop readWhile
    split_ifs
    all_goals exact writes_of_same rfl (by rw [hcall]; rfl)
  case h_4 => rfl
  all_goals
    rename_i hcall
    exact writes_of_same rfl (by rw [hcall]; rfl)

/-- Every step of a thread is one of the moves of the flag. -/
theorem step_flagMove (hrecorded : th.Recorded)
    (h : step before th choice = some (after, moved, signal)) :
    FlagMove poisonFlag before th choice after moved := by
  by_cases hbusy : th.call ≠ .idle
  · exact .keep (poisoned_of_busy hbusy h) (writes_of_busy hrecorded hbusy h)
  · have hidle : th.call = .idle := not_not.mp hbusy
    simp only [step, hidle] at h
    cases choice with
    | call method =>
      cases method
      all_goals
        obtain ⟨rfl, rfl, -⟩ := quiet_eq_some.mp h
        exact .keep rfl (writes_of_keep rfl rfl)
    | drop guard panicking =>
      cases guard
      all_goals
        simp only [idleStep] at h
        split_ifs at h
        obtain ⟨rfl, rfl, -⟩ := quiet_eq_some.mp h
      · exact .keep rfl (writes_of_keep rfl rfl)
      · cases panicking
        · exact .give rfl (Bool.or_false _)
        · exact .poison (Bool.or_true _)
    | clearPoison =>
      obtain ⟨rfl, rfl, -⟩ := quiet_eq_some.mp h
      exact .clear rfl id
    | go => cases h
    | spurious => cases h

/-- The call returns what the flag says. -/
theorem result_of_acquired {guard : Guard} (hcall : th.call = .acquired guard)
    (h : step before th choice = some (after, moved, signal)) :
    moved.result = some (if before.poisoned then .error (.poisoned guard) else .ok guard) ∧
      signal = .silent := by
  simp only [step, hcall] at h
  split_ifs at h
  obtain ⟨-, rfl, rfl⟩ := quiet_eq_some.mp h
  exact ⟨rfl, rfl⟩

end Steps

section Runs

variable {Tid α : Type} [DecidableEq Tid] [Fintype Tid] {data : α} {consistent : α → Prop}
  {p p' : Pool Tid (Guarded.Shared Shared α) (Guarded.Local Thread α)}
  {label : Label Tid (Guarded.Choice Choice α)}

/-- Stores go through write guards, fewer than `2 ^ 31 - 1` read guards are outstanding, and the
users are careful. -/
def CarefulCondition (consistent : α → Prop)
    (p : Pool Tid (Guarded.Shared Shared α) (Guarded.Local Thread α))
    (label : Label Tid (Guarded.Choice Choice α)) : Prop :=
  DataCondition p label ∧ Guarded.Careful poisonFlag consistent p label

instance [DecidablePred consistent]
    (p : Pool Tid (Guarded.Shared Shared α) (Guarded.Local Thread α))
    (label : Label Tid (Guarded.Choice Choice α)) :
    Decidable (CarefulCondition consistent p label) :=
  inferInstanceAs (Decidable (_ ∧ _))

omit [DecidableEq Tid] [Fintype Tid] in
/-- A thread with a write guard between two calls writes. -/
theorem writes_of_idle {th : Thread} (hpos : 0 < th.writeGuards) (hidle : guards.idle th = true) :
    poisonFlag.writes th = true := by
  have hcall : th.call = .idle := of_decide_eq_true hidle
  exact writes_iff.mpr ⟨hpos, by rw [hcall]; rfl⟩

/-- While a thread is about to return with a guard nobody writes. -/
theorem nobody_writes (h : (systemWithData Tid data).ReachableWhen DataCondition p) {t : Tid}
    {guard : Guard} (hcall : (p.threads t).lock.call = .acquired guard) (u : Tid) :
    poisonFlag.writes (p.threads u).lock = false := by
  refine Bool.eq_false_iff.mpr fun hwrites ↦ ?_
  obtain ⟨hpos, hreturning⟩ := writes_iff.mp hwrites
  have hlock : (system Tid).Reachable (Guarded.lockPool p) :=
    Guarded.lockPool_reachable h.reachable
  obtain ⟨-, -, hothers⟩ := sharing_of_data h u (Nat.add_pos_left hpos _)
  have heq : t = u := by
    by_contra hne
    obtain ⟨hreads, hwriters⟩ := hothers t hne
    rcases owns_of_acquired hlock hcall with howns | howns
    · exact howns.ne' hreads
    · exact howns.ne' hwriters
  rw [← heq, hcall] at hreturning
  cases hreturning

/-- In every run of careful users the data is consistent, or the lock is poisoned, or a thread may
write. -/
theorem protected_of_run (hdata : consistent data)
    (h : (systemWithData Tid data).ReachableWhen (CarefulCondition consistent) p) :
    Guarded.Protected poisonFlag consistent p := by
  refine Guarded.consistent_or_poisoned hdata (fun _ ↦ writes_wake) (fun _ ↦ rfl) ?_
    (fun _ _ hmeets ↦ hmeets.2)
    (fun _ _ hmeets hstoring _ hidle ↦ writes_of_idle (hmeets.1.2 hstoring) hidle) h
  intro p label choice after moved signal hrun _ hstep
  have hlock : (system Tid).Reachable (Guarded.lockPool p) :=
    Guarded.lockPool_reachable hrun.reachable
  exact step_flagMove (recorded hlock label.thread) hstep

end Runs

end SyncPrimitives.RwLock
