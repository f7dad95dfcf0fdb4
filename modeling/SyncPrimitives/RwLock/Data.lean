import SyncPrimitives.Concurrency.Guarded
import SyncPrimitives.RwLock.Exclusion

/-!
# The data behind the read-write lock

A thread loads the data through a guard of either kind and stores through a write guard only, since
a `RwLockReadGuard` has no `DerefMut`. From the encoding of the guards in the state word, a write
guard is the only guard (`sharing_of_run`). Hence the data is the result of all updates in the order
of their stores, and what a thread has loaded does not change under its guard, however the threads
interleave (`data_intact`).
-/

set_option autoImplicit false
set_option relaxedAutoImplicit false

namespace SyncPrimitives.RwLock

open Concurrency Function

/-- A thread uses the data between two calls, through a guard. -/
def guards : Guards Thread where
  owns := fun th ↦ 0 < th.readGuards || 0 < th.writeGuards
  idle := fun th ↦ th.call = .idle

/-- The lock with the data behind it. -/
def systemWithData (Tid : Type) {α : Type} [DecidableEq Tid] [Fintype Tid] (data : α) :=
  ((machine Tid).guarded guards α).system (Guarded.start (new Tid) data)

section Runs

variable {Tid α : Type} [DecidableEq Tid] [Fintype Tid] {p : Pool Tid Shared Thread}

/-- Fewer than `2 ^ 31 - 1` read guards are outstanding, and who stores owns a write guard. -/
def DataCondition (p : Pool Tid (Guarded.Shared Shared α) (Guarded.Local Thread α))
    (label : Label Tid (Guarded.Choice Choice α)) : Prop :=
  ReaderBound (Guarded.lockPool p) ∧
    (label.choice.storing = true → 0 < (p.threads label.thread).lock.writeGuards)

instance (p : Pool Tid (Guarded.Shared Shared α) (Guarded.Local Thread α))
    (label : Label Tid (Guarded.Choice Choice α)) : Decidable (DataCondition p label) :=
  inferInstanceAs (Decidable (_ ∧ _))

omit [DecidableEq Tid] [Fintype Tid] in
/-- Who owns a guard has it outstanding. -/
theorem outstanding_pos_of_owns {th : Thread} (h : guards.owns th = true) :
    0 < th.outstanding .read ∨ 0 < th.outstanding .write := by
  simp only [guards, Bool.or_eq_true, decide_eq_true_eq] at h
  exact h.imp (Nat.add_pos_left · _) (Nat.add_pos_left · _)

omit [DecidableEq Tid] in
/-- Without write guards there is nothing to exclude. -/
theorem sharing_of_writers (h : writers p = 0) :
    Sharing (Thread.outstanding .read) (Thread.outstanding .write) p.threads := by
  intro t ht
  exact absurd ((total_eq_zero_iff _ _).mp h t) ht.ne'

omit [DecidableEq Tid] in
/-- The encoding makes a write guard the only guard. -/
theorem StateEncoding.sharing (h : StateEncoding p.shared.state (readers p) (writers p)) :
    Sharing (Thread.outstanding .read) (Thread.outstanding .write) p.threads := by
  by_cases hstate : p.shared.state = u32Max
  · obtain ⟨hwriters, hreaders⟩ := h.locked hstate
    have hnone (u : Tid) : (p.threads u).outstanding .read = 0 :=
      (total_eq_zero_iff _ _).mp hreaders u
    intro t ht
    have hle : (p.threads t).outstanding .write ≤ writers p := le_total _ _ t
    refine ⟨by omega, hnone t, fun u hu ↦ ⟨hnone u, ?_⟩⟩
    have hsum : (p.threads t).outstanding .write + (p.threads u).outstanding .write ≤ writers p :=
      add_le_total (Thread.outstanding .write) p.threads hu.symm
    omega
  · exact sharing_of_writers (h.unlocked hstate).1

/-- In every state of a run that has respected the reader bound so far a write guard is the only
guard. -/
theorem sharing_of_run (h : (system Tid).ReachableWhen (fun p _ ↦ ReaderBound p) p) :
    Sharing (Thread.outstanding .read) (Thread.outstanding .write) p.threads := by
  by_cases hbound : ReaderBound p
  · exact (stateEncoding (fun _ _ h ↦ h) h hbound).sharing
  cases h with
  | init => exact sharing_of_writers ((total_eq_zero_iff _ _).mpr fun _ ↦ rfl)
  | @step before _ label run meets moves =>
    -- the step that reaches the bound acquires a read guard
    obtain ⟨hlocked, hunlocked, -⟩ := stateEncoding (fun _ _ h ↦ h) run meets
    obtain ⟨moved, signal, hlocal, hdelivered⟩ := Machine.step_cases moves
    have hreads : readers p + (before.threads label.thread).outstanding .read =
        readers before + moved.outstanding .read := outstanding_step .read hdelivered
    have hwrites : writers p + (before.threads label.thread).outstanding .write =
        writers before + moved.outstanding .write := outstanding_step .write hdelivered
    simp only [ReaderBound] at hbound meets
    simp only [u32Max_eq] at hlocked hunlocked
    refine sharing_of_writers ?_
    cases step_effect hlocal with
    | unchanged _ hguards =>
      have hsame := hguards .read
      omega
    | acquireRead heven _ _ hkept =>
      have hfree := hunlocked (by omega)
      omega
    | acquireWrite _ _ hkept _ => omega
    | setWaiting _ _ hguards =>
      have hsame := hguards .read
      omega
    | releaseRead _ hless _ => omega
    | releaseWrite _ hkept _ => omega

/-- The lock of a run with data under the condition. -/
theorem sharing_of_data {data : α}
    {p : Pool Tid (Guarded.Shared Shared α) (Guarded.Local Thread α)}
    (h : (systemWithData Tid data).ReachableWhen DataCondition p) :
    Sharing (Thread.outstanding .read) (Thread.outstanding .write)
      (Guarded.lockPool p).threads :=
  sharing_of_run (Guarded.lockPool_reachableWhen (P := ReaderBound)
    (h.mono fun _ _ hmeets ↦ hmeets.1))

/-- In every state of every run in which stores go through write guards and fewer than `2 ^ 31 - 1`
read guards are outstanding, the data is the result of all updates in the order of their stores, and
whatever a thread has loaded under a guard it still owns, of either kind, is the data. -/
theorem data_intact (data : α) (p : Pool Tid (Guarded.Shared Shared α) (Guarded.Local Thread α))
    (h : (systemWithData Tid data).ReachableWhen DataCondition p) :
    Guarded.Intact guards data p := by
  refine Guarded.intactWhen (fun p label update hrun hmeets hchoice _ u hu ↦ ?_)
    (fun th ↦ ?_) (fun _ ↦ rfl) h
  · have hstoring : label.choice.storing = true := by
      rw [hchoice]
      rfl
    have hpos : 0 < (p.threads label.thread).lock.outstanding .write :=
      Nat.add_pos_left (hmeets.2 hstoring) _
    obtain ⟨-, -, hothers⟩ := sharing_of_data hrun label.thread hpos
    by_contra hne
    obtain ⟨hreads, hwrites⟩ : (p.threads u).lock.outstanding .read = 0 ∧
        (p.threads u).lock.outstanding .write = 0 := hothers u hne
    rcases outstanding_pos_of_owns hu with hpos | hpos <;> omega
  · show guards.owns (wake th) = guards.owns th
    unfold wake
    split
    case h_2 =>
      unfold readLoop readWhile
      split_ifs <;> rfl
    all_goals rfl

/-- `data_intact` on a run in which thread 0 adds to the data through a write guard, and threads 1
and 2 load it through read guards they own at the same time. -/
theorem data_intact_two_readers :
    ∃ p : Pool (Fin 3) (Guarded.Shared Shared ℕ) (Guarded.Local Thread ℕ),
      ((p.threads 1).loaded = some 8 ∧ (p.threads 2).loaded = some 8) ∧
        Guarded.Intact guards 5 p := by
  obtain ⟨p, hrun, hp⟩ := System.exists_reachableWhen_of_exec
    (M := systemWithData (Fin 3) 5) DataCondition
    (P := fun p ↦ (p.threads 1).loaded = some 8 ∧ (p.threads 2).loaded = some 8)
    ([⟨0, .lock (.call .write), none⟩] ++ List.replicate 4 ⟨0, .lock .go, none⟩ ++
      [⟨0, .load, none⟩, ⟨0, .store (· + 3), none⟩, ⟨0, .lock (.drop .write false), none⟩] ++
      List.replicate 5 ⟨0, .lock .go, none⟩ ++
      [⟨1, .lock (.call .read), none⟩] ++ List.replicate 4 ⟨1, .lock .go, none⟩ ++
      [⟨2, .lock (.call .tryRead), none⟩] ++ List.replicate 4 ⟨2, .lock .go, none⟩ ++
      [⟨1, .load, none⟩, ⟨2, .load, none⟩]) (by decide)
  exact ⟨p, hp, data_intact 5 p hrun⟩

end Runs

end SyncPrimitives.RwLock
