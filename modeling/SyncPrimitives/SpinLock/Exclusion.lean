import SyncPrimitives.SpinLock.Model
import SyncPrimitives.MutexV1.Exclusion

/-!
# Exclusion of the locks whose word names the owner

The spin lock is the second lock of this kind: its word `locking_thread` names the owner as `state`
does in the queueing mutex, and a guard is outstanding from the compare-and-exchange that acquires
to the store of zero in its drop. `owner_words_exclude` states the result for both locks.
-/

set_option autoImplicit false
set_option relaxedAutoImplicit false

namespace SyncPrimitives.SpinLock

open Concurrency Function
open MutexV1 (ThreadIds)

variable {Tid α : Type}

/-- The guards of a thread, the one that is being dropped included. -/
def Thread.outstanding (th : Thread) : ℕ := th.guards + if th.call = .drop then 1 else 0

/-- The word `locking_thread`, and the guards. -/
def ownerWord (ids : ThreadIds Tid) : OwnerWord Tid Shared Thread where
  id := ids.get
  id_ne_zero := ids.get_ne_zero
  id_injective := ids.get_injective
  word := Shared.lockingThread
  outstanding := Thread.outstanding

/-- A thread uses the data between two calls, through a guard. -/
def guards : Guards Thread where
  owns := fun th ↦ 0 < th.guards
  idle := fun th ↦ th.call = .idle

/-- The spin lock with the data behind it. -/
def systemWithData [DecidableEq Tid] [Fintype Tid] (ids : ThreadIds Tid) (data : α) :=
  ((machine ids).guarded guards α).system (Guarded.start (new Tid) data)

/-- The call of a thread has panicked. -/
def Thread.Refused (th : Thread) : Prop := th.call = .idle ∧ th.result = some .panicked

section Steps

variable {ids : ThreadIds Tid} {self : Tid} {before after : Shared} {th moved : Thread}
  {choice : Choice}

theorem outstanding_of_call {call : Call} (hcall : th.call = call) (hdrop : call ≠ .drop) :
    th.outstanding = th.guards := by
  rw [Thread.outstanding, hcall, if_neg hdrop]
  rfl

theorem lockStep_ownerMove {pc : LockPc} (hcall : th.call = .lock pc)
    (h : lockStep (ids.get self) before th pc choice = some (after, moved)) :
    OwnerMove (ownerWord ids) self before th after moved := by
  have hbefore : th.outstanding = th.guards := outstanding_of_call hcall (by simp)
  have hstay {call : Call} (hcall' : moved.call = call) (hdrop : call ≠ .drop)
      (hguards : moved.guards = th.guards) (hword : after = before) :
      OwnerMove (ownerWord ids) self before th after moved :=
    .stay (congrArg Shared.lockingThread hword)
      ((outstanding_of_call hcall' hdrop).trans (hguards.trans hbefore.symm))
  cases pc <;> cases choice <;> simp only [lockStep, reduceCtorEq] at h
  case loadOwner.go =>
    split_ifs at h
    all_goals
      obtain ⟨rfl, rfl⟩ := by simpa using h
      exact hstay rfl nofun rfl rfl
  case load.go =>
    split_ifs at h
    all_goals obtain ⟨rfl, rfl⟩ := by simpa using h
    · exact hstay rfl nofun rfl rfl
    · exact .stay rfl rfl
  case compareExchangeWeak.go =>
    split_ifs at h with hfree
    all_goals obtain ⟨rfl, rfl⟩ := by simpa using h
    · exact .acquire hfree rfl (congrArg (· + 1) hbefore.symm)
    · exact hstay rfl nofun rfl rfl
  case compareExchangeWeak.spurious =>
    obtain ⟨rfl, rfl⟩ := by simpa using h
    exact hstay rfl nofun rfl rfl

/-- Every step of a thread respects the ownership. -/
theorem step_ownerMove (h : step (ids.get self) before th choice = some (after, moved)) :
    OwnerMove (ownerWord ids) self before th after moved := by
  unfold step at h
  split at h
  case h_1 hcall =>
    have hbefore : th.outstanding = th.guards := outstanding_of_call hcall (by simp)
    cases choice <;> simp only [idleStep, reduceCtorEq] at h
    case lock =>
      obtain ⟨rfl, rfl⟩ := by simpa using h
      exact .stay rfl hbefore.symm
    case drop =>
      split_ifs at h with hguard
      obtain ⟨rfl, rfl⟩ := by simpa using h
      refine .stay rfl ?_
      show th.guards - 1 + 1 = th.outstanding
      omega
  case h_2 hcall => exact lockStep_ownerMove hcall h
  case h_3 hcall =>
    cases choice <;> simp only [dropStep, reduceCtorEq] at h
    case go =>
      obtain ⟨rfl, rfl⟩ := by simpa using h
      refine .release rfl ?_
      show th.guards + 1 = th.outstanding
      rw [Thread.outstanding, hcall]
      rfl

/-- A step inside `lock` panics exactly if it reads the own id. -/
theorem lockStep_refused {pc : LockPc} (hcall : th.call = .lock pc)
    (h : step (ids.get self) before th choice = some (after, moved)) :
    (moved.Refused ↔ pc = .loadOwner ∧ before.lockingThread = ids.get self) ∧
      (moved.Refused → after = before) := by
  have hfails (hmoved : ¬ moved.Refused) (hpc : pc ≠ .loadOwner) :
      (moved.Refused ↔ pc = .loadOwner ∧ before.lockingThread = ids.get self) ∧
        (moved.Refused → after = before) :=
    ⟨⟨fun hrefused ↦ absurd hrefused hmoved, fun ⟨hload, _⟩ ↦ absurd hload hpc⟩,
      fun hrefused ↦ absurd hrefused hmoved⟩
  simp only [step, hcall] at h
  cases pc <;> cases choice <;> simp only [lockStep, reduceCtorEq] at h
  case loadOwner.go =>
    split_ifs at h with howner
    all_goals obtain ⟨rfl, rfl⟩ := by simpa using h
    · exact ⟨⟨fun _ ↦ ⟨rfl, howner⟩, fun _ ↦ ⟨rfl, rfl⟩⟩, fun _ ↦ rfl⟩
    · exact ⟨⟨nofun, fun ⟨_, hsame⟩ ↦ absurd hsame howner⟩, fun _ ↦ rfl⟩
  case load.go =>
    split_ifs at h
    all_goals obtain ⟨rfl, rfl⟩ := by simpa using h
    · exact hfails nofun nofun
    · exact hfails (fun hrefused ↦ by cases hcall.symm.trans hrefused.1) nofun
  case compareExchangeWeak.go =>
    split_ifs at h
    all_goals
      obtain ⟨rfl, rfl⟩ := by simpa using h
      exact hfails nofun nofun
  case compareExchangeWeak.spurious =>
    obtain ⟨rfl, rfl⟩ := by simpa using h
    exact hfails nofun nofun

end Steps

/-! ### Every run -/

section Runs

variable [DecidableEq Tid] [Fintype Tid] {ids : ThreadIds Tid} {data : α}

/-- The word names the owner in every state of every run. -/
theorem owned_of_run {p : Pool Tid Shared Thread}
    (h : ((machine ids).system (new Tid)).Reachable p) :
    Owned (ownerWord ids) p := by
  refine owned (M := machine ids) rfl (fun _ ↦ rfl) ?_ (fun _ ↦ rfl) (fun _ ↦ rfl) h
  intro t before th choice after moved signal hstep
  obtain ⟨⟨after', moved'⟩, hlocal, hsame⟩ := Option.map_eq_some_iff.mp hstep
  obtain ⟨rfl, rfl, -⟩ := by simpa using hsame
  exact step_ownerMove hlocal

variable {p p' : Pool Tid (Guarded.Shared Shared α) (Guarded.Local Thread α)}
  {label : Label Tid (Guarded.Choice Choice α)}

/-- The word names the owner in every state of every run with data. -/
theorem owned_lockPool (h : (systemWithData ids data).Reachable p) :
    Owned (ownerWord ids) (Guarded.lockPool p) :=
  owned_of_run (Guarded.lockPool_reachable h)

/-- No update of the data is lost. -/
theorem intact_of_run (h : (systemWithData ids data).Reachable p) :
    Guarded.Intact guards data p := by
  refine Guarded.intact (fun p hrun t u ht hu ↦ ?_) (fun _ ↦ rfl) (fun _ ↦ rfl) h
  have howned : Owned (ownerWord ids) p := owned_of_run hrun
  simp only [guards, decide_eq_true_eq] at ht hu
  exact howned.eq_of_outstanding (Nat.add_pos_left ht _) (Nat.add_pos_left hu _)

/-- `lock` panics exactly for the owner, and changes nothing when it does. -/
theorem refused_of_step (h : (systemWithData ids data).Reachable p)
    (hmove : (systemWithData ids data).step p label = some p')
    {pc : LockPc} (hinside : (p.threads label.thread).lock.call = .lock pc) :
    ((p'.threads label.thread).lock.Refused ↔
        pc = .loadOwner ∧ 0 < (p.threads label.thread).lock.outstanding) ∧
      ((p'.threads label.thread).lock.Refused → p'.shared = p.shared) := by
  obtain ⟨moved, signal, hlocal, hdelivered⟩ := Machine.step_cases hmove
  have hbusy : guards.idle (p.threads label.thread).lock = false := by simp [guards, hinside]
  have hword := (owned_lockPool h).word_eq_id_iff (t := label.thread)
  cases Guarded.step_move hlocal with
  | lock choice hstep hdata hupdates hloaded =>
    obtain ⟨⟨after', moved'⟩, hlock, hsame⟩ := Option.map_eq_some_iff.mp hstep
    obtain ⟨hafter, hmovedLock, hsignal⟩ := by simpa using hsame
    subst hafter hmovedLock hsignal
    obtain ⟨hrefused, hkept⟩ := lockStep_refused hinside hlock
    have hmoved : p'.threads label.thread = moved := by rw [hdelivered.silent_eq, update_self]
    rw [hmoved]
    refine ⟨hrefused.trans (and_congr_right fun _ ↦ hword), fun hmovedRefused ↦ ?_⟩
    exact Guarded.Shared.ext (hkept hmovedRefused) hdata hupdates
  | load _ hidle => exact absurd (hidle.symm.trans hbusy) Bool.noConfusion
  | store _ _ _ hidle => exact absurd (hidle.symm.trans hbusy) Bool.noConfusion

/-- What exclusion means in one state of the spin lock: the word names the single thread with the
single guard, `lock` panics exactly for it and changes nothing, and no update is lost. -/
structure Excludes (ids : ThreadIds Tid) (data : α)
    (p : Pool Tid (Guarded.Shared Shared α) (Guarded.Local Thread α)) : Prop where
  owned : Owned (ownerWord ids) (Guarded.lockPool p)
  refused : ∀ label p' pc, (systemWithData ids data).step p label = some p' →
    (p.threads label.thread).lock.call = .lock pc →
      ((p'.threads label.thread).lock.Refused ↔
          pc = .loadOwner ∧ 0 < (p.threads label.thread).lock.outstanding) ∧
        ((p'.threads label.thread).lock.Refused → p'.shared = p.shared)
  intact : Guarded.Intact guards data p

/-- What exclusion means in one state of the queueing mutex, with `WouldBlock` for the panic. -/
structure MutexExcludes (ids : ThreadIds Tid) (data : α)
    (p : Pool Tid (Guarded.Shared (MutexV1.Shared Tid) α) (Guarded.Local (MutexV1.Thread Tid) α)) :
    Prop where
  owned : Owned (MutexV1.ownerWord ids) (Guarded.lockPool p)
  refused : ∀ label p', (MutexV1.systemWithData ids data).step p label = some p' →
    (p.threads label.thread).lock.call.locking = true →
      ((p'.threads label.thread).lock.Refused ↔
          (p.threads label.thread).lock.call = .lock .loadOwner ∧
            0 < (p.threads label.thread).lock.outstanding) ∧
        ((p'.threads label.thread).lock.Refused → p'.shared = p.shared)
  intact : Guarded.Intact MutexV1.guards data p

/-- Both locks whose word names the owner exclude, in every state of every run. -/
theorem owner_words_exclude (ids : ThreadIds Tid) (data : α) :
    (∀ p, (systemWithData ids data).Reachable p → Excludes ids data p) ∧
      ∀ p, (MutexV1.systemWithData ids data).Reachable p → MutexExcludes ids data p := by
  constructor
  · intro p h
    exact ⟨owned_lockPool h, fun _ _ _ hmove hinside ↦ refused_of_step h hmove hinside,
      intact_of_run h⟩
  · intro p h
    exact ⟨MutexV1.owned_lockPool h,
      fun _ _ hmove hinside ↦ MutexV1.refused_of_step h hmove hinside, MutexV1.intact_of_run h⟩

/-- `owner_words_exclude` on runs in which each of two threads adds to the data under the lock. -/
theorem owner_words_exclude_two_threads :
    (∃ p, p.shared.data = 12 ∧ Excludes MutexV1.twoThreadIds 5 p) ∧
      ∃ p, p.shared.data = 12 ∧ MutexExcludes MutexV1.twoThreadIds 5 p := by
  obtain ⟨p, hrun, hdata⟩ := System.exists_reachableWhen_of_exec
    (M := systemWithData MutexV1.twoThreadIds 5) (fun _ _ ↦ True) (P := fun p ↦ p.shared.data = 12)
    ([⟨0, .lock .lock, none⟩] ++ List.replicate 3 ⟨0, .lock .go, none⟩ ++
      [⟨0, .load, none⟩, ⟨0, .store (· + 3), none⟩, ⟨0, .lock .drop, none⟩, ⟨0, .lock .go, none⟩] ++
      [⟨1, .lock .lock, none⟩] ++ List.replicate 3 ⟨1, .lock .go, none⟩ ++
      [⟨1, .load, none⟩, ⟨1, .store (· + 4), none⟩]) (by decide)
  obtain ⟨q, hrun', hdata'⟩ := System.exists_reachableWhen_of_exec
    (M := MutexV1.systemWithData MutexV1.twoThreadIds 5) (fun _ _ ↦ True)
    (P := fun p ↦ p.shared.data = 12)
    ([⟨0, .lock (.call .lock), none⟩] ++ List.replicate 4 ⟨0, .lock .go, none⟩ ++
      [⟨0, .load, none⟩, ⟨0, .store (· + 3), none⟩, ⟨0, .lock (.drop false), none⟩] ++
      List.replicate 5 ⟨0, .lock .go, none⟩ ++
      [⟨1, .lock (.call .lock), none⟩] ++ List.replicate 4 ⟨1, .lock .go, none⟩ ++
      [⟨1, .load, none⟩, ⟨1, .store (· + 4), none⟩]) (by decide)
  obtain ⟨hspin, hmutex⟩ := owner_words_exclude MutexV1.twoThreadIds 5
  exact ⟨⟨p, hdata, hspin p hrun⟩, q, hdata', hmutex q hrun'⟩

end Runs

end SyncPrimitives.SpinLock
