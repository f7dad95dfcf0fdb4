import SyncPrimitives.RwLock.Model
import Mathlib.Tactic.SplitIfs

/-!
# The state word of the read-write lock and the outstanding guards

A guard is outstanding from its acquiring compare-and-exchange to the `fetch_sub` or `store(0)` of
its drop. `Effect` lists what one step of a thread can do to the state word and to the outstanding
guards of the thread, and `step_effect` shows that every step is one of these; no other fact about
the code is used below. `StateEncoding` relates the word to the number of outstanding guards, and
`stateEncoding_of_effect` keeps it along every effect while fewer than `2 ^ 31 - 1` read guards are
outstanding.
-/

set_option autoImplicit false
set_option relaxedAutoImplicit false

namespace SyncPrimitives.RwLock

open Concurrency Function

/-- The guards a thread owns. -/
def Thread.owned (th : Thread) : Guard → ℕ
  | .read => th.readGuards
  | .write => th.writeGuards

/-- The guard inside a drop that has not reached its `fetch_sub` or `store(0)`. -/
def Call.dropping : Call → Guard → ℕ
  | .dropRead .removeAcquired, .read => 1
  | .dropRead .fetchSub, .read => 1
  | .dropWrite .removeAcquired, .write => 1
  | .dropWrite .fetchAdd, .write => 1
  | .dropWrite .store, .write => 1
  | _, _ => 0

/-- The outstanding guards of a thread. -/
def Thread.outstanding (guard : Guard) (th : Thread) : ℕ := th.owned guard + th.call.dropping guard

/-- The outstanding read guards of a lock. -/
def readers {Tid : Type} [Fintype Tid] (p : Pool Tid Shared Thread) : ℕ :=
  total (Thread.outstanding .read) p.threads

/-- The outstanding write guards of a lock. -/
def writers {Tid : Type} [Fintype Tid] (p : Pool Tid Shared Thread) : ℕ :=
  total (Thread.outstanding .write) p.threads

attribute [local simp] Call.dropping

/-! ### The guards after local computation -/

section Local

variable {th : Thread} {guard : Guard} {state : ℕ}

@[simp] theorem outstanding_goto {call : Call} :
    (th.goto call).outstanding guard = th.owned guard + call.dropping guard := by
  cases guard <;> rfl

@[simp] theorem outstanding_ret {result : LockResult} :
    (th.ret result).outstanding guard = th.owned guard := by
  cases guard <;> rfl

@[simp] theorem outstanding_acquire {acquired : Guard} :
    (th.acquire acquired).outstanding guard =
      th.owned guard + if acquired = guard then 1 else 0 := by
  cases guard <;> cases acquired <;> rfl

@[simp] theorem outstanding_acquiredCheck {next : Call} :
    (acquiredCheck th next).outstanding guard =
      th.owned guard + if th.acquired then 0 else next.dropping guard := by
  unfold acquiredCheck
  split_ifs <;> simp

@[simp] theorem outstanding_readWhile :
    (readWhile th state).outstanding guard = th.owned guard := by
  unfold readWhile
  split_ifs <;> simp

@[simp] theorem outstanding_readLoop :
    (readLoop th state).outstanding guard = th.owned guard := by
  unfold readLoop
  split_ifs <;> simp

@[simp] theorem outstanding_writeLoop :
    (writeLoop th state).outstanding guard = th.owned guard := by
  unfold writeLoop
  split_ifs <;> simp

/-- A wake-up moves a thread between positions that hold no guard. -/
@[simp] theorem outstanding_wake : (wake th).outstanding guard = th.outstanding guard := by
  unfold wake
  split
  case h_4 => rfl
  all_goals
    rename_i hcall
    simp [Thread.outstanding.eq_def guard th, hcall]

end Local

/-! ### What a step does to the word and to the guards -/

/-- The effects of one step of a thread on the state word and on its outstanding guards. -/
inductive Effect (before : Shared) (th : Thread) (after : Shared) (moved : Thread) : Prop
  | unchanged (hstate : after.state = before.state)
      (hguards : ∀ guard, moved.outstanding guard = th.outstanding guard)
  | acquireRead (heven : before.state % 2 = 0) (hstate : after.state = addU32 before.state 2)
      (hreads : moved.outstanding .read = th.outstanding .read + 1)
      (hwrites : moved.outstanding .write = th.outstanding .write)
  | acquireWrite (hfree : before.state ≤ 1) (hstate : after.state = u32Max)
      (hreads : moved.outstanding .read = th.outstanding .read)
      (hwrites : moved.outstanding .write = th.outstanding .write + 1)
  | setWaiting (hshared : before.state % 2 = 0 ∧ 1 < before.state)
      (hstate : after.state = addU32 before.state 1)
      (hguards : ∀ guard, moved.outstanding guard = th.outstanding guard)
  | releaseRead (hstate : after.state = subU32 before.state 2)
      (hreads : th.outstanding .read = moved.outstanding .read + 1)
      (hwrites : moved.outstanding .write = th.outstanding .write)
  | releaseWrite (hstate : after.state = 0)
      (hreads : moved.outstanding .read = th.outstanding .read)
      (hwrites : th.outstanding .write = moved.outstanding .write + 1)

section Steps

variable {Tid : Type} {before after : Shared} {th moved : Thread} {signal : Signal Tid Addr}
  {choice : Choice}

theorem quiet_eq_some :
    quiet before th = some (after, moved, signal) ↔
      before = after ∧ th = moved ∧ .silent = signal := by
  simp [quiet]

/-- The words on which a compare-and-exchange takes a guard. -/
def Guard.Takes (state : ℕ) : Guard → Prop
  | .read => state % 2 = 0
  | .write => state ≤ 1

/-- What it stores. -/
def Guard.word (state : ℕ) : Guard → ℕ
  | .read => addU32 state 2
  | .write => u32Max

/-- A compare-and-exchange that takes a guard, or fails and goes on without one. -/
theorem effect_of_exchange (guard : Guard) {state : ℕ} {failed : Thread}
    (hguards : ∀ guard, th.outstanding guard = th.owned guard) (htakes : guard.Takes state)
    (hfailed : ∀ guard, failed.outstanding guard = th.owned guard)
    (h : (if before.state = state then
      quiet { before with state := guard.word state } (th.acquire guard)
      else quiet before failed) = some (after, moved, signal)) : Effect before th after moved := by
  split_ifs at h with hcas
  all_goals obtain ⟨rfl, rfl, -⟩ := quiet_eq_some.mp h
  · subst hcas
    cases guard with
    | read => exact .acquireRead htakes rfl (by simp [hguards]) (by simp [hguards])
    | write => exact .acquireWrite htakes rfl (by simp [hguards]) (by simp [hguards])
  · exact .unchanged rfl fun guard ↦ (hfailed guard).trans (hguards guard).symm

/-- A step that wakes nobody, takes no guard and leaves the word. -/
theorem effect_of_quiet {shared : Shared} {next : Thread}
    (hguards : ∀ guard, th.outstanding guard = th.owned guard)
    (h : quiet shared next = some (after, moved, signal)) (hstate : shared.state = before.state)
    (hnext : ∀ guard, next.outstanding guard = th.owned guard) : Effect before th after moved := by
  obtain ⟨rfl, rfl, -⟩ := quiet_eq_some.mp h
  exact .unchanged hstate fun guard ↦ (hnext guard).trans (hguards guard).symm

theorem readStep_effect {pc : ReadPc} (hcall : th.call = .read pc)
    (h : readStep before th pc choice = some (after, moved, signal)) :
    Effect before th after moved := by
  have hguards : ∀ guard, th.outstanding guard = th.owned guard := fun guard ↦ by
    simp [Thread.outstanding, hcall]
  cases pc <;> cases choice <;> simp only [readStep, reduceCtorEq] at h
  case compareExchange.go state even =>
    exact effect_of_exchange .read hguards even (fun _ ↦ outstanding_readLoop) h
  all_goals try split_ifs at h
  all_goals exact effect_of_quiet hguards h rfl (by simp)

theorem writeStep_effect {pc : WritePc} (hcall : th.call = .write pc)
    (h : writeStep before th pc choice = some (after, moved, signal)) :
    Effect before th after moved := by
  have hguards : ∀ guard, th.outstanding guard = th.owned guard := fun guard ↦ by
    simp [Thread.outstanding, hcall]
  cases pc <;> cases choice <;> simp only [writeStep, reduceCtorEq] at h
  case acquire.go state free =>
    exact effect_of_exchange .write hguards free (fun _ ↦ outstanding_writeLoop) h
  case setWaiting.go state shared =>
    split_ifs at h with hcas
    · obtain ⟨rfl, rfl, -⟩ := quiet_eq_some.mp h
      subst hcas
      exact .setWaiting shared rfl (by simp [hguards])
    · exact effect_of_quiet hguards h rfl fun _ ↦ outstanding_writeLoop
  all_goals try split_ifs at h
  all_goals exact effect_of_quiet hguards h rfl (by simp)

theorem tryReadStep_effect {pc : TryReadPc} (hcall : th.call = .tryRead pc)
    (h : tryReadStep before th pc choice = some (after, moved, signal)) :
    Effect before th after moved := by
  have hguards : ∀ guard, th.outstanding guard = th.owned guard := fun guard ↦ by
    simp [Thread.outstanding, hcall]
  cases pc <;> cases choice <;> simp only [tryReadStep, reduceCtorEq] at h
  case compareExchange.go state even =>
    exact effect_of_exchange .read hguards even (fun _ ↦ outstanding_ret) h
  all_goals try split_ifs at h
  all_goals exact effect_of_quiet hguards h rfl (by simp)

theorem tryWriteStep_effect {pc : TryWritePc} (hcall : th.call = .tryWrite pc)
    (h : tryWriteStep before th pc choice = some (after, moved, signal)) :
    Effect before th after moved := by
  have hguards : ∀ guard, th.outstanding guard = th.owned guard := fun guard ↦ by
    simp [Thread.outstanding, hcall]
  cases pc <;> cases choice <;> simp only [tryWriteStep, reduceCtorEq] at h
  case compareExchange.go state free =>
    exact effect_of_exchange .write hguards free (fun _ ↦ outstanding_ret) h
  all_goals try split_ifs at h
  all_goals exact effect_of_quiet hguards h rfl (by simp)

theorem dropReadStep_effect {pc : DropReadPc} (hcall : th.call = .dropRead pc)
    (h : dropReadStep before th pc choice = some (after, moved, signal)) :
    Effect before th after moved := by
  cases pc <;> cases choice <;> simp only [dropReadStep, reduceCtorEq] at h
  case removeAcquired.go =>
    obtain ⟨rfl, rfl, -⟩ := quiet_eq_some.mp h
    refine .unchanged rfl fun guard ↦ ?_
    cases guard <;> simp [Thread.outstanding, Thread.owned, hcall]
  case fetchSub.go =>
    obtain ⟨rfl, rfl, -⟩ := quiet_eq_some.mp h
    refine .releaseRead rfl ?_ ?_ <;> split_ifs <;>
      simp [Thread.outstanding, Thread.goto, Thread.owned, hcall]
  case wakeOne.go =>
    obtain ⟨rfl, rfl, -⟩ := by simpa using h
    exact .unchanged rfl fun guard ↦ by
      simp [Thread.outstanding.eq_def guard th, hcall]

theorem dropWriteStep_effect {pc : DropWritePc} (hcall : th.call = .dropWrite pc)
    (h : dropWriteStep before th pc choice = some (after, moved, signal)) :
    Effect before th after moved := by
  cases pc <;> cases choice <;> simp only [dropWriteStep, reduceCtorEq] at h
  case removeAcquired.go =>
    obtain ⟨rfl, rfl, -⟩ := quiet_eq_some.mp h
    refine .unchanged rfl fun guard ↦ ?_
    cases guard <;> simp [Thread.outstanding, Thread.owned, hcall]
  case fetchAdd.go =>
    obtain ⟨rfl, rfl, -⟩ := quiet_eq_some.mp h
    refine .unchanged rfl fun guard ↦ ?_
    cases guard <;> simp [Thread.outstanding.eq_def _ th, hcall]
  case store.go =>
    obtain ⟨rfl, rfl, -⟩ := quiet_eq_some.mp h
    exact .releaseWrite rfl (by simp [Thread.outstanding.eq_def _ th, hcall])
      (by simp [Thread.outstanding.eq_def _ th, hcall])
  case loadWaiting.go =>
    obtain ⟨rfl, rfl, -⟩ := quiet_eq_some.mp h
    refine .unchanged rfl fun guard ↦ ?_
    split_ifs <;> simp [Thread.outstanding.eq_def _ th, hcall]
  all_goals
    obtain ⟨rfl, rfl, -⟩ := by simpa using h
    exact .unchanged rfl fun guard ↦ by
      simp [Thread.outstanding.eq_def guard th, hcall]

theorem idleStep_effect (hcall : th.call = .idle)
    (h : idleStep before th choice = some (after, moved, signal)) :
    Effect before th after moved := by
  have hguards : ∀ guard, th.outstanding guard = th.owned guard := fun guard ↦ by
    simp [Thread.outstanding, hcall]
  cases choice with
  | call method =>
    cases method
    all_goals obtain ⟨rfl, rfl, -⟩ := quiet_eq_some.mp h
    all_goals exact .unchanged rfl (by simp [hguards])
  | drop guard panicking =>
    cases guard
    all_goals
      simp only [idleStep] at h
      split_ifs at h with howned
      obtain ⟨rfl, rfl, -⟩ := quiet_eq_some.mp h
      refine .unchanged rfl fun guard ↦ ?_
      cases guard <;>
        simp [Thread.outstanding, Thread.owned, hcall, Nat.sub_add_cancel howned]
  | clearPoison =>
    obtain ⟨rfl, rfl, -⟩ := quiet_eq_some.mp h
    exact .unchanged rfl fun _ ↦ rfl
  | go => cases h
  | spurious => cases h

/-- Every step of a thread has one of the effects. -/
theorem step_effect (h : step before th choice = some (after, moved, signal)) :
    Effect before th after moved := by
  unfold step at h
  split at h
  case h_1 hcall => exact idleStep_effect hcall h
  case h_2 hcall => exact readStep_effect hcall h
  case h_3 hcall => exact writeStep_effect hcall h
  case h_4 hcall => exact tryReadStep_effect hcall h
  case h_5 hcall => exact tryWriteStep_effect hcall h
  case h_6 hcall =>
    split_ifs at h
    obtain ⟨rfl, rfl, -⟩ := quiet_eq_some.mp h
    refine .unchanged rfl fun guard ↦ ?_
    cases guard <;>
      simp [finish, Thread.ret, Thread.outstanding, Thread.owned, hcall]
  case h_7 hcall => exact dropReadStep_effect hcall h
  case h_8 hcall => exact dropWriteStep_effect hcall h

end Steps

/-! ### The encoding -/

/-- The state word encodes the outstanding guards: `u32::MAX` is one write guard and no reader,
every other value is no write guard and half the value readers. -/
structure StateEncoding (state reads writes : ℕ) : Prop where
  locked : state = u32Max → writes = 1 ∧ reads = 0
  unlocked : state ≠ u32Max → writes = 0 ∧ state / 2 = reads
  bounded : state < 2 ^ 32

/-- Assumes: fewer than `2 ^ 31 - 1` read guards before and after the step. An effect keeps the
encoding when the totals change as the thread does. -/
theorem stateEncoding_of_effect {before after : Shared} {th moved : Thread}
    {reads writes reads' writes' : ℕ} (henc : StateEncoding before.state reads writes)
    (heffect : Effect before th after moved) (hbound : reads' < 2 ^ 31 - 1)
    (hreads' : reads' + th.outstanding .read = reads + moved.outstanding .read)
    (hwrites' : writes' + th.outstanding .write = writes + moved.outstanding .write)
    (hown : th.outstanding .read ≤ reads ∧ th.outstanding .write ≤ writes) :
    StateEncoding after.state reads' writes' := by
  obtain ⟨hlocked, hunlocked, hlt⟩ := henc
  simp only [u32Max_eq] at hlocked hunlocked
  cases heffect with
  | unchanged hstate hguards =>
    rw [hguards] at hreads' hwrites'
    exact ⟨by simp only [hstate, u32Max_eq]; omega, by simp only [hstate, u32Max_eq]; omega,
      hstate ▸ hlt⟩
  | acquireRead heven hstate hreads hwrites =>
    have hword : after.state = before.state + 2 := by
      rw [hstate]
      exact addU32_of_lt (by omega)
    exact ⟨by simp only [hword, u32Max_eq]; omega, by simp only [hword, u32Max_eq]; omega, by omega⟩
  | acquireWrite hfree hstate hreads hwrites =>
    exact ⟨fun _ ↦ by omega, fun hne ↦ absurd hstate hne, by simp [hstate, u32Max_eq]⟩
  | setWaiting hshared hstate hguards =>
    rw [hguards] at hreads' hwrites'
    have hword : after.state = before.state + 1 := by
      rw [hstate]
      exact addU32_of_lt (by omega)
    exact ⟨by simp only [hword, u32Max_eq]; omega, by simp only [hword, u32Max_eq]; omega, by omega⟩
  | releaseRead hstate hreads hwrites =>
    have hword : after.state = before.state - 2 := by
      rw [hstate]
      exact subU32_of_le (by omega) hlt
    exact ⟨by simp only [hword, u32Max_eq]; omega, by simp only [hword, u32Max_eq]; omega, by omega⟩
  | releaseWrite hstate hreads hwrites =>
    exact ⟨by simp only [hstate, u32Max_eq]; omega, by simp only [hstate, u32Max_eq]; omega,
      by omega⟩

section Pool

variable {Tid : Type} [DecidableEq Tid] [Fintype Tid]

/-- A step of the pool changes the outstanding guards of a kind as the thread that moves does. -/
theorem outstanding_step {p p' : Pool Tid Shared Thread} {t : Tid} {moved : Thread}
    {signal : Signal Tid Addr} (guard : Guard)
    (h : (machine Tid).Delivered signal (update p.threads t moved) p'.threads) :
    total (Thread.outstanding guard) p'.threads + (p.threads t).outstanding guard =
      total (Thread.outstanding guard) p.threads + moved.outstanding guard := by
  rw [h.total_eq (fun _ _ _ ↦ outstanding_wake) (fun _ ↦ rfl)]
  exact total_update _ _ _ _

/-- Fewer than `2 ^ 31 - 1` read guards are outstanding. -/
def ReaderBound (p : Pool Tid Shared Thread) : Prop := readers p < 2 ^ 31 - 1

instance (p : Pool Tid Shared Thread) : Decidable (ReaderBound p) :=
  inferInstanceAs (Decidable (readers p < 2 ^ 31 - 1))

omit [DecidableEq Tid] in
/-- The encoding holds of a new lock. -/
theorem stateEncoding_new :
    StateEncoding (new Tid).shared.state (readers (new Tid)) (writers (new Tid)) := by
  have hzero : ∀ guard, total (Thread.outstanding guard) (new Tid).threads = 0 := fun guard ↦
    (total_eq_zero_iff _ _).mpr fun _ ↦ by cases guard <;> rfl
  rw [readers, writers, hzero, hzero]
  show StateEncoding 0 0 0
  exact ⟨by decide, by decide, by decide⟩

/-- The encoding holds in every state of a run that respects the reader bound. -/
theorem stateEncoding {p : Pool Tid Shared Thread}
    {ok : Pool Tid Shared Thread → Label Tid Choice → Prop}
    (hok : ∀ p label, ok p label → ReaderBound p)
    (h : (system Tid).ReachableWhen ok p) (hbound : ReaderBound p) :
    StateEncoding p.shared.state (readers p) (writers p) := by
  have key : ReaderBound p → StateEncoding p.shared.state (readers p) (writers p) := by
    refine h.invariant (P := fun p ↦ ReaderBound p →
      StateEncoding p.shared.state (readers p) (writers p)) ?_ ?_
    · intro _
      exact stateEncoding_new
    · intro p label p' _ ih hmeets hmove hbound'
      obtain ⟨moved, signal, hlocal, hdelivered⟩ := Machine.step_cases hmove
      exact stateEncoding_of_effect (ih (hok _ _ hmeets)) (step_effect hlocal) hbound'
        (outstanding_step .read hdelivered) (outstanding_step .write hdelivered)
        ⟨le_total _ _ _, le_total _ _ _⟩
  exact key hbound

/-- In every reachable state of a run in which fewer than `2 ^ 31 - 1` read guards are ever
outstanding at once, the state word is `u32::MAX` with exactly one write guard and no read guard
outstanding, or it is another value with no write guard and half the value read guards outstanding.
A `fetch_sub(2)` about to run finds at least two, and a `store(0)` about to run finds the lock
write-locked without readers. -/
theorem outstanding_guards_of_state {p : Pool Tid Shared Thread}
    (h : (system Tid).ReachableWhen (fun p _ ↦ ReaderBound p) p) (hbound : ReaderBound p) :
    ((p.shared.state = u32Max ∧ writers p = 1 ∧ readers p = 0) ∨
        (p.shared.state ≠ u32Max ∧ writers p = 0 ∧ p.shared.state / 2 = readers p)) ∧
      (∀ t, (p.threads t).call = .dropRead .fetchSub →
        2 ≤ p.shared.state ∧ p.shared.state ≠ u32Max) ∧
      ∀ t, (p.threads t).call = .dropWrite .store → p.shared.state = u32Max ∧ readers p = 0 := by
  have henc := stateEncoding (fun _ _ h ↦ h) h hbound
  refine ⟨?_, ?_, ?_⟩
  · by_cases hstate : p.shared.state = u32Max
    · exact .inl ⟨hstate, henc.locked hstate⟩
    · exact .inr ⟨hstate, henc.unlocked hstate⟩
  · intro t hcall
    have hone : 1 ≤ readers p := by
      refine le_trans ?_ (le_total _ _ t)
      simp [Thread.outstanding, hcall]
    have hne : p.shared.state ≠ u32Max := fun hstate ↦ by
      have := (henc.locked hstate).2
      omega
    have := (henc.unlocked hne).2
    exact ⟨by omega, hne⟩
  · intro t hcall
    have hone : 1 ≤ writers p := by
      refine le_trans ?_ (le_total _ _ t)
      simp [Thread.outstanding, hcall]
    have hstate : p.shared.state = u32Max := by
      by_contra hne
      have := (henc.unlocked hne).1
      omega
    exact ⟨hstate, (henc.locked hstate).2⟩

/-- `outstanding_guards_of_state` on a run of two threads in which the second has just acquired a
read guard beside the first. -/
theorem outstanding_guards_of_state_two_readers :
    ∃ p : Pool (Fin 2) Shared Thread, p.shared.state = 4 ∧
      ((p.shared.state = u32Max ∧ writers p = 1 ∧ readers p = 0) ∨
        (p.shared.state ≠ u32Max ∧ writers p = 0 ∧ p.shared.state / 2 = readers p)) := by
  obtain ⟨p, hrun, hstate, hbound⟩ := System.exists_reachableWhen_of_exec
    (M := system (Fin 2)) (fun p _ ↦ ReaderBound p)
    (P := fun p ↦ p.shared.state = 4 ∧ ReaderBound p)
    [⟨0, .call .read, none⟩, ⟨0, .go, none⟩, ⟨0, .go, none⟩, ⟨1, .call .tryRead, none⟩,
      ⟨0, .go, none⟩, ⟨1, .go, none⟩, ⟨1, .go, none⟩, ⟨1, .go, none⟩] (by decide)
  exact ⟨p, hstate, (outstanding_guards_of_state hrun hbound).1⟩

end Pool

end SyncPrimitives.RwLock
