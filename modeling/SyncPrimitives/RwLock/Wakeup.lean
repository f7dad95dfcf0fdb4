import SyncPrimitives.RwLock.Exclusion

/-!
# Wake-ups of the read-write lock

A stranded lock has no guard outstanding and no drop in progress, while every thread inside `read`
or `write` is asleep. `stranding` is a run that reaches such a state: a writer that found `u32::MAX`
keeps that value, and after the write guard is gone it sleeps again on `writers_number` although the
word is zero. The same happens to a writer that goes to sleep after the last reader has left, since
the drop of a read guard wakes on `writers_number` without changing it.

Under `WakeCondition` no run strands. The condition asks of every step on which a thread falls
asleep in `write` that the wake-up it needs is still owed: the word is odd and above one, so that a
guard is outstanding whose release wakes a writer, or a release has yet to wake a writer, or another
thread is awake in `write`. It also bounds the read guards and the threads that wait in `write`.

The proof counts threads at a few positions, the `Place`s. `WakeMove` lists what a step of one
thread does to the word, to `waiting_writers` and to its place; `Watched` is the invariant on the
counts.
-/

set_option autoImplicit false
set_option relaxedAutoImplicit false

namespace SyncPrimitives.RwLock

open Concurrency Function

/-! ### The state in which nobody is left to wake the sleepers -/

/-- Whether a position is inside `read` or `write`. -/
def Call.insideLock : Call → Bool
  | .read _ => true
  | .write _ => true
  | _ => false

/-- Whether a position is inside the drop of a guard. -/
def Call.insideDrop : Call → Bool
  | .dropRead _ => true
  | .dropWrite _ => true
  | _ => false

/-- Whether a position is past an acquiring compare-and-exchange. -/
def Call.pastAcquire : Call → Bool
  | .acquired _ => true
  | _ => false

/-- No guard is outstanding, no drop is in progress, no thread is past its acquiring
compare-and-exchange, some thread is asleep inside `read` or `write`, and every thread inside them
is asleep. -/
structure Stranded {Tid : Type} [Fintype Tid] (p : Pool Tid Shared Thread) : Prop where
  noReader : readers p = 0
  noWriter : writers p = 0
  noDrop : ∀ t, (p.threads t).call.insideDrop = false
  noAcquired : ∀ t, (p.threads t).call.pastAcquire = false
  sleeper : ∃ t, (asleepOn (p.threads t)).isSome
  allAsleep : ∀ t, (p.threads t).call.insideLock → (asleepOn (p.threads t)).isSome

instance {Tid : Type} [Fintype Tid] (p : Pool Tid Shared Thread) : Decidable (Stranded p) :=
  decidable_of_iff
    (readers p = 0 ∧ writers p = 0 ∧ (∀ t, (p.threads t).call.insideDrop = false) ∧
      (∀ t, (p.threads t).call.pastAcquire = false) ∧ (∃ t, (asleepOn (p.threads t)).isSome) ∧
      ∀ t, (p.threads t).call.insideLock → (asleepOn (p.threads t)).isSome)
    ⟨fun ⟨h₁, h₂, h₃, h₄, h₅, h₆⟩ ↦ ⟨h₁, h₂, h₃, h₄, h₅, h₆⟩,
      fun ⟨h₁, h₂, h₃, h₄, h₅, h₆⟩ ↦ ⟨h₁, h₂, h₃, h₄, h₅, h₆⟩⟩

/-- Thread 0 takes the write lock, thread 1 finds `u32::MAX` in `write` and sleeps, thread 0 drops
its guard and wakes it, and thread 1 sleeps again with its cached `u32::MAX`. -/
def strandingRun : List (Label (Fin 2) Choice) :=
  [⟨0, .call .write, none⟩, ⟨0, .go, none⟩, ⟨0, .go, none⟩, ⟨0, .go, none⟩, ⟨0, .go, none⟩,
    ⟨1, .call .write, none⟩, ⟨1, .go, none⟩, ⟨1, .go, none⟩, ⟨1, .go, none⟩, ⟨1, .go, none⟩,
    ⟨1, .go, none⟩,
    ⟨0, .drop .write false, none⟩, ⟨0, .go, none⟩, ⟨0, .go, none⟩, ⟨0, .go, none⟩, ⟨0, .go, none⟩,
    ⟨0, .go, some 1⟩,
    ⟨1, .go, none⟩, ⟨1, .go, none⟩, ⟨1, .go, none⟩, ⟨1, .go, none⟩]

/-- A stranded state of two threads is reachable. -/
theorem stranding : ∃ p : Pool (Fin 2) Shared Thread, (system (Fin 2)).Reachable p ∧ Stranded p :=
  System.exists_reachableWhen_of_exec _ strandingRun (by decide)

/-! ### Places -/

/-- The positions that matter for wake-ups. A `countedWriter` is awake and counted in
`waiting_writers`; `deciding`, `wakingWriter` and `wakingReaders` are the last accesses of the
drops. -/
inductive Place
  | elsewhere
  | sleepingReader
  | awakeWriter
  | countedWriter
  | sleepingWriter
  | deciding
  | wakingWriter
  | wakingReaders
  deriving DecidableEq

theorem Place.forall {P : Place → Prop} :
    (∀ place, P place) ↔ P .elsewhere ∧ P .sleepingReader ∧ P .awakeWriter ∧ P .countedWriter ∧
      P .sleepingWriter ∧ P .deciding ∧ P .wakingWriter ∧ P .wakingReaders := by
  constructor
  · intro h
    exact ⟨h _, h _, h _, h _, h _, h _, h _, h _⟩
  · rintro ⟨h₁, h₂, h₃, h₄, h₅, h₆, h₇, h₈⟩ place
    cases place <;> assumption

/-- The place of a position. -/
def Call.place : Call → Place
  | .read .asleep => .sleepingReader
  | .read .asleepMax => .sleepingReader
  | .write .acquiredCheck => .elsewhere
  | .write (.loadNumber _) => .countedWriter
  | .write (.wait _ _) => .countedWriter
  | .write (.asleep _) => .sleepingWriter
  | .write (.dropGuard _) => .countedWriter
  | .write _ => .awakeWriter
  | .dropRead .wakeOne => .wakingWriter
  | .dropWrite .loadWaiting => .deciding
  | .dropWrite .wakeOne => .wakingWriter
  | .dropWrite .wakeAll => .wakingReaders
  | _ => .elsewhere

/-- The place of a thread. -/
def Thread.place (th : Thread) : Place := th.call.place

/-- The number of threads at a place. -/
def threadsAt {Tid : Type} [Fintype Tid] (p : Pool Tid Shared Thread) (place : Place) : ℕ :=
  countAt Thread.place place p.threads

section Local

variable {th : Thread} {state : ℕ}

@[simp] theorem place_goto {call : Call} : (th.goto call).place = call.place := rfl

@[simp] theorem place_ret {result : LockResult} : (th.ret result).place = .elsewhere := rfl

@[simp] theorem place_acquire {guard : Guard} : (th.acquire guard).place = .elsewhere := by
  cases guard <;> rfl

@[simp] theorem place_readWhile : (readWhile th state).place = .elsewhere := by
  unfold readWhile
  split_ifs <;> rfl

@[simp] theorem place_readLoop : (readLoop th state).place = .elsewhere := by
  unfold readLoop
  split_ifs
  · rfl
  · rfl
  · exact place_readWhile

@[simp] theorem place_writeLoop : (writeLoop th state).place = .awakeWriter := by
  unfold writeLoop
  split_ifs <;> rfl

/-- The word on which the threads at a place are asleep. -/
def Place.address : Place → Option Addr
  | .sleepingReader => some .state
  | .sleepingWriter => some .writersNumber
  | _ => none

/-- The place of a thread tells on which word it is asleep. -/
theorem asleepOn_eq_address : asleepOn th = th.place.address := by
  unfold asleepOn Thread.place
  cases th.call with
  | read pc => cases pc <;> rfl
  | write pc => cases pc <;> rfl
  | dropRead pc => cases pc <;> rfl
  | dropWrite pc => cases pc <;> rfl
  | _ => rfl

/-- A thread is asleep on `state` exactly at the place of a sleeping reader. -/
theorem asleepOn_state_iff : asleepOn th = some .state ↔ th.place = .sleepingReader := by
  rw [asleepOn_eq_address]
  cases th.place <;> simp [Place.address]

/-- A thread is asleep on `writers_number` exactly at the place of a sleeping writer. -/
theorem asleepOn_writersNumber_iff :
    asleepOn th = some .writersNumber ↔ th.place = .sleepingWriter := by
  rw [asleepOn_eq_address]
  cases th.place <;> simp [Place.address]

/-- A woken reader is awake in `read`. -/
theorem place_wake_reader (h : th.place = .sleepingReader) : (wake th).place = .elsewhere := by
  have hasleep := asleepOn_state_iff.mpr h
  unfold asleepOn at hasleep
  split at hasleep <;> rename_i hcall <;> simp_all [wake, Call.place]

/-- A woken writer is awake in `write` and still counted in `waiting_writers`. -/
theorem place_wake_writer (h : th.place = .sleepingWriter) :
    (wake th).place = .countedWriter := by
  have hasleep := asleepOn_writersNumber_iff.mpr h
  unfold asleepOn at hasleep
  split at hasleep <;> rename_i hcall <;> simp_all [wake, Call.place]

end Local

/-! ### What a step does to the place of its thread -/

/-- The steps that matter for wake-ups: the change of the word, of `waiting_writers` and of the
place of the thread, and the signal sent. -/
inductive WakeMove {Tid : Type} (before : Shared) (th : Thread) (choice : Choice)
    (after : Shared) (moved : Thread) (signal : Signal Tid Addr) : Prop
  | stay (hstate : after.state = before.state)
      (hwaiting : after.waitingWriters = before.waitingWriters) (hplace : moved.place = th.place)
      (hsignal : signal = .silent)
  | sleepReader (hodd : before.state % 2 = 1) (hafter : after = before)
      (hbefore : th.place = .elsewhere) (hplace : moved.place = .sleepingReader)
      (hsignal : signal = .silent)
  | returnReader (hafter : after = before) (hbefore : th.place = .sleepingReader)
      (hplace : moved.place = .elsewhere) (hsignal : signal = .silent)
  | enterWrite (hafter : after = before) (hbefore : th.place = .elsewhere)
      (hplace : moved.place = .awakeWriter) (hsignal : signal = .silent)
  | acquireRead (heven : before.state % 2 = 0) (hstate : after.state = addU32 before.state 2)
      (hwaiting : after.waitingWriters = before.waitingWriters) (hbefore : th.place = .elsewhere)
      (hplace : moved.place = .elsewhere) (hsignal : signal = .silent)
  | acquireWrite (hstate : after.state = u32Max)
      (hwaiting : after.waitingWriters = before.waitingWriters)
      (hbefore : th.place = .elsewhere ∨ th.place = .awakeWriter)
      (hplace : moved.place = .elsewhere) (hsignal : signal = .silent)
  | setWaiting (hshared : before.state % 2 = 0 ∧ 1 < before.state)
      (hstate : after.state = addU32 before.state 1)
      (hwaiting : after.waitingWriters = before.waitingWriters) (hbefore : th.place = .awakeWriter)
      (hplace : moved.place = .awakeWriter) (hsignal : signal = .silent)
  | newGuard (hcall : ∃ state, th.call = .write (.newGuard state))
      (hstate : after.state = before.state)
      (hwaiting : after.waitingWriters = addU32 before.waitingWriters 1)
      (hbefore : th.place = .awakeWriter) (hplace : moved.place = .countedWriter)
      (hsignal : signal = .silent)
  | dropGuard (hstate : after.state = before.state)
      (hwaiting : after.waitingWriters = subU32 before.waitingWriters 1)
      (hbefore : th.place = .countedWriter) (hplace : moved.place = .awakeWriter)
      (hsignal : signal = .silent)
  | sleepWriter (hcall : ∃ state, th.call = .write (.wait state before.writersNumber))
      (hchoice : choice = .go) (hafter : after = before) (hbefore : th.place = .countedWriter)
      (hplace : moved.place = .sleepingWriter) (hsignal : signal = .silent)
  | returnWriter (hafter : after = before) (hbefore : th.place = .sleepingWriter)
      (hplace : moved.place = .countedWriter) (hsignal : signal = .silent)
  | releaseRead (howned : 0 < th.outstanding .read) (hstate : after.state = subU32 before.state 2)
      (hwaiting : after.waitingWriters = before.waitingWriters) (hbefore : th.place = .elsewhere)
      (hplace : moved.place = if before.state = 3 then .wakingWriter else .elsewhere)
      (hsignal : signal = .silent)
  | releaseWrite (hstate : after.state = 0)
      (hwaiting : after.waitingWriters = before.waitingWriters) (hbefore : th.place = .elsewhere)
      (hplace : moved.place = .deciding) (hsignal : signal = .silent)
  | decide (hafter : after = before) (hbefore : th.place = .deciding)
      (hplace : moved.place = if before.waitingWriters ≠ 0 then .wakingWriter else .wakingReaders)
      (hsignal : signal = .silent)
  | wakeOne (hafter : after = before) (hbefore : th.place = .wakingWriter)
      (hplace : moved.place = .elsewhere) (hsignal : signal = .wakeOne .writersNumber)
  | wakeAll (hafter : after = before) (hbefore : th.place = .wakingReaders)
      (hplace : moved.place = .elsewhere) (hsignal : signal = .wakeAll .state)

section Steps

variable {Tid : Type} {before after : Shared} {th moved : Thread} {signal : Signal Tid Addr}
  {choice : Choice}

theorem place_of_call {call : Call} (hcall : th.call = call) : th.place = call.place := by
  rw [Thread.place, hcall]

theorem readStep_wakeMove {pc : ReadPc} (hcall : th.call = .read pc)
    (h : readStep before th pc choice = some (after, moved, signal)) :
    WakeMove before th choice after moved signal := by
  have hbefore := place_of_call hcall
  cases pc <;> cases choice <;> simp only [readStep, reduceCtorEq] at h
  case acquiredCheck.go =>
    obtain ⟨rfl, rfl, rfl⟩ := quiet_eq_some.mp h
    refine .stay rfl rfl ?_ rfl
    unfold acquiredCheck
    split_ifs <;> simp [hbefore, Call.place]
  case wait.go state odd =>
    split_ifs at h with hsame
    all_goals obtain ⟨rfl, rfl, rfl⟩ := quiet_eq_some.mp h
    · exact .sleepReader (hsame ▸ odd) rfl hbefore rfl rfl
    · exact .stay rfl rfl hbefore.symm rfl
  case compareExchange.go state even =>
    split_ifs at h with hcas
    all_goals obtain ⟨rfl, rfl, rfl⟩ := quiet_eq_some.mp h
    · exact .acquireRead (hcas ▸ even) (by rw [hcas]) rfl hbefore rfl rfl
    · exact .stay rfl rfl (place_readLoop.trans hbefore.symm) rfl
  case waitMax.go =>
    split_ifs at h with hmax
    all_goals obtain ⟨rfl, rfl, rfl⟩ := quiet_eq_some.mp h
    · exact .sleepReader (by rw [hmax]; decide) rfl hbefore rfl rfl
    · exact .stay rfl rfl (place_readLoop.trans hbefore.symm) rfl
  case asleep.spurious =>
    obtain ⟨rfl, rfl, rfl⟩ := quiet_eq_some.mp h
    exact .returnReader rfl hbefore rfl rfl
  case asleepMax.spurious =>
    obtain ⟨rfl, rfl, rfl⟩ := quiet_eq_some.mp h
    exact .returnReader rfl hbefore place_readLoop rfl
  all_goals
    obtain ⟨rfl, rfl, rfl⟩ := quiet_eq_some.mp h
    exact .stay rfl rfl (by simp [hbefore, Call.place]) rfl

theorem writeStep_wakeMove {pc : WritePc} (hcall : th.call = .write pc)
    (h : writeStep before th pc choice = some (after, moved, signal)) :
    WakeMove before th choice after moved signal := by
  have hbefore := place_of_call hcall
  cases pc <;> cases choice <;> simp only [writeStep, reduceCtorEq] at h
  case acquiredCheck.go =>
    obtain ⟨rfl, rfl, rfl⟩ := quiet_eq_some.mp h
    unfold acquiredCheck
    split_ifs
    · exact .stay rfl rfl hbefore.symm rfl
    · exact .enterWrite rfl hbefore rfl rfl
  case acquire.go state free =>
    split_ifs at h with hcas
    all_goals obtain ⟨rfl, rfl, rfl⟩ := quiet_eq_some.mp h
    · exact .acquireWrite rfl rfl (.inr hbefore) rfl rfl
    · exact .stay rfl rfl (place_writeLoop.trans hbefore.symm) rfl
  case setWaiting.go state shared =>
    split_ifs at h with hcas
    all_goals obtain ⟨rfl, rfl, rfl⟩ := quiet_eq_some.mp h
    · exact .setWaiting (hcas ▸ shared) (by rw [hcas]) rfl hbefore rfl rfl
    · exact .stay rfl rfl (place_writeLoop.trans hbefore.symm) rfl
  case newGuard.go state =>
    obtain ⟨rfl, rfl, rfl⟩ := quiet_eq_some.mp h
    exact .newGuard ⟨state, hcall⟩ rfl rfl hbefore rfl rfl
  case wait.go state wc =>
    split_ifs at h with hsame
    all_goals obtain ⟨rfl, rfl, rfl⟩ := quiet_eq_some.mp h
    · exact .sleepWriter ⟨state, by rw [hsame]; exact hcall⟩ rfl rfl hbefore rfl rfl
    · exact .stay rfl rfl hbefore.symm rfl
  case asleep.spurious =>
    obtain ⟨rfl, rfl, rfl⟩ := quiet_eq_some.mp h
    exact .returnWriter rfl hbefore rfl rfl
  case dropGuard.go state =>
    obtain ⟨rfl, rfl, rfl⟩ := quiet_eq_some.mp h
    exact .dropGuard rfl rfl hbefore place_writeLoop rfl
  all_goals
    obtain ⟨rfl, rfl, rfl⟩ := quiet_eq_some.mp h
    exact .stay rfl rfl (by simp [hbefore, Call.place]) rfl

theorem tryReadStep_wakeMove {pc : TryReadPc} (hcall : th.call = .tryRead pc)
    (h : tryReadStep before th pc choice = some (after, moved, signal)) :
    WakeMove before th choice after moved signal := by
  have hbefore : th.place = .elsewhere := place_of_call hcall
  cases pc <;> cases choice <;> simp only [tryReadStep, reduceCtorEq] at h
  case acquiredCheck.go =>
    obtain ⟨rfl, rfl, rfl⟩ := quiet_eq_some.mp h
    refine .stay rfl rfl ?_ rfl
    unfold acquiredCheck
    split_ifs <;> exact hbefore.symm
  case load.go =>
    split_ifs at h
    all_goals obtain ⟨rfl, rfl, rfl⟩ := quiet_eq_some.mp h
    all_goals exact .stay rfl rfl hbefore.symm rfl
  case compareExchange.go state even =>
    split_ifs at h with hcas
    all_goals obtain ⟨rfl, rfl, rfl⟩ := quiet_eq_some.mp h
    · exact .acquireRead (hcas ▸ even) (by rw [hcas]) rfl hbefore rfl rfl
    · exact .stay rfl rfl hbefore.symm rfl

theorem tryWriteStep_wakeMove {pc : TryWritePc} (hcall : th.call = .tryWrite pc)
    (h : tryWriteStep before th pc choice = some (after, moved, signal)) :
    WakeMove before th choice after moved signal := by
  have hbefore : th.place = .elsewhere := place_of_call hcall
  cases pc <;> cases choice <;> simp only [tryWriteStep, reduceCtorEq] at h
  case acquiredCheck.go =>
    obtain ⟨rfl, rfl, rfl⟩ := quiet_eq_some.mp h
    refine .stay rfl rfl ?_ rfl
    unfold acquiredCheck
    split_ifs <;> exact hbefore.symm
  case load.go =>
    split_ifs at h
    all_goals obtain ⟨rfl, rfl, rfl⟩ := quiet_eq_some.mp h
    all_goals exact .stay rfl rfl hbefore.symm rfl
  case compareExchange.go state free =>
    split_ifs at h with hcas
    all_goals obtain ⟨rfl, rfl, rfl⟩ := quiet_eq_some.mp h
    · exact .acquireWrite rfl rfl (.inl hbefore) rfl rfl
    · exact .stay rfl rfl hbefore.symm rfl

theorem dropReadStep_wakeMove {pc : DropReadPc} (hcall : th.call = .dropRead pc)
    (h : dropReadStep before th pc choice = some (after, moved, signal)) :
    WakeMove before th choice after moved signal := by
  have hbefore := place_of_call hcall
  cases pc <;> cases choice <;> simp only [dropReadStep, reduceCtorEq] at h
  case removeAcquired.go =>
    obtain ⟨rfl, rfl, rfl⟩ := quiet_eq_some.mp h
    exact .stay rfl rfl hbefore.symm rfl
  case fetchSub.go =>
    obtain ⟨rfl, rfl, rfl⟩ := quiet_eq_some.mp h
    refine .releaseRead ?_ rfl rfl hbefore ?_ rfl
    · simp [Thread.outstanding, hcall, Call.dropping]
    · split_ifs <;> rfl
  case wakeOne.go =>
    obtain ⟨rfl, rfl, rfl⟩ := by simpa using h
    exact .wakeOne rfl hbefore rfl rfl

theorem dropWriteStep_wakeMove {pc : DropWritePc} (hcall : th.call = .dropWrite pc)
    (h : dropWriteStep before th pc choice = some (after, moved, signal)) :
    WakeMove before th choice after moved signal := by
  have hbefore := place_of_call hcall
  cases pc <;> cases choice <;> simp only [dropWriteStep, reduceCtorEq] at h
  case removeAcquired.go =>
    obtain ⟨rfl, rfl, rfl⟩ := quiet_eq_some.mp h
    exact .stay rfl rfl hbefore.symm rfl
  case fetchAdd.go =>
    obtain ⟨rfl, rfl, rfl⟩ := quiet_eq_some.mp h
    exact .stay rfl rfl hbefore.symm rfl
  case store.go =>
    obtain ⟨rfl, rfl, rfl⟩ := quiet_eq_some.mp h
    exact .releaseWrite rfl rfl hbefore rfl rfl
  case loadWaiting.go =>
    obtain ⟨rfl, rfl, rfl⟩ := quiet_eq_some.mp h
    refine .decide rfl hbefore ?_ rfl
    split_ifs <;> rfl
  case wakeOne.go =>
    obtain ⟨rfl, rfl, rfl⟩ := by simpa using h
    exact .wakeOne rfl hbefore rfl rfl
  case wakeAll.go =>
    obtain ⟨rfl, rfl, rfl⟩ := by simpa using h
    exact .wakeAll rfl hbefore rfl rfl

theorem idleStep_wakeMove (hcall : th.call = .idle)
    (h : idleStep before th choice = some (after, moved, signal)) :
    WakeMove before th choice after moved signal := by
  have hbefore := place_of_call hcall
  cases choice with
  | call method =>
    cases method
    all_goals obtain ⟨rfl, rfl, rfl⟩ := quiet_eq_some.mp h
    all_goals exact .stay rfl rfl hbefore.symm rfl
  | drop guard panicking =>
    cases guard
    all_goals
      simp only [idleStep] at h
      split_ifs at h
      obtain ⟨rfl, rfl, rfl⟩ := quiet_eq_some.mp h
      exact .stay rfl rfl hbefore.symm rfl
  | clearPoison =>
    obtain ⟨rfl, rfl, rfl⟩ := quiet_eq_some.mp h
    exact .stay rfl rfl rfl rfl
  | go => cases h
  | spurious => cases h

/-- Every step of a thread is one of the moves. -/
theorem step_wakeMove (h : step before th choice = some (after, moved, signal)) :
    WakeMove before th choice after moved signal := by
  unfold step at h
  split at h
  case h_1 hcall => exact idleStep_wakeMove hcall h
  case h_2 hcall => exact readStep_wakeMove hcall h
  case h_3 hcall => exact writeStep_wakeMove hcall h
  case h_4 hcall => exact tryReadStep_wakeMove hcall h
  case h_5 hcall => exact tryWriteStep_wakeMove hcall h
  case h_6 hcall =>
    split_ifs at h
    obtain ⟨rfl, rfl, rfl⟩ := quiet_eq_some.mp h
    exact .stay rfl rfl (place_of_call hcall).symm rfl
  case h_7 hcall => exact dropReadStep_wakeMove hcall h
  case h_8 hcall => exact dropWriteStep_wakeMove hcall h

end Steps

/-! ### The invariant on the counts -/

/-- A wake-up of a sleeping writer is still to come: a guard is outstanding whose release wakes one,
or a writer is awake, or a release has yet to wake a writer. -/
def WakeOwed (state : ℕ) (count : Place → ℕ) : Prop :=
  (state % 2 = 1 ∧ 1 < state) ∨ 0 < count .awakeWriter + count .countedWriter ∨
    0 < count .deciding + count .wakingWriter

/-- The invariant behind the wake-ups. `waiting_writers` counts the threads between the two ends of
a `WaitingWriterGuard`; a set waiting bit belongs to a thread inside `write`; a sleeping writer is
owed a wake-up; and when a reader sleeps, a guard is outstanding, or a thread is inside `write`, or
a release has not yet decided or is about to wake the readers. -/
structure Watched (state waiting : ℕ) (count : Place → ℕ) : Prop where
  bounded : waiting < 2 ^ 32
  counted : waiting = count .countedWriter + count .sleepingWriter
  bit : state % 2 = 1 → state ≠ u32Max →
    0 < count .awakeWriter + count .countedWriter + count .sleepingWriter
  writers : 0 < count .sleepingWriter → WakeOwed state count
  readers : 0 < count .sleepingReader → (state % 2 = 1 ∧ 1 < state) ∨
    0 < count .awakeWriter + count .countedWriter + count .sleepingWriter ∨
    0 < count .deciding + count .wakingReaders

theorem watched_iff {state waiting : ℕ} {count : Place → ℕ} :
    Watched state waiting count ↔ waiting < 2 ^ 32 ∧
      waiting = count .countedWriter + count .sleepingWriter ∧
      (state % 2 = 1 → state ≠ u32Max →
        0 < count .awakeWriter + count .countedWriter + count .sleepingWriter) ∧
      (0 < count .sleepingWriter → WakeOwed state count) ∧
      (0 < count .sleepingReader → (state % 2 = 1 ∧ 1 < state) ∨
        0 < count .awakeWriter + count .countedWriter + count .sleepingWriter ∨
        0 < count .deciding + count .wakingReaders) :=
  ⟨fun ⟨h₁, h₂, h₃, h₄, h₅⟩ ↦ ⟨h₁, h₂, h₃, h₄, h₅⟩,
    fun ⟨h₁, h₂, h₃, h₄, h₅⟩ ↦ ⟨h₁, h₂, h₃, h₄, h₅⟩⟩

section Pool

variable {Tid : Type} [DecidableEq Tid] [Fintype Tid]

/-- Whether a position is the start of a `WaitingWriterGuard`. -/
def Call.startsGuard : Call → Bool
  | .write (.newGuard _) => true
  | _ => false

/-- Whether a position is the `wait` of `write` with the given current value of `writers_number`. -/
def Call.fallsAsleep (writersNumber : ℕ) : Call → Bool
  | .write (.wait _ wc) => wc == writersNumber
  | _ => false

/-- The condition on a step under which no wake-up is lost. Fewer than `2 ^ 31 - 1` read guards are
outstanding, `waiting_writers` does not wrap, and a thread falls asleep in `write` only while the
wake-up it needs is owed: the word is odd and above one, or another thread is awake in `write`, or a
drop has yet to wake a writer. -/
structure WakeCondition (p : Pool Tid Shared Thread) (label : Label Tid Choice) : Prop where
  readerBound : ReaderBound p
  guardBound : (p.threads label.thread).call.startsGuard → p.shared.waitingWriters + 1 < 2 ^ 32
  sleepOwed : (p.threads label.thread).call.fallsAsleep p.shared.writersNumber →
    label.choice = .go →
      (p.shared.state % 2 = 1 ∧ 1 < p.shared.state) ∨
        (∃ u, u ≠ label.thread ∧
          ((p.threads u).place = .awakeWriter ∨ (p.threads u).place = .countedWriter)) ∨
        ∃ u, (p.threads u).place = .deciding ∨ (p.threads u).place = .wakingWriter

omit [DecidableEq Tid] in
/-- The invariant holds of a new lock. -/
theorem watched_new :
    Watched (new Tid).shared.state (new Tid).shared.waitingWriters (threadsAt (new Tid)) := by
  have hzero : ∀ place, place ≠ .elsewhere → threadsAt (new Tid) place = 0 := fun place hplace ↦
    countAt_eq_zero_iff.mpr fun _ ↦ hplace.symm
  simp only [watched_iff, hzero, ne_eq, reduceCtorEq, not_false_eq_true]
  simp [new]

/-- Moving one thread between places changes the counts of the two places by one. -/
theorem threadsAt_update {p : Pool Tid Shared Thread} {t : Tid} {moved : Thread}
    {place place' : Place} (hbefore : (p.threads t).place = place) (hafter : moved.place = place')
    (other : Place) :
    countAt Thread.place other (update p.threads t moved) + (if place = other then 1 else 0) =
      threadsAt p other + if place' = other then 1 else 0 :=
  countAt_update hbefore hafter other

/-- One step keeps the invariant. Assumes: the condition on the step and the encoding of the state
before it. -/
theorem watched_step {p p' : Pool Tid Shared Thread} {label : Label Tid Choice}
    (hw : Watched p.shared.state p.shared.waitingWriters (threadsAt p))
    (henc : StateEncoding p.shared.state (readers p) (writers p)) (hok : WakeCondition p label)
    (hmove : (system Tid).step p label = some p') :
    Watched p'.shared.state p'.shared.waitingWriters (threadsAt p') := by
  obtain ⟨moved, signal, hlocal, hdelivered⟩ := Machine.step_cases hmove
  obtain ⟨hlocked, hunlocked, hlt⟩ := henc
  have hbound := hok.readerBound
  simp only [ReaderBound] at hbound
  simp only [u32Max_eq] at hlocked hunlocked
  simp only [watched_iff, WakeOwed, u32Max_eq] at hw ⊢
  have hsilent (h : signal = .silent) (place : Place) :
      threadsAt p' place =
        countAt Thread.place place (update p.threads label.thread moved) := by
    subst h
    rw [threadsAt, hdelivered.silent_eq]
  cases step_wakeMove hlocal with
  | stay hstate hwaiting hplace hsignal =>
    have hsame : threadsAt p' = threadsAt p := by
      funext place
      have h := threadsAt_update (p := p) (t := label.thread) rfl hplace place
      rw [hsilent hsignal]
      omega
    rw [hsame, hstate, hwaiting]
    exact hw
  | sleepReader hodd hafter hbefore hplace hsignal =>
    have hcount := Place.forall.mp (threadsAt_update hbefore hplace)
    simp only [reduceCtorEq, if_true, if_false] at hcount
    simp only [hsilent hsignal, hafter]
    omega
  | returnReader hafter hbefore hplace hsignal =>
    have hcount := Place.forall.mp (threadsAt_update hbefore hplace)
    simp only [reduceCtorEq, if_true, if_false] at hcount
    simp only [hsilent hsignal, hafter]
    omega
  | enterWrite hafter hbefore hplace hsignal =>
    have hcount := Place.forall.mp (threadsAt_update hbefore hplace)
    simp only [reduceCtorEq, if_true, if_false] at hcount
    simp only [hsilent hsignal, hafter]
    omega
  | acquireRead heven hstate hwaiting hbefore hplace hsignal =>
    have hcount := Place.forall.mp (threadsAt_update hbefore hplace)
    simp only [reduceCtorEq, if_true, if_false] at hcount
    have hword : addU32 p.shared.state 2 = p.shared.state + 2 := addU32_of_lt (by omega)
    simp only [hsilent hsignal, hstate, hwaiting, hword]
    omega
  | acquireWrite hstate hwaiting hbefore hplace hsignal =>
    have hword : p'.shared.state = 4294967295 := hstate
    simp only [hsilent hsignal, hwaiting]
    rcases hbefore with hbefore | hbefore
    all_goals
      have hcount := Place.forall.mp (threadsAt_update hbefore hplace)
      simp only [reduceCtorEq, if_true, if_false] at hcount
      omega
  | setWaiting hshared hstate hwaiting hbefore hplace hsignal =>
    have hcount := Place.forall.mp (threadsAt_update hbefore hplace)
    simp only [reduceCtorEq, if_true, if_false] at hcount
    have hself : 0 < threadsAt p .awakeWriter := countAt_pos_iff.mpr ⟨_, hbefore⟩
    have hword : addU32 p.shared.state 1 = p.shared.state + 1 := addU32_of_lt (by omega)
    simp only [hsilent hsignal, hstate, hwaiting, hword]
    omega
  | newGuard hcall hstate hwaiting hbefore hplace hsignal =>
    have hcount := Place.forall.mp (threadsAt_update hbefore hplace)
    simp only [reduceCtorEq, if_true, if_false] at hcount
    obtain ⟨state, hcall⟩ := hcall
    have hwrap := hok.guardBound (by rw [hcall]; rfl)
    have hword := addU32_of_lt hwrap
    simp only [hsilent hsignal, hstate, hwaiting, hword]
    omega
  | dropGuard hstate hwaiting hbefore hplace hsignal =>
    have hcount := Place.forall.mp (threadsAt_update hbefore hplace)
    simp only [reduceCtorEq, if_true, if_false] at hcount
    have hword : subU32 p.shared.waitingWriters 1 = p.shared.waitingWriters - 1 :=
      subU32_of_le (by omega) hw.1
    simp only [hsilent hsignal, hstate, hwaiting, hword]
    omega
  | sleepWriter hcall hchoice hafter hbefore hplace hsignal =>
    have hcount := Place.forall.mp (threadsAt_update hbefore hplace)
    simp only [reduceCtorEq, if_true, if_false] at hcount
    obtain ⟨state, hcall⟩ := hcall
    have howed : (p.shared.state % 2 = 1 ∧ 1 < p.shared.state) ∨
        0 < threadsAt p' .awakeWriter + threadsAt p' .countedWriter ∨
          0 < threadsAt p' .deciding + threadsAt p' .wakingWriter := by
      have hfound {place : Place} {u : Tid} (hne : u ≠ label.thread)
          (hu : (p.threads u).place = place) : 0 < threadsAt p' place := by
        rw [hsilent hsignal]
        exact countAt_pos_iff.mpr ⟨u, by rw [update_of_ne hne]; exact hu⟩
      rcases hok.sleepOwed (by simp [hcall, Call.fallsAsleep]) hchoice with
        hword | ⟨u, hne, hu | hu⟩ | ⟨u, hu | hu⟩
      · exact .inl hword
      · exact .inr (.inl (Nat.add_pos_left (hfound hne hu) _))
      · exact .inr (.inl (Nat.add_pos_right _ (hfound hne hu)))
      · have hne : u ≠ label.thread := fun h ↦ by rw [h, hbefore] at hu; cases hu
        exact .inr (.inr (Nat.add_pos_left (hfound hne hu) _))
      · have hne : u ≠ label.thread := fun h ↦ by rw [h, hbefore] at hu; cases hu
        exact .inr (.inr (Nat.add_pos_right _ (hfound hne hu)))
    simp only [hsilent hsignal, hafter] at howed ⊢
    omega
  | returnWriter hafter hbefore hplace hsignal =>
    have hcount := Place.forall.mp (threadsAt_update hbefore hplace)
    simp only [reduceCtorEq, if_true, if_false] at hcount
    simp only [hsilent hsignal, hafter]
    omega
  | releaseRead howned hstate hwaiting hbefore hplace hsignal =>
    have hone : 0 < readers p := lt_of_lt_of_le howned (le_total _ _ _)
    have hword : subU32 p.shared.state 2 = p.shared.state - 2 := subU32_of_le (by omega) hlt
    simp only [hsilent hsignal, hstate, hwaiting, hword]
    split_ifs at hplace with hlast
    all_goals
      have hcount := Place.forall.mp (threadsAt_update hbefore hplace)
      simp only [reduceCtorEq, if_true, if_false] at hcount
      omega
  | releaseWrite hstate hwaiting hbefore hplace hsignal =>
    have hcount := Place.forall.mp (threadsAt_update hbefore hplace)
    simp only [reduceCtorEq, if_true, if_false] at hcount
    simp only [hsilent hsignal, hstate, hwaiting]
    omega
  | decide hafter hbefore hplace hsignal =>
    simp only [hsilent hsignal, hafter]
    split_ifs at hplace with hnobody
    all_goals
      have hcount := Place.forall.mp (threadsAt_update hbefore hplace)
      simp only [reduceCtorEq, if_true, if_false] at hcount
      omega
  | wakeOne hafter hbefore hplace hsignal =>
    have hcount := Place.forall.mp (threadsAt_update hbefore hplace)
    simp only [reduceCtorEq, if_true, if_false] at hcount
    subst hsignal
    rw [hafter]
    rcases hdelivered.countAt_wakeOne (fun _ ↦ asleepOn_writersNumber_iff)
        (fun _ ↦ place_wake_writer) with ⟨hthreads, hzero⟩ | hwoken
    · simp only [threadsAt, hthreads] at hcount hw ⊢
      omega
    · have hwoken := Place.forall.mp hwoken
      simp only [reduceCtorEq, if_true, if_false] at hwoken
      simp only [threadsAt] at hcount hw ⊢
      omega
  | wakeAll hafter hbefore hplace hsignal =>
    have hcount := Place.forall.mp (threadsAt_update hbefore hplace)
    simp only [reduceCtorEq, if_true, if_false] at hcount
    subst hsignal
    rw [hafter]
    have hwoken := Place.forall.mp (hdelivered.countAt_wakeAll
      (fun _ ↦ asleepOn_state_iff) (fun _ ↦ place_wake_reader) (by simp))
    simp only [reduceCtorEq, if_true, if_false] at hwoken
    simp only [threadsAt] at hcount hw ⊢
    omega

/-- The invariant holds in every state of a run under the condition. -/
theorem watched {p : Pool Tid Shared Thread} (h : (system Tid).ReachableWhen WakeCondition p) :
    Watched p.shared.state p.shared.waitingWriters (threadsAt p) := by
  refine h.invariant (P := fun p ↦ Watched p.shared.state p.shared.waitingWriters (threadsAt p))
    watched_new ?_
  intro p label p' hrun hw hok hmove
  have henc := stateEncoding (fun _ _ h ↦ h.readerBound) hrun hok.readerBound
  exact watched_step hw henc hok hmove

omit [DecidableEq Tid] in
/-- In a stranded state nobody is at a place from which a wake-up could come. -/
theorem Stranded.threadsAt_eq_zero {p : Pool Tid Shared Thread} (h : Stranded p) (place : Place)
    (hplace : place ≠ .elsewhere) (hreader : place ≠ .sleepingReader)
    (hwriter : place ≠ .sleepingWriter) : threadsAt p place = 0 := by
  refine countAt_eq_zero_iff.mpr fun t ht ↦ ?_
  have hdrop := h.noDrop t
  have hasleep := h.allAsleep t
  have haddress : place.address = none := by
    cases place <;> first | rfl | contradiction
  rw [asleepOn_eq_address, ht, haddress] at hasleep
  unfold Thread.place at ht
  cases hcall : (p.threads t).call with
  | read pc => simp [hcall, Call.insideLock] at hasleep
  | write pc => simp [hcall, Call.insideLock] at hasleep
  | dropRead pc => simp [hcall, Call.insideDrop] at hdrop
  | dropWrite pc => simp [hcall, Call.insideDrop] at hdrop
  | _ => exact hplace (by rw [← ht, hcall]; rfl)

/-- No run under the condition strands a thread. -/
theorem sleepers_not_stranded {p : Pool Tid Shared Thread}
    (h : (system Tid).ReachableWhen WakeCondition p) : ¬ Stranded p := by
  intro hstranded
  have hzero := fun place ↦ hstranded.threadsAt_eq_zero place
  have hbound : ReaderBound p := by
    rw [ReaderBound, hstranded.noReader]
    decide
  have henc := stateEncoding (fun _ _ h ↦ h.readerBound) h hbound
  have hne : p.shared.state ≠ u32Max := fun hstate ↦ by
    have hone := (henc.locked hstate).1
    rw [hstranded.noWriter] at hone
    cases hone
  have hword : p.shared.state ≤ 1 := by
    have hhalf := (henc.unlocked hne).2
    rw [hstranded.noReader] at hhalf
    omega
  have hw := watched h
  simp only [watched_iff, WakeOwed, hzero, ne_eq, reduceCtorEq, not_false_eq_true] at hw
  have hsleeping : 0 < threadsAt p .sleepingReader + threadsAt p .sleepingWriter := by
    obtain ⟨t, ht⟩ := hstranded.sleeper
    obtain ⟨addr, haddr⟩ := Option.isSome_iff_exists.mp ht
    cases addr with
    | state =>
      exact Nat.add_pos_left (countAt_pos_iff.mpr ⟨t, asleepOn_state_iff.mp haddr⟩) _
    | writersNumber =>
      exact Nat.add_pos_right _ (countAt_pos_iff.mpr ⟨t, asleepOn_writersNumber_iff.mp haddr⟩)
  omega

instance (p : Pool Tid Shared Thread) (label : Label Tid Choice) :
    Decidable (WakeCondition p label) :=
  decidable_of_iff
    (ReaderBound p ∧
      ((p.threads label.thread).call.startsGuard → p.shared.waitingWriters + 1 < 2 ^ 32) ∧
      ((p.threads label.thread).call.fallsAsleep p.shared.writersNumber → label.choice = .go →
        (p.shared.state % 2 = 1 ∧ 1 < p.shared.state) ∨
          (∃ u, u ≠ label.thread ∧
            ((p.threads u).place = .awakeWriter ∨ (p.threads u).place = .countedWriter)) ∨
          ∃ u, (p.threads u).place = .deciding ∨ (p.threads u).place = .wakingWriter))
    ⟨fun ⟨h₁, h₂, h₃⟩ ↦ ⟨h₁, h₂, h₃⟩, fun ⟨h₁, h₂, h₃⟩ ↦ ⟨h₁, h₂, h₃⟩⟩

/-- `sleepers_not_stranded` on a run that meets the condition: thread 1 sleeps in `write`
while thread 0 holds the write lock. -/
theorem sleepers_not_stranded_writer_asleep :
    ∃ p : Pool (Fin 2) Shared Thread, asleepOn (p.threads 1) = some .writersNumber ∧
      ¬ Stranded p := by
  obtain ⟨p, hrun, hasleep⟩ := System.exists_reachableWhen_of_exec
    (M := system (Fin 2)) WakeCondition (P := fun p ↦ asleepOn (p.threads 1) = some .writersNumber)
    (strandingRun.take 11) (by decide)
  exact ⟨p, hasleep, sleepers_not_stranded hrun⟩

end Pool

end SyncPrimitives.RwLock
