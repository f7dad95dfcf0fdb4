import SyncPrimitives.Concurrency.Calls
import SyncPrimitives.Concurrency.Ids
import SyncPrimitives.RwLock.Records
import Mathlib.Data.Finset.Insert

/-!
# Many read-write locks

Any number of read-write locks, used by any number of threads. A thread is inside at most one call
at a time, on one of the locks, and may own guards of any number of them; its set
`ACQUIRED_BY_THREAD` is shared by all locks and holds the ids of those it has acquired.
`Thread.view` is what one lock sees of a thread and `Thread.put` writes it back, so a step on a lock
is a step of `rwlock.rs` on its words and on the membership of its id. What `Records` proves of one
lock then holds of each: between calls, the set of a thread agrees with the guards it owns.

The ids are distinct, and this is what the `fetch_add` of `new` gives to up to `2 ^ 64` locks
(`ids_of_new_iff`).
-/

set_option autoImplicit false
set_option relaxedAutoImplicit false

namespace SyncPrimitives.RwLock.Many

open Concurrency Function

/-- `rwlock_id`: distinct locks have distinct ids. -/
structure LockIds (Lock : Type) where
  get : Lock → ℕ
  get_injective : Injective get

/-- The ids that the calls of `new` have got from `NEXT_ID.fetch_add` are distinct ids if and only
if there have been at most `2 ^ 64` calls. -/
theorem ids_of_new_iff {Tid : Type} {nextId : IdCounter} (h : (drawing Tid).Reachable nextId) :
    (∃ ids : LockIds (Fin nextId.drawn.length), ids.get = nextId.drawn.get) ↔
      nextId.drawn.length ≤ 2 ^ 64 := by
  rw [← drawn_injective_iff h]
  exact ⟨fun ⟨ids, hget⟩ ↦ hget ▸ ids.get_injective, fun hdistinct ↦ ⟨⟨_, hdistinct⟩, rfl⟩⟩

/-- What a thread is doing on which lock, its set `ACQUIRED_BY_THREAD`, and for each lock the guards
it owns and what its last finished call returned. -/
structure Thread (Lock : Type) where
  position : Option (Lock × Call)
  acquiredByThread : Finset ℕ
  readGuards : Lock → ℕ
  writeGuards : Lock → ℕ
  result : Lock → Option LockResult

section Steps

variable {Tid Lock : Type} [DecidableEq Lock] (ids : LockIds Lock) (th : Thread Lock)

/-- What a thread is doing on one lock. -/
def Thread.callAt (lock : Lock) : Call :=
  match th.position with
  | some (other, call) => if other = lock then call else .idle
  | none => .idle

/-- What one lock sees of a thread. -/
def Thread.view (lock : Lock) : RwLock.Thread where
  call := th.callAt lock
  acquired := ids.get lock ∈ th.acquiredByThread
  readGuards := th.readGuards lock
  writeGuards := th.writeGuards lock
  result := th.result lock

/-- The thread after a step on one lock. -/
def Thread.put (lock : Lock) (moved : RwLock.Thread) : Thread Lock where
  position := if moved.call = .idle then none else some (lock, moved.call)
  acquiredByThread :=
    if moved.acquired then insert (ids.get lock) th.acquiredByThread
    else th.acquiredByThread.erase (ids.get lock)
  readGuards := update th.readGuards lock moved.readGuards
  writeGuards := update th.writeGuards lock moved.writeGuards
  result := update th.result lock moved.result

/-- What resolves a step: the lock, and the choice there. -/
structure Choice (Lock : Type) where
  lock : Lock
  choice : RwLock.Choice
  deriving DecidableEq

/-- One step of a thread; a thread inside a call on another lock cannot use this one. -/
def step (shared : Lock → Shared) (choice : Choice Lock) :
    Option ((Lock → Shared) × Thread Lock × Signal Tid (Lock × Addr)) :=
  if th.position.all (·.1 = choice.lock) then
    (RwLock.step (shared choice.lock) (th.view ids choice.lock) choice.choice).map
      fun (after, moved, signal) ↦
        (update shared choice.lock after, th.put ids choice.lock moved,
          signal.map fun addr ↦ (choice.lock, addr))
  else none

/-- The word on which a thread is asleep. -/
def asleepOn : Option (Lock × Addr) :=
  th.position.bind fun (lock, _) ↦ (RwLock.asleepOn (th.view ids lock)).map fun addr ↦ (lock, addr)

/-- A thread whose `wait` has been woken. -/
def wake : Thread Lock :=
  match th.position with
  | some (lock, _) => th.put ids lock (RwLock.wake (th.view ids lock))
  | none => th

end Steps

variable {Tid Lock : Type} [DecidableEq Lock]

/-- The threads of many locks. -/
def machine (Tid : Type) (ids : LockIds Lock) :
    Machine Tid (Lock → Shared) (Thread Lock) (Choice Lock) (Lock × Addr) where
  step := fun _ shared th choice ↦ step ids th shared choice
  asleepOn := asleepOn ids
  wake := wake ids
  unpark := id

/-- New locks, before any call. -/
def new (Tid Lock : Type) : Pool Tid (Lock → Shared) (Thread Lock) where
  shared := fun _ ↦ { writersNumber := 0, waitingWriters := 0, state := 0, poisoned := false }
  threads := fun _ ↦
    { position := none, acquiredByThread := ∅, readGuards := fun _ ↦ 0, writeGuards := fun _ ↦ 0
      result := fun _ ↦ none }

/-- Any number of threads using any number of locks. -/
def system (Tid : Type) [DecidableEq Tid] [Fintype Tid] (ids : LockIds Lock) :
    System (Pool Tid (Lock → Shared) (Thread Lock)) (Label Tid (Choice Lock)) :=
  (machine Tid ids).system (new Tid Lock)

/-! ### What the locks see of a thread -/

section Views

variable {ids : LockIds Lock} {th : Thread Lock} {lock other : Lock} {moved : RwLock.Thread}

theorem callAt_put : (th.put ids lock moved).callAt lock = moved.call := by
  unfold Thread.callAt Thread.put
  by_cases hidle : moved.call = .idle
  · simp [hidle]
  · simp [hidle]

theorem callAt_put_of_ne (hposition : th.position.all (·.1 = lock) = true) (hne : other ≠ lock) :
    (th.put ids lock moved).callAt other = th.callAt other := by
  have hbefore : th.callAt other = .idle := by
    unfold Thread.callAt
    split
    case h_1 held call hcall =>
      rw [hcall] at hposition
      have hheld : held = lock := by simpa using hposition
      rw [hheld, if_neg hne.symm]
    case h_2 => rfl
  rw [hbefore]
  unfold Thread.callAt Thread.put
  by_cases hidle : moved.call = .idle
  · simp [hidle]
  · simp [hidle, hne.symm]

/-- What the lock of a step sees is what the step has made. -/
theorem view_put : (th.put ids lock moved).view ids lock = moved := by
  have hacquired :
      decide (ids.get lock ∈ (th.put ids lock moved).acquiredByThread) = moved.acquired := by
    unfold Thread.put
    cases moved.acquired <;> simp
  unfold Thread.view
  rw [callAt_put, hacquired]
  simp [Thread.put]

/-- Another lock sees no change. -/
theorem view_put_of_ne (hposition : th.position.all (·.1 = lock) = true) (hne : other ≠ lock) :
    (th.put ids lock moved).view ids other = th.view ids other := by
  have hid : ids.get other ≠ ids.get lock := fun heq ↦ hne (ids.get_injective heq)
  have hacquired : ids.get other ∈ (th.put ids lock moved).acquiredByThread ↔
      ids.get other ∈ th.acquiredByThread := by
    unfold Thread.put
    cases moved.acquired <;> simp [hid]
  unfold Thread.view
  rw [callAt_put_of_ne hposition hne]
  simp only [hacquired]
  simp [Thread.put, hne]

/-- A thread whose view has kept its record and its guards has kept its set and all its guards. -/
theorem put_eq_of_kept (hacquired : moved.acquired = (th.view ids lock).acquired)
    (hreads : moved.readGuards = (th.view ids lock).readGuards)
    (hwrites : moved.writeGuards = (th.view ids lock).writeGuards) :
    (th.put ids lock moved).acquiredByThread = th.acquiredByThread ∧
      (th.put ids lock moved).readGuards = th.readGuards ∧
      (th.put ids lock moved).writeGuards = th.writeGuards := by
  refine ⟨?_, ?_, ?_⟩
  · have hmem : moved.acquired = decide (ids.get lock ∈ th.acquiredByThread) := hacquired
    unfold Thread.put
    by_cases hin : ids.get lock ∈ th.acquiredByThread
    · simp [hmem, hin]
    · simp [hmem, hin]
  · exact (congrArg _ hreads).trans (update_eq_self lock th.readGuards)
  · exact (congrArg _ hwrites).trans (update_eq_self lock th.writeGuards)

/-- Every lock sees a thread whose record is right. -/
def Recorded (ids : LockIds Lock) (th : Thread Lock) : Prop :=
  ∀ lock, (th.view ids lock).Recorded

theorem recorded_put (h : Recorded ids th) (hposition : th.position.all (·.1 = lock) = true)
    (hmoved : moved.Recorded) : Recorded ids (th.put ids lock moved) := by
  intro other
  by_cases hother : other = lock
  · subst hother
    rw [view_put]
    exact hmoved
  · rw [view_put_of_ne hposition hother]
    exact h other

theorem recorded_wake (h : Recorded ids th) : Recorded ids (wake ids th) := by
  unfold wake
  split
  case h_1 lock call hposition =>
    refine recorded_put h ?_ (RwLock.recorded_wake (h lock))
    rw [hposition]
    simp
  case h_2 => exact h

end Views

/-! ### Runs -/

section Runs

variable [DecidableEq Tid] [Fintype Tid] {ids : LockIds Lock}
  {p p' : Pool Tid (Lock → Shared) (Thread Lock)} {label : Label Tid (Choice Lock)} {t : Tid}
  {lock : Lock}

/-- In every state of every run every lock sees threads whose records are right. -/
theorem recorded (h : (system Tid ids).Reachable p) : Recorded ids (p.threads t) := by
  have hnew (t : Tid) : Recorded ids ((new Tid Lock).threads t) := fun _ ↦ rfl
  refine Machine.forall_threads (Q := fun _ th ↦ Recorded ids th) hnew ?_
    (fun _ _ h ↦ recorded_wake h) (fun _ _ h ↦ h) h t
  intro t shared th choice shared' moved signal hrecorded hstep
  simp only [machine, step] at hstep
  split_ifs at hstep with hposition
  obtain ⟨⟨after, local', inner⟩, hinner, heq⟩ := Option.map_eq_some_iff.mp hstep
  simp only [Prod.mk.injEq] at heq
  rw [← heq.2.1]
  exact recorded_put hrecorded hposition (recorded_step (hrecorded choice.lock) hinner)

/-- A step on a lock is a step of this lock on what it sees of the thread. -/
theorem step_cases (h : (system Tid ids).step p label = some p') :
    ∃ after moved signal,
      (p.threads label.thread).position.all (·.1 = label.choice.lock) = true ∧
        RwLock.step (p.shared label.choice.lock)
            ((p.threads label.thread).view ids label.choice.lock) label.choice.choice =
          some (after, moved, signal) ∧
        p'.shared = update p.shared label.choice.lock after ∧
        (machine Tid ids).Delivered (signal.map fun addr ↦ (label.choice.lock, addr))
          (update p.threads label.thread
            ((p.threads label.thread).put ids label.choice.lock moved)) p'.threads := by
  obtain ⟨put, mapped, hlocal, hdelivered⟩ := Machine.step_cases h
  simp only [machine, step] at hlocal
  split_ifs at hlocal with hposition
  obtain ⟨⟨after, moved, signal⟩, hinner, heq⟩ := Option.map_eq_some_iff.mp hlocal
  simp only [Prod.mk.injEq] at heq
  obtain ⟨hafter, hput, hmapped⟩ := heq
  refine ⟨after, moved, signal, hposition, hinner, hafter.symm, ?_⟩
  rw [hput, hmapped]
  exact hdelivered

/-- The locks and the records and guards of a thread are as before. -/
structure Untouched (p p' : Pool Tid (Lock → Shared) (Thread Lock)) (t : Tid) : Prop where
  shared : p'.shared = p.shared
  acquiredByThread : (p'.threads t).acquiredByThread = (p.threads t).acquiredByThread
  readGuards : (p'.threads t).readGuards = (p.threads t).readGuards
  writeGuards : (p'.threads t).writeGuards = (p.threads t).writeGuards

omit [DecidableEq Tid] [Fintype Tid] in
/-- A silent step that changes neither the lock nor the record nor the guards. -/
theorem untouched_of_step {moved : RwLock.Thread}
    (hshared : p'.shared = update p.shared lock (p.shared lock))
    (hthread : p'.threads t = (p.threads t).put ids lock moved)
    (hacquired : moved.acquired = ((p.threads t).view ids lock).acquired)
    (hreads : moved.readGuards = ((p.threads t).view ids lock).readGuards)
    (hwrites : moved.writeGuards = ((p.threads t).view ids lock).writeGuards) :
    Untouched p p' t := by
  obtain ⟨hset, hreadGuards, hwriteGuards⟩ := put_eq_of_kept hacquired hreads hwrites
  rw [← hthread] at hset hreadGuards hwriteGuards
  exact ⟨hshared.trans (update_eq_self _ _), hset, hreadGuards, hwriteGuards⟩

/-- What the records of a thread say of one of the locks: between two calls on it the set holds its
id exactly if the thread owns a guard of it, there is never a second guard, and a holder that calls
one of the four acquiring methods is refused without a change to the locks, the set or the
guards. -/
structure Records (ids : LockIds Lock) (p : Pool Tid (Lock → Shared) (Thread Lock)) (t : Tid)
    (lock : Lock) : Prop where
  acquired_iff : (p.threads t).callAt lock = .idle →
    (ids.get lock ∈ (p.threads t).acquiredByThread ↔
      0 < (p.threads t).readGuards lock + (p.threads t).writeGuards lock)
  one_guard : ((p.threads t).view ids lock).outstanding .read +
    ((p.threads t).view ids lock).outstanding .write ≤ 1
  calls : ∀ method woken p', (system Tid ids).step p ⟨t, ⟨lock, .call method⟩, woken⟩ = some p' →
    ((p'.threads t).callAt lock).acquiring = true ∧ Untouched p p' t
  returns : ((p.threads t).callAt lock).acquiring = true →
    0 < (p.threads t).readGuards lock + (p.threads t).writeGuards lock →
      ∃ p', (system Tid ids).step p ⟨t, ⟨lock, .go⟩, none⟩ = some p'
  refused : ((p.threads t).callAt lock).acquiring = true →
    0 < (p.threads t).readGuards lock + (p.threads t).writeGuards lock →
      ∀ label p', label.thread = t → (system Tid ids).step p label = some p' →
        (p'.threads t).callAt lock = .idle ∧
          (p'.threads t).result lock = some (.error .wouldBlock) ∧ Untouched p p' t

/-- A thread inside a call on a lock uses no other lock. -/
theorem position_of_acquiring {th : Thread Lock} (h : (th.callAt lock).acquiring = true) :
    ∃ call, th.position = some (lock, call) := by
  unfold Thread.callAt at h
  split at h
  case h_1 held call hposition =>
    split_ifs at h with hheld
    · exact ⟨call, hheld ▸ hposition⟩
    · cases h
  case h_2 => cases h

/-- A holder is refused. -/
theorem refused_of_step (hrecorded : Recorded ids (p.threads label.thread))
    (hacquiring : ((p.threads label.thread).callAt lock).acquiring = true)
    (hholds : 0 < (p.threads label.thread).readGuards lock +
      (p.threads label.thread).writeGuards lock)
    (hmove : (system Tid ids).step p label = some p') :
    (p'.threads label.thread).callAt lock = .idle ∧
      (p'.threads label.thread).result lock = some (.error .wouldBlock) ∧
      Untouched p p' label.thread := by
  obtain ⟨after, moved, signal, hall, hinner, hshared, hdelivered⟩ := step_cases hmove
  obtain ⟨call, hposition⟩ := position_of_acquiring hacquiring
  rw [hposition] at hall
  have hlock : lock = label.choice.lock := by simpa using hall
  subst hlock
  obtain ⟨-, rfl, rfl, rfl⟩ := (refused_of_holder (hrecorded _) hacquiring hholds).mp hinner
  have hthread := congrFun hdelivered.silent_eq label.thread
  rw [update_self] at hthread
  refine ⟨?_, ?_, untouched_of_step hshared hthread rfl rfl rfl⟩
  · rw [hthread, callAt_put]
    rfl
  · rw [hthread]
    exact update_self ..

/-- The start of a call changes nothing but the position. -/
theorem calls_of_step {method : Method} {woken : Option Tid}
    (hmove : (system Tid ids).step p ⟨t, ⟨lock, .call method⟩, woken⟩ = some p') :
    ((p'.threads t).callAt lock).acquiring = true ∧ Untouched p p' t := by
  obtain ⟨after, moved, signal, -, hinner, hshared, hdelivered⟩ := step_cases hmove
  have hstarted : ∃ next : Call, next.acquiring = true ∧
      quiet (p.shared lock) (((p.threads t).view ids lock).goto next) =
        some (after, moved, signal) := by
    unfold RwLock.step at hinner
    split at hinner
    case h_1 => cases method <;> exact ⟨_, rfl, hinner⟩
    case h_6 => cases hinner
    all_goals
      rename_i pc hcall
      cases pc <;> cases hinner
  obtain ⟨next, hacquiring, hquiet⟩ := hstarted
  obtain ⟨rfl, rfl, rfl⟩ := quiet_eq_some.mp hquiet
  have hthread := congrFun hdelivered.silent_eq t
  rw [update_self] at hthread
  refine ⟨?_, untouched_of_step hshared hthread rfl rfl rfl⟩
  rw [hthread, callAt_put]
  exact hacquiring

/-- In every state of every run with any number of threads and locks, the records of every thread
are right for every lock. -/
theorem records_agree (h : (system Tid ids).Reachable p) (t : Tid) (lock : Lock) :
    Records ids p t lock := by
  have hrecorded : Recorded ids (p.threads t) := recorded h
  constructor
  case acquired_iff =>
    intro hidle
    have hagrees := hrecorded lock
    unfold RwLock.Thread.Recorded at hagrees
    have hcall : ((p.threads t).view ids lock).call = .idle := hidle
    rw [hcall] at hagrees
    have hguards : (p.threads t).readGuards lock + (p.threads t).writeGuards lock =
        if decide (ids.get lock ∈ (p.threads t).acquiredByThread) = true then 1 else 0 := hagrees
    rw [hguards]
    by_cases hmem : ids.get lock ∈ (p.threads t).acquiredByThread
    · simp [hmem]
    · simp [hmem]
  case one_guard => exact outstanding_le_one (hrecorded lock)
  case calls =>
    intro method woken p' hmove
    exact calls_of_step hmove
  case returns =>
    intro hacquiring hholds
    obtain ⟨call, hposition⟩ := position_of_acquiring hacquiring
    have hinner : RwLock.step (p.shared lock) ((p.threads t).view ids lock) .go =
        some (p.shared lock, ((p.threads t).view ids lock).ret (.error .wouldBlock),
          (.silent : Signal Tid Addr)) :=
      (refused_of_holder (hrecorded lock) hacquiring hholds).mpr ⟨rfl, rfl, rfl, rfl⟩
    have hstep : (machine Tid ids).step t p.shared (p.threads t) ⟨lock, .go⟩ =
        some (update p.shared lock (p.shared lock), (p.threads t).put ids lock
          (((p.threads t).view ids lock).ret (.error .wouldBlock)), .silent) := by
      simp [machine, step, hposition, hinner, Signal.map]
    exact ⟨_, Machine.solo_eq_some hstep⟩
  case refused =>
    rintro hacquiring hholds label p' rfl hmove
    exact refused_of_step hrecorded hacquiring hholds hmove

theorem toNat_injective : Function.Injective Bool.toNat := by decide

/-- Two locks. -/
def twoLockIds : LockIds Bool where
  get := Bool.toNat
  get_injective := toNat_injective

/-- `records_agree` on a run in which one thread owns a poisoned write guard of one lock and a read
guard of the other, and has called `try_read` on the first. -/
theorem records_agree_nested :
    ∃ p : Pool (Fin 2) (Bool → Shared) (Thread Bool),
      (p.threads 0).result false = some (.error (.poisoned .write)) ∧
      (p.threads 0).readGuards true = 1 ∧
      (p.threads 0).callAt false = .tryRead .acquiredCheck ∧
      Records twoLockIds p 0 false ∧ Records twoLockIds p 0 true := by
  obtain ⟨p, hrun, hpoisoned, hreads, hcall⟩ := System.exists_reachableWhen_of_exec
    (M := system (Fin 2) twoLockIds) (fun _ _ ↦ True)
    (P := fun p ↦ (p.threads 0).result false = some (.error (.poisoned .write)) ∧
      (p.threads 0).readGuards true = 1 ∧ (p.threads 0).callAt false = .tryRead .acquiredCheck)
    [⟨1, ⟨false, .call .tryWrite⟩, none⟩, ⟨1, ⟨false, .go⟩, none⟩, ⟨1, ⟨false, .go⟩, none⟩,
      ⟨1, ⟨false, .go⟩, none⟩, ⟨1, ⟨false, .go⟩, none⟩, ⟨1, ⟨false, .drop .write true⟩, none⟩,
      ⟨1, ⟨false, .go⟩, none⟩, ⟨1, ⟨false, .go⟩, none⟩, ⟨1, ⟨false, .go⟩, none⟩,
      ⟨0, ⟨true, .call .read⟩, none⟩, ⟨0, ⟨true, .go⟩, none⟩, ⟨0, ⟨true, .go⟩, none⟩,
      ⟨0, ⟨true, .go⟩, none⟩, ⟨0, ⟨true, .go⟩, none⟩,
      ⟨0, ⟨false, .call .write⟩, none⟩, ⟨0, ⟨false, .go⟩, none⟩, ⟨0, ⟨false, .go⟩, none⟩,
      ⟨0, ⟨false, .go⟩, none⟩, ⟨0, ⟨false, .go⟩, none⟩,
      ⟨0, ⟨false, .call .tryRead⟩, none⟩] (by decide +kernel)
  exact ⟨p, hpoisoned, hreads, hcall, records_agree hrun 0 false, records_agree hrun 0 true⟩

end Runs

end SyncPrimitives.RwLock.Many
