import SyncPrimitives.Concurrency.ThreadPool
import SyncPrimitives.MutexCommon

/-!
# The three-valued mutex of `mutex_v2.rs`

One `Mutex`, used by any number of threads. A thread is inside at most one call at a time, and its
position is the next access to shared memory; local computation up to that access belongs to the
step before it. `Thread.guards` counts the guards a thread owns, from the compare-and-exchange that
acquires; a guard that is being dropped has moved into the position of its drop. The set
`ACQUIRED_BY_THREAD` is reduced to the membership of this mutex's `mutex_id`. The position
`acquired` covers `set_acquired`, the read of `poisoned` and the return.
-/

set_option autoImplicit false
set_option relaxedAutoImplicit false

namespace SyncPrimitives.MutexV2

open Concurrency MutexCommon

/-- `UNLOCKED`. -/
def unlocked : ℕ := 0

/-- `LOCKED`. -/
def locked : ℕ := 1

/-- `LOCKED_HAS_WAITERS`. -/
def lockedHasWaiters : ℕ := 2

/-- The atomic word on which threads sleep. -/
inductive Addr
  | state
  deriving DecidableEq

/-- The fields of `Mutex` other than `data` and `mutex_id`. -/
structure Shared where
  state : ℕ
  poisoned : Bool
  deriving DecidableEq

/-- Positions inside `lock`: the weak compare-and-exchange of the fast path, the loads of the
spinning, the compare-and-exchange after it, and the slow loop. -/
inductive LockPc
  | acquiredCheck
  | compareExchangeWeak
  | spin (counter : ℕ) (bounded : counter < 100)
  | compareExchange
  | slowCompareExchange
  | wait
  | asleep
  deriving DecidableEq

/-- Positions inside `try_lock`. -/
inductive TryLockPc
  | acquiredCheck
  | compareExchangeWeak
  deriving DecidableEq

/-- Positions inside the drop of a `MutexGuard`. -/
inductive DropPc
  | removeAcquired
  | swap
  | wakeOne
  deriving DecidableEq

/-- What a thread is doing. -/
inductive Call
  | idle
  | lock (pc : LockPc)
  | tryLock (pc : TryLockPc)
  | acquired
  | drop (pc : DropPc)
  deriving DecidableEq

/-- The local state of a thread: its position, whether `mutex_id` is in its `ACQUIRED_BY_THREAD`,
the guards it owns, and what its last finished call returned. -/
structure Thread where
  call : Call
  acquired : Bool
  guards : ℕ
  result : Option LockResult

namespace Thread

/-- The thread at another position. -/
def goto (th : Thread) (call : Call) : Thread := { th with call := call }

/-- The thread after a call has returned. -/
def ret (th : Thread) (result : LockResult) : Thread :=
  { th with call := .idle, result := some result }

/-- The thread after a successful acquiring compare-and-exchange. -/
def acquire (th : Thread) : Thread := { th with call := .acquired, guards := th.guards + 1 }

end Thread

/-- A step that wakes nobody. -/
def quiet {Tid : Type} (shared : Shared) (th : Thread) :
    Option (Shared × Thread × Signal Tid Addr) :=
  some (shared, th, .silent)

/-- `acquired_check` at the start of a call. -/
def acquiredCheck (th : Thread) (next : Call) : Thread :=
  if th.acquired then th.ret (.error .wouldBlock) else th.goto next

/-- `set_acquired`, `is_poisoned` and the return of a call that has acquired. -/
def finish (shared : Shared) (th : Thread) : Thread :=
  { th.ret (lockResult shared.poisoned) with acquired := true }

/-- The head of the spinning loop, up to the next access. -/
def spinLoop (th : Thread) (counter : ℕ) : Thread :=
  if h : counter < 100 then th.goto (.lock (.spin counter h))
  else th.goto (.lock .compareExchange)

section Steps

variable {Tid : Type} (shared : Shared) (th : Thread)

/-- `Mutex::lock`. -/
def lockStep : LockPc → Choice → Option (Shared × Thread × Signal Tid Addr)
  | .acquiredCheck, .go => quiet shared (acquiredCheck th (.lock .compareExchangeWeak))
  | .compareExchangeWeak, .go =>
    if shared.state = unlocked then quiet { shared with state := locked } th.acquire
    else quiet shared (spinLoop th 0)
  | .compareExchangeWeak, .spurious => quiet shared (spinLoop th 0)
  | .spin counter _, .go =>
    if shared.state = unlocked then quiet shared (th.goto (.lock .compareExchange))
    else quiet shared (spinLoop th (counter + 1))
  | .compareExchange, .go =>
    if shared.state = unlocked then quiet { shared with state := locked } th.acquire
    else quiet shared (th.goto (.lock .slowCompareExchange))
  | .slowCompareExchange, .go =>
    if shared.state = unlocked then quiet { shared with state := lockedHasWaiters } th.acquire
    else quiet shared (th.goto (.lock .wait))
  | .wait, .go =>
    if shared.state = lockedHasWaiters then quiet shared (th.goto (.lock .asleep))
    else quiet shared (th.goto (.lock .slowCompareExchange))
  | .wait, .spurious => quiet shared (th.goto (.lock .slowCompareExchange))
  | .asleep, .spurious => quiet shared (th.goto (.lock .slowCompareExchange))
  | _, _ => none

/-- `Mutex::try_lock`. -/
def tryLockStep : TryLockPc → Choice → Option (Shared × Thread × Signal Tid Addr)
  | .acquiredCheck, .go => quiet shared (acquiredCheck th (.tryLock .compareExchangeWeak))
  | .compareExchangeWeak, .go =>
    if shared.state = unlocked then quiet { shared with state := locked } th.acquire
    else quiet shared (th.ret (.error .wouldBlock))
  | .compareExchangeWeak, .spurious => quiet shared (th.ret (.error .wouldBlock))
  | _, _ => none

/-- `Drop for MutexGuard`. -/
def dropStep : DropPc → Choice → Option (Shared × Thread × Signal Tid Addr)
  | .removeAcquired, .go => quiet shared { th with call := .drop .swap, acquired := false }
  | .swap, .go =>
    quiet { shared with state := unlocked }
      (if shared.state = lockedHasWaiters then th.goto (.drop .wakeOne) else th.goto .idle)
  | .wakeOne, .go => some (shared, th.goto .idle, .wakeOne .state)
  | _, _ => none

/-- What an idle thread can start. A drop moves the guard out of the thread; `poisoned` is set at
the start of the drop in a panicking thread. -/
def idleStep : Choice → Option (Shared × Thread × Signal Tid Addr)
  | .call .lock => quiet shared (th.goto (.lock .acquiredCheck))
  | .call .tryLock => quiet shared (th.goto (.tryLock .acquiredCheck))
  | .drop panicking =>
    if 0 < th.guards then
      quiet { shared with poisoned := shared.poisoned || panicking }
        { th with call := .drop .removeAcquired, guards := th.guards - 1 }
    else none
  | .clearPoison => quiet { shared with poisoned := false } th
  | _ => none

/-- One step of a thread. -/
def step (choice : Choice) : Option (Shared × Thread × Signal Tid Addr) :=
  match th.call with
  | .idle => idleStep shared th choice
  | .lock pc => lockStep shared th pc choice
  | .tryLock pc => tryLockStep shared th pc choice
  | .acquired => if choice = .go then quiet shared (finish shared th) else none
  | .drop pc => dropStep shared th pc choice

end Steps

/-- The word on which a thread is asleep. -/
def asleepOn (th : Thread) : Option Addr :=
  match th.call with
  | .lock .asleep => some .state
  | _ => none

/-- A thread whose `wait` has been woken. -/
def wake (th : Thread) : Thread :=
  match th.call with
  | .lock .asleep => th.goto (.lock .slowCompareExchange)
  | _ => th

/-- The threads of a mutex. -/
def machine (Tid : Type) : Machine Tid Shared Thread Choice Addr where
  step := fun _ shared th choice ↦ step shared th choice
  asleepOn := asleepOn
  wake := wake
  unpark := id

/-- `Mutex::new`, before any call. -/
def new (Tid : Type) : Pool Tid Shared Thread where
  shared := { state := unlocked, poisoned := false }
  threads := fun _ ↦ { call := .idle, acquired := false, guards := 0, result := none }

/-- Any number of threads using one mutex. -/
def system (Tid : Type) [DecidableEq Tid] [Fintype Tid] :
    System (Pool Tid Shared Thread) (Label Tid Choice) :=
  (machine Tid).system (new Tid)

end SyncPrimitives.MutexV2
