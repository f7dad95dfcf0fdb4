import SyncPrimitives.Concurrency.ThreadPool
import SyncPrimitives.MutexCommon

/-!
# The queueing mutex of `mutex_v1.rs`

The word `state` holds the id of the owner, or zero; threads that spin in vain put their handle into
`queue` and park, and a release unparks the handle at the front. `queue` is accessed between setting
and clearing `queue_is_accessed`. A position is the next access to shared memory; every operation on
the queue is a step of its own, and local computation up to the next access belongs to the step
before it.

`thread_id::get` is a parameter with the two properties the code relies on. `Thread.token` is the
unpark token of `std::thread`: `unpark` sets it, or lets a parked thread return; `park` takes it or
blocks, and may return without it (the choice `spurious`). `Thread.guards` counts the guards a
thread owns, as the position of a drop holds the guard that is being dropped. The position
`acquired` covers the read of `poisoned` and the return.
-/

set_option autoImplicit false
set_option relaxedAutoImplicit false

namespace SyncPrimitives.MutexV1

open Concurrency MutexCommon

/-- `thread_id::get`: distinct threads have distinct ids, none of them zero. -/
structure ThreadIds (Tid : Type) where
  get : Tid → ℕ
  get_ne_zero : ∀ t, get t ≠ 0
  get_injective : Function.Injective get

/-- The ids 1 and 2. -/
def twoThreadIds : ThreadIds (Fin 2) where
  get := fun t ↦ t.val + 1
  get_ne_zero := fun _ ↦ Nat.succ_ne_zero _
  get_injective := fun _ _ h ↦ Fin.ext (Nat.succ.inj h)

/-- The mutex has no word on which threads sleep. -/
inductive Addr
  deriving DecidableEq

/-- The fields of `Mutex` other than `data`. -/
structure Shared (Tid : Type) where
  queueIsAccessed : Bool
  state : ℕ
  queue : List Tid
  poisoned : Bool
  deriving DecidableEq

/-- Positions inside `enqueue_thread`. -/
inductive EnqueuePc
  | load
  | compareExchange
  | pushBack
  | store
  | park
  | parked
  deriving DecidableEq

/-- Positions inside `lock`. -/
inductive LockPc
  | loadOwner
  | load (spinCounter : ℕ)
  | compareExchange (spinCounter : ℕ)
  | enqueue (pc : EnqueuePc)
  deriving DecidableEq

/-- Positions inside `try_lock`. -/
inductive TryLockPc
  | loadOwner
  | compareExchange
  deriving DecidableEq

/-- Positions inside `dequeue_thread`; `store` carries the handle that has been popped, if any. -/
inductive DequeuePc (Tid : Type)
  | load
  | compareExchange
  | isEmpty
  | popFront
  | store (popped : Option Tid)
  | unpark (handle : Tid)
  deriving DecidableEq

/-- Positions inside the drop of a `MutexGuard`. -/
inductive DropPc (Tid : Type)
  | store
  | dequeue (pc : DequeuePc Tid)
  deriving DecidableEq

/-- What a thread is doing. -/
inductive Call (Tid : Type)
  | idle
  | lock (pc : LockPc)
  | tryLock (pc : TryLockPc)
  | acquired
  | drop (pc : DropPc Tid)
  deriving DecidableEq

/-- The local state of a thread: its position, its unpark token, the guards it owns, and what its
last finished call returned. -/
structure Thread (Tid : Type) where
  call : Call Tid
  token : Bool
  guards : ℕ
  result : Option LockResult

namespace Thread

variable {Tid : Type}

/-- The thread at another position. -/
def goto (th : Thread Tid) (call : Call Tid) : Thread Tid := { th with call := call }

/-- The thread after a call has returned. -/
def ret (th : Thread Tid) (result : LockResult) : Thread Tid :=
  { th with call := .idle, result := some result }

/-- The thread after a successful acquiring compare-and-exchange. -/
def acquire (th : Thread Tid) : Thread Tid :=
  { th with call := .acquired, guards := th.guards + 1 }

/-- The thread after `park` has returned: the outer loop of `lock` starts again. -/
def unparked (th : Thread Tid) : Thread Tid := th.goto (.lock (.load 0))

end Thread

section Steps

variable {Tid : Type}

/-- A step that unparks nobody. -/
def quiet (shared : Shared Tid) (th : Thread Tid) :
    Option (Shared Tid × Thread Tid × Signal Tid Addr) :=
  some (shared, th, .silent)

variable (self : Tid) (currentThread : ℕ) (shared : Shared Tid) (th : Thread Tid)

/-- The head of the spinning loop of `lock`, up to the next access. -/
def spinLoop (spinCounter : ℕ) : Thread Tid :=
  if spinCounter < 100 then th.goto (.lock (.load spinCounter))
  else th.goto (.lock (.enqueue .load))

/-- `Mutex::enqueue_thread`. -/
def enqueueThreadStep : EnqueuePc → Choice → Option (Shared Tid × Thread Tid × Signal Tid Addr)
  | .load, .go =>
    if shared.queueIsAccessed then quiet shared th
    else quiet shared (th.goto (.lock (.enqueue .compareExchange)))
  | .compareExchange, .go =>
    if shared.queueIsAccessed then quiet shared (th.goto (.lock (.enqueue .load)))
    else quiet { shared with queueIsAccessed := true } (th.goto (.lock (.enqueue .pushBack)))
  | .compareExchange, .spurious => quiet shared (th.goto (.lock (.enqueue .load)))
  | .pushBack, .go =>
    quiet { shared with queue := shared.queue ++ [self] } (th.goto (.lock (.enqueue .store)))
  | .store, .go =>
    quiet { shared with queueIsAccessed := false } (th.goto (.lock (.enqueue .park)))
  | .park, .go =>
    if th.token then quiet shared { th.unparked with token := false }
    else quiet shared (th.goto (.lock (.enqueue .parked)))
  | .park, .spurious => quiet shared th.unparked
  | .parked, .spurious => quiet shared th.unparked
  | _, _ => none

/-- `Mutex::lock`. -/
def lockStep : LockPc → Choice → Option (Shared Tid × Thread Tid × Signal Tid Addr)
  | .loadOwner, .go =>
    if shared.state = currentThread then quiet shared (th.ret (.error .wouldBlock))
    else quiet shared (spinLoop th 0)
  | .load spinCounter, .go =>
    if shared.state = 0 then quiet shared (th.goto (.lock (.compareExchange spinCounter)))
    else quiet shared (spinLoop th (spinCounter + 1))
  | .compareExchange spinCounter, .go =>
    if shared.state = 0 then quiet { shared with state := currentThread } th.acquire
    else quiet shared (spinLoop th spinCounter)
  | .compareExchange spinCounter, .spurious => quiet shared (spinLoop th spinCounter)
  | .enqueue pc, choice => enqueueThreadStep self shared th pc choice
  | _, _ => none

/-- `Mutex::try_lock`. -/
def tryLockStep : TryLockPc → Choice → Option (Shared Tid × Thread Tid × Signal Tid Addr)
  | .loadOwner, .go =>
    if shared.state = currentThread then quiet shared (th.ret (.error .wouldBlock))
    else quiet shared (th.goto (.tryLock .compareExchange))
  | .compareExchange, .go =>
    if shared.state = 0 then quiet { shared with state := currentThread } th.acquire
    else quiet shared (th.ret (.error .wouldBlock))
  | _, _ => none

/-- `Mutex::dequeue_thread`. -/
def dequeueThreadStep :
    DequeuePc Tid → Choice → Option (Shared Tid × Thread Tid × Signal Tid Addr)
  | .load, .go =>
    if shared.queueIsAccessed then quiet shared th
    else quiet shared (th.goto (.drop (.dequeue .compareExchange)))
  | .compareExchange, .go =>
    if shared.queueIsAccessed then quiet shared (th.goto (.drop (.dequeue .load)))
    else quiet { shared with queueIsAccessed := true } (th.goto (.drop (.dequeue .isEmpty)))
  | .compareExchange, .spurious => quiet shared (th.goto (.drop (.dequeue .load)))
  | .isEmpty, .go =>
    if shared.queue = [] then quiet shared (th.goto (.drop (.dequeue (.store none))))
    else quiet shared (th.goto (.drop (.dequeue .popFront)))
  | .popFront, .go =>
    quiet { shared with queue := shared.queue.tail }
      (th.goto (.drop (.dequeue (.store shared.queue.head?))))
  | .store (some handle), .go =>
    quiet { shared with queueIsAccessed := false } (th.goto (.drop (.dequeue (.unpark handle))))
  | .store none, .go => quiet { shared with queueIsAccessed := false } (th.goto .idle)
  | .unpark handle, .go => some (shared, th.goto .idle, .unpark handle)
  | _, _ => none

/-- `Drop for MutexGuard`. -/
def dropStep : DropPc Tid → Choice → Option (Shared Tid × Thread Tid × Signal Tid Addr)
  | .store, .go => quiet { shared with state := 0 } (th.goto (.drop (.dequeue .load)))
  | .dequeue pc, choice => dequeueThreadStep shared th pc choice
  | _, _ => none

/-- What an idle thread can start. A drop moves the guard out of the thread; `poisoned` is set at
the start of the drop in a panicking thread. -/
def idleStep : Choice → Option (Shared Tid × Thread Tid × Signal Tid Addr)
  | .call .lock => quiet shared (th.goto (.lock .loadOwner))
  | .call .tryLock => quiet shared (th.goto (.tryLock .loadOwner))
  | .drop panicking =>
    if 0 < th.guards then
      quiet { shared with poisoned := shared.poisoned || panicking }
        { th with call := .drop .store, guards := th.guards - 1 }
    else none
  | .clearPoison => quiet { shared with poisoned := false } th
  | _ => none

/-- One step of a thread. -/
def step (choice : Choice) : Option (Shared Tid × Thread Tid × Signal Tid Addr) :=
  match th.call with
  | .idle => idleStep shared th choice
  | .lock pc => lockStep self currentThread shared th pc choice
  | .tryLock pc => tryLockStep currentThread shared th pc choice
  | .acquired =>
    if choice = .go then quiet shared (th.ret (lockResult shared.poisoned)) else none
  | .drop pc => dropStep shared th pc choice

end Steps

/-- `Thread::unpark`: a parked thread returns from `park`, any other thread gets the token. -/
def unpark {Tid : Type} (th : Thread Tid) : Thread Tid :=
  match th.call with
  | .lock (.enqueue .parked) => { th.unparked with token := false }
  | _ => { th with token := true }

/-- The threads of a mutex. -/
def machine {Tid : Type} (ids : ThreadIds Tid) :
    Machine Tid (Shared Tid) (Thread Tid) Choice Addr where
  step := fun t shared th choice ↦ step t (ids.get t) shared th choice
  asleepOn := fun _ ↦ none
  wake := id
  unpark := unpark

/-- `Mutex::new`, before any call. -/
def new (Tid : Type) : Pool Tid (Shared Tid) (Thread Tid) where
  shared := { queueIsAccessed := false, state := 0, queue := [], poisoned := false }
  threads := fun _ ↦ { call := .idle, token := false, guards := 0, result := none }

/-- Any number of threads using one mutex. -/
def system {Tid : Type} [DecidableEq Tid] [Fintype Tid] (ids : ThreadIds Tid) :
    System (Pool Tid (Shared Tid) (Thread Tid)) (Label Tid Choice) :=
  (machine ids).system (new Tid)

end SyncPrimitives.MutexV1
