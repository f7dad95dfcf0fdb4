import SyncPrimitives.Concurrency.ThreadPool
import SyncPrimitives.Concurrency.Words

/-!
# The semaphore of `semaphore.rs`

One `Semaphore`, used by any number of threads. A thread is inside at most one call at a time, and
its position is the next access to shared memory. `try_wait_duration` repeats `try_wait` until a
deadline; a thread that calls `try_wait` again and again does the same. `acquisitions` and
`increments` count the successful compare-and-exchanges and the increments of `signal` so far; no
step reads them.
-/

set_option autoImplicit false
set_option relaxedAutoImplicit false

namespace SyncPrimitives.Semaphore

open Concurrency

/-- The atomic word on which threads sleep. -/
inductive Addr
  | count
  deriving DecidableEq

/-- The fields of `Semaphore`, and the history of its permits. -/
structure Shared where
  count : ℕ
  numWaiting : ℕ
  acquisitions : ℕ
  increments : ℕ
  deriving DecidableEq

/-- Positions inside `wait`; `wait` is the call of `atomic_wait::wait`, always for the value
zero. -/
inductive WaitPc
  | fetchAdd
  | load
  | wait
  | asleep
  | compareExchangeWeak (count : ℕ) (available : count ≠ 0)
  | fetchSub
  deriving DecidableEq

/-- Positions inside `try_wait`. -/
inductive TryWaitPc
  | load
  | compareExchangeWeak (count : ℕ) (available : count ≠ 0)
  deriving DecidableEq

/-- Positions inside `signal`. -/
inductive SignalPc
  | fetchAdd
  | load
  | wakeOne
  deriving DecidableEq

/-- What a thread is doing. -/
inductive Call
  | idle
  | wait (pc : WaitPc)
  | tryWait (pc : TryWaitPc)
  | signal (pc : SignalPc)
  deriving DecidableEq

/-- The local state of a thread: its position, and what its last `try_wait` returned. -/
structure Thread where
  call : Call
  result : Option Bool

namespace Thread

/-- The thread at another position. -/
def goto (th : Thread) (call : Call) : Thread := { th with call := call }

/-- The thread after `try_wait` has returned. -/
def ret (th : Thread) (result : Bool) : Thread :=
  { th with call := .idle, result := some result }

end Thread

/-- What resolves a step: the next call of an idle thread, or how the current access ends. `go` is
the regular outcome; `spurious` is a spurious failure of `compare_exchange_weak` or a spurious
return of a blocking call. -/
inductive Choice
  | wait
  | tryWait
  | signal
  | go
  | spurious
  deriving DecidableEq

/-- A step that wakes nobody. -/
def quiet {Tid : Type} (shared : Shared) (th : Thread) :
    Option (Shared × Thread × Signal Tid Addr) :=
  some (shared, th, .silent)

/-- The semaphore after a compare-and-exchange from `count` to `count - 1`. -/
def Shared.take (shared : Shared) (count : ℕ) : Shared :=
  { shared with count := count - 1, acquisitions := shared.acquisitions + 1 }

section Steps

variable {Tid : Type} (shared : Shared) (th : Thread)

/-- `Semaphore::wait`. -/
def waitStep : WaitPc → Choice → Option (Shared × Thread × Signal Tid Addr)
  | .fetchAdd, .go =>
    quiet { shared with numWaiting := addU32 shared.numWaiting 1 } (th.goto (.wait .load))
  | .load, .go =>
    if h : shared.count = 0 then quiet shared (th.goto (.wait .wait))
    else quiet shared (th.goto (.wait (.compareExchangeWeak shared.count h)))
  | .wait, .go =>
    if shared.count = 0 then quiet shared (th.goto (.wait .asleep))
    else quiet shared (th.goto (.wait .load))
  | .wait, .spurious => quiet shared (th.goto (.wait .load))
  | .asleep, .spurious => quiet shared (th.goto (.wait .load))
  | .compareExchangeWeak count _, .go =>
    if shared.count = count then quiet (shared.take count) (th.goto (.wait .fetchSub))
    else quiet shared (th.goto (.wait .load))
  | .compareExchangeWeak _ _, .spurious => quiet shared (th.goto (.wait .load))
  | .fetchSub, .go =>
    quiet { shared with numWaiting := subU32 shared.numWaiting 1 } (th.goto .idle)
  | _, _ => none

/-- `Semaphore::try_wait`. -/
def tryWaitStep : TryWaitPc → Choice → Option (Shared × Thread × Signal Tid Addr)
  | .load, .go =>
    if h : shared.count = 0 then quiet shared (th.ret false)
    else quiet shared (th.goto (.tryWait (.compareExchangeWeak shared.count h)))
  | .compareExchangeWeak count _, .go =>
    if shared.count = count then quiet (shared.take count) (th.ret true)
    else quiet shared (th.ret false)
  | .compareExchangeWeak _ _, .spurious => quiet shared (th.ret false)
  | _, _ => none

/-- `Semaphore::signal`. -/
def signalStep : SignalPc → Choice → Option (Shared × Thread × Signal Tid Addr)
  | .fetchAdd, .go =>
    quiet { shared with count := addU32 shared.count 1, increments := shared.increments + 1 }
      (th.goto (.signal .load))
  | .load, .go =>
    if 0 < shared.numWaiting then quiet shared (th.goto (.signal .wakeOne))
    else quiet shared (th.goto .idle)
  | .wakeOne, .go => some (shared, th.goto .idle, .wakeOne .count)
  | _, _ => none

/-- What an idle thread can start. -/
def idleStep : Choice → Option (Shared × Thread × Signal Tid Addr)
  | .wait => quiet shared (th.goto (.wait .fetchAdd))
  | .tryWait => quiet shared (th.goto (.tryWait .load))
  | .signal => quiet shared (th.goto (.signal .fetchAdd))
  | _ => none

/-- One step of a thread. -/
def step (choice : Choice) : Option (Shared × Thread × Signal Tid Addr) :=
  match th.call with
  | .idle => idleStep shared th choice
  | .wait pc => waitStep shared th pc choice
  | .tryWait pc => tryWaitStep shared th pc choice
  | .signal pc => signalStep shared th pc choice

end Steps

/-- The word on which a thread is asleep. -/
def asleepOn (th : Thread) : Option Addr :=
  match th.call with
  | .wait .asleep => some .count
  | _ => none

/-- A thread whose `wait` has been woken. -/
def wake (th : Thread) : Thread :=
  match th.call with
  | .wait .asleep => th.goto (.wait .load)
  | _ => th

/-- The threads of a semaphore. -/
def machine (Tid : Type) : Machine Tid Shared Thread Choice Addr where
  step := fun _ shared th choice ↦ step shared th choice
  asleepOn := asleepOn
  wake := wake
  unpark := id

/-- `Semaphore::new`, before any call. -/
def new (Tid : Type) (initialCount : ℕ) : Pool Tid Shared Thread where
  shared := { count := initialCount, numWaiting := 0, acquisitions := 0, increments := 0 }
  threads := fun _ ↦ { call := .idle, result := none }

/-- Any number of threads using one semaphore. -/
def system (Tid : Type) [DecidableEq Tid] [Fintype Tid] (initialCount : ℕ) :
    System (Pool Tid Shared Thread) (Label Tid Choice) :=
  (machine Tid).system (new Tid initialCount)

end SyncPrimitives.Semaphore
