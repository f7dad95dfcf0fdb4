import SyncPrimitives.Concurrency.ThreadPool
import SyncPrimitives.Concurrency.Words

/-!
# The condition variable of `condvar.rs`

One `CondVar` and one mutex with a predicate behind it, used by any number of threads. The mutex is
the one of the caller and appears only through what it promises: `holder` is the thread that holds
its guard, a lock waits until nobody does. A thread that is not inside a call of the condition
variable can

* run the loop `lock; while !predicate { wait }` of a consumer, after which it holds the mutex,
* lock the mutex, write the predicate while it holds it, and unlock,
* call `notify_all` or `notify_one`, holding the mutex or not.

A thread that has made the predicate true owes a `notify_all`: outside the mutex it does nothing
else before. `notifications` counts the increments of `counter` so far and `loadedAt` is its value
when a waiting thread loaded `counter`; no step reads them.
-/

set_option autoImplicit false
set_option relaxedAutoImplicit false

namespace SyncPrimitives.CondVar

open Concurrency

/-- The atomic word on which threads sleep. -/
inductive Addr
  | counter
  deriving DecidableEq

/-- The fields of `CondVar`, the mutex with its predicate, and the number of notifications so
far. -/
structure Shared (Tid : Type) where
  counter : ℕ
  waiting : ℕ
  holder : Option Tid
  predicate : Bool
  notifications : ℕ
  deriving DecidableEq

/-- Positions inside `wait` before the mutex is locked again; `state` is the loaded counter. -/
inductive WaitPc
  | load
  | fetchAdd (state loadedAt : ℕ)
  | unlock (state loadedAt : ℕ)
  | wait (state loadedAt : ℕ)
  | asleep
  | fetchSub
  deriving DecidableEq

/-- Positions inside `notify_all`. -/
inductive NotifyAllPc
  | fetchAdd
  | load
  | wakeAll
  deriving DecidableEq

/-- Positions inside `notify_one`. -/
inductive NotifyOnePc
  | fetchAdd
  | wakeOne
  deriving DecidableEq

/-- What a thread is doing: between two calls, waiting for the mutex, at the head of the consumer's
loop, or inside a call. `inside` says whether it holds the mutex, `owing` whether it has made the
predicate true and not yet completed a `notify_all`. -/
inductive Call
  | between (inside owing : Bool)
  | lock (consumer : Bool)
  | check
  | wait (pc : WaitPc)
  | notifyAll (pc : NotifyAllPc) (inside owing : Bool)
  | notifyOne (pc : NotifyOnePc) (inside owing : Bool)
  deriving DecidableEq

/-- What resolves a step: what a thread between two calls does next, or how the current access ends.
`go` is the regular outcome; `spurious` is a spurious return of a blocking call. -/
inductive Choice
  | consume
  | lock
  | write (value : Bool)
  | unlock
  | notifyAll
  | notifyOne
  | go
  | spurious
  deriving DecidableEq

/-- A step that wakes nobody. -/
def quiet {Tid : Type} (shared : Shared Tid) (call : Call) :
    Option (Shared Tid × Call × Signal Tid Addr) :=
  some (shared, call, .silent)

/-- The increment of `counter`. -/
def Shared.notify {Tid : Type} (shared : Shared Tid) : Shared Tid :=
  { shared with counter := addU32 shared.counter 1, notifications := shared.notifications + 1 }

section Steps

variable {Tid : Type} (self : Tid) (shared : Shared Tid)

/-- `CondVar::wait`, up to the `lock` at its end. -/
def waitStep : WaitPc → Choice → Option (Shared Tid × Call × Signal Tid Addr)
  | .load, .go => quiet shared (.wait (.fetchAdd shared.counter shared.notifications))
  | .fetchAdd state loadedAt, .go =>
    quiet { shared with waiting := addU32 shared.waiting 1 } (.wait (.unlock state loadedAt))
  | .unlock state loadedAt, .go =>
    quiet { shared with holder := none } (.wait (.wait state loadedAt))
  | .wait state _, .go =>
    if shared.counter = state then quiet shared (.wait .asleep) else quiet shared (.wait .fetchSub)
  | .wait _ _, .spurious => quiet shared (.wait .fetchSub)
  | .asleep, .spurious => quiet shared (.wait .fetchSub)
  | .fetchSub, .go => quiet { shared with waiting := subU32 shared.waiting 1 } (.lock true)
  | _, _ => none

/-- `CondVar::notify_all`. -/
def notifyAllStep (inside owing : Bool) :
    NotifyAllPc → Choice → Option (Shared Tid × Call × Signal Tid Addr)
  | .fetchAdd, .go => quiet shared.notify (.notifyAll .load inside owing)
  | .load, .go =>
    if shared.waiting ≠ 0 then quiet shared (.notifyAll .wakeAll inside owing)
    else quiet shared (.between inside false)
  | .wakeAll, .go => some (shared, .between inside false, .wakeAll .counter)
  | _, _ => none

/-- `CondVar::notify_one`. -/
def notifyOneStep (inside owing : Bool) :
    NotifyOnePc → Choice → Option (Shared Tid × Call × Signal Tid Addr)
  | .fetchAdd, .go => quiet shared.notify (.notifyOne .wakeOne inside owing)
  | .wakeOne, .go => some (shared, .between inside owing, .wakeOne .counter)
  | _, _ => none

/-- What a thread between two calls can do. -/
def betweenStep (inside owing : Bool) : Choice → Option (Shared Tid × Call × Signal Tid Addr)
  | .consume => if inside || owing then none else quiet shared (.lock true)
  | .lock => if inside || owing then none else quiet shared (.lock false)
  | .write value =>
    if inside then
      quiet { shared with predicate := value } (.between true (owing || value))
    else none
  | .unlock => if inside then quiet { shared with holder := none } (.between false owing) else none
  | .notifyAll => quiet shared (.notifyAll .fetchAdd inside owing)
  | .notifyOne => quiet shared (.notifyOne .fetchAdd inside owing)
  | _ => none

/-- One step of a thread. -/
def step (call : Call) (choice : Choice) : Option (Shared Tid × Call × Signal Tid Addr) :=
  match call with
  | .between inside owing => betweenStep shared inside owing choice
  | .lock consumer =>
    if choice = .go ∧ shared.holder.isNone then
      quiet { shared with holder := some self } (if consumer then .check else .between true false)
    else none
  | .check =>
    if choice = .go then
      quiet shared (if shared.predicate then .between true false else .wait .load)
    else none
  | .wait pc => waitStep shared pc choice
  | .notifyAll pc inside owing => notifyAllStep shared inside owing pc choice
  | .notifyOne pc inside owing => notifyOneStep shared inside owing pc choice

end Steps

/-- The word on which a thread is asleep. -/
def asleepOn : Call → Option Addr
  | .wait .asleep => some .counter
  | _ => none

/-- A thread whose `wait` has been woken. -/
def wake : Call → Call
  | .wait .asleep => .wait .fetchSub
  | call => call

/-- The threads of a condition variable. -/
def machine (Tid : Type) : Machine Tid (Shared Tid) Call Choice Addr where
  step := step
  asleepOn := asleepOn
  wake := wake
  unpark := id

/-- `CondVar::new`, with a free mutex. -/
def new (Tid : Type) (predicate : Bool) : Pool Tid (Shared Tid) Call where
  shared :=
    { counter := 0, waiting := 0, holder := none, predicate := predicate, notifications := 0 }
  threads := fun _ ↦ .between false false

/-- Any number of threads using one condition variable. -/
def system (Tid : Type) [DecidableEq Tid] [Fintype Tid] (predicate : Bool) :
    System (Pool Tid (Shared Tid) Call) (Label Tid Choice) :=
  (machine Tid).system (new Tid predicate)

end SyncPrimitives.CondVar
