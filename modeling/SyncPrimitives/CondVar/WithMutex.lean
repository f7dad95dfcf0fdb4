import SyncPrimitives.CondVar.Notification
import SyncPrimitives.MutexV1.Model

/-!
# The condition variable over the queueing mutex

`condvar.rs` uses the guards of `mutex_v1.rs`: `wait` drops one and comes back through
`mutex.lock().unwrap()`. Here both run together, step by step. The threads follow the protocol of
the model of the condition variable alone (consumers, writers of the predicate, notifications), and
every lock and unlock is a call of the mutex, whose steps are the ones of its own model. A thread
may also panic between two calls: a guard it owns is then dropped in the panicking thread, which
poisons the mutex, and an `unwrap` of the error of `lock` panics in turn.
-/

set_option autoImplicit false
set_option relaxedAutoImplicit false

namespace SyncPrimitives.CondVar.WithMutex

open Concurrency
open MutexV1 (ThreadIds)

/-- The fields of `CondVar`, the mutex with the predicate behind it, and the number of notifications
so far. -/
structure Shared (Tid : Type) where
  counter : ℕ
  waiting : ℕ
  mutex : MutexV1.Shared Tid
  predicate : Bool
  notifications : ℕ
  deriving DecidableEq

/-- What a thread is doing: between two calls, inside `lock` and about to unwrap its result, at the
head of the consumer's loop, dropping a guard, inside a call of the condition variable, or dropping
the guards of a panic. -/
inductive Position
  | between (owing : Bool)
  | locking (consumer : Bool)
  | check
  | unlocking (owing : Bool)
  | wait (pc : WaitPc)
  | notifyAll (pc : NotifyAllPc) (owing : Bool)
  | notifyOne (pc : NotifyOnePc) (owing : Bool)
  | unwinding
  | panicked
  deriving DecidableEq

/-- The local state of a thread: its position, and what the mutex knows of it. -/
structure Thread (Tid : Type) where
  position : Position
  mutex : MutexV1.Thread Tid

/-- The thread is inside a call of the mutex. -/
def Thread.calling {Tid : Type} (th : Thread Tid) : Bool :=
  match th.mutex.call with
  | .idle => false
  | _ => true

/-- What resolves a step: what a thread between two calls does next, or how the current access
ends. -/
inductive Choice
  | consume
  | lock
  | write (value : Bool)
  | unlock
  | notifyAll
  | notifyOne
  | panic
  | go
  | spurious
  deriving DecidableEq

/-- The choice of a step inside a call of the mutex. -/
def Choice.inner : Choice → Option MutexCommon.Choice
  | .go => some .go
  | .spurious => some .spurious
  | _ => none

/-- The mutex has no word on which threads sleep. -/
def outer : MutexV1.Addr → Addr := fun addr ↦ by cases addr

section Steps

variable {Tid : Type} (ids : ThreadIds Tid) (self : Tid) (shared : Shared Tid) (th : Thread Tid)

/-- A step outside the mutex that wakes nobody. -/
def quiet (shared : Shared Tid) (position : Position) :
    Option (Shared Tid × Thread Tid × Signal Tid Addr) :=
  some (shared, { th with position := position }, .silent)

/-- A step of the mutex, after which the thread is at a position that depends on the mutex. -/
def mutexStep (choice : MutexCommon.Choice) (next : MutexV1.Thread Tid → Position) :
    Option (Shared Tid × Thread Tid × Signal Tid Addr) :=
  (MutexV1.step self (ids.get self) shared.mutex th.mutex choice).map fun (mutex, moved, signal) ↦
    ({ shared with mutex := mutex }, { position := next moved, mutex := moved }, signal.map outer)

/-- The increment of `counter`. -/
def Shared.notify (shared : Shared Tid) : Shared Tid :=
  { shared with counter := addU32 shared.counter 1, notifications := shared.notifications + 1 }

/-- `lock().unwrap()`: the guard in a `Poisoned` error is dropped by the panic. -/
def afterLock (consumer : Bool) (moved : MutexV1.Thread Tid) : Position :=
  match moved.call, moved.result with
  | .idle, some (.ok ()) => if consumer then .check else .between false
  | .idle, _ => .unwinding
  | _, _ => .locking consumer

/-- The position after a step of a drop: `next` once it is done. -/
def afterDrop (dropping next : Position) (moved : MutexV1.Thread Tid) : Position :=
  match moved.call with
  | .idle => next
  | _ => dropping

/-- `CondVar::wait`, up to the `lock` at its end. -/
def waitStep : WaitPc → Choice → Option (Shared Tid × Thread Tid × Signal Tid Addr)
  | .load, .go => quiet th shared (.wait (.fetchAdd shared.counter shared.notifications))
  | .fetchAdd state loadedAt, .go =>
    quiet th { shared with waiting := addU32 shared.waiting 1 } (.wait (.unlock state loadedAt))
  | .unlock state loadedAt, choice =>
    if th.calling then
      choice.inner.bind fun inner ↦ mutexStep ids self shared th inner
        (afterDrop (.wait (.unlock state loadedAt)) (.wait (.wait state loadedAt)))
    else if choice = .go then
      mutexStep ids self shared th (.drop false) fun _ ↦ .wait (.unlock state loadedAt)
    else none
  | .wait state _, .go =>
    if shared.counter = state then quiet th shared (.wait .asleep)
    else quiet th shared (.wait .fetchSub)
  | .wait _ _, .spurious => quiet th shared (.wait .fetchSub)
  | .asleep, .spurious => quiet th shared (.wait .fetchSub)
  | .fetchSub, .go =>
    mutexStep ids self { shared with waiting := subU32 shared.waiting 1 } th (.call .lock)
      fun _ ↦ .locking true
  | _, _ => none

/-- `CondVar::notify_all`. -/
def notifyAllStep (owing : Bool) :
    NotifyAllPc → Choice → Option (Shared Tid × Thread Tid × Signal Tid Addr)
  | .fetchAdd, .go => quiet th shared.notify (.notifyAll .load owing)
  | .load, .go =>
    if shared.waiting ≠ 0 then quiet th shared (.notifyAll .wakeAll owing)
    else quiet th shared (.between false)
  | .wakeAll, .go => some (shared, { th with position := .between false }, .wakeAll .counter)
  | _, _ => none

/-- `CondVar::notify_one`. -/
def notifyOneStep (owing : Bool) :
    NotifyOnePc → Choice → Option (Shared Tid × Thread Tid × Signal Tid Addr)
  | .fetchAdd, .go => quiet th shared.notify (.notifyOne .wakeOne owing)
  | .wakeOne, .go => some (shared, { th with position := .between owing }, .wakeOne .counter)
  | _, _ => none

/-- What a thread between two calls can do. -/
def betweenStep (owing : Bool) : Choice → Option (Shared Tid × Thread Tid × Signal Tid Addr)
  | .consume =>
    if 0 < th.mutex.guards ∨ owing then none
    else mutexStep ids self shared th (.call .lock) fun _ ↦ .locking true
  | .lock =>
    if 0 < th.mutex.guards ∨ owing then none
    else mutexStep ids self shared th (.call .lock) fun _ ↦ .locking false
  | .write value =>
    if 0 < th.mutex.guards then
      quiet th { shared with predicate := value } (.between (owing || value))
    else none
  | .unlock => mutexStep ids self shared th (.drop false) fun _ ↦ .unlocking owing
  | .notifyAll => quiet th shared (.notifyAll .fetchAdd owing)
  | .notifyOne => quiet th shared (.notifyOne .fetchAdd owing)
  | .panic => quiet th shared .unwinding
  | _ => none

/-- A panicking thread drops its guards and ends. -/
def unwindStep (choice : Choice) : Option (Shared Tid × Thread Tid × Signal Tid Addr) :=
  if th.calling then
    choice.inner.bind fun inner ↦ mutexStep ids self shared th inner fun _ ↦ .unwinding
  else if choice = .go then
    if 0 < th.mutex.guards then mutexStep ids self shared th (.drop true) fun _ ↦ .unwinding
    else quiet th shared .panicked
  else none

/-- One step of a thread. -/
def step (choice : Choice) : Option (Shared Tid × Thread Tid × Signal Tid Addr) :=
  match th.position with
  | .between owing => betweenStep ids self shared th owing choice
  | .locking consumer =>
    choice.inner.bind fun inner ↦ mutexStep ids self shared th inner (afterLock consumer)
  | .check =>
    if choice = .go then
      quiet th shared (if shared.predicate then .between false else .wait .load)
    else none
  | .unlocking owing =>
    choice.inner.bind fun inner ↦
      mutexStep ids self shared th inner (afterDrop (.unlocking owing) (.between owing))
  | .wait pc => waitStep ids self shared th pc choice
  | .notifyAll pc owing => notifyAllStep shared th owing pc choice
  | .notifyOne pc owing => notifyOneStep shared th owing pc choice
  | .unwinding => unwindStep ids self shared th choice
  | .panicked => none

end Steps

section Pools

variable {Tid : Type}

/-- The word on which a thread is asleep. -/
def asleepOn (th : Thread Tid) : Option Addr :=
  match th.position with
  | .wait .asleep => some .counter
  | _ => none

/-- A thread whose `wait` has been woken. -/
def wake (th : Thread Tid) : Thread Tid :=
  match th.position with
  | .wait .asleep => { th with position := .wait .fetchSub }
  | _ => th

/-- The threads of a condition variable and its mutex. -/
def machine (ids : ThreadIds Tid) : Machine Tid (Shared Tid) (Thread Tid) Choice Addr where
  step := step ids
  asleepOn := asleepOn
  wake := wake
  unpark := fun th ↦ { th with mutex := MutexV1.unpark th.mutex }

/-- `CondVar::new` and `Mutex::new`, before any call. -/
def new (Tid : Type) (predicate : Bool) : Pool Tid (Shared Tid) (Thread Tid) where
  shared :=
    { counter := 0, waiting := 0, mutex := (MutexV1.new Tid).shared, predicate := predicate
      notifications := 0 }
  threads := fun t ↦ { position := .between false, mutex := (MutexV1.new Tid).threads t }

/-- Any number of threads using one condition variable and its mutex. -/
def system [DecidableEq Tid] [Fintype Tid] (ids : ThreadIds Tid) (predicate : Bool) :
    System (Pool Tid (Shared Tid) (Thread Tid)) (Label Tid Choice) :=
  (machine ids).system (new Tid predicate)

end Pools

end SyncPrimitives.CondVar.WithMutex
