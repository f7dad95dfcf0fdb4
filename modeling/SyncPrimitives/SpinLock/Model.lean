import SyncPrimitives.MutexV1.Model

/-!
# The spin lock of `spinlock.rs`

The word `locking_thread` holds the id of the owner, or zero. A position is the next access to the
word; what a thread computes between two accesses belongs to the access before. `Thread.guards`
counts the guards a thread owns, from the compare-and-exchange that acquires; a guard that is being
dropped has moved into the position of its drop.
-/

set_option autoImplicit false
set_option relaxedAutoImplicit false

namespace SyncPrimitives.SpinLock

open Concurrency
open MutexV1 (ThreadIds)

/-- The field of `SpinLock` other than `data`. -/
structure Shared where
  lockingThread : ℕ
  deriving DecidableEq

/-- Positions inside `lock`. -/
inductive LockPc
  | loadOwner
  | load
  | compareExchangeWeak
  deriving DecidableEq

/-- What a thread is doing; the drop of a `SpinGuard` has one access. -/
inductive Call
  | idle
  | lock (pc : LockPc)
  | drop
  deriving DecidableEq

/-- How `lock` ends: with a guard, or with the panic of a re-entrance. -/
inductive Result
  | locked
  | panicked
  deriving DecidableEq

/-- The local state of a thread. -/
structure Thread where
  call : Call
  guards : ℕ
  result : Option Result

/-- What resolves a step: the next call of an idle thread, or how the current access ends;
`spurious` is a spurious failure of `compare_exchange_weak`. -/
inductive Choice
  | lock
  | drop
  | go
  | spurious
  deriving DecidableEq

/-- Nobody sleeps on a spin lock. -/
inductive Addr
  deriving DecidableEq

/-- The thread at another position. -/
def Thread.goto (th : Thread) (call : Call) : Thread := { th with call := call }

section Steps

variable (currentThread : ℕ) (shared : Shared) (th : Thread)

/-- `SpinLock::lock`. -/
def lockStep : LockPc → Choice → Option (Shared × Thread)
  | .loadOwner, .go =>
    if shared.lockingThread = currentThread then
      some (shared, { th with call := .idle, result := some .panicked })
    else some (shared, th.goto (.lock .load))
  | .load, .go =>
    if shared.lockingThread = 0 then some (shared, th.goto (.lock .compareExchangeWeak))
    else some (shared, th)
  | .compareExchangeWeak, .go =>
    if shared.lockingThread = 0 then
      some ({ lockingThread := currentThread },
        { call := .idle, guards := th.guards + 1, result := some .locked })
    else some (shared, th.goto (.lock .load))
  | .compareExchangeWeak, .spurious => some (shared, th.goto (.lock .load))
  | _, _ => none

/-- `Drop for SpinGuard`. -/
def dropStep : Choice → Option (Shared × Thread)
  | .go => some ({ lockingThread := 0 }, th.goto .idle)
  | _ => none

/-- What an idle thread can start. A drop moves the guard out of the thread. -/
def idleStep : Choice → Option (Shared × Thread)
  | .lock => some (shared, th.goto (.lock .loadOwner))
  | .drop =>
    if 0 < th.guards then
      some (shared, { th with call := .drop, guards := th.guards - 1 })
    else none
  | _ => none

/-- One step of a thread. -/
def step (choice : Choice) : Option (Shared × Thread) :=
  match th.call with
  | .idle => idleStep shared th choice
  | .lock pc => lockStep currentThread shared th pc choice
  | .drop => dropStep th choice

end Steps

/-- The threads of a spin lock. -/
def machine {Tid : Type} (ids : ThreadIds Tid) : Machine Tid Shared Thread Choice Addr where
  step := fun t shared th choice ↦
    (step (ids.get t) shared th choice).map fun (after, moved) ↦ (after, moved, .silent)
  asleepOn := fun _ ↦ none
  wake := id
  unpark := id

/-- `SpinLock::new`, before any call. -/
def new (Tid : Type) : Pool Tid Shared Thread where
  shared := { lockingThread := 0 }
  threads := fun _ ↦ { call := .idle, guards := 0, result := none }

end SyncPrimitives.SpinLock
