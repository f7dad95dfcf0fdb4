import Mathlib.Data.Nat.Notation

/-!
# What both mutexes share

The errors of `utils/mutex_common.rs`, and the calls a thread can make on a mutex. A guard carries
no data besides the reference to its mutex, so `Ok(guard)` is `.ok ()` and the guard inside
`Err(Poisoned)` is not written down; the model of each mutex counts the guards a thread owns.
-/

set_option autoImplicit false
set_option relaxedAutoImplicit false

namespace SyncPrimitives.MutexCommon

/-- `LockError`. -/
inductive LockError
  | wouldBlock
  | poisoned
  deriving DecidableEq

/-- `LockResult`. -/
abbrev LockResult := Except LockError Unit

/-- The two methods that acquire a guard. -/
inductive Method
  | lock
  | tryLock
  deriving DecidableEq

/-- What resolves a step: the next call of an idle thread, or how the current access ends. `go` is
the regular outcome; `spurious` is a spurious failure of `compare_exchange_weak` or a spurious
return of a blocking call. -/
inductive Choice
  | call (method : Method)
  | drop (panicking : Bool)
  | clearPoison
  | go
  | spurious
  deriving DecidableEq

/-- What a call returns once it has acquired. -/
def lockResult (poisoned : Bool) : LockResult := if poisoned then .error .poisoned else .ok ()

theorem poisoned_of_ok {poisoned : Bool} (h : lockResult poisoned = .ok ()) :
    poisoned = false := by
  cases poisoned
  · rfl
  · cases h

end SyncPrimitives.MutexCommon
