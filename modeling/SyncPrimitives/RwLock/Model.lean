import SyncPrimitives.Concurrency.ThreadPool
import SyncPrimitives.Concurrency.Words

/-!
# The read-write lock of `rwlock.rs`

One `RwLock`, used by any number of threads. A thread is inside at most one call at a time, and the
position inside a call is the next access to shared memory: local computation up to that access
belongs to the step before it. The proof fields of the positions record the branch conditions under
which the source reaches them, so a position whose cached `state` contradicts its branch cannot be
built.

`Thread.readGuards` and `Thread.writeGuards` are the guards a thread owns. A guard is owned from the
compare-and-exchange that acquires it, also when it travels inside `Err(Poisoned)`; a guard that is
being dropped has moved into the position of its drop, and `Thread.reads` and `Thread.writes` count
it up to the `fetch_sub` or the `store(0)`. The set `ACQUIRED_BY_THREAD` is reduced to the
membership of this lock's `rwlock_id`. The position `acquired` covers `set_acquired`, the read of
`poisoned` and the return, none of which touches an atomic.

The choice `go` executes the next access; `spurious` is a spurious failure of
`compare_exchange_weak` or a spurious return of `wait`.
-/

set_option autoImplicit false
set_option relaxedAutoImplicit false

namespace SyncPrimitives.RwLock

open Concurrency

/-- The atomic words on which threads sleep. -/
inductive Addr
  | state
  | writersNumber
  deriving DecidableEq

/-- The fields of `RwLock` other than `data` and `rwlock_id`. -/
structure Shared where
  writersNumber : ℕ
  waitingWriters : ℕ
  state : ℕ
  poisoned : Bool
  deriving DecidableEq

/-- The two kinds of guard. -/
inductive Guard
  | read
  | write
  deriving DecidableEq

/-- `RwLockError`; `Poisoned` carries the guard. -/
inductive RwLockError
  | wouldBlock
  | tooManyReaders
  | poisoned (guard : Guard)
  deriving DecidableEq

/-- `LockResult`. -/
abbrev LockResult := Except RwLockError Guard

/-- Positions inside `read`. -/
inductive ReadPc
  | acquiredCheck
  | load
  | wait (state : ℕ) (odd : state % 2 = 1)
  | asleep
  | reload
  | compareExchange (state : ℕ) (even : state % 2 = 0)
  | waitMax
  | asleepMax
  deriving DecidableEq

/-- Positions inside `write`; `newGuard` and `dropGuard` are the two ends of a
`WaitingWriterGuard`. -/
inductive WritePc
  | acquiredCheck
  | load
  | acquire (state : ℕ) (free : state ≤ 1)
  | setWaiting (state : ℕ) (shared : state % 2 = 0 ∧ 1 < state)
  | newGuard (state : ℕ)
  | loadNumber (state : ℕ)
  | wait (state wc : ℕ)
  | asleep (state : ℕ)
  | dropGuard (state : ℕ)
  deriving DecidableEq

/-- Positions inside `try_read`. -/
inductive TryReadPc
  | acquiredCheck
  | load
  | compareExchange (state : ℕ) (even : state % 2 = 0)
  deriving DecidableEq

/-- Positions inside `try_write`. -/
inductive TryWritePc
  | acquiredCheck
  | load
  | compareExchange (state : ℕ) (free : state ≤ 1)
  deriving DecidableEq

/-- Positions inside the drop of a `RwLockReadGuard`. -/
inductive DropReadPc
  | removeAcquired
  | fetchSub
  | wakeOne
  deriving DecidableEq

/-- Positions inside the drop of a `RwLockWriteGuard`. -/
inductive DropWritePc
  | removeAcquired
  | fetchAdd
  | store
  | loadWaiting
  | wakeOne
  | wakeAll
  deriving DecidableEq

/-- What a thread is doing. -/
inductive Call
  | idle
  | read (pc : ReadPc)
  | write (pc : WritePc)
  | tryRead (pc : TryReadPc)
  | tryWrite (pc : TryWritePc)
  | acquired (guard : Guard)
  | dropRead (pc : DropReadPc)
  | dropWrite (pc : DropWritePc)
  deriving DecidableEq

/-- The local state of a thread: its position, whether `rwlock_id` is in its `ACQUIRED_BY_THREAD`,
the guards it owns, and what its last finished call returned. -/
structure Thread where
  call : Call
  acquired : Bool
  readGuards : ℕ
  writeGuards : ℕ
  result : Option LockResult

/-- The four methods that acquire a guard. -/
inductive Method
  | read
  | write
  | tryRead
  | tryWrite
  deriving DecidableEq

/-- What resolves a step: the next call of an idle thread, or how the current access ends. -/
inductive Choice
  | call (method : Method)
  | drop (guard : Guard) (panicking : Bool)
  | clearPoison
  | go
  | spurious
  deriving DecidableEq

namespace Thread

/-- The thread at another position. -/
def goto (th : Thread) (call : Call) : Thread := { th with call := call }

/-- The thread after a call has returned. -/
def ret (th : Thread) (result : LockResult) : Thread :=
  { th with call := .idle, result := some result }

/-- The thread after a successful acquiring compare-and-exchange. -/
def acquire (th : Thread) : Guard → Thread
  | .read => { th with call := .acquired .read, readGuards := th.readGuards + 1 }
  | .write => { th with call := .acquired .write, writeGuards := th.writeGuards + 1 }

end Thread

/-- The part of `RwLock` a step leaves, with no wake-up. -/
def quiet {Tid : Type} (shared : Shared) (th : Thread) :
    Option (Shared × Thread × Signal Tid Addr) :=
  some (shared, th, .silent)

/-- `acquired_check` at the start of a call. -/
def acquiredCheck (th : Thread) (next : Call) : Thread :=
  if th.acquired then th.ret (.error .wouldBlock) else th.goto next

/-- `set_acquired`, `is_poisoned` and the return of a call that has acquired. -/
def finish (shared : Shared) (th : Thread) (guard : Guard) : Thread :=
  { th.ret (if shared.poisoned then .error (.poisoned guard) else .ok guard) with acquired := true }

/-- The inner `while state & 1 == 1` of `read`, up to the next access. -/
def readWhile (th : Thread) (state : ℕ) : Thread :=
  if h : state % 2 = 0 then th.goto (.read (.compareExchange state h))
  else th.goto (.read (.wait state (Nat.mod_two_ne_zero.mp h)))

/-- The body of the outer loop of `read`, up to the next access. -/
def readLoop (th : Thread) (state : ℕ) : Thread :=
  if state = u32Max then th.goto (.read .waitMax)
  else if state = u32Max - 1 then th.ret (.error .tooManyReaders)
  else readWhile th state

/-- The body of the loop of `write`, up to the next access. -/
def writeLoop (th : Thread) (state : ℕ) : Thread :=
  if hfree : state ≤ 1 then th.goto (.write (.acquire state hfree))
  else if heven : state % 2 = 0 then
    th.goto (.write (.setWaiting state ⟨heven, not_le.mp hfree⟩))
  else th.goto (.write (.newGuard state))

section Steps

variable {Tid : Type} (shared : Shared) (th : Thread)

/-- `RwLock::read`. -/
def readStep : ReadPc → Choice → Option (Shared × Thread × Signal Tid Addr)
  | .acquiredCheck, .go => quiet shared (acquiredCheck th (.read .load))
  | .load, .go => quiet shared (readLoop th shared.state)
  | .wait state _, .go =>
    if shared.state = state then quiet shared (th.goto (.read .asleep))
    else quiet shared (th.goto (.read .reload))
  | .wait _ _, .spurious => quiet shared (th.goto (.read .reload))
  | .asleep, .spurious => quiet shared (th.goto (.read .reload))
  | .reload, .go => quiet shared (readWhile th shared.state)
  | .compareExchange state _, .go =>
    if shared.state = state then
      quiet { shared with state := addU32 state 2 } (th.acquire .read)
    else quiet shared (readLoop th shared.state)
  | .compareExchange _ _, .spurious => quiet shared (readLoop th shared.state)
  -- `wait(&self.state, u32::MAX)` is not followed by a new load: the loop goes on with `u32::MAX`
  | .waitMax, .go =>
    if shared.state = u32Max then quiet shared (th.goto (.read .asleepMax))
    else quiet shared (readLoop th u32Max)
  | .waitMax, .spurious => quiet shared (readLoop th u32Max)
  | .asleepMax, .spurious => quiet shared (readLoop th u32Max)
  | _, _ => none

/-- `RwLock::write`. -/
def writeStep : WritePc → Choice → Option (Shared × Thread × Signal Tid Addr)
  | .acquiredCheck, .go => quiet shared (acquiredCheck th (.write .load))
  | .load, .go => quiet shared (writeLoop th shared.state)
  | .acquire state _, .go =>
    if shared.state = state then quiet { shared with state := u32Max } (th.acquire .write)
    else quiet shared (writeLoop th shared.state)
  | .setWaiting state _, .go =>
    if shared.state = state then
      quiet { shared with state := addU32 state 1 } (th.goto (.write (.newGuard state)))
    else quiet shared (writeLoop th shared.state)
  | .newGuard state, .go =>
    quiet { shared with waitingWriters := addU32 shared.waitingWriters 1 }
      (th.goto (.write (.loadNumber state)))
  | .loadNumber state, .go => quiet shared (th.goto (.write (.wait state shared.writersNumber)))
  | .wait state wc, .go =>
    if shared.writersNumber = wc then quiet shared (th.goto (.write (.asleep state)))
    else quiet shared (th.goto (.write (.dropGuard state)))
  | .wait state _, .spurious => quiet shared (th.goto (.write (.dropGuard state)))
  | .asleep state, .spurious => quiet shared (th.goto (.write (.dropGuard state)))
  -- the loop goes on with the cached `state`, which is not loaded again
  | .dropGuard state, .go =>
    quiet { shared with waitingWriters := subU32 shared.waitingWriters 1 } (writeLoop th state)
  | _, _ => none

/-- `RwLock::try_write`. -/
def tryWriteStep : TryWritePc → Choice → Option (Shared × Thread × Signal Tid Addr)
  | .acquiredCheck, .go => quiet shared (acquiredCheck th (.tryWrite .load))
  | .load, .go =>
    if h : shared.state ≤ 1 then
      quiet shared (th.goto (.tryWrite (.compareExchange shared.state h)))
    else quiet shared (th.ret (.error .wouldBlock))
  | .compareExchange state _, .go =>
    if shared.state = state then quiet { shared with state := u32Max } (th.acquire .write)
    else quiet shared (th.ret (.error .wouldBlock))
  | _, _ => none

/-- `RwLock::try_read`. -/
def tryReadStep : TryReadPc → Choice → Option (Shared × Thread × Signal Tid Addr)
  | .acquiredCheck, .go => quiet shared (acquiredCheck th (.tryRead .load))
  | .load, .go =>
    if shared.state = u32Max - 1 then quiet shared (th.ret (.error .tooManyReaders))
    else if h : shared.state % 2 = 0 then
      quiet shared (th.goto (.tryRead (.compareExchange shared.state h)))
    else quiet shared (th.ret (.error .wouldBlock))
  | .compareExchange state _, .go =>
    if shared.state = state then
      quiet { shared with state := addU32 state 2 } (th.acquire .read)
    else quiet shared (th.ret (.error .wouldBlock))
  | _, _ => none

/-- `Drop for RwLockReadGuard`. -/
def dropReadStep : DropReadPc → Choice → Option (Shared × Thread × Signal Tid Addr)
  | .removeAcquired, .go => quiet shared { th with call := .dropRead .fetchSub, acquired := false }
  | .fetchSub, .go =>
    quiet { shared with state := subU32 shared.state 2 }
      (if shared.state = 3 then th.goto (.dropRead .wakeOne) else th.goto .idle)
  | .wakeOne, .go => some (shared, th.goto .idle, .wakeOne .writersNumber)
  | _, _ => none

/-- `Drop for RwLockWriteGuard`. -/
def dropWriteStep : DropWritePc → Choice → Option (Shared × Thread × Signal Tid Addr)
  | .removeAcquired, .go => quiet shared { th with call := .dropWrite .fetchAdd, acquired := false }
  | .fetchAdd, .go =>
    quiet { shared with writersNumber := addU32 shared.writersNumber 1 }
      (th.goto (.dropWrite .store))
  | .store, .go => quiet { shared with state := 0 } (th.goto (.dropWrite .loadWaiting))
  | .loadWaiting, .go =>
    quiet shared
      (if shared.waitingWriters ≠ 0 then th.goto (.dropWrite .wakeOne)
        else th.goto (.dropWrite .wakeAll))
  | .wakeOne, .go => some (shared, th.goto .idle, .wakeOne .writersNumber)
  | .wakeAll, .go => some (shared, th.goto .idle, .wakeAll .state)
  | _, _ => none

/-- What an idle thread can start. A drop moves the guard out of the thread; `poisoned` is set at
the start of the drop of a write guard in a panicking thread. -/
def idleStep : Choice → Option (Shared × Thread × Signal Tid Addr)
  | .call .read => quiet shared (th.goto (.read .acquiredCheck))
  | .call .write => quiet shared (th.goto (.write .acquiredCheck))
  | .call .tryRead => quiet shared (th.goto (.tryRead .acquiredCheck))
  | .call .tryWrite => quiet shared (th.goto (.tryWrite .acquiredCheck))
  | .drop .read _ =>
    if 0 < th.readGuards then
      quiet shared
        { th with call := .dropRead .removeAcquired, readGuards := th.readGuards - 1 }
    else none
  | .drop .write panicking =>
    if 0 < th.writeGuards then
      quiet { shared with poisoned := shared.poisoned || panicking }
        { th with call := .dropWrite .removeAcquired, writeGuards := th.writeGuards - 1 }
    else none
  | .clearPoison => quiet { shared with poisoned := false } th
  | _ => none

/-- One step of a thread. -/
def step (choice : Choice) : Option (Shared × Thread × Signal Tid Addr) :=
  match th.call with
  | .idle => idleStep shared th choice
  | .read pc => readStep shared th pc choice
  | .write pc => writeStep shared th pc choice
  | .tryRead pc => tryReadStep shared th pc choice
  | .tryWrite pc => tryWriteStep shared th pc choice
  | .acquired guard => if choice = .go then quiet shared (finish shared th guard) else none
  | .dropRead pc => dropReadStep shared th pc choice
  | .dropWrite pc => dropWriteStep shared th pc choice

end Steps

/-- The word on which a thread is asleep. -/
def asleepOn (th : Thread) : Option Addr :=
  match th.call with
  | .read .asleep => some .state
  | .read .asleepMax => some .state
  | .write (.asleep _) => some .writersNumber
  | _ => none

/-- A thread whose `wait` has been woken. -/
def wake (th : Thread) : Thread :=
  match th.call with
  | .read .asleep => th.goto (.read .reload)
  | .read .asleepMax => readLoop th u32Max
  | .write (.asleep state) => th.goto (.write (.dropGuard state))
  | _ => th

/-- The threads of a lock. -/
def machine (Tid : Type) : Machine Tid Shared Thread Choice Addr where
  step := fun _ shared th choice ↦ step shared th choice
  asleepOn := asleepOn
  wake := wake
  unpark := id

/-- `RwLock::new`, before any call. -/
def new (Tid : Type) : Pool Tid Shared Thread where
  shared := { writersNumber := 0, waitingWriters := 0, state := 0, poisoned := false }
  threads := fun _ ↦
    { call := .idle, acquired := false, readGuards := 0, writeGuards := 0, result := none }

/-- Any number of threads using one lock. -/
def system (Tid : Type) [DecidableEq Tid] [Fintype Tid] :
    System (Pool Tid Shared Thread) (Label Tid Choice) :=
  (machine Tid).system (new Tid)

end SyncPrimitives.RwLock
