import SyncPrimitives.Concurrency.ThreadPool
import SyncPrimitives.Concurrency.Words

/-!
# The ring buffer of `utils/ring_buffer.rs`

`push` claims a position by a compare-and-exchange on `head` and writes its slot afterwards; `pop`
reads the slot at `tail` and releases it by a compare-and-exchange on `tail`. A position is the next
access to shared memory: a load, a compare-and-exchange, a slot write or a slot read. Arithmetic on
indices is that of a release build, modulo `2 ^ 64`. Any number of threads may call any of the four
methods.

`push` and `try_push` differ in what follows a failed compare-and-exchange, and so do `pop` and
`try_pop`, which also compute the slot of a position differently. Each pair is one step function
with these differences as parameters.

The last three fields of `Shared` are history: the position and the value of every successful claim,
the numbers of the claims whose push has returned `Ok`, and the position and the value of every
successful pop. A thread that has claimed carries the number of its claim. No step depends on the
history.
-/

set_option autoImplicit false
set_option relaxedAutoImplicit false

namespace SyncPrimitives.RingBuffer

open Concurrency Function

/-- `MaybeUninit`; `none` is uninitialised memory. -/
abbrev MaybeUninit (α : Type) := Option α

/-- The fields of `RingBuffer` other than the padding, and the history. -/
structure Shared (α : Type) where
  buffer : ℕ → MaybeUninit α
  head : ℕ
  tail : ℕ
  claimed : List (ℕ × α)
  pushed : List ℕ
  popped : List (ℕ × MaybeUninit α)

/-- `RingBuffer::new`, past its assertion that `N` is even. -/
def Shared.new (α : Type) : Shared α where
  buffer := fun _ ↦ none
  head := 0
  tail := 0
  claimed := []
  pushed := []
  popped := []

/-- How an access ends: `spurious` is a spurious failure of `compare_exchange_weak`. -/
inductive Access
  | go
  | spurious
  deriving DecidableEq

/-- A call goes on at a position, or it returns. -/
inductive Progress (Pc Ret : Type)
  | running (pc : Pc)
  | returned (ret : Ret)

/-- Positions inside `push` and `try_push`. -/
inductive PushPc (α : Type)
  | loadTail (value : α)
  | loadHead (value : α) (currentTail : ℕ)
  | compareExchange (value : α) (currentHead : ℕ)
  | write (value : α) (currentHead : ℕ) (claim : ℕ)
  deriving DecidableEq

/-- Positions inside `pop` and `try_pop`. -/
inductive PopPc (α : Type)
  | loadTail
  | loadHead (currentTail : ℕ)
  | read (currentTail : ℕ)
  | compareExchange (currentTail : ℕ) (value : MaybeUninit α)
  deriving DecidableEq

section Steps

variable {α : Type} (N : ℕ) (shared : Shared α)

/-- The common body of `push` and `try_push`; `retry` tells whether a failed compare-and-exchange
starts over or returns the value. -/
def pushWith (retry : Bool) :
    PushPc α → Access → Option (Shared α × Progress (PushPc α) (Except α Unit))
  | .loadTail value, .go => some (shared, .running (.loadHead value shared.tail))
  | .loadHead value currentTail, .go =>
    if N ≤ subUsize shared.head currentTail then some (shared, .returned (.error value))
    else some (shared, .running (.compareExchange value shared.head))
  | .compareExchange value currentHead, .go =>
    if shared.head = currentHead then
      some ({ shared with
          head := addUsize currentHead 1
          claimed := shared.claimed ++ [(currentHead, value)] },
        .running (.write value currentHead shared.claimed.length))
    else some (shared, failed value)
  | .compareExchange value _, .spurious => some (shared, failed value)
  | .write value currentHead claim, .go =>
    some ({ shared with
        buffer := update shared.buffer (currentHead % N) (some value)
        pushed := shared.pushed ++ [claim] },
      .returned (.ok ()))
  | _, .spurious => none
where
  failed (value : α) : Progress (PushPc α) (Except α Unit) :=
    if retry then .running (.loadTail value) else .returned (.error value)

/-- `RingBuffer::push`. -/
def pushStep : PushPc α → Access → Option (Shared α × Progress (PushPc α) (Except α Unit)) :=
  pushWith N shared true

/-- `RingBuffer::try_push`. -/
def tryPushStep : PushPc α → Access → Option (Shared α × Progress (PushPc α) (Except α Unit)) :=
  pushWith N shared false

/-- The common body of `pop` and `try_pop`; `slot` is the slot of a position, and `retry` tells
whether a failed compare-and-exchange goes on with the value it has found or returns `None`. -/
def popWith (slot : ℕ → ℕ) (retry : Bool) :
    PopPc α → Access → Option (Shared α × Progress (PopPc α) (Option (MaybeUninit α)))
  | .loadTail, .go => some (shared, .running (.loadHead shared.tail))
  | .loadHead currentTail, .go =>
    if shared.head = currentTail then some (shared, .returned none)
    else some (shared, .running (.read currentTail))
  | .read currentTail, .go =>
    some (shared, .running (.compareExchange currentTail (shared.buffer (slot currentTail))))
  | .compareExchange currentTail value, .go =>
    if shared.tail = currentTail then
      some ({ shared with
          tail := addUsize currentTail 1
          popped := shared.popped ++ [(currentTail, value)] },
        .returned (some value))
    else some (shared, failed)
  | .compareExchange _ _, .spurious => some (shared, failed)
  | _, .spurious => none
where
  failed : Progress (PopPc α) (Option (MaybeUninit α)) :=
    if retry then .running (.loadHead shared.tail) else .returned none

/-- `RingBuffer::pop`. -/
def popStep : PopPc α → Access → Option (Shared α × Progress (PopPc α) (Option (MaybeUninit α))) :=
  popWith shared (fun currentTail ↦ currentTail &&& (N - 1)) true

/-- `RingBuffer::try_pop`. -/
def tryPopStep :
    PopPc α → Access → Option (Shared α × Progress (PopPc α) (Option (MaybeUninit α))) :=
  popWith shared (fun currentTail ↦ currentTail % N) false

end Steps

/-- The calls on a ring buffer. -/
inductive Method (α : Type)
  | push (value : α)
  | tryPush (value : α)
  | pop
  | tryPop
  deriving DecidableEq

/-- What a thread is doing. -/
inductive Call (α : Type)
  | idle
  | push (pc : PushPc α)
  | tryPush (pc : PushPc α)
  | pop (pc : PopPc α)
  | tryPop (pc : PopPc α)
  deriving DecidableEq

/-- The start of a call. -/
def Method.start {α : Type} : Method α → Call α
  | .push value => .push (.loadTail value)
  | .tryPush value => .tryPush (.loadTail value)
  | .pop => .pop .loadTail
  | .tryPop => .tryPop .loadTail

/-- What resolves a step: the next call of an idle thread, or how the current access ends. -/
inductive Choice (α : Type)
  | call (method : Method α)
  | access (access : Access)
  deriving DecidableEq

/-- The position after an access, `idle` when the call has returned. -/
def Progress.call {α Pc Ret : Type} (position : Pc → Call α) : Progress Pc Ret → Call α
  | .running pc => position pc
  | .returned _ => .idle

/-- Nobody sleeps in a ring buffer. -/
inductive Addr
  deriving DecidableEq

/-- One step of a thread. -/
def step {α : Type} (N : ℕ) (shared : Shared α) : Call α → Choice α → Option (Shared α × Call α)
  | .idle, .call method => some (shared, method.start)
  | .push pc, .access a =>
    (pushStep N shared pc a).map fun (after, progress) ↦ (after, progress.call .push)
  | .tryPush pc, .access a =>
    (tryPushStep N shared pc a).map fun (after, progress) ↦ (after, progress.call .tryPush)
  | .pop pc, .access a =>
    (popStep N shared pc a).map fun (after, progress) ↦ (after, progress.call .pop)
  | .tryPop pc, .access a =>
    (tryPopStep N shared pc a).map fun (after, progress) ↦ (after, progress.call .tryPop)
  | _, _ => none

/-- The threads that use a ring buffer. -/
def machine (N : ℕ) (Tid α : Type) : Machine Tid (Shared α) (Call α) (Choice α) Addr where
  step := fun _ shared call choice ↦
    (step N shared call choice).map fun (after, moved) ↦ (after, moved, .silent)
  asleepOn := fun _ ↦ none
  wake := id
  unpark := id

/-- A new ring buffer, before any call. -/
def new (Tid α : Type) : Pool Tid (Shared α) (Call α) where
  shared := Shared.new α
  threads := fun _ ↦ .idle

/-- Any number of threads using one ring buffer with `N` slots. -/
def system (N : ℕ) (Tid α : Type) [DecidableEq Tid] [Fintype Tid] :
    System (Pool Tid (Shared α) (Call α)) (Label Tid (Choice α)) :=
  (machine N Tid α).system (new Tid α)

end SyncPrimitives.RingBuffer
