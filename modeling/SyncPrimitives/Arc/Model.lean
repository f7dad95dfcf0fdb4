import SyncPrimitives.Concurrency.ThreadPool
import SyncPrimitives.Concurrency.Words

/-!
# The reference counts of `arc.rs`

One heap block made by `Arc::new`, with any number of `Arc` and `Weak` handles, used by any number
of threads. A position is the next access to the block, or `abort`; what a thread computes between
two accesses belongs to the access before. Arithmetic is that of a release build, modulo `2 ^ 64`.

Handles are interchangeable, so they are counted. `arcs` are the `Arc` handles that no drop and no
`into_inner` has taken; `arcBorrows` are the calls in progress that borrow one of them, and
`mutBorrows` those that borrow one exclusively, together with the borrows that `get_mut` has handed
out. A handle can be taken, or borrowed exclusively, only if no call borrows it. `weaks` and
`weakBorrows` are the same for `Weak` handles.

The abort of a clone ends the run. A failed assertion of `downgrade` or `upgrade` is a panic of its
thread: the borrow ends, and the thread is between two calls. The last three counters are history:
how often the payload has been destroyed or moved out, how often the block has been freed, and how
often it has been accessed after that. No step depends on them.
-/

set_option autoImplicit false
set_option relaxedAutoImplicit false

namespace SyncPrimitives.Arc

open Concurrency

/-- `ManuallyDrop`; `none` once the value has been destroyed or moved out. -/
abbrev ManuallyDrop (α : Type) := Option α

/-- `ArcInner`, the handles, and the history. -/
structure Shared (α : Type) where
  strongCount : ℕ
  refCount : ℕ
  data : ManuallyDrop α
  arcs : ℕ
  arcBorrows : ℕ
  mutBorrows : ℕ
  weaks : ℕ
  weakBorrows : ℕ
  ended : Bool
  removals : ℕ
  frees : ℕ
  strayAccesses : ℕ

/-- `MAX_REF_COUNT`. -/
def maxRefCount : ℕ := usizeMax / 2

/-- What the last finished call of a thread returned; `panicked` is the failed assertion of
`downgrade` or `upgrade`. -/
inductive Result (α : Type)
  | cloned
  | downgraded
  | panicked
  | upgraded (isSome : Bool)
  | gotMut (isSome : Bool)
  | intoInner (result : Option (ManuallyDrop α))
  | dereferenced (data : ManuallyDrop α)
  | dropped
  deriving DecidableEq

/-- Positions inside `Arc::clone`. -/
inductive ClonePc
  | fetchAdd
  | abort
  deriving DecidableEq

/-- Positions inside `Arc::downgrade`. -/
inductive DowngradePc
  | load
  | compareExchange (weakCount : ℕ)
  deriving DecidableEq

/-- Positions inside `Weak::upgrade`. -/
inductive UpgradePc
  | load
  | compareExchange (strongRefs : ℕ)
  deriving DecidableEq

/-- Positions inside `Arc::get_mut`, and `borrowed` while its result is in use. -/
inductive GetMutPc
  | compareExchange
  | load
  | store (unique : Bool)
  | borrowed
  deriving DecidableEq

/-- Positions inside the drop of a `Weak`. -/
inductive DropWeakPc
  | fetchSub
  | free
  deriving DecidableEq

/-- Positions inside the drop of an `Arc`. -/
inductive DropArcPc
  | fetchSub
  | dropData
  | dropWeak (pc : DropWeakPc)
  deriving DecidableEq

/-- Positions inside `Arc::into_inner`. -/
inductive IntoInnerPc (α : Type)
  | compareExchange
  | load
  | store
  | read
  | free (data : ManuallyDrop α)
  | drop (pc : DropArcPc)
  deriving DecidableEq

/-- What a thread is doing; `deref` has one access. -/
inductive Call (α : Type)
  | idle
  | clone (pc : ClonePc)
  | downgrade (pc : DowngradePc)
  | deref
  | upgrade (pc : UpgradePc)
  | getMut (pc : GetMutPc)
  | intoInner (pc : IntoInnerPc α)
  | dropArc (pc : DropArcPc)
  | dropWeak (pc : DropWeakPc)
  deriving DecidableEq

/-- The local state of a thread. -/
structure Thread (α : Type) where
  call : Call α
  result : Option (Result α)

/-- What resolves a step: the next call of an idle thread, a write through the borrow of `get_mut`,
or the next access, which for that borrow is its end. -/
inductive Choice (α : Type)
  | clone
  | downgrade
  | deref
  | upgrade
  | getMut
  | intoInner
  | dropArc
  | dropWeak
  | write (value : α)
  | access
  deriving DecidableEq

section Steps

variable {α : Type}

/-- The thread at another position. -/
def Thread.goto (th : Thread α) (call : Call α) : Thread α := { th with call := call }

/-- The thread after a call has returned. -/
def Thread.ret (th : Thread α) (result : Result α) : Thread α :=
  { th with call := .idle, result := some result }

/-- The block is accessed. -/
def Shared.touch (shared : Shared α) : Shared α :=
  if shared.frees = 0 then shared else { shared with strayAccesses := shared.strayAccesses + 1 }

section Touch

variable {shared : Shared α}

@[simp] theorem touch_strongCount : shared.touch.strongCount = shared.strongCount := by
  unfold Shared.touch
  split_ifs <;> rfl

@[simp] theorem touch_arcBorrows : shared.touch.arcBorrows = shared.arcBorrows := by
  unfold Shared.touch
  split_ifs <;> rfl

@[simp] theorem touch_weakBorrows : shared.touch.weakBorrows = shared.weakBorrows := by
  unfold Shared.touch
  split_ifs <;> rfl

@[simp] theorem touch_arcs : shared.touch.arcs = shared.arcs := by
  unfold Shared.touch
  split_ifs <;> rfl

@[simp] theorem touch_weaks : shared.touch.weaks = shared.weaks := by
  unfold Shared.touch
  split_ifs <;> rfl

@[simp] theorem touch_removals : shared.touch.removals = shared.removals := by
  unfold Shared.touch
  split_ifs <;> rfl

@[simp] theorem touch_data : shared.touch.data = shared.data := by
  unfold Shared.touch
  split_ifs <;> rfl

end Touch

/-- The process aborts. -/
def Shared.finish (shared : Shared α) : Shared α := { shared with ended := true }

variable (shared : Shared α) (th : Thread α)

/-- `Arc::clone`. -/
def cloneStep : ClonePc → Shared α × Thread α
  | .fetchAdd =>
    let counted := { shared.touch with strongCount := addUsize shared.strongCount 1 }
    if maxRefCount < shared.strongCount then (counted, th.goto (.clone .abort))
    else
      ({ counted with arcs := shared.arcs + 1, arcBorrows := shared.arcBorrows - 1 },
        th.ret .cloned)
  | .abort => (shared.finish, th)

/-- The loop of `downgrade` with a loaded count. -/
def downgradeLoop (weakCount : ℕ) : Shared α × Thread α :=
  if weakCount = usizeMax then (shared, th.goto (.downgrade .load))
  else if weakCount ≤ maxRefCount then
    (shared, th.goto (.downgrade (.compareExchange weakCount)))
  else ({ shared with arcBorrows := shared.arcBorrows - 1 }, th.ret .panicked)

/-- `Arc::downgrade`. -/
def downgradeStep : DowngradePc → Shared α × Thread α
  | .load => downgradeLoop shared.touch th shared.refCount
  | .compareExchange weakCount =>
    if shared.refCount = weakCount then
      ({ shared.touch with
          refCount := addUsize weakCount 1
          weaks := shared.weaks + 1
          arcBorrows := shared.arcBorrows - 1 },
        th.ret .downgraded)
    else downgradeLoop shared.touch th shared.refCount

/-- `Deref for Arc`, with a read through the reference. -/
def derefStep : Shared α × Thread α :=
  ({ shared.touch with arcBorrows := shared.arcBorrows - 1 }, th.ret (.dereferenced shared.data))

/-- The loop of `upgrade` with a loaded count. -/
def upgradeLoop (strongRefs : ℕ) : Shared α × Thread α :=
  if strongRefs = 0 then
    ({ shared with weakBorrows := shared.weakBorrows - 1 }, th.ret (.upgraded false))
  else if strongRefs ≤ maxRefCount then
    (shared, th.goto (.upgrade (.compareExchange strongRefs)))
  else ({ shared with weakBorrows := shared.weakBorrows - 1 }, th.ret .panicked)

/-- `Weak::upgrade`. -/
def upgradeStep : UpgradePc → Shared α × Thread α
  | .load => upgradeLoop shared.touch th shared.strongCount
  | .compareExchange strongRefs =>
    if shared.strongCount = strongRefs then
      ({ shared.touch with
          strongCount := addUsize strongRefs 1
          arcs := shared.arcs + 1
          weakBorrows := shared.weakBorrows - 1 },
        th.ret (.upgraded true))
    else upgradeLoop shared.touch th shared.strongCount

/-- `Arc::get_mut`, and the end of the borrow it has handed out. -/
def getMutStep : GetMutPc → Shared α × Thread α
  | .compareExchange =>
    if shared.refCount = 1 then
      ({ shared.touch with refCount := usizeMax }, th.goto (.getMut .load))
    else ({ shared.touch with mutBorrows := shared.mutBorrows - 1 }, th.ret (.gotMut false))
  | .load => (shared.touch, th.goto (.getMut (.store (shared.strongCount == 1))))
  | .store unique =>
    let unlocked := { shared.touch with refCount := 1 }
    if unique then (unlocked, th.goto (.getMut .borrowed))
    else ({ unlocked with mutBorrows := shared.mutBorrows - 1 }, th.ret (.gotMut false))
  | .borrowed => ({ shared with mutBorrows := shared.mutBorrows - 1 }, th.ret (.gotMut true))

/-- `Drop for Weak`; `position` is where the caller keeps the position, and `result` is what it
returns. -/
def dropWeakStep (position : DropWeakPc → Call α) (result : Result α) :
    DropWeakPc → Shared α × Thread α
  | .fetchSub =>
    let counted := { shared.touch with refCount := subUsize shared.refCount 1 }
    if shared.refCount = 1 then (counted, th.goto (position .free)) else (counted, th.ret result)
  | .free => ({ shared.touch with frees := shared.frees + 1 }, th.ret result)

/-- `Drop for Arc`. -/
def dropArcStep (position : DropArcPc → Call α) (result : Result α) :
    DropArcPc → Shared α × Thread α
  | .fetchSub =>
    let counted := { shared.touch with strongCount := subUsize shared.strongCount 1 }
    if shared.strongCount = 1 then (counted, th.goto (position .dropData))
    else (counted, th.ret result)
  | .dropData =>
    ({ shared.touch with data := none, removals := shared.removals + 1 },
      th.goto (position (.dropWeak .fetchSub)))
  | .dropWeak pc => dropWeakStep shared th (fun pc ↦ position (.dropWeak pc)) result pc

/-- `Arc::into_inner`; when it returns `None`, the drop of `self` comes first. -/
def intoInnerStep : IntoInnerPc α → Shared α × Thread α
  | .compareExchange =>
    if shared.refCount = 1 then
      ({ shared.touch with refCount := usizeMax }, th.goto (.intoInner .load))
    else (shared.touch, th.goto (.intoInner (.drop .fetchSub)))
  | .load =>
    (shared.touch, th.goto (.intoInner (if shared.strongCount = 1 then .read else .store)))
  | .store => ({ shared.touch with refCount := 1 }, th.goto (.intoInner (.drop .fetchSub)))
  | .read =>
    ({ shared.touch with data := none, removals := shared.removals + 1 },
      th.goto (.intoInner (.free shared.data)))
  | .free data =>
    ({ shared.touch with frees := shared.frees + 1 }, th.ret (.intoInner (some data)))
  | .drop pc => dropArcStep shared th (fun pc ↦ .intoInner (.drop pc)) (.intoInner none) pc

/-- Whether some `Arc` handle is not borrowed exclusively. -/
def Shared.hasArc (shared : Shared α) : Bool := shared.mutBorrows < shared.arcs

/-- Whether some `Arc` handle is not borrowed. -/
def Shared.hasFreeArc (shared : Shared α) : Bool :=
  shared.mutBorrows + min shared.arcBorrows 1 < shared.arcs

/-- Whether some `Weak` handle is not borrowed. -/
def Shared.hasFreeWeak (shared : Shared α) : Bool := min shared.weakBorrows 1 < shared.weaks

/-- What an idle thread can start. -/
def idleStep : Choice α → Option (Shared α × Thread α)
  | .clone =>
    if shared.hasArc then
      some ({ shared with arcBorrows := shared.arcBorrows + 1 }, th.goto (.clone .fetchAdd))
    else none
  | .downgrade =>
    if shared.hasArc then
      some ({ shared with arcBorrows := shared.arcBorrows + 1 }, th.goto (.downgrade .load))
    else none
  | .deref =>
    if shared.hasArc then
      some ({ shared with arcBorrows := shared.arcBorrows + 1 }, th.goto .deref)
    else none
  | .upgrade =>
    if 0 < shared.weaks then
      some ({ shared with weakBorrows := shared.weakBorrows + 1 }, th.goto (.upgrade .load))
    else none
  | .getMut =>
    if shared.hasFreeArc then
      some ({ shared with mutBorrows := shared.mutBorrows + 1 },
        th.goto (.getMut .compareExchange))
    else none
  | .intoInner =>
    if shared.hasFreeArc then
      some ({ shared with arcs := shared.arcs - 1 }, th.goto (.intoInner .compareExchange))
    else none
  | .dropArc =>
    if shared.hasFreeArc then
      some ({ shared with arcs := shared.arcs - 1 }, th.goto (.dropArc .fetchSub))
    else none
  | .dropWeak =>
    if shared.hasFreeWeak then
      some ({ shared with weaks := shared.weaks - 1 }, th.goto (.dropWeak .fetchSub))
    else none
  | _ => none

/-- One step of a thread. -/
def step (choice : Choice α) : Option (Shared α × Thread α) :=
  if shared.ended then none
  else
    match th.call, choice with
    | .idle, choice => idleStep shared th choice
    | .clone pc, .access => some (cloneStep shared th pc)
    | .downgrade pc, .access => some (downgradeStep shared th pc)
    | .deref, .access => some (derefStep shared th)
    | .upgrade pc, .access => some (upgradeStep shared th pc)
    | .getMut pc, .access => some (getMutStep shared th pc)
    | .getMut .borrowed, .write value => some ({ shared.touch with data := some value }, th)
    | .intoInner pc, .access => some (intoInnerStep shared th pc)
    | .dropArc pc, .access => some (dropArcStep shared th .dropArc .dropped pc)
    | .dropWeak pc, .access => some (dropWeakStep shared th .dropWeak .dropped pc)
    | _, _ => none

end Steps

/-- Nobody sleeps on a reference count. -/
inductive Addr
  deriving DecidableEq

/-- The threads that use the handles of one block. -/
def machine (Tid α : Type) : Machine Tid (Shared α) (Thread α) (Choice α) Addr where
  step := fun _ shared th choice ↦
    (step shared th choice).map fun (after, moved) ↦ (after, moved, .silent)
  asleepOn := fun _ ↦ none
  wake := id
  unpark := id

/-- `Arc::new`: one `Arc` handle, before any call. -/
def new (Tid : Type) {α : Type} (data : α) : Pool Tid (Shared α) (Thread α) where
  shared :=
    { strongCount := 1, refCount := 1, data := some data, arcs := 1, arcBorrows := 0
      mutBorrows := 0, weaks := 0, weakBorrows := 0, ended := false, removals := 0, frees := 0
      strayAccesses := 0 }
  threads := fun _ ↦ { call := .idle, result := none }

/-- Any number of threads using the handles of one block. -/
def system (Tid : Type) {α : Type} (data : α) [DecidableEq Tid] [Fintype Tid] :
    System (Pool Tid (Shared α) (Thread α)) (Label Tid (Choice α)) :=
  (machine Tid α).system (new Tid data)

end SyncPrimitives.Arc
