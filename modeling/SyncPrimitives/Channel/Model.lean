import SyncPrimitives.RingBuffer.Model

/-!
# The channel of `channel.rs`

One `Channel` with any number of `Sender`s, used by any number of threads, and one `Receiver`. The
buffer is the ring buffer with its own steps: a position inside a push or a pop carries the position
of the ring buffer, and `Call.ring` is what the ring buffer sees of a thread. Every other position
is the next access to one of the three words.

`Sender` handles are interchangeable, so they are counted: `senders` are those that no drop has
taken, and `borrows` are the calls in progress on some of them. A drop needs a handle that no call
borrows, hence a second one while a call is in progress. The `Receiver` is free, borrowed by one
call or by its drop, or dropped. These fields, and the list `received` of the values that `recv` and
`try_recv` have returned, are bookkeeping that no step of the code reads.
-/

set_option autoImplicit false
set_option relaxedAutoImplicit false

namespace SyncPrimitives.Channel

open Concurrency
open RingBuffer (MaybeUninit Access Progress PushPc PopPc)

/-- The atomic words on which threads sleep. -/
inductive Addr
  | receiverState
  | senderWaitNum
  deriving DecidableEq

/-- Where the `Receiver` is. -/
inductive ReceiverHandle
  | free
  | borrowed
  | dropped
  deriving DecidableEq

/-- The fields of `Channel`, the handles, and the values received so far. -/
structure Shared (α : Type) where
  data : RingBuffer.Shared α
  sendersCount : ℕ
  senderWaitNum : ℕ
  receiverState : ℕ
  senders : ℕ
  borrows : ℕ
  receiver : ReceiverHandle
  received : List (MaybeUninit α)

/-- `MAX_SENDER_COUNT`. -/
def maxSenderCount : ℕ := usizeMax / 2

/-- `SendError`. -/
inductive SendError (α : Type)
  | disconnected (message : α)
  deriving DecidableEq

/-- `TrySendError`. -/
inductive TrySendError (α : Type)
  | bufferFull (message : α)
  | disconnected (message : α)
  deriving DecidableEq

/-- `ReceiveError`. -/
inductive ReceiveError
  | disconnected
  deriving DecidableEq

/-- `TryReceiveError`. -/
inductive TryReceiveError
  | bufferEmpty
  | disconnected
  deriving DecidableEq

/-- What the last finished call of a thread returned; `clonePanicked` is the failed assertion of
`clone`. -/
inductive Result (α : Type)
  | sent (result : Except (SendError α) Unit)
  | trySent (result : Except (TrySendError α) Unit)
  | received (result : Except ReceiveError (MaybeUninit α))
  | tryReceived (result : Except TryReceiveError (MaybeUninit α))
  | cloned
  | clonePanicked
  | dropped

/-- Positions of a sender that has pushed: the load of `receiver_state`, the compare-and-exchange
and the `wake_one`. -/
inductive NotifyPc
  | load
  | compareExchange
  | wakeOne
  deriving DecidableEq

/-- Positions inside `send`. -/
inductive SendPc (α : Type)
  | loadReceiver (message : α)
  | push (pc : PushPc α)
  | notify (pc : NotifyPc)
  | loadWaitNum (message : α)
  | wait (message : α) (senderWaitNum : ℕ)
  | asleep (message : α)
  deriving DecidableEq

/-- Positions inside `try_send`. -/
inductive TrySendPc (α : Type)
  | loadReceiver (message : α)
  | tryPush (pc : PushPc α)
  | notify (pc : NotifyPc)
  deriving DecidableEq

/-- Positions inside `recv`. -/
inductive RecvPc (α : Type)
  | loadSenders
  | tryPop (pc : PopPc α)
  | pop (pc : PopPc α)
  | fetchAdd (message : MaybeUninit α)
  | wakeOne (message : MaybeUninit α)
  | store
  | wait
  | asleep
  deriving DecidableEq

/-- Positions inside `try_recv`. -/
inductive TryRecvPc (α : Type)
  | tryPop (pc : PopPc α)
  | loadSenders
  deriving DecidableEq

/-- What a thread is doing; `clone`, `dropSender` and `dropReceiver` have one access each. -/
inductive Call (α : Type)
  | idle
  | send (pc : SendPc α)
  | trySend (pc : TrySendPc α)
  | recv (pc : RecvPc α)
  | tryRecv (pc : TryRecvPc α)
  | clone
  | dropSender
  | dropReceiver
  deriving DecidableEq

/-- The local state of a thread. -/
structure Thread (α : Type) where
  call : Call α
  result : Option (Result α)

/-- What resolves a step: the next call of an idle thread, or how the current access ends. -/
inductive Choice (α : Type)
  | send (message : α)
  | trySend (message : α)
  | recv
  | tryRecv
  | clone
  | dropSender
  | dropReceiver
  | access (access : Access)
  deriving DecidableEq

section Steps

variable {Tid α : Type}

/-- The thread at another position. -/
def Thread.goto (th : Thread α) (call : Call α) : Thread α := { th with call := call }

/-- The thread after a call has returned. -/
def Thread.ret (th : Thread α) (result : Result α) : Thread α :=
  { th with call := .idle, result := some result }

/-- A call on a `Sender` begins. -/
def Shared.borrow (shared : Shared α) : Shared α := { shared with borrows := shared.borrows + 1 }

/-- A call on a `Sender` returns. -/
def Shared.unborrow (shared : Shared α) : Shared α := { shared with borrows := shared.borrows - 1 }

/-- A call on the `Receiver` returns. -/
def Shared.freeReceiver (shared : Shared α) : Shared α := { shared with receiver := .free }

/-- A call on the `Receiver` returns a message. -/
def Shared.deliver (shared : Shared α) (message : MaybeUninit α) : Shared α :=
  { shared.freeReceiver with received := shared.received ++ [message] }

/-- A step that wakes nobody. -/
def quiet (shared : Shared α) (th : Thread α) : Option (Shared α × Thread α × Signal Tid Addr) :=
  some (shared, th, .silent)

variable (N : ℕ) (shared : Shared α) (th : Thread α)

/-- The end of `send` and `try_send` after a successful push; `position` is where the caller keeps
the position, and `result` is what it returns. -/
def notifyStep (position : NotifyPc → Call α) (result : Result α) :
    NotifyPc → Access → Option (Shared α × Thread α × Signal Tid Addr)
  | .load, .go =>
    if shared.receiverState = 1 then quiet shared.unborrow (th.ret result)
    else quiet shared (th.goto (position .compareExchange))
  | .compareExchange, .go =>
    if shared.receiverState = 2 then
      quiet { shared with receiverState := 1 } (th.goto (position .wakeOne))
    else quiet shared.unborrow (th.ret result)
  | .wakeOne, .go => some (shared.unborrow, th.ret result, .wakeOne .receiverState)
  | _, .spurious => none

/-- `Sender::send`. -/
def sendStep : SendPc α → Access → Option (Shared α × Thread α × Signal Tid Addr)
  | .loadReceiver message, .go =>
    if shared.receiverState = 0 then
      quiet shared.unborrow (th.ret (.sent (.error (.disconnected message))))
    else quiet shared (th.goto (.send (.push (.loadTail message))))
  | .push pc, access =>
    (RingBuffer.pushStep N shared.data pc access).map fun (data, progress) ↦
      ({ shared with data := data },
        th.goto (.send (match progress with
          | .running pc => .push pc
          | .returned (.ok ()) => .notify .load
          | .returned (.error message) => .loadWaitNum message)),
        .silent)
  | .notify pc, access =>
    notifyStep shared th (fun pc ↦ .send (.notify pc)) (.sent (.ok ())) pc access
  | .loadWaitNum message, .go =>
    quiet shared (th.goto (.send (.wait message shared.senderWaitNum)))
  | .wait message senderWaitNum, .go =>
    if shared.senderWaitNum = senderWaitNum then quiet shared (th.goto (.send (.asleep message)))
    else quiet shared (th.goto (.send (.loadReceiver message)))
  | .wait message _, .spurious => quiet shared (th.goto (.send (.loadReceiver message)))
  | .asleep message, .spurious => quiet shared (th.goto (.send (.loadReceiver message)))
  | _, _ => none

/-- `Sender::try_send`. -/
def trySendStep : TrySendPc α → Access → Option (Shared α × Thread α × Signal Tid Addr)
  | .loadReceiver message, .go =>
    if shared.receiverState = 0 then
      quiet shared.unborrow (th.ret (.trySent (.error (.disconnected message))))
    else quiet shared (th.goto (.trySend (.tryPush (.loadTail message))))
  | .tryPush pc, access =>
    (RingBuffer.tryPushStep N shared.data pc access).map fun (data, progress) ↦
      match progress with
      | .running pc => ({ shared with data := data }, th.goto (.trySend (.tryPush pc)), .silent)
      | .returned (.ok ()) =>
        ({ shared with data := data }, th.goto (.trySend (.notify .load)), .silent)
      | .returned (.error message) =>
        (Shared.unborrow { shared with data := data },
          th.ret (.trySent (.error (.bufferFull message))), .silent)
  | .notify pc, access =>
    notifyStep shared th (fun pc ↦ .trySend (.notify pc)) (.trySent (.ok ())) pc access
  | _, _ => none

/-- `Receiver::recv`. -/
def recvStep : RecvPc α → Access → Option (Shared α × Thread α × Signal Tid Addr)
  | .loadSenders, .go =>
    if shared.sendersCount = 0 then quiet shared (th.goto (.recv (.tryPop .loadTail)))
    else quiet shared (th.goto (.recv (.pop .loadTail)))
  | .tryPop pc, access =>
    (RingBuffer.tryPopStep N shared.data pc access).map fun (data, progress) ↦
      match progress with
      | .running pc => ({ shared with data := data }, th.goto (.recv (.tryPop pc)), .silent)
      | .returned (some message) =>
        (Shared.deliver { shared with data := data } message, th.ret (.received (.ok message)),
          .silent)
      | .returned none =>
        (Shared.freeReceiver { shared with data := data },
          th.ret (.received (.error .disconnected)), .silent)
  | .pop pc, access =>
    (RingBuffer.popStep N shared.data pc access).map fun (data, progress) ↦
      ({ shared with data := data },
        th.goto (.recv (match progress with
          | .running pc => .pop pc
          | .returned (some message) => .fetchAdd message
          | .returned none => .store)),
        .silent)
  | .fetchAdd message, .go =>
    quiet { shared with senderWaitNum := addU32 shared.senderWaitNum 1 }
      (th.goto (.recv (.wakeOne message)))
  | .wakeOne message, .go =>
    some (shared.deliver message, th.ret (.received (.ok message)), .wakeOne .senderWaitNum)
  | .store, .go => quiet { shared with receiverState := 2 } (th.goto (.recv .wait))
  | .wait, .go =>
    if shared.receiverState = 2 then quiet shared (th.goto (.recv .asleep))
    else quiet shared (th.goto (.recv .loadSenders))
  | .wait, .spurious => quiet shared (th.goto (.recv .loadSenders))
  | .asleep, .spurious => quiet shared (th.goto (.recv .loadSenders))
  | _, _ => none

/-- `Receiver::try_recv`. -/
def tryRecvStep : TryRecvPc α → Access → Option (Shared α × Thread α × Signal Tid Addr)
  | .tryPop pc, access =>
    (RingBuffer.tryPopStep N shared.data pc access).map fun (data, progress) ↦
      match progress with
      | .running pc => ({ shared with data := data }, th.goto (.tryRecv (.tryPop pc)), .silent)
      | .returned (some message) =>
        (Shared.deliver { shared with data := data } message, th.ret (.tryReceived (.ok message)),
          .silent)
      | .returned none => ({ shared with data := data }, th.goto (.tryRecv .loadSenders), .silent)
  | .loadSenders, .go =>
    quiet shared.freeReceiver
      (th.ret (.tryReceived (.error
        (if shared.sendersCount = 0 then .disconnected else .bufferEmpty))))
  | _, _ => none

/-- `Sender::clone`: the new handle exists unless the assertion fails. -/
def cloneStep : Access → Option (Shared α × Thread α × Signal Tid Addr)
  | .go =>
    let counted := { shared.unborrow with sendersCount := addUsize shared.sendersCount 1 }
    if shared.sendersCount ≤ maxSenderCount then
      quiet { counted with senders := shared.senders + 1 } (th.ret .cloned)
    else quiet counted (th.ret .clonePanicked)
  | .spurious => none

/-- `Drop for Sender`. -/
def dropSenderStep : Access → Option (Shared α × Thread α × Signal Tid Addr)
  | .go => quiet { shared with sendersCount := subUsize shared.sendersCount 1 } (th.ret .dropped)
  | .spurious => none

/-- `Drop for Receiver`. -/
def dropReceiverStep : Access → Option (Shared α × Thread α × Signal Tid Addr)
  | .go => quiet { shared with receiverState := 0, receiver := .dropped } (th.ret .dropped)
  | .spurious => none

/-- What an idle thread can start: a call on a `Sender` needs one, a drop of a `Sender` needs one
that no call borrows, and a call on the `Receiver` or its drop needs the `Receiver`. -/
def idleStep : Choice α → Option (Shared α × Thread α × Signal Tid Addr)
  | .send message =>
    if 0 < shared.senders then quiet shared.borrow (th.goto (.send (.loadReceiver message)))
    else none
  | .trySend message =>
    if 0 < shared.senders then quiet shared.borrow (th.goto (.trySend (.loadReceiver message)))
    else none
  | .clone => if 0 < shared.senders then quiet shared.borrow (th.goto .clone) else none
  | .dropSender =>
    if min shared.borrows 1 < shared.senders then
      quiet { shared with senders := shared.senders - 1 } (th.goto .dropSender)
    else none
  | .recv =>
    if shared.receiver = .free then
      quiet { shared with receiver := .borrowed } (th.goto (.recv .loadSenders))
    else none
  | .tryRecv =>
    if shared.receiver = .free then
      quiet { shared with receiver := .borrowed } (th.goto (.tryRecv (.tryPop .loadTail)))
    else none
  | .dropReceiver =>
    if shared.receiver = .free then
      quiet { shared with receiver := .borrowed } (th.goto .dropReceiver)
    else none
  | .access _ => none

/-- One step of a thread. -/
def step (choice : Choice α) : Option (Shared α × Thread α × Signal Tid Addr) :=
  match th.call, choice with
  | .idle, choice => idleStep shared th choice
  | .send pc, .access access => sendStep N shared th pc access
  | .trySend pc, .access access => trySendStep N shared th pc access
  | .recv pc, .access access => recvStep N shared th pc access
  | .tryRecv pc, .access access => tryRecvStep N shared th pc access
  | .clone, .access access => cloneStep shared th access
  | .dropSender, .access access => dropSenderStep shared th access
  | .dropReceiver, .access access => dropReceiverStep shared th access
  | _, _ => none

end Steps

/-- The word on which a thread is asleep. -/
def asleepOn {α : Type} (th : Thread α) : Option Addr :=
  match th.call with
  | .send (.asleep _) => some .senderWaitNum
  | .recv .asleep => some .receiverState
  | _ => none

/-- A thread whose `wait` has been woken. -/
def wake {α : Type} (th : Thread α) : Thread α :=
  match th.call with
  | .send (.asleep message) => th.goto (.send (.loadReceiver message))
  | .recv .asleep => th.goto (.recv .loadSenders)
  | _ => th

/-- What the ring buffer sees of a position. -/
def Call.ring {α : Type} : Call α → RingBuffer.Call α
  | .send (.push pc) => .push pc
  | .trySend (.tryPush pc) => .tryPush pc
  | .recv (.tryPop pc) => .tryPop pc
  | .recv (.pop pc) => .pop pc
  | .tryRecv (.tryPop pc) => .tryPop pc
  | _ => .idle

/-- The threads that use a channel. -/
def machine (N : ℕ) (Tid α : Type) : Machine Tid (Shared α) (Thread α) (Choice α) Addr where
  step := fun _ shared th choice ↦ step N shared th choice
  asleepOn := asleepOn
  wake := wake
  unpark := id

/-- `Channel::new` and `Channel::channel`: one `Sender` and the `Receiver`, before any call. -/
def new (Tid α : Type) : Pool Tid (Shared α) (Thread α) where
  shared :=
    { data := RingBuffer.Shared.new α, sendersCount := 1, senderWaitNum := 0, receiverState := 1,
      senders := 1, borrows := 0, receiver := .free, received := [] }
  threads := fun _ ↦ { call := .idle, result := none }

/-- Any number of threads using one channel with a buffer of `N` slots. -/
def system (N : ℕ) (Tid α : Type) [DecidableEq Tid] [Fintype Tid] :
    System (Pool Tid (Shared α) (Thread α)) (Label Tid (Choice α)) :=
  (machine N Tid α).system (new Tid α)

end SyncPrimitives.Channel
