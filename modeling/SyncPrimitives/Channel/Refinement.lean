import SyncPrimitives.Channel.Handles
import SyncPrimitives.RingBuffer.Queue

/-!
# The channel refines a bounded queue

What the channel is for, when its calls are run one at a time: a queue of at most `N` messages, a
number of senders, and a receiver that is alive or not (`Queue`). `Channel.channel` is the object
that runs every call of `channel.rs` alone to its end; a call that falls asleep does not end and is
no call of the object. Each is a run of the channel with one thread (`CallAlone.exists_reachable`).
The two return the same results on every sequence of calls (`channel_refines_queue`). The relation
between them is `Represents`: the buffer holds the messages, `senders_count` counts the senders, and
`receiver_state` is one or zero, since only a call that falls asleep stores two.
-/

set_option autoImplicit false
set_option relaxedAutoImplicit false

namespace SyncPrimitives.Channel

open Concurrency Relation StateTransition
open RingBuffer (Holds PowerOfTwo Progress PushPc PopPc MaybeUninit runAlone)

variable {α : Type}

/-- The calls on a channel. -/
inductive Method (α : Type)
  | send (message : α)
  | trySend (message : α)
  | recv
  | tryRecv
  | clone
  | dropSender
  | dropReceiver
  deriving DecidableEq

/-! ### The bounded queue -/

/-- The messages in the order in which they were sent, the number of senders, and whether the
receiver is alive. -/
structure Queue (α : Type) where
  messages : List α
  senders : ℕ
  receiverAlive : Bool
  deriving DecidableEq

namespace Queue

/-- A channel before any call. -/
def new (α : Type) : Queue α where
  messages := []
  senders := 1
  receiverAlive := true

/-- What a call does; `none` for a call that would wait, or without the handle it needs. -/
def call (N : ℕ) (q : Queue α) : Method α → Option (Queue α × Result α)
  | .send message =>
    if q.senders = 0 then none
    else if q.receiverAlive = false then some (q, .sent (.error (.disconnected message)))
    else if q.messages.length < N then
      some ({ q with messages := q.messages ++ [message] }, .sent (.ok ()))
    else none
  | .trySend message =>
    if q.senders = 0 then none
    else if q.receiverAlive = false then some (q, .trySent (.error (.disconnected message)))
    else if q.messages.length < N then
      some ({ q with messages := q.messages ++ [message] }, .trySent (.ok ()))
    else some (q, .trySent (.error (.bufferFull message)))
  | .recv =>
    if q.receiverAlive = false then none
    else match q.messages with
      | message :: rest => some ({ q with messages := rest }, .received (.ok (some message)))
      | [] => if q.senders = 0 then some (q, .received (.error .disconnected)) else none
  | .tryRecv =>
    if q.receiverAlive = false then none
    else match q.messages with
      | message :: rest => some ({ q with messages := rest }, .tryReceived (.ok (some message)))
      | [] =>
        some (q, .tryReceived (.error (if q.senders = 0 then .disconnected else .bufferEmpty)))
  | .clone => if q.senders = 0 then none else some ({ q with senders := q.senders + 1 }, .cloned)
  | .dropSender =>
    if q.senders = 0 then none else some ({ q with senders := q.senders - 1 }, .dropped)
  | .dropReceiver =>
    if q.receiverAlive = false then none else some ({ q with receiverAlive := false }, .dropped)

end Queue

/-- The bounded queue as an object. -/
def queue (N : ℕ) (α : Type) : Object (Queue α) (Method α) (Result α) where
  call := fun q method q' result ↦ q.call N method = some (q', result)

/-! ### The channel, one call at a time -/

/-- The choice that starts a call. -/
def Method.choice : Method α → Choice α
  | .send message => .send message
  | .trySend message => .trySend message
  | .recv => .recv
  | .tryRecv => .tryRecv
  | .clone => .clone
  | .dropSender => .dropSender
  | .dropReceiver => .dropReceiver

/-- The regular step of a thread that runs alone. -/
def go (N : ℕ) : Shared α × Thread α → Option (Shared α × Thread α) :=
  (machine N Unit α).alone () (.access .go)

/-- A call of an idle thread that runs alone to its end. -/
def CallAlone (N : ℕ) (s : Shared α) (method : Method α) (s' : Shared α)
    (result : Result α) : Prop :=
  ∃ begun, (machine N Unit α).alone () method.choice
    (s, { call := .idle, result := none }) = some begun ∧
    (s', { call := .idle, result := some result }) ∈ eval (go N) begun

/-- The channel as an object. -/
def channel (N : ℕ) (α : Type) : Object (Shared α) (Method α) (Result α) where
  call := CallAlone N

/-- A channel and the queue it represents. -/
structure Represents (N : ℕ) (s : Shared α) (q : Queue α) : Prop where
  data : Holds N s.data q.messages
  senders : s.senders = q.senders
  count : s.sendersCount = q.senders
  few : q.senders ≤ maxSenderCount + 1
  borrows : s.borrows = 0
  receiver : s.receiver = if q.receiverAlive then .free else .dropped
  state : s.receiverState = if q.receiverAlive then 1 else 0

section Calls

variable {N : ℕ} {s : Shared α} {q : Queue α} {message : α}

/-! ### The ring buffer inside a call -/

/-- Accesses of the ring buffer that run alone are steps of the call around it. Assumes: the call
takes the steps of the ring buffer, on the state and the position that `position` gives. -/
theorem reaches_of_ring {Pc Ret : Type}
    {access : RingBuffer.Shared α → Pc → RingBuffer.Access →
      Option (RingBuffer.Shared α × Progress Pc Ret)}
    (position : RingBuffer.Shared α × Progress Pc Ret → Shared α × Thread α)
    (hstep : ∀ before pc after, access before pc .go = some after →
      go N (position (before, .running pc)) = some (position after))
    {x y : RingBuffer.Shared α × Progress Pc Ret} (h : Reaches (runAlone access) x y) :
    Reaches (go N) (position x) (position y) := by
  refine ReflTransGen.lift position ?_ x y h
  rintro ⟨before, progress⟩ after hafter
  cases progress with
  | running pc => exact hstep before pc after hafter
  | returned ret => cases hafter

/-- `send` around its push. -/
def sendPosition (s : Shared α) (th : Thread α)
    (x : RingBuffer.Shared α × Progress (PushPc α) (Except α Unit)) : Shared α × Thread α :=
  ({ s with data := x.1 },
    th.goto (.send (match x.2 with
      | .running pc => .push pc
      | .returned (.ok ()) => .notify .load
      | .returned (.error message) => .loadWaitNum message)))

/-- `try_send` around its push. -/
def trySendPosition (s : Shared α) (th : Thread α)
    (x : RingBuffer.Shared α × Progress (PushPc α) (Except α Unit)) : Shared α × Thread α :=
  match x.2 with
  | .running pc => ({ s with data := x.1 }, th.goto (.trySend (.tryPush pc)))
  | .returned (.ok ()) => ({ s with data := x.1 }, th.goto (.trySend (.notify .load)))
  | .returned (.error message) =>
    (Shared.unborrow { s with data := x.1 }, th.ret (.trySent (.error (.bufferFull message))))

/-- `recv` around its pop. -/
def recvPosition (s : Shared α) (th : Thread α)
    (x : RingBuffer.Shared α × Progress (PopPc α) (Option (MaybeUninit α))) : Shared α × Thread α :=
  ({ s with data := x.1 },
    th.goto (.recv (match x.2 with
      | .running pc => .pop pc
      | .returned (some message) => .fetchAdd message
      | .returned none => .store)))

/-- `recv` around its last pop. -/
def lastPosition (s : Shared α) (th : Thread α)
    (x : RingBuffer.Shared α × Progress (PopPc α) (Option (MaybeUninit α))) : Shared α × Thread α :=
  match x.2 with
  | .running pc => ({ s with data := x.1 }, th.goto (.recv (.tryPop pc)))
  | .returned (some message) =>
    (Shared.deliver { s with data := x.1 } message, th.ret (.received (.ok message)))
  | .returned none =>
    (Shared.freeReceiver { s with data := x.1 }, th.ret (.received (.error .disconnected)))

/-- `try_recv` around its pop. -/
def tryRecvPosition (s : Shared α) (th : Thread α)
    (x : RingBuffer.Shared α × Progress (PopPc α) (Option (MaybeUninit α))) : Shared α × Thread α :=
  match x.2 with
  | .running pc => ({ s with data := x.1 }, th.goto (.tryRecv (.tryPop pc)))
  | .returned (some message) =>
    (Shared.deliver { s with data := x.1 } message, th.ret (.tryReceived (.ok message)))
  | .returned none => ({ s with data := x.1 }, th.goto (.tryRecv .loadSenders))

variable (th : Thread α) {x y : RingBuffer.Shared α × Progress (PushPc α) (Except α Unit)}
  {u v : RingBuffer.Shared α × Progress (PopPc α) (Option (MaybeUninit α))}

theorem reaches_send (s : Shared α) (h : Reaches (runAlone (RingBuffer.pushStep N)) x y) :
    Reaches (go N) (sendPosition s th x) (sendPosition s th y) := by
  refine reaches_of_ring (sendPosition s th) ?_ h
  rintro before pc ⟨after, pc' | ret | ret⟩ hafter
  all_goals simp only [go, Machine.alone, machine, step, sendPosition, Thread.goto,
    sendStep, hafter, Option.map_some]

theorem reaches_trySend (s : Shared α) (h : Reaches (runAlone (RingBuffer.tryPushStep N)) x y) :
    Reaches (go N) (trySendPosition s th x) (trySendPosition s th y) := by
  refine reaches_of_ring (trySendPosition s th) ?_ h
  rintro before pc ⟨after, pc' | ret | ret⟩ hafter
  all_goals simp only [go, Machine.alone, machine, step, trySendPosition, Thread.goto,
    trySendStep, hafter, Option.map_some, Thread.ret]

theorem reaches_recv (s : Shared α) (h : Reaches (runAlone (RingBuffer.popStep N)) u v) :
    Reaches (go N) (recvPosition s th u) (recvPosition s th v) := by
  refine reaches_of_ring (recvPosition s th) ?_ h
  rintro before pc ⟨after, pc' | ret | ret⟩ hafter
  all_goals simp only [go, Machine.alone, machine, step, recvPosition, Thread.goto,
    recvStep, hafter, Option.map_some]

theorem reaches_last (s : Shared α) (h : Reaches (runAlone (RingBuffer.tryPopStep N)) u v) :
    Reaches (go N) (lastPosition s th u) (lastPosition s th v) := by
  refine reaches_of_ring (lastPosition s th) ?_ h
  rintro before pc ⟨after, pc' | ret | ret⟩ hafter
  all_goals simp only [go, Machine.alone, machine, step, lastPosition, Thread.goto,
    recvStep, hafter, Option.map_some, Thread.ret]

theorem reaches_tryRecv (s : Shared α) (h : Reaches (runAlone (RingBuffer.tryPopStep N)) u v) :
    Reaches (go N) (tryRecvPosition s th u) (tryRecvPosition s th v) := by
  refine reaches_of_ring (tryRecvPosition s th) ?_ h
  rintro before pc ⟨after, pc' | ret | ret⟩ hafter
  all_goals simp only [go, Machine.alone, machine, step, tryRecvPosition, Thread.goto,
    tryRecvStep, hafter, Option.map_some, Thread.ret]

/-! ### Every call does what it does to the queue -/

/-- The outcome of a call on the queue is the outcome of the call on the channel. -/
def Matches (N : ℕ) (s : Shared α) (method : Method α) : Option (Queue α × Result α) → Prop
  | some (q', result) => ∃ s', CallAlone N s method s' result ∧ Represents N s' q'
  | none => ∀ s' result, ¬ CallAlone N s method s' result

variable {method : Method α} {begun : Shared α × Thread α} {s' : Shared α} {result : Result α}

/-- The thread that makes a call. -/
def caller (α : Type) : Thread α := { call := .idle, result := none }

theorem callAlone_of_reaches
    (hbegun : (machine N Unit α).alone () method.choice (s, caller α) = some begun)
    (h : Reaches (go N) begun (s', (caller α).ret result)) : CallAlone N s method s' result :=
  ⟨begun, hbegun, mem_eval.mpr ⟨h, rfl⟩⟩

/-- A thread that wakes another one has left its call. -/
theorem asleepOn_of_signal {Tid : Type} {before after : Shared α} {th moved : Thread α}
    {choice : Choice α} {signal : Signal Tid Addr}
    (h : step N before th choice = some (after, moved, signal)) (t : Tid) :
    signal = .silent ∨ asleepOn moved = none ∧ signal ≠ .unpark t := by
  have hidle (hphase : moved.phase = .idle) : asleepOn moved = none := by
    rw [asleepOn_eq_address, hphase]
    rfl
  cases step_event h
  case wakeReceiver hafter hbefore hphase hsignal =>
    exact .inr ⟨hidle hphase, hsignal ▸ nofun⟩
  case wakeSender hcarried hafter hbefore hphase hsignal =>
    exact .inr ⟨hidle hphase, hsignal ▸ nofun⟩
  all_goals exact .inl ‹_›

/-- A call that runs alone to its end is a run of the channel with one thread. -/
theorem CallAlone.exists_reachable (h : CallAlone N s method s' result) :
    ∃ p, ((machine N Unit α).system ⟨s, fun _ ↦ caller α⟩).Reachable p ∧ p.shared = s' ∧
      p.threads () = (caller α).ret result := by
  have hawake (choice : Choice α) (shared : Shared α) (th : Thread α) (after : Shared α)
      (moved : Thread α) (signal : Signal Unit Addr)
      (hstep : (machine N Unit α).step () shared th choice = some (after, moved, signal)) :
      signal = .silent ∨ (machine N Unit α).asleepOn moved = none ∧ signal ≠ .unpark () :=
    asleepOn_of_signal hstep ()
  obtain ⟨begun, hbegun, hends⟩ := h
  have hstart : ((machine N Unit α).system ⟨s, fun _ ↦ caller α⟩).Reachable
      ⟨s, fun _ ↦ caller α⟩ := .init
  obtain ⟨p, hrun, hshared, hthread⟩ :=
    Machine.exists_reachable_alone (hawake method.choice) hstart (.single hbegun)
  have hreaches : Reaches ((machine N Unit α).alone () (.access .go)) (p.shared, p.threads ())
      (s', (caller α).ret result) := by
    rw [hshared, hthread]
    exact (mem_eval.mp hends).1
  exact Machine.exists_reachable_alone (hawake (.access .go)) hrun hreaches

/-- A call that gets stuck inside does not end. -/
theorem not_callAlone_of_stuck
    (hbegun : (machine N Unit α).alone () method.choice (s, caller α) = some begun)
    {stuck : Shared α × Thread α} (h : Reaches (go N) begun stuck) (hstuck : go N stuck = none)
    (hbusy : stuck.2.call ≠ .idle) : ¬ CallAlone N s method s' result := by
  rintro ⟨begun', hbegun', hends⟩
  obtain rfl : begun = begun' := Option.some.inj (hbegun.symm.trans hbegun')
  have hsame := Part.mem_unique (mem_eval.mpr ⟨h, hstuck⟩) hends
  exact hbusy (congrArg (fun state ↦ state.2.call) hsame)

theorem not_callAlone_of_none
    (hnone : (machine N Unit α).alone () method.choice (s, caller α) = none) :
    ¬ CallAlone N s method s' result := by
  rintro ⟨begun, hbegun, -⟩
  cases hnone.symm.trans hbegun

/-- A change of the buffer changes the messages. -/
theorem Represents.withData (h : Represents N s q) {d : RingBuffer.Shared α} {messages : List α}
    (hdata : Holds N d messages) :
    Represents N { s with data := d } { q with messages := messages } :=
  { h with data := hdata }

theorem Represents.senders_pos_iff (h : Represents N s q) : 0 < s.senders ↔ q.senders ≠ 0 := by
  rw [h.senders, Nat.pos_iff_ne_zero]

theorem send_matches (hN : PowerOfTwo N) (h : Represents N s q) (message : α) :
    Matches N s (.send message) (q.call N (.send message)) := by
  simp only [Queue.call]
  by_cases hsenders : q.senders = 0
  · rw [if_pos hsenders]
    refine fun _ _ ↦ not_callAlone_of_none ?_
    simp [Machine.alone, machine, step, Method.choice, caller, idleStep, h.senders, hsenders]
  rw [if_neg hsenders]
  have hbegun : (machine N Unit α).alone () (.send message) (s, caller α) =
      some (s.borrow, (caller α).goto (.send (.loadReceiver message))) := by
    simp [Machine.alone, machine, step, caller, idleStep, h.senders_pos_iff.mpr hsenders, quiet]
  by_cases halive : q.receiverAlive = false
  · rw [if_pos halive]
    have hzero : s.receiverState = 0 := by simp [h.state, halive]
    refine ⟨s, callAlone_of_reaches hbegun (.single ?_), h⟩
    show Option.map _ (if s.receiverState = 0 then _ else _) = _
    rw [if_pos hzero]
    rfl
  rw [if_neg halive]
  have hone : s.receiverState = 1 := by simp [h.state, halive]
  have hload : Reaches (go N) (s.borrow, (caller α).goto (.send (.loadReceiver message)))
      (sendPosition s.borrow (caller α) (s.data, .running (.loadTail message))) := by
    refine .single ?_
    show Option.map _ (if s.receiverState = 0 then _ else _) = _
    rw [if_neg (by omega)]
    rfl
  by_cases hroom : q.messages.length < N
  · rw [if_pos hroom]
    have hpush := reaches_send (caller α) s.borrow
      (RingBuffer.pushWith_room true message h.data hN.lt hroom)
    refine ⟨{ s with data := s.data.store N message }, callAlone_of_reaches hbegun ?_,
      h.withData (h.data.store hroom (h.data.fresh hN hroom))⟩
    refine (hload.trans hpush).tail ?_
    show Option.map _ (if s.receiverState = 1 then _ else _) = _
    rw [if_pos hone]
    rfl
  · rw [if_neg hroom]
    have hpush := reaches_send (caller α) s.borrow
      (RingBuffer.pushWith_full true message h.data hN.lt (not_lt.mp hroom))
    have hwait : Reaches (go N) (s.borrow, (caller α).goto (.send (.loadWaitNum message)))
        (s.borrow, (caller α).goto (.send (.asleep message))) := by
      refine .head (b := (s.borrow, (caller α).goto (.send (.wait message s.senderWaitNum)))) rfl
        (.single ?_)
      show Option.map _ (if s.senderWaitNum = s.senderWaitNum then _ else _) = _
      rw [if_pos rfl]
      rfl
    exact fun _ _ ↦ not_callAlone_of_stuck hbegun ((hload.trans hpush).trans hwait) rfl
      fun hidle ↦ by cases hidle

theorem trySend_matches (hN : PowerOfTwo N) (h : Represents N s q) (message : α) :
    Matches N s (.trySend message) (q.call N (.trySend message)) := by
  simp only [Queue.call]
  by_cases hsenders : q.senders = 0
  · rw [if_pos hsenders]
    refine fun _ _ ↦ not_callAlone_of_none ?_
    simp [Machine.alone, machine, step, Method.choice, caller, idleStep, h.senders, hsenders]
  rw [if_neg hsenders]
  have hbegun : (machine N Unit α).alone () (.trySend message) (s, caller α) =
      some (s.borrow, (caller α).goto (.trySend (.loadReceiver message))) := by
    simp [Machine.alone, machine, step, caller, idleStep, h.senders_pos_iff.mpr hsenders, quiet]
  by_cases halive : q.receiverAlive = false
  · rw [if_pos halive]
    have hzero : s.receiverState = 0 := by simp [h.state, halive]
    refine ⟨s, callAlone_of_reaches hbegun (.single ?_), h⟩
    show Option.map _ (if s.receiverState = 0 then _ else _) = _
    rw [if_pos hzero]
    rfl
  rw [if_neg halive]
  have hone : s.receiverState = 1 := by simp [h.state, halive]
  have hload : Reaches (go N) (s.borrow, (caller α).goto (.trySend (.loadReceiver message)))
      (trySendPosition s.borrow (caller α) (s.data, .running (.loadTail message))) := by
    refine .single ?_
    show Option.map _ (if s.receiverState = 0 then _ else _) = _
    rw [if_neg (by omega)]
    rfl
  by_cases hroom : q.messages.length < N
  · rw [if_pos hroom]
    have hpush := reaches_trySend (caller α) s.borrow
      (RingBuffer.pushWith_room false message h.data hN.lt hroom)
    refine ⟨{ s with data := s.data.store N message }, callAlone_of_reaches hbegun ?_,
      h.withData (h.data.store hroom (h.data.fresh hN hroom))⟩
    refine (hload.trans hpush).tail ?_
    show Option.map _ (if s.receiverState = 1 then _ else _) = _
    rw [if_pos hone]
    rfl
  · rw [if_neg hroom]
    have hpush := reaches_trySend (caller α) s.borrow
      (RingBuffer.pushWith_full false message h.data hN.lt (not_lt.mp hroom))
    exact ⟨s, callAlone_of_reaches hbegun (hload.trans hpush), h⟩

/-- The `Receiver` has been taken and given back. -/
theorem Represents.returned (h : Represents N s q) (halive : q.receiverAlive = true)
    (received : List (MaybeUninit α)) (senderWaitNum : ℕ) :
    Represents N
      { s with receiver := .free, received := received, senderWaitNum := senderWaitNum } q :=
  { h with receiver := by rw [halive]; rfl }

theorem recv_matches (hN : PowerOfTwo N) (h : Represents N s q) :
    Matches N s .recv (q.call N .recv) := by
  simp only [Queue.call]
  by_cases halive : q.receiverAlive = false
  · rw [if_pos halive]
    refine fun _ _ ↦ not_callAlone_of_none ?_
    simp [Machine.alone, machine, step, Method.choice, caller, idleStep, h.receiver, halive]
  rw [if_neg halive]
  rw [Bool.not_eq_false] at halive
  have hfree : s.receiver = .free := by simp [h.receiver, halive]
  have hbegun : (machine N Unit α).alone () .recv (s, caller α) =
      some ({ s with receiver := .borrowed }, (caller α).goto (.recv .loadSenders)) := by
    simp [Machine.alone, machine, step, caller, idleStep, hfree, quiet]
  by_cases hsenders : q.senders = 0
  · have hzero : s.sendersCount = 0 := h.count.trans hsenders
    have hload : Reaches (go N)
        ({ s with receiver := .borrowed }, (caller α).goto (.recv .loadSenders))
        (lastPosition { s with receiver := .borrowed } (caller α)
          (s.data, .running .loadTail)) := by
      refine .single ?_
      show Option.map _ (if s.sendersCount = 0 then _ else _) = _
      rw [if_pos hzero]
      rfl
    cases hmessages : q.messages with
    | nil =>
      have hpop := reaches_last (caller α) { s with receiver := .borrowed }
        (RingBuffer.popWith_empty false (· % N) (hmessages ▸ h.data) hN.lt)
      simp only [if_pos hsenders]
      exact ⟨_, callAlone_of_reaches hbegun (hload.trans hpop), h.returned halive _ _⟩
    | cons message rest =>
      have hdata : Holds N s.data (message :: rest) := hmessages ▸ h.data
      have hpop := reaches_last (caller α) { s with receiver := .borrowed }
        (RingBuffer.popWith_oldest false hdata hN.lt rfl)
      exact ⟨_, callAlone_of_reaches hbegun (hload.trans hpop),
        (h.withData (hdata.release (some message))).returned halive _ _⟩
  · have hsome : s.sendersCount ≠ 0 := h.count ▸ hsenders
    have hload : Reaches (go N)
        ({ s with receiver := .borrowed }, (caller α).goto (.recv .loadSenders))
        (recvPosition { s with receiver := .borrowed } (caller α)
          (s.data, .running .loadTail)) := by
      refine .single ?_
      show Option.map _ (if s.sendersCount = 0 then _ else _) = _
      rw [if_neg hsome]
      rfl
    cases hmessages : q.messages with
    | nil =>
      have hpop := reaches_recv (caller α) { s with receiver := .borrowed }
        (RingBuffer.popWith_empty true (· &&& (N - 1)) (hmessages ▸ h.data) hN.lt)
      have hwait : Reaches (go N)
          ({ s with receiver := .borrowed }, (caller α).goto (.recv .store))
          ({ s with receiver := .borrowed, receiverState := 2 }, (caller α).goto (.recv .asleep)) :=
        .head rfl (.single rfl)
      simp only [if_neg hsenders]
      exact fun _ _ ↦ not_callAlone_of_stuck hbegun ((hload.trans hpop).trans hwait) rfl
        fun hidle ↦ by cases hidle
    | cons message rest =>
      have hdata : Holds N s.data (message :: rest) := hmessages ▸ h.data
      have hpop := reaches_recv (caller α) { s with receiver := .borrowed }
        (RingBuffer.popWith_oldest true hdata hN.lt (hN.and_sub_one s.data.tail))
      have hwake := hpop.trans (.head rfl (.single rfl))
      exact ⟨_, callAlone_of_reaches hbegun (hload.trans hwake),
        (h.withData (hdata.release (some message))).returned halive _ _⟩

theorem tryRecv_matches (hN : PowerOfTwo N) (h : Represents N s q) :
    Matches N s .tryRecv (q.call N .tryRecv) := by
  simp only [Queue.call]
  by_cases halive : q.receiverAlive = false
  · rw [if_pos halive]
    refine fun _ _ ↦ not_callAlone_of_none ?_
    simp [Machine.alone, machine, step, Method.choice, caller, idleStep, h.receiver, halive]
  rw [if_neg halive]
  rw [Bool.not_eq_false] at halive
  have hfree : s.receiver = .free := by simp [h.receiver, halive]
  have hbegun : (machine N Unit α).alone () .tryRecv (s, caller α) =
      some (tryRecvPosition { s with receiver := .borrowed } (caller α)
        (s.data, .running .loadTail)) := by
    simp [Machine.alone, machine, step, caller, idleStep, hfree, quiet, tryRecvPosition]
  cases hmessages : q.messages with
  | nil =>
    have hpop := reaches_tryRecv (caller α) { s with receiver := .borrowed }
      (RingBuffer.popWith_empty false (· % N) (hmessages ▸ h.data) hN.lt)
    rw [← h.count]
    exact ⟨_, callAlone_of_reaches hbegun (hpop.tail rfl),
      h.returned halive s.received s.senderWaitNum⟩
  | cons message rest =>
    have hdata : Holds N s.data (message :: rest) := hmessages ▸ h.data
    have hpop := reaches_tryRecv (caller α) { s with receiver := .borrowed }
      (RingBuffer.popWith_oldest false hdata hN.lt rfl)
    exact ⟨_, callAlone_of_reaches hbegun hpop,
      (h.withData (hdata.release (some message))).returned halive _ _⟩

theorem Represents.lt (h : Represents N s q) : q.senders < 2 ^ 64 := by
  have hfew := h.few
  rw [maxSenderCount, usizeMax] at hfew
  omega

theorem clone_matches (h : Represents N s q) (hfew : q.senders ≤ maxSenderCount) :
    Matches N s .clone (q.call N .clone) := by
  simp only [Queue.call]
  by_cases hsenders : q.senders = 0
  · rw [if_pos hsenders]
    refine fun _ _ ↦ not_callAlone_of_none ?_
    simp [Machine.alone, machine, step, Method.choice, caller, idleStep, h.senders, hsenders]
  rw [if_neg hsenders]
  have hbegun : (machine N Unit α).alone () .clone (s, caller α) =
      some (s.borrow, (caller α).goto .clone) := by
    simp [Machine.alone, machine, step, caller, idleStep, h.senders_pos_iff.mpr hsenders, quiet]
  have hcount := h.count
  refine ⟨{ s with sendersCount := addUsize s.sendersCount 1, senders := s.senders + 1 },
    callAlone_of_reaches hbegun (.single ?_), ?_⟩
  · show Option.map _ (if s.sendersCount ≤ maxSenderCount then _ else _) = _
    rw [if_pos (hcount ▸ hfew)]
    rfl
  · have hbound : s.sendersCount + 1 < 2 ^ 64 := by
      rw [maxSenderCount, usizeMax] at hfew
      omega
    exact
      { h with
        senders := congrArg (· + 1) h.senders
        count := (addUsize_of_lt hbound).trans (congrArg (· + 1) h.count)
        few := Nat.add_le_add_right hfew 1 }

theorem dropSender_matches (h : Represents N s q) :
    Matches N s .dropSender (q.call N .dropSender) := by
  simp only [Queue.call]
  by_cases hsenders : q.senders = 0
  · rw [if_pos hsenders]
    refine fun _ _ ↦ not_callAlone_of_none ?_
    simp [Machine.alone, machine, step, Method.choice, caller, idleStep, h.senders, hsenders]
  rw [if_neg hsenders]
  have hbegun : (machine N Unit α).alone () .dropSender (s, caller α) =
      some ({ s with senders := s.senders - 1 }, (caller α).goto .dropSender) := by
    simp [Machine.alone, machine, step, caller, idleStep, h.borrows, h.senders_pos_iff.mpr hsenders,
      quiet]
  refine ⟨{ s with senders := s.senders - 1, sendersCount := subUsize s.sendersCount 1 },
    callAlone_of_reaches hbegun (.single rfl), ?_⟩
  have hsub : subUsize s.sendersCount 1 = q.senders - 1 := by
    rw [h.count, subUsize_of_le (Nat.pos_of_ne_zero hsenders) h.lt]
  have hfew : q.senders - 1 ≤ maxSenderCount + 1 := (Nat.sub_le _ _).trans h.few
  have hsenders' : s.senders - 1 = q.senders - 1 := by rw [h.senders]
  exact ⟨h.data, hsenders', hsub, hfew, h.borrows, h.receiver, h.state⟩

theorem dropReceiver_matches (h : Represents N s q) :
    Matches N s .dropReceiver (q.call N .dropReceiver) := by
  simp only [Queue.call]
  by_cases halive : q.receiverAlive = false
  · rw [if_pos halive]
    refine fun _ _ ↦ not_callAlone_of_none ?_
    simp [Machine.alone, machine, step, Method.choice, caller, idleStep, h.receiver, halive]
  rw [if_neg halive]
  rw [Bool.not_eq_false] at halive
  have hfree : s.receiver = .free := by simp [h.receiver, halive]
  have hbegun : (machine N Unit α).alone () .dropReceiver (s, caller α) =
      some ({ s with receiver := .borrowed }, (caller α).goto .dropReceiver) := by
    simp [Machine.alone, machine, step, caller, idleStep, hfree, quiet]
  exact ⟨{ s with receiverState := 0, receiver := .dropped },
    callAlone_of_reaches hbegun (.single rfl), { h with receiver := rfl, state := rfl }⟩

/-- Every call does to the channel what it does to the queue. Assumes: there are not too many
senders for a `clone`. -/
theorem call_matches (hN : PowerOfTwo N) (h : Represents N s q) (method : Method α)
    (hfew : method = .clone → q.senders ≤ maxSenderCount) :
    Matches N s method (q.call N method) := by
  cases method with
  | send message => exact send_matches hN h message
  | trySend message => exact trySend_matches hN h message
  | recv => exact recv_matches hN h
  | tryRecv => exact tryRecv_matches hN h
  | clone => exact clone_matches h (hfew rfl)
  | dropSender => exact dropSender_matches h
  | dropReceiver => exact dropReceiver_matches h

/-- A call that runs alone has one outcome. -/
theorem CallAlone.unique {s₁ s₂ : Shared α} {result₁ result₂ : Result α}
    (h₁ : CallAlone N s method s₁ result₁) (h₂ : CallAlone N s method s₂ result₂) :
    s₁ = s₂ ∧ result₁ = result₂ := by
  obtain ⟨begun₁, hbegun₁, hends₁⟩ := h₁
  obtain ⟨begun₂, hbegun₂, hends₂⟩ := h₂
  obtain rfl : begun₁ = begun₂ := Option.some.inj (hbegun₁.symm.trans hbegun₂)
  have hsame := Part.mem_unique hends₁ hends₂
  simp only [Prod.mk.injEq, Thread.mk.injEq, Option.some.injEq, true_and] at hsame
  exact hsame

end Calls

/-! ### Sequences of calls -/

/-- At most `MAX_SENDER_COUNT` senders are alive when one is cloned. -/
def FewSenders (s : Shared α) (method : Method α) : Prop :=
  method = .clone → s.senders ≤ maxSenderCount

/-- At most `MAX_SENDER_COUNT` senders are alive when one is cloned. -/
def Queue.FewSenders (q : Queue α) (method : Method α) : Prop :=
  method = .clone → q.senders ≤ maxSenderCount

variable {N : ℕ}

theorem represents_new : Represents N (new Unit α).shared (Queue.new α) where
  data := RingBuffer.holds_new
  senders := rfl
  count := rfl
  few := Nat.le_add_left 1 maxSenderCount
  borrows := rfl
  receiver := rfl
  state := rfl

/-- The channel and the bounded queue return the same results on every sequence of calls. -/
theorem channel_refines_queue (hN : PowerOfTwo N) (calls : List (Method α))
    (results : List (Result α)) :
    (∃ s, (channel N α).Runs FewSenders (new Unit α).shared calls s results) ↔
      ∃ q, (queue N α).Runs Queue.FewSenders (Queue.new α) calls q results := by
  constructor
  · rintro ⟨s, hrun⟩
    suffices hsimulated : ∃ q, (queue N α).Runs Queue.FewSenders (Queue.new α) calls q results ∧
        Represents N s q from hsimulated.imp fun _ hqueue ↦ hqueue.1
    refine hrun.simulate ?_ represents_new
    intro s q method s' result h hfew hcall
    have hfew' : q.FewSenders method := fun hclone ↦ h.senders ▸ hfew hclone
    have hmatches := call_matches hN h method hfew'
    cases houtcome : q.call N method with
    | none =>
      rw [houtcome] at hmatches
      exact absurd hcall (hmatches s' result)
    | some outcome =>
      rw [houtcome] at hmatches
      obtain ⟨s₂, hcall₂, hrelated⟩ := hmatches
      obtain ⟨rfl, rfl⟩ := hcall₂.unique hcall
      exact ⟨hfew', outcome.1, houtcome, hrelated⟩
  · rintro ⟨q, hrun⟩
    suffices hsimulated : ∃ s, (channel N α).Runs FewSenders (new Unit α).shared calls s results ∧
        Represents N s q from hsimulated.imp fun _ hchannel ↦ hchannel.1
    refine hrun.simulate (R := fun q s ↦ Represents N s q) ?_ represents_new
    intro q s method q' result h hfew hcall
    have hmatches := call_matches hN h method hfew
    rw [show q.call N method = some (q', result) from hcall] at hmatches
    exact ⟨fun hclone ↦ h.senders ▸ hfew hclone, hmatches⟩

/-- `channel_refines_queue` on calls that fill a buffer of two slots, go round it and outlive both
senders. -/
theorem channel_refines_queue_two_slots :
    ∃ s, (channel 2 ℕ).Runs FewSenders (new Unit ℕ).shared
      [.send 1, .trySend 2, .trySend 3, .recv, .clone, .send 4, .dropSender, .recv, .dropSender,
        .tryRecv, .recv, .tryRecv, .dropReceiver] s
      [.sent (.ok ()), .trySent (.ok ()), .trySent (.error (.bufferFull 3)),
        .received (.ok (some 1)), .cloned, .sent (.ok ()), .dropped, .received (.ok (some 2)),
        .dropped, .tryReceived (.ok (some 4)), .received (.error .disconnected),
        .tryReceived (.error .disconnected), .dropped] := by
  refine (channel_refines_queue ⟨1, by decide, rfl⟩ _ _).mpr ⟨⟨[], 0, false⟩, ?_⟩
  refine .cons nofun rfl (.cons nofun rfl (.cons nofun rfl (.cons nofun rfl ?_)))
  refine .cons (fun _ ↦ by decide) rfl (.cons nofun rfl (.cons nofun rfl (.cons nofun rfl ?_)))
  exact .cons nofun rfl (.cons nofun rfl (.cons nofun rfl (.cons nofun rfl
    (.cons nofun rfl .nil))))

end SyncPrimitives.Channel
