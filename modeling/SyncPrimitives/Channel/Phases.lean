import SyncPrimitives.Channel.Model
import SyncPrimitives.RingBuffer.Indices

/-!
# Phases of the channel

The results on the channel depend on where its threads are only through a few phases. `Event` lists
what one step of a thread does to the shared state and to the phase of its thread, and `step_event`
shows that every step is one of these.
-/

set_option autoImplicit false
set_option relaxedAutoImplicit false

namespace SyncPrimitives.Channel

open Concurrency Function
open RingBuffer (MaybeUninit Access Progress PushPc PopPc PushEffect PopEffect PopFailure)

variable {α : Type}

/-- The phases of a thread. A `seeking` thread is awake in `send` and has not claimed a position, a
`trying` thread is in `try_send` and has not; an `owing` thread has claimed and has yet to look at
`receiver_state`, and a `waking` thread has yet to wake the receiver. The receiver is `popping` in
`recv`, in `lastPop` when it has found no sender, `bumping` when it has a message and has yet to
wake a sender, and `storing` when it has found the buffer empty. -/
inductive Phase
  | idle
  | seeking
  | trying
  | owing
  | waking
  | sleepingSender
  | cloning
  | droppingSender
  | checking
  | popping
  | lastPop
  | tryPopping
  | tryChecking
  | bumping
  | storing
  | waiting
  | sleeping
  | droppingReceiver
  deriving DecidableEq

/-- A statement on all phases, phase by phase. -/
theorem Phase.forall {P : Phase → Prop} :
    (∀ phase, P phase) ↔ P .idle ∧ P .seeking ∧ P .trying ∧ P .owing ∧ P .waking ∧
      P .sleepingSender ∧ P .cloning ∧ P .droppingSender ∧ P .checking ∧ P .popping ∧ P .lastPop ∧
      P .tryPopping ∧ P .tryChecking ∧ P .bumping ∧ P .storing ∧ P .waiting ∧ P .sleeping ∧
      P .droppingReceiver := by
  constructor
  · intro h
    exact ⟨h _, h _, h _, h _, h _, h _, h _, h _, h _, h _, h _, h _, h _, h _, h _, h _, h _, h _⟩
  · rintro ⟨h₁, h₂, h₃, h₄, h₅, h₆, h₇, h₈, h₉, h₁₀, h₁₁, h₁₂, h₁₃, h₁₄, h₁₅, h₁₆, h₁₇, h₁₈⟩ phase
    cases phase <;> assumption

/-- The phase of a position inside `push` or `try_push`. -/
def pushPhase (unclaimed : Phase) : PushPc α → Phase
  | .write _ _ _ => .owing
  | _ => unclaimed

/-- The phase of a position after a successful push. -/
def NotifyPc.phase : NotifyPc → Phase
  | .wakeOne => .waking
  | _ => .owing

/-- The phase of a position. -/
def Call.phase : Call α → Phase
  | .idle => .idle
  | .send (.push pc) => pushPhase .seeking pc
  | .send (.notify pc) => pc.phase
  | .send (.asleep _) => .sleepingSender
  | .send _ => .seeking
  | .trySend (.loadReceiver _) => .trying
  | .trySend (.tryPush pc) => pushPhase .trying pc
  | .trySend (.notify pc) => pc.phase
  | .recv .loadSenders => .checking
  | .recv (.tryPop _) => .lastPop
  | .recv (.pop _) => .popping
  | .recv (.fetchAdd _) => .bumping
  | .recv (.wakeOne _) => .bumping
  | .recv .store => .storing
  | .recv .wait => .waiting
  | .recv .asleep => .sleeping
  | .tryRecv (.tryPop _) => .tryPopping
  | .tryRecv .loadSenders => .tryChecking
  | .clone => .cloning
  | .dropSender => .droppingSender
  | .dropReceiver => .droppingReceiver

/-- The phase of a thread. -/
def Thread.phase (th : Thread α) : Phase := th.call.phase

theorem phase_of_call {th : Thread α} {call : Call α} (hcall : th.call = call) :
    th.phase = call.phase := by
  rw [Thread.phase, hcall]

@[simp] theorem phase_goto {th : Thread α} {call : Call α} :
    (th.goto call).phase = call.phase := rfl

@[simp] theorem phase_ret {th : Thread α} {result : Result α} : (th.ret result).phase = .idle := rfl

theorem pushPhase_of_writing {unclaimed : Phase} {pc : PushPc α} (h : pc.writing = none) :
    pushPhase unclaimed pc = unclaimed := by
  cases pc with
  | write value currentHead claim => cases h
  | _ => rfl

/-- The message a thread carries from its pop to the end of its receive. -/
def Call.carried : Call α → List (MaybeUninit α)
  | .recv (.fetchAdd message) => [message]
  | .recv (.wakeOne message) => [message]
  | _ => []

/-- Whether the last finished call of a thread answered `Disconnected` to a receive. -/
def Thread.disconnected (th : Thread α) : Bool :=
  match th.result with
  | some (.received (.error .disconnected)) => true
  | some (.tryReceived (.error .disconnected)) => true
  | _ => false

/-! ### What a step does -/

/-- The buffer after a step. -/
def Shared.withData (shared : Shared α) (data : RingBuffer.Shared α) : Shared α :=
  { shared with data := data }

/-- The steps of a thread. -/
inductive Event {Tid : Type} (N : ℕ) (before : Shared α) (th : Thread α) (choice : Choice α)
    (after : Shared α) (moved : Thread α) (signal : Signal Tid Addr) : Prop
  | stay (hcarried : moved.call.carried = th.call.carried) (hafter : after = before)
      (hphase : moved.phase = th.phase) (hsignal : signal = .silent)
  | borrow (howned : 0 < before.senders) (hafter : after = before.borrow)
      (hbefore : th.phase = .idle)
      (hphase : moved.phase = .seeking ∨ moved.phase = .trying ∨ moved.phase = .cloning)
      (hsignal : signal = .silent)
  | unborrow (hafter : after = before.unborrow)
      (hbefore : th.phase = .seeking ∧ before.receiverState = 0 ∨ th.phase = .trying ∨
        th.phase = .owing ∧ before.receiverState ≠ 2)
      (hphase : moved.phase = .idle) (hsignal : signal = .silent)
  | claim (hclaiming : th.call.ring.claiming) (value : α)
      (hafter : after = before.withData (before.data.claim value))
      (hbefore : th.phase = .seeking ∨ th.phase = .trying) (hphase : moved.phase = .owing)
      (hsignal : signal = .silent)
  | write (value : α) (currentHead claim : ℕ)
      (hafter : after = before.withData (before.data.write N value currentHead claim))
      (hbefore : th.phase = .owing) (hphase : moved.phase = .owing) (hsignal : signal = .silent)
  | swap (hstate : before.receiverState = 2) (hafter : after = { before with receiverState := 1 })
      (hbefore : th.phase = .owing) (hphase : moved.phase = .waking) (hsignal : signal = .silent)
  | wakeReceiver (hafter : after = before.unborrow) (hbefore : th.phase = .waking)
      (hphase : moved.phase = .idle) (hsignal : signal = .wakeOne .receiverState)
  | sleepSender (hcall : ∃ message, th.call = .send (.wait message before.senderWaitNum))
      (hchoice : choice = .access .go) (hafter : after = before) (hbefore : th.phase = .seeking)
      (hphase : moved.phase = .sleepingSender) (hsignal : signal = .silent)
  | returnSender (hafter : after = before) (hbefore : th.phase = .sleepingSender)
      (hphase : moved.phase = .seeking) (hsignal : signal = .silent)
  | takeReceiver (hfree : before.receiver = .free)
      (hafter : after = { before with receiver := .borrowed }) (hbefore : th.phase = .idle)
      (hphase : moved.phase = .checking ∨ moved.phase = .tryPopping ∨
        moved.phase = .droppingReceiver)
      (hsignal : signal = .silent)
  | startPop (hcount : before.sendersCount ≠ 0) (hafter : after = before)
      (hbefore : th.phase = .checking) (hphase : moved.phase = .popping)
      (hsignal : signal = .silent)
  | startLastPop (hcount : before.sendersCount = 0) (hafter : after = before)
      (hbefore : th.phase = .checking) (hphase : moved.phase = .lastPop)
      (hsignal : signal = .silent)
  | popNone (hcall : th.call = .recv (.pop (.loadHead before.data.head))) (hafter : after = before)
      (hbefore : th.phase = .popping) (hphase : moved.phase = .storing) (hsignal : signal = .silent)
  | release (value : MaybeUninit α) (hholding : th.call.ring.holding)
      (hcarried : moved.call.carried = [value])
      (hafter : after = before.withData (before.data.release value))
      (hbefore : th.phase = .popping) (hphase : moved.phase = .bumping) (hsignal : signal = .silent)
  | lastRelease (value : MaybeUninit α) (hholding : th.call.ring.holding)
      (hchoice : choice = .access .go) (hresult : ¬ moved.disconnected)
      (hafter : after = (before.withData (before.data.release value)).deliver value)
      (hbefore : th.phase = .lastPop) (hphase : moved.phase = .idle) (hsignal : signal = .silent)
  | lastNone (pc : PopPc α) (access : Access) (hcall : th.call = .recv (.tryPop pc))
      (hchoice : choice = .access access) (hfailure : PopFailure false before.data access pc)
      (hafter : after = before.freeReceiver) (hbefore : th.phase = .lastPop)
      (hphase : moved.phase = .idle) (hsignal : signal = .silent)
  | tryRelease (value : MaybeUninit α) (hholding : th.call.ring.holding)
      (hchoice : choice = .access .go) (hresult : ¬ moved.disconnected)
      (hafter : after = (before.withData (before.data.release value)).deliver value)
      (hbefore : th.phase = .tryPopping) (hphase : moved.phase = .idle) (hsignal : signal = .silent)
  | tryNone (hafter : after = before) (hbefore : th.phase = .tryPopping)
      (hphase : moved.phase = .tryChecking) (hsignal : signal = .silent)
  | tryAnswer (hresult : moved.disconnected → before.sendersCount = 0)
      (hafter : after = before.freeReceiver) (hbefore : th.phase = .tryChecking)
      (hphase : moved.phase = .idle) (hsignal : signal = .silent)
  | bump (hcarried : moved.call.carried = th.call.carried)
      (hafter : after = { before with senderWaitNum := addU32 before.senderWaitNum 1 })
      (hbefore : th.phase = .bumping) (hphase : moved.phase = .bumping) (hsignal : signal = .silent)
  | wakeSender (value : MaybeUninit α) (hcarried : th.call.carried = [value])
      (hafter : after = before.deliver value) (hbefore : th.phase = .bumping)
      (hphase : moved.phase = .idle) (hsignal : signal = .wakeOne .senderWaitNum)
  | store (hafter : after = { before with receiverState := 2 }) (hbefore : th.phase = .storing)
      (hphase : moved.phase = .waiting) (hsignal : signal = .silent)
  | fallAsleep (hstate : before.receiverState = 2) (hafter : after = before)
      (hbefore : th.phase = .waiting) (hphase : moved.phase = .sleeping)
      (hsignal : signal = .silent)
  | awake (hafter : after = before) (hbefore : th.phase = .waiting ∨ th.phase = .sleeping)
      (hphase : moved.phase = .checking) (hsignal : signal = .silent)
  | cloned (hcount : before.sendersCount ≤ maxSenderCount)
      (hafter : after = { before.unborrow with
        sendersCount := addUsize before.sendersCount 1, senders := before.senders + 1 })
      (hbefore : th.phase = .cloning) (hphase : moved.phase = .idle) (hsignal : signal = .silent)
  | clonePanicked
      (hafter : after = { before.unborrow with sendersCount := addUsize before.sendersCount 1 })
      (hbefore : th.phase = .cloning) (hphase : moved.phase = .idle) (hsignal : signal = .silent)
  | takeSender (hspare : min before.borrows 1 < before.senders)
      (hafter : after = { before with senders := before.senders - 1 }) (hbefore : th.phase = .idle)
      (hphase : moved.phase = .droppingSender) (hsignal : signal = .silent)
  | dropSender (hafter : after = { before with sendersCount := subUsize before.sendersCount 1 })
      (hbefore : th.phase = .droppingSender) (hphase : moved.phase = .idle)
      (hsignal : signal = .silent)
  | dropReceiver (hafter : after = { before with receiverState := 0, receiver := .dropped })
      (hbefore : th.phase = .droppingReceiver) (hphase : moved.phase = .idle)
      (hsignal : signal = .silent)

section Steps

variable {Tid : Type} {N : ℕ} {before after : Shared α} {th moved : Thread α}
  {signal : Signal Tid Addr} {choice : Choice α} {access : Access}

theorem quiet_eq_some :
    quiet before th = some (after, moved, signal) ↔
      before = after ∧ th = moved ∧ .silent = signal := by
  simp [quiet]

theorem notifyStep_event {position : NotifyPc → Call α} {result : Result α} {pc : NotifyPc}
    (hposition : position = (fun pc ↦ .send (.notify pc)) ∨
      position = fun pc ↦ .trySend (.notify pc))
    (hcall : th.call = position pc)
    (h : notifyStep before th position result pc access = some (after, moved, signal)) :
    Event N before th choice after moved signal := by
  have hphase (pc : NotifyPc) : (position pc).phase = pc.phase := by
    rcases hposition with rfl | rfl <;> rfl
  have hcarried (pc : NotifyPc) : (position pc).carried = [] := by
    rcases hposition with rfl | rfl <;> rfl
  have hbefore := (phase_of_call hcall).trans (hphase pc)
  cases pc <;> cases access <;> simp only [notifyStep, reduceCtorEq] at h
  case load.go =>
    split_ifs at h with hstate
    all_goals obtain ⟨rfl, rfl, rfl⟩ := quiet_eq_some.mp h
    · exact .unborrow rfl (.inr (.inr ⟨hbefore, by rw [hstate]; decide⟩)) rfl rfl
    · exact .stay ((hcarried _).trans (by rw [hcall, hcarried])) rfl
        ((hphase _).trans hbefore.symm) rfl
  case compareExchange.go =>
    split_ifs at h with hstate
    all_goals obtain ⟨rfl, rfl, rfl⟩ := quiet_eq_some.mp h
    · exact .swap hstate rfl hbefore (hphase _) rfl
    · exact .unborrow rfl (.inr (.inr ⟨hbefore, hstate⟩)) rfl rfl
  case wakeOne.go =>
    obtain ⟨rfl, rfl, rfl⟩ := by simpa using h
    exact .wakeReceiver rfl hbefore rfl rfl

theorem sendStep_event {pc : SendPc α} (hcall : th.call = .send pc)
    (hchoice : choice = .access access)
    (h : sendStep N before th pc access = some (after, moved, signal)) :
    Event N before th choice after moved signal := by
  have hbefore := phase_of_call hcall
  cases pc with
  | loadReceiver message =>
    cases access <;> simp only [sendStep, reduceCtorEq] at h
    case go =>
      split_ifs at h with hstate
      all_goals obtain ⟨rfl, rfl, rfl⟩ := quiet_eq_some.mp h
      · exact .unborrow rfl (.inl ⟨hbefore, hstate⟩) rfl rfl
      · exact .stay (by rw [hcall]; rfl) rfl hbefore.symm rfl
  | push pc =>
    simp only [sendStep] at h
    obtain ⟨⟨data, progress⟩, hpush, heq⟩ := Option.map_eq_some_iff.mp h
    obtain ⟨rfl, rfl, rfl⟩ := by simpa using heq
    cases RingBuffer.pushWith_effect hpush with
    | @goOn pc' hnone hafter =>
      refine .stay (by rw [hcall]; rfl) rfl ?_ rfl
      rw [hbefore]
      exact (pushPhase_of_writing hafter).trans (pushPhase_of_writing hnone).symm
    | fail hnone =>
      exact .stay (by rw [hcall]; rfl) rfl (hbefore.trans (pushPhase_of_writing hnone)).symm rfl
    | claim hpc =>
      subst hpc
      exact .claim (by rw [hcall]; rfl) _ rfl (.inl hbefore) rfl rfl
    | write hpc =>
      subst hpc
      exact .write _ _ _ rfl hbefore rfl rfl
  | notify pc =>
    simp only [sendStep] at h
    exact notifyStep_event (.inl rfl) hcall h
  | loadWaitNum message =>
    cases access <;> simp only [sendStep, reduceCtorEq] at h
    case go =>
      obtain ⟨rfl, rfl, rfl⟩ := quiet_eq_some.mp h
      exact .stay (by rw [hcall]; rfl) rfl hbefore.symm rfl
  | wait message senderWaitNum =>
    cases access <;> simp only [sendStep] at h
    case go =>
      split_ifs at h with hsame
      all_goals obtain ⟨rfl, rfl, rfl⟩ := quiet_eq_some.mp h
      · exact .sleepSender ⟨message, by rw [hsame]; exact hcall⟩ hchoice rfl hbefore rfl rfl
      · exact .stay (by rw [hcall]; rfl) rfl hbefore.symm rfl
    case spurious =>
      obtain ⟨rfl, rfl, rfl⟩ := quiet_eq_some.mp h
      exact .stay (by rw [hcall]; rfl) rfl hbefore.symm rfl
  | asleep message =>
    cases access <;> simp only [sendStep, reduceCtorEq] at h
    case spurious =>
      obtain ⟨rfl, rfl, rfl⟩ := quiet_eq_some.mp h
      exact .returnSender rfl hbefore rfl rfl

theorem trySendStep_event {pc : TrySendPc α} (hcall : th.call = .trySend pc)
    (h : trySendStep N before th pc access = some (after, moved, signal)) :
    Event N before th choice after moved signal := by
  have hbefore := phase_of_call hcall
  cases pc with
  | loadReceiver message =>
    cases access <;> simp only [trySendStep, reduceCtorEq] at h
    case go =>
      split_ifs at h with hstate
      all_goals obtain ⟨rfl, rfl, rfl⟩ := quiet_eq_some.mp h
      · exact .unborrow rfl (.inr (.inl hbefore)) rfl rfl
      · exact .stay (by rw [hcall]; rfl) rfl hbefore.symm rfl
  | tryPush pc =>
    simp only [trySendStep] at h
    obtain ⟨⟨data, progress⟩, hpush, heq⟩ := Option.map_eq_some_iff.mp h
    cases RingBuffer.pushWith_effect hpush with
    | @goOn pc' hnone hafter =>
      obtain ⟨rfl, rfl, rfl⟩ := by simpa using heq
      refine .stay (by rw [hcall]; rfl) rfl ?_ rfl
      rw [hbefore]
      exact (pushPhase_of_writing hafter).trans (pushPhase_of_writing hnone).symm
    | fail hnone =>
      obtain ⟨rfl, rfl, rfl⟩ := by simpa using heq
      exact .unborrow rfl (.inr (.inl (hbefore.trans (pushPhase_of_writing hnone)))) rfl rfl
    | claim hpc =>
      obtain ⟨rfl, rfl, rfl⟩ := by simpa using heq
      subst hpc
      exact .claim (by rw [hcall]; rfl) _ rfl (.inr hbefore) rfl rfl
    | write hpc =>
      obtain ⟨rfl, rfl, rfl⟩ := by simpa using heq
      subst hpc
      exact .write _ _ _ rfl hbefore rfl rfl
  | notify pc =>
    simp only [trySendStep] at h
    exact notifyStep_event (.inr rfl) hcall h

theorem recvStep_event {pc : RecvPc α} (hcall : th.call = .recv pc)
    (hchoice : choice = .access access)
    (h : recvStep N before th pc access = some (after, moved, signal)) :
    Event N before th choice after moved signal := by
  have hbefore := phase_of_call hcall
  cases pc with
  | loadSenders =>
    cases access <;> simp only [recvStep, reduceCtorEq] at h
    case go =>
      split_ifs at h with hcount
      all_goals obtain ⟨rfl, rfl, rfl⟩ := quiet_eq_some.mp h
      · exact .startLastPop hcount rfl hbefore rfl rfl
      · exact .startPop hcount rfl hbefore rfl rfl
  | tryPop pc =>
    simp only [recvStep] at h
    obtain ⟨⟨data, progress⟩, hpop, heq⟩ := Option.map_eq_some_iff.mp h
    cases RingBuffer.popWith_effect hpop with
    | goOn hafter =>
      obtain ⟨rfl, rfl, rfl⟩ := by simpa using heq
      exact .stay (by rw [hcall]; rfl) rfl hbefore.symm rfl
    | fail hfailure =>
      obtain ⟨rfl, rfl, rfl⟩ := by simpa using heq
      exact .lastNone pc access hcall hchoice hfailure rfl hbefore rfl rfl
    | read hpc =>
      obtain ⟨rfl, rfl, rfl⟩ := by simpa using heq
      exact .stay (by rw [hcall]; rfl) rfl hbefore.symm rfl
    | @release value hpc haccess =>
      obtain ⟨rfl, rfl, rfl⟩ := by simpa using heq
      subst hpc haccess
      refine .lastRelease value (by rw [hcall]; rfl) hchoice ?_ rfl hbefore rfl rfl
      simp [Thread.disconnected, Thread.ret]
  | pop pc =>
    simp only [recvStep] at h
    obtain ⟨⟨data, progress⟩, hpop, heq⟩ := Option.map_eq_some_iff.mp h
    obtain ⟨rfl, rfl, rfl⟩ := by simpa using heq
    cases RingBuffer.popWith_effect hpop with
    | goOn hafter => exact .stay (by rw [hcall]; rfl) rfl hbefore.symm rfl
    | fail hfailure =>
      cases hfailure with
      | empty => exact .popNone hcall rfl hbefore rfl rfl
      | contended hretry hfailed => cases hretry
    | read hpc => exact .stay (by rw [hcall]; rfl) rfl hbefore.symm rfl
    | release hpc haccess =>
      subst hpc
      exact .release _ (by rw [hcall]; rfl) rfl rfl hbefore rfl rfl
  | fetchAdd message =>
    cases access <;> simp only [recvStep, reduceCtorEq] at h
    case go =>
      obtain ⟨rfl, rfl, rfl⟩ := quiet_eq_some.mp h
      exact .bump (by rw [hcall]; rfl) rfl hbefore rfl rfl
  | wakeOne message =>
    cases access <;> simp only [recvStep, reduceCtorEq] at h
    case go =>
      obtain ⟨rfl, rfl, rfl⟩ := by simpa using h
      exact .wakeSender message (by rw [hcall]; rfl) rfl hbefore rfl rfl
  | store =>
    cases access <;> simp only [recvStep, reduceCtorEq] at h
    case go =>
      obtain ⟨rfl, rfl, rfl⟩ := quiet_eq_some.mp h
      exact .store rfl hbefore rfl rfl
  | wait =>
    cases access <;> simp only [recvStep] at h
    case go =>
      split_ifs at h with hstate
      all_goals obtain ⟨rfl, rfl, rfl⟩ := quiet_eq_some.mp h
      · exact .fallAsleep hstate rfl hbefore rfl rfl
      · exact .awake rfl (.inl hbefore) rfl rfl
    case spurious =>
      obtain ⟨rfl, rfl, rfl⟩ := quiet_eq_some.mp h
      exact .awake rfl (.inl hbefore) rfl rfl
  | asleep =>
    cases access <;> simp only [recvStep, reduceCtorEq] at h
    case spurious =>
      obtain ⟨rfl, rfl, rfl⟩ := quiet_eq_some.mp h
      exact .awake rfl (.inr hbefore) rfl rfl

theorem tryRecvStep_event {pc : TryRecvPc α} (hcall : th.call = .tryRecv pc)
    (hchoice : choice = .access access)
    (h : tryRecvStep N before th pc access = some (after, moved, signal)) :
    Event N before th choice after moved signal := by
  have hbefore := phase_of_call hcall
  cases pc with
  | tryPop pc =>
    simp only [tryRecvStep] at h
    obtain ⟨⟨data, progress⟩, hpop, heq⟩ := Option.map_eq_some_iff.mp h
    cases RingBuffer.popWith_effect hpop with
    | goOn hafter =>
      obtain ⟨rfl, rfl, rfl⟩ := by simpa using heq
      exact .stay (by rw [hcall]; rfl) rfl hbefore.symm rfl
    | fail hfailure =>
      obtain ⟨rfl, rfl, rfl⟩ := by simpa using heq
      exact .tryNone rfl hbefore rfl rfl
    | read hpc =>
      obtain ⟨rfl, rfl, rfl⟩ := by simpa using heq
      exact .stay (by rw [hcall]; rfl) rfl hbefore.symm rfl
    | @release value hpc haccess =>
      obtain ⟨rfl, rfl, rfl⟩ := by simpa using heq
      subst hpc haccess
      refine .tryRelease value (by rw [hcall]; rfl) hchoice ?_ rfl hbefore rfl rfl
      simp [Thread.disconnected, Thread.ret]
  | loadSenders =>
    cases access <;> simp only [tryRecvStep, reduceCtorEq] at h
    case go =>
      obtain ⟨rfl, rfl, rfl⟩ := quiet_eq_some.mp h
      refine .tryAnswer ?_ rfl hbefore rfl rfl
      split_ifs with hcount
      · exact fun _ ↦ hcount
      · simp [Thread.disconnected, Thread.ret]

theorem idleStep_event (hcall : th.call = .idle)
    (h : idleStep before th choice = some (after, moved, signal)) :
    Event N before th choice after moved signal := by
  have hbefore := phase_of_call hcall
  cases choice with
  | access access => cases h
  | _ =>
    simp only [idleStep] at h
    split_ifs at h with henabled
    obtain ⟨rfl, rfl, rfl⟩ := quiet_eq_some.mp h
    first
      | exact .borrow henabled rfl hbefore (by simp [Call.phase]) rfl
      | exact .takeSender henabled rfl hbefore rfl rfl
      | exact .takeReceiver henabled rfl hbefore (by simp [Call.phase]) rfl

/-- Every step of a thread is one of the events. -/
theorem step_event (h : step N before th choice = some (after, moved, signal)) :
    Event N before th choice after moved signal := by
  unfold step at h
  split at h
  case h_1 hcall => exact idleStep_event hcall h
  case h_2 hcall => exact sendStep_event hcall rfl h
  case h_3 hcall => exact trySendStep_event hcall h
  case h_4 hcall => exact recvStep_event hcall rfl h
  case h_5 hcall => exact tryRecvStep_event hcall rfl h
  case h_6 access hcall =>
    cases access <;> simp only [cloneStep, reduceCtorEq] at h
    case go =>
      split_ifs at h with hcount
      all_goals obtain ⟨rfl, rfl, rfl⟩ := quiet_eq_some.mp h
      · exact .cloned hcount rfl (phase_of_call hcall) rfl rfl
      · exact .clonePanicked rfl (phase_of_call hcall) rfl rfl
  case h_7 access hcall =>
    cases access <;> simp only [dropSenderStep, reduceCtorEq] at h
    case go =>
      obtain ⟨rfl, rfl, rfl⟩ := quiet_eq_some.mp h
      exact .dropSender rfl (phase_of_call hcall) rfl rfl
  case h_8 access hcall =>
    cases access <;> simp only [dropReceiverStep, reduceCtorEq] at h
    case go =>
      obtain ⟨rfl, rfl, rfl⟩ := quiet_eq_some.mp h
      exact .dropReceiver rfl (phase_of_call hcall) rfl rfl
  case h_9 => cases h

end Steps

end SyncPrimitives.Channel
