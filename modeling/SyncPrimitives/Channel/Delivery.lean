import SyncPrimitives.Channel.Disconnection
import SyncPrimitives.RingBuffer.Destruction

/-!
# Every message is delivered once, in the order of its sender

`withHistory` records what the callers of `send` and `try_send` see: the message of the call in
progress, and for every call that has returned its message and the message handed back, if any.
Under the conditions on the buffer there is one order of all messages that have claimed a position
(`delivered_in_order`). Each sender finds its accepted messages in it in the order of its calls.
What has been received is the start of it, then come the message in the hands of the receiver and at
most `N` messages in the buffer. So no message is lost, made up or received twice, and no message
overtakes another one of its sender.

`Passage` lists what a step does to the message of its thread, and `Attributed` relates the claims
to the history.
-/

set_option autoImplicit false
set_option relaxedAutoImplicit false

namespace SyncPrimitives.Channel

open Concurrency Function
open RingBuffer (MaybeUninit Access Progress PushPc PopPc)

variable {Tid α : Type}

/-! ### The message of a call -/

/-- What a thread has to do with `send` and `try_send`: nothing, or it offers a message that has not
claimed a position, or the message has. -/
inductive Stance (α : Type)
  | outside
  | offering (message : α)
  | claimed

/-- The stance of a position inside `push` or `try_push`. -/
def pushStance : PushPc α → Stance α
  | .loadTail value => .offering value
  | .loadHead value _ => .offering value
  | .compareExchange value _ => .offering value
  | .write _ _ _ => .claimed

/-- The stance of a position. -/
def Call.stance : Call α → Stance α
  | .send (.loadReceiver message) => .offering message
  | .send (.push pc) => pushStance pc
  | .send (.notify _) => .claimed
  | .send (.loadWaitNum message) => .offering message
  | .send (.wait message _) => .offering message
  | .send (.asleep message) => .offering message
  | .trySend (.loadReceiver message) => .offering message
  | .trySend (.tryPush pc) => pushStance pc
  | .trySend (.notify _) => .claimed
  | _ => .outside

/-- The message that a choice gives to `send` or `try_send`. -/
def Choice.offer : Choice α → Option α
  | .send message => some message
  | .trySend message => some message
  | _ => none

/-- The message that comes back in an error. -/
def Result.handedBack : Result α → Option α
  | .sent (.error (.disconnected message)) => some message
  | .trySent (.error (.bufferFull message)) => some message
  | .trySent (.error (.disconnected message)) => some message
  | _ => none

/-- What the last call of a thread has handed back. -/
def Thread.handedBack (th : Thread α) : Option α := th.result.bind Result.handedBack

/-- What a step does to the message of its thread. -/
inductive Passage (before : Shared α) (th : Thread α) (choice : Choice α) (after : Shared α)
    (moved : Thread α) : Prop
  | keep (hoffer : choice.offer = none) (hstance : moved.call.stance = th.call.stance)
      (hclaimed : after.data.claimed = before.data.claimed)
  | start (message : α) (hoffer : choice.offer = some message)
      (hbefore : th.call.stance = .outside) (hafter : moved.call.stance = .offering message)
      (hclaimed : after.data.claimed = before.data.claimed)
  | claim (message : α) (hoffer : choice.offer = none)
      (hbefore : th.call.stance = .offering message) (hafter : moved.call.stance = .claimed)
      (hclaimed : after.data.claimed = before.data.claimed ++ [(before.data.head, message)])
  | accept (hoffer : choice.offer = none) (hbefore : th.call.stance = .claimed)
      (hafter : moved.call.stance = .outside) (hback : moved.handedBack = none)
      (hclaimed : after.data.claimed = before.data.claimed)
  | refuse (message : α) (hoffer : choice.offer = none)
      (hbefore : th.call.stance = .offering message) (hafter : moved.call.stance = .outside)
      (hback : moved.handedBack = some message)
      (hclaimed : after.data.claimed = before.data.claimed)

/-- What an access of a push does to its value. -/
inductive PushPassage (before : RingBuffer.Shared α) (pc : PushPc α) :
    RingBuffer.Shared α → Progress (PushPc α) (Except α Unit) → Prop
  | keep {after : RingBuffer.Shared α} {pc' : PushPc α} (hstance : pushStance pc' = pushStance pc)
      (hclaimed : after.claimed = before.claimed) : PushPassage before pc after (.running pc')
  | claim {after : RingBuffer.Shared α} {pc' : PushPc α} (value : α)
      (hbefore : pushStance pc = .offering value) (hafter : pushStance pc' = .claimed)
      (hclaimed : after.claimed = before.claimed ++ [(before.head, value)]) :
      PushPassage before pc after (.running pc')
  | accept {after : RingBuffer.Shared α} (hbefore : pushStance pc = .claimed)
      (hclaimed : after.claimed = before.claimed) : PushPassage before pc after (.returned (.ok ()))
  | refuse {after : RingBuffer.Shared α} (value : α) (hbefore : pushStance pc = .offering value)
      (hclaimed : after.claimed = before.claimed) :
      PushPassage before pc after (.returned (.error value))

section Steps

variable {N : ℕ} {before after : Shared α} {th moved : Thread α} {signal : Signal Tid Addr}
  {choice : Choice α} {access : Access}

@[simp] theorem stance_goto {call : Call α} : (th.goto call).call.stance = call.stance := rfl

@[simp] theorem stance_ret {result : Result α} : (th.ret result).call.stance = .outside := rfl

/-- An access of a push keeps the value, claims a position for it, or returns. -/
theorem pushWith_passage {s s' : RingBuffer.Shared α} {retry : Bool} {pc : PushPc α}
    {progress : Progress (PushPc α) (Except α Unit)}
    (h : RingBuffer.pushWith N s retry pc access = some (s', progress)) :
    PushPassage s pc s' progress := by
  have hfailed (value : α) (hpc : pushStance pc = .offering value) :
      PushPassage s pc s (RingBuffer.pushWith.failed retry value) := by
    unfold RingBuffer.pushWith.failed
    split_ifs
    · exact .keep hpc.symm rfl
    · exact .refuse value hpc rfl
  cases pc <;> cases access <;> simp only [RingBuffer.pushWith, reduceCtorEq] at h
  case loadTail.go value =>
    obtain ⟨rfl, rfl⟩ := by simpa using h
    exact .keep rfl rfl
  case loadHead.go value currentTail =>
    split_ifs at h
    all_goals obtain ⟨rfl, rfl⟩ := by simpa using h
    · exact .refuse value rfl rfl
    · exact .keep rfl rfl
  case compareExchange.go value currentHead =>
    split_ifs at h with hsame
    all_goals obtain ⟨rfl, rfl⟩ := by simpa using h
    · exact .claim value rfl rfl (by rw [hsame])
    · exact hfailed value rfl
  case compareExchange.spurious value currentHead =>
    obtain ⟨rfl, rfl⟩ := by simpa using h
    exact hfailed value rfl
  case write.go =>
    obtain ⟨rfl, rfl⟩ := by simpa using h
    exact .accept rfl rfl

/-- A pop claims nothing. -/
theorem popWith_claimed {s s' : RingBuffer.Shared α} {slot : ℕ → ℕ} {retry : Bool} {pc : PopPc α}
    {progress : Progress (PopPc α) (Option (MaybeUninit α))}
    (h : RingBuffer.popWith s slot retry pc access = some (s', progress)) :
    s'.claimed = s.claimed := by
  cases RingBuffer.popWith_effect h <;> rfl

theorem notifyStep_passage {position : NotifyPc → Call α} {result : Result α} {pc : NotifyPc}
    (hoffer : choice.offer = none) (hposition : ∀ pc, (position pc).stance = .claimed)
    (hresult : result.handedBack = none) (hcall : th.call = position pc)
    (h : notifyStep before th position result pc access = some (after, moved, signal)) :
    Passage before th choice after moved := by
  have hbefore : th.call.stance = .claimed := by rw [hcall, hposition]
  cases pc <;> cases access <;> simp only [notifyStep, reduceCtorEq] at h
  case load.go =>
    split_ifs at h
    all_goals obtain ⟨rfl, rfl, -⟩ := quiet_eq_some.mp h
    · exact .accept hoffer hbefore rfl hresult rfl
    · exact .keep hoffer ((hposition _).trans hbefore.symm) rfl
  case compareExchange.go =>
    split_ifs at h
    all_goals obtain ⟨rfl, rfl, -⟩ := quiet_eq_some.mp h
    · exact .keep hoffer ((hposition _).trans hbefore.symm) rfl
    · exact .accept hoffer hbefore rfl hresult rfl
  case wakeOne.go =>
    obtain ⟨rfl, rfl, -⟩ := by simpa using h
    exact .accept hoffer hbefore rfl hresult rfl

theorem sendStep_passage {pc : SendPc α} (hoffer : choice.offer = none) (hcall : th.call = .send pc)
    (h : sendStep N before th pc access = some (after, moved, signal)) :
    Passage before th choice after moved := by
  have hbefore : th.call.stance = (Call.send pc).stance := by rw [hcall]
  cases pc with
  | loadReceiver message =>
    cases access <;> simp only [sendStep, reduceCtorEq] at h
    case go =>
      split_ifs at h
      all_goals obtain ⟨rfl, rfl, -⟩ := quiet_eq_some.mp h
      · exact .refuse message hoffer hbefore rfl rfl rfl
      · exact .keep hoffer hbefore.symm rfl
  | push pc =>
    simp only [sendStep] at h
    obtain ⟨⟨data, progress⟩, hpush, heq⟩ := Option.map_eq_some_iff.mp h
    obtain ⟨rfl, rfl, -⟩ := by simpa using heq
    cases pushWith_passage hpush with
    | keep hstance hclaimed => exact .keep hoffer (hstance.trans hbefore.symm) hclaimed
    | claim value hpc hafter hclaimed =>
      exact .claim value hoffer (hbefore.trans hpc) hafter hclaimed
    | accept hpc hclaimed => exact .keep hoffer (hbefore.trans hpc).symm hclaimed
    | refuse value hpc hclaimed => exact .keep hoffer (hbefore.trans hpc).symm hclaimed
  | notify pc =>
    simp only [sendStep] at h
    exact notifyStep_passage hoffer (fun _ ↦ rfl) rfl hcall h
  | _ =>
    cases access <;> simp only [sendStep, reduceCtorEq] at h
    all_goals
      try split_ifs at h
      all_goals
        obtain ⟨rfl, rfl, -⟩ := quiet_eq_some.mp h
        exact .keep hoffer hbefore.symm rfl

theorem trySendStep_passage {pc : TrySendPc α} (hoffer : choice.offer = none)
    (hcall : th.call = .trySend pc)
    (h : trySendStep N before th pc access = some (after, moved, signal)) :
    Passage before th choice after moved := by
  have hbefore : th.call.stance = (Call.trySend pc).stance := by rw [hcall]
  cases pc with
  | loadReceiver message =>
    cases access <;> simp only [trySendStep, reduceCtorEq] at h
    case go =>
      split_ifs at h
      all_goals obtain ⟨rfl, rfl, -⟩ := quiet_eq_some.mp h
      · exact .refuse message hoffer hbefore rfl rfl rfl
      · exact .keep hoffer hbefore.symm rfl
  | tryPush pc =>
    simp only [trySendStep] at h
    obtain ⟨⟨data, progress⟩, hpush, heq⟩ := Option.map_eq_some_iff.mp h
    cases pushWith_passage hpush with
    | keep hstance hclaimed =>
      obtain ⟨rfl, rfl, -⟩ := by simpa using heq
      exact .keep hoffer (hstance.trans hbefore.symm) hclaimed
    | claim value hpc hafter hclaimed =>
      obtain ⟨rfl, rfl, -⟩ := by simpa using heq
      exact .claim value hoffer (hbefore.trans hpc) hafter hclaimed
    | accept hpc hclaimed =>
      obtain ⟨rfl, rfl, -⟩ := by simpa using heq
      exact .keep hoffer (hbefore.trans hpc).symm hclaimed
    | refuse value hpc hclaimed =>
      obtain ⟨rfl, rfl, -⟩ := by simpa using heq
      exact .refuse value hoffer (hbefore.trans hpc) rfl rfl hclaimed
  | notify pc =>
    simp only [trySendStep] at h
    exact notifyStep_passage hoffer (fun _ ↦ rfl) rfl hcall h

theorem recvStep_passage {pc : RecvPc α} (hoffer : choice.offer = none) (hcall : th.call = .recv pc)
    (h : recvStep N before th pc access = some (after, moved, signal)) :
    Passage before th choice after moved := by
  have hbefore : th.call.stance = .outside := by rw [hcall]; rfl
  cases pc with
  | tryPop pc =>
    simp only [recvStep] at h
    obtain ⟨⟨data, progress⟩, hpop, heq⟩ := Option.map_eq_some_iff.mp h
    have hclaimed := popWith_claimed hpop
    rcases progress with pc | (_ | message)
    all_goals
      obtain ⟨rfl, rfl, -⟩ := by simpa using heq
      exact .keep hoffer hbefore.symm hclaimed
  | pop pc =>
    simp only [recvStep] at h
    obtain ⟨⟨data, progress⟩, hpop, heq⟩ := Option.map_eq_some_iff.mp h
    obtain ⟨rfl, rfl, -⟩ := by simpa using heq
    exact .keep hoffer hbefore.symm (popWith_claimed hpop)
  | wakeOne message =>
    cases access <;> simp only [recvStep, reduceCtorEq] at h
    case go =>
      obtain ⟨rfl, rfl, -⟩ := by simpa using h
      exact .keep hoffer hbefore.symm rfl
  | _ =>
    cases access <;> simp only [recvStep, reduceCtorEq] at h
    all_goals
      try split_ifs at h
      all_goals
        obtain ⟨rfl, rfl, -⟩ := quiet_eq_some.mp h
        exact .keep hoffer hbefore.symm rfl

theorem tryRecvStep_passage {pc : TryRecvPc α} (hoffer : choice.offer = none)
    (hcall : th.call = .tryRecv pc)
    (h : tryRecvStep N before th pc access = some (after, moved, signal)) :
    Passage before th choice after moved := by
  have hbefore : th.call.stance = .outside := by rw [hcall]; rfl
  cases pc with
  | tryPop pc =>
    simp only [tryRecvStep] at h
    obtain ⟨⟨data, progress⟩, hpop, heq⟩ := Option.map_eq_some_iff.mp h
    have hclaimed := popWith_claimed hpop
    rcases progress with pc | (_ | message)
    all_goals
      obtain ⟨rfl, rfl, -⟩ := by simpa using heq
      exact .keep hoffer hbefore.symm hclaimed
  | loadSenders =>
    cases access <;> simp only [tryRecvStep, reduceCtorEq] at h
    case go =>
      obtain ⟨rfl, rfl, -⟩ := quiet_eq_some.mp h
      exact .keep hoffer hbefore.symm rfl

theorem idleStep_passage (hcall : th.call = .idle)
    (h : idleStep before th choice = some (after, moved, signal)) :
    Passage before th choice after moved := by
  have hbefore : th.call.stance = .outside := by rw [hcall]; rfl
  cases choice with
  | access access => cases h
  | send message | trySend message =>
    simp only [idleStep] at h
    split_ifs at h
    obtain ⟨rfl, rfl, -⟩ := quiet_eq_some.mp h
    exact .start message rfl hbefore rfl rfl
  | _ =>
    simp only [idleStep] at h
    split_ifs at h
    obtain ⟨rfl, rfl, -⟩ := quiet_eq_some.mp h
    exact .keep rfl hbefore.symm rfl

/-- Every step of a thread does one of these to its message. -/
theorem step_passage (h : step N before th choice = some (after, moved, signal)) :
    Passage before th choice after moved := by
  unfold step at h
  split at h
  case h_1 hcall => exact idleStep_passage hcall h
  case h_2 hcall => exact sendStep_passage rfl hcall h
  case h_3 hcall => exact trySendStep_passage rfl hcall h
  case h_4 hcall => exact recvStep_passage rfl hcall h
  case h_5 hcall => exact tryRecvStep_passage rfl hcall h
  case h_6 access hcall =>
    cases access <;> simp only [cloneStep, reduceCtorEq] at h
    case go =>
      split_ifs at h
      all_goals
        obtain ⟨rfl, rfl, -⟩ := quiet_eq_some.mp h
        exact .keep rfl (by rw [hcall]; rfl) rfl
  case h_7 access hcall =>
    cases access <;> simp only [dropSenderStep, reduceCtorEq] at h
    case go =>
      obtain ⟨rfl, rfl, -⟩ := quiet_eq_some.mp h
      exact .keep rfl (by rw [hcall]; rfl) rfl
  case h_8 access hcall =>
    cases access <;> simp only [dropReceiverStep, reduceCtorEq] at h
    case go =>
      obtain ⟨rfl, rfl, -⟩ := quiet_eq_some.mp h
      exact .keep rfl (by rw [hcall]; rfl) rfl
  case h_9 => cases h

/-- A wake-up leaves a sender with its message. -/
theorem stance_wake : (wake th).call.stance = th.call.stance := by
  unfold wake
  split
  case h_3 => rfl
  all_goals
    rename_i hcall
    rw [hcall]
    rfl

theorem handedBack_wake : (wake th).handedBack = th.handedBack := by
  unfold wake
  split <;> rfl

end Steps

/-! ### What the senders see -/

/-- A call of `send` or `try_send` that has returned. -/
structure Sent (Tid α : Type) where
  sender : Tid
  message : α
  handedBack : Option α

/-- The message of the call of every thread, and the calls that have returned. -/
structure History (Tid α : Type) where
  current : Tid → Option α
  returned : List (Sent Tid α)

/-- The messages of a sender in a list of messages with their senders. -/
def messagesOf [DecidableEq Tid] (t : Tid) (order : List (Tid × α)) : List α :=
  (order.filter (·.1 = t)).map Prod.snd

theorem messagesOf_concat [DecidableEq Tid] {t u : Tid} {order : List (Tid × α)} {message : α} :
    messagesOf t (order ++ [(u, message)]) =
      messagesOf t order ++ if u = t then [message] else [] := by
  unfold messagesOf
  by_cases hu : u = t <;> simp [hu]

namespace History

variable [DecidableEq Tid] (history : History Tid α)

/-- The messages of a sender whose calls have returned `Ok`. -/
def accepted (t : Tid) : List α :=
  (history.returned.filter fun call ↦ call.sender = t ∧ call.handedBack.isNone).map Sent.message

/-- A call begins. -/
def begin (t : Tid) (message : α) : History Tid α :=
  { history with current := update history.current t (some message) }

/-- A call returns. -/
def finish (t : Tid) (message : α) (handedBack : Option α) : History Tid α where
  current := update history.current t none
  returned := history.returned ++ [⟨t, message, handedBack⟩]

/-- The history after a step. -/
def note (_ : Pool Tid (Shared α) (Thread α)) (label : Label Tid (Choice α))
    (p' : Pool Tid (Shared α) (Thread α)) : History Tid α :=
  match label.choice.offer, history.current label.thread, (p'.threads label.thread).call.stance with
  | some message, _, _ => history.begin label.thread message
  | none, some message, .outside =>
    history.finish label.thread message (p'.threads label.thread).handedBack
  | none, _, _ => history

section Note

variable {history} {p p' : Pool Tid (Shared α) (Thread α)} {label : Label Tid (Choice α)}
  {message : α}

theorem note_of_offer (hoffer : label.choice.offer = some message) :
    history.note p label p' = history.begin label.thread message := by
  simp [note, hoffer]

theorem note_of_outside (hoffer : label.choice.offer = none)
    (hcurrent : history.current label.thread = none) : history.note p label p' = history := by
  simp [note, hoffer, hcurrent]

theorem note_of_inside (hoffer : label.choice.offer = none)
    (hinside : (p'.threads label.thread).call.stance ≠ .outside) :
    history.note p label p' = history := by
  unfold note
  rw [hoffer]
  split
  case h_1 hsome => cases hsome
  case h_2 houtside => exact absurd houtside hinside
  case h_3 => rfl

theorem note_of_return (hoffer : label.choice.offer = none)
    (hcurrent : history.current label.thread = some message)
    (houtside : (p'.threads label.thread).call.stance = .outside) :
    history.note p label p' =
      history.finish label.thread message (p'.threads label.thread).handedBack := by
  simp [note, hoffer, hcurrent, houtside]

end Note

theorem accepted_finish {t u : Tid} {message : α} {handedBack : Option α} :
    (history.finish u message handedBack).accepted t =
      history.accepted t ++ if u = t ∧ handedBack.isNone then [message] else [] := by
  unfold finish accepted
  by_cases hu : u = t
  · cases handedBack <;> simp [hu]
  · simp [hu]

end History

/-- The channel with the history of its senders. -/
def withHistory (N : ℕ) (Tid α : Type) [DecidableEq Tid] [Fintype Tid] :
    System (Pool Tid (Shared α) (Thread α) × History Tid α) (Label Tid (Choice α)) :=
  (system N Tid α).recording ⟨fun _ ↦ none, []⟩ History.note

/-! ### The claims and the history -/

/-- What a sender at a stance finds in the order of the claims: its accepted messages, and then the
message of its call if that has claimed a position. -/
def Stance.Finds (current : Option α) (accepted ordered : List α) : Stance α → Prop
  | .outside => current = none ∧ ordered = accepted
  | .offering message => current = some message ∧ ordered = accepted
  | .claimed => ∃ message, current = some message ∧ ordered = accepted ++ [message]

/-- The claims are those of an order of messages with their senders. -/
structure Attributed [DecidableEq Tid] (order : List (Tid × α)) (claimed : List (ℕ × α))
    (stance : Tid → Stance α) (history : History Tid α) : Prop where
  claims : order.map Prod.snd = claimed.map Prod.snd
  sender : ∀ t, (stance t).Finds (history.current t) (history.accepted t) (messagesOf t order)
  handedBack : ∀ call ∈ history.returned,
    call.handedBack = none ∨ call.handedBack = some call.message

section Attribution

variable [DecidableEq Tid] {t : Tid} {order order' : List (Tid × α)} {claimed : List (ℕ × α)}
  {stance : Tid → Stance α} {next : Stance α} {history history' : History Tid α} {message : α}

/-- A step of one sender leaves what the others find. -/
theorem Attributed.sender_update (h : Attributed order claimed stance history)
    (hself : next.Finds (history'.current t) (history'.accepted t) (messagesOf t order'))
    (hcurrent : ∀ u, u ≠ t → history'.current u = history.current u)
    (haccepted : ∀ u, u ≠ t → history'.accepted u = history.accepted u)
    (hordered : ∀ u, u ≠ t → messagesOf u order' = messagesOf u order) (u : Tid) :
    (update stance t next u).Finds (history'.current u) (history'.accepted u)
      (messagesOf u order') := by
  by_cases hu : u = t
  · rw [hu, update_self]
    exact hself
  · rw [update_of_ne hu, hcurrent u hu, haccepted u hu, hordered u hu]
    exact h.sender u

/-- A call begins. -/
theorem Attributed.begin (h : Attributed order claimed stance history)
    (hbefore : stance t = .outside) :
    Attributed order claimed (update stance t (.offering message)) (history.begin t message) := by
  have hfound := h.sender t
  rw [hbefore] at hfound
  refine { h with sender := h.sender_update ⟨update_self .., hfound.2⟩ ?_ ?_ ?_ }
  · exact fun u hu ↦ update_of_ne hu ..
  · exact fun _ _ ↦ rfl
  · exact fun _ _ ↦ rfl

/-- A message claims a position. -/
theorem Attributed.claim (h : Attributed order claimed stance history)
    (hbefore : stance t = .offering message) (position : ℕ) :
    Attributed (order ++ [(t, message)]) (claimed ++ [(position, message)])
      (update stance t .claimed) history := by
  have hfound := h.sender t
  rw [hbefore] at hfound
  refine { h with claims := ?claims, sender := h.sender_update ⟨message, hfound.1, ?_⟩ ?_ ?_ ?_ }
  case claims => rw [List.map_append, List.map_append, h.claims]; rfl
  · rw [messagesOf_concat, if_pos rfl, hfound.2]
  · exact fun _ _ ↦ rfl
  · exact fun _ _ ↦ rfl
  · intro u hu
    rw [messagesOf_concat, if_neg (Ne.symm hu), List.append_nil]

/-- A call returns. -/
theorem Attributed.finish (h : Attributed order claimed stance history) {handedBack : Option α}
    (hordered : messagesOf t order = (history.finish t message handedBack).accepted t)
    (hback : handedBack = none ∨ handedBack = some message) :
    Attributed order claimed (update stance t .outside) (history.finish t message handedBack) := by
  refine { h with
    sender := h.sender_update ⟨update_self .., hordered⟩ ?_ ?_ fun _ _ ↦ rfl
    handedBack := ?handedBack }
  case handedBack =>
    intro call hcall
    rcases List.mem_append.mp hcall with hcall | hcall
    · exact h.handedBack call hcall
    · rw [List.mem_singleton.mp hcall]
      exact hback
  · exact fun u hu ↦ update_of_ne hu ..
  · intro u hu
    rw [History.accepted_finish, if_neg fun hself ↦ hu hself.1.symm, List.append_nil]

end Attribution

section Runs

variable [DecidableEq Tid] [Fintype Tid] {N : ℕ}
  {x x' : Pool Tid (Shared α) (Thread α) × History Tid α} {label : Label Tid (Choice α)}

/-- The stance of every thread. -/
def stances (p : Pool Tid (Shared α) (Thread α)) (t : Tid) : Stance α := (p.threads t).call.stance

/-- One step keeps the attribution, and orders the message that it claims a position for. -/
theorem attributed_step {order : List (Tid × α)}
    (h : Attributed order x.1.shared.data.claimed (stances x.1) x.2)
    (hmove : (withHistory N Tid α).step x label = some x') :
    ∃ order', Attributed order' x'.1.shared.data.claimed (stances x'.1) x'.2 := by
  obtain ⟨hstep, hnote⟩ := System.recording_step hmove
  obtain ⟨moved, signal, hlocal, hdelivered⟩ := Machine.step_cases hstep
  have hstances : stances x'.1 = update (stances x.1) label.thread moved.call.stance :=
    hdelivered.comp_eq (g := fun th ↦ th.call.stance) (fun _ ↦ stance_wake) fun _ ↦ rfl
  have hself : (x'.1.threads label.thread).call.stance = moved.call.stance :=
    (congrFun hstances label.thread).trans (update_self ..)
  have hback : (x'.1.threads label.thread).handedBack = moved.handedBack :=
    (congrFun (hdelivered.comp_eq (g := Thread.handedBack) (fun _ ↦ handedBack_wake) fun _ ↦ rfl)
      label.thread).trans (update_self ..)
  have hfound := h.sender label.thread
  rw [hnote, hstances]
  cases step_passage hlocal with
  | keep hoffer hstance hclaimed =>
    have hsame : x.2.note x.1 label x'.1 = x.2 := by
      by_cases hinside : moved.call.stance = .outside
      · refine History.note_of_outside hoffer ?_
        rw [show stances x.1 label.thread = .outside from hstance.symm.trans hinside] at hfound
        exact hfound.1
      · exact History.note_of_inside hoffer (hself ▸ hinside)
    rw [hsame, hclaimed, hstance]
    refine ⟨order, ?_⟩
    rwa [show update (stances x.1) label.thread (x.1.threads label.thread).call.stance =
      stances x.1 from update_eq_self label.thread (stances x.1)]
  | start message hoffer hbefore hafter hclaimed =>
    rw [History.note_of_offer hoffer, hclaimed, hafter]
    exact ⟨order, h.begin hbefore⟩
  | claim message hoffer hbefore hafter hclaimed =>
    have hinside : (x'.1.threads label.thread).call.stance ≠ .outside := by
      rw [hself, hafter]
      exact fun houtside ↦ by cases houtside
    rw [History.note_of_inside hoffer hinside, hclaimed, hafter]
    exact ⟨_, h.claim hbefore _⟩
  | accept hoffer hbefore hafter hnone hclaimed =>
    rw [show stances x.1 label.thread = .claimed from hbefore] at hfound
    obtain ⟨message, hcurrent, hordered⟩ := hfound
    rw [History.note_of_return hoffer hcurrent (hself.trans hafter), hclaimed, hafter, hback, hnone]
    refine ⟨order, h.finish ?_ (.inl rfl)⟩
    rw [History.accepted_finish, if_pos ⟨rfl, rfl⟩, hordered]
  | refuse message hoffer hbefore hafter hsome hclaimed =>
    rw [show stances x.1 label.thread = .offering message from hbefore] at hfound
    obtain ⟨hcurrent, hordered⟩ := hfound
    rw [History.note_of_return hoffer hcurrent (hself.trans hafter), hclaimed, hafter, hback, hsome]
    refine ⟨order, h.finish ?_ (.inr rfl)⟩
    rw [History.accepted_finish, if_neg fun hnone ↦ Bool.false_ne_true hnone.2, hordered,
      List.append_nil]

/-- In every run there is an order of the claims in which each sender finds its messages. -/
theorem attributed {ok : Pool Tid (Shared α) (Thread α) → Label Tid (Choice α) → Prop}
    (h : (withHistory N Tid α).ReachableWhen (fun x label ↦ ok x.1 label) x) :
    ∃ order, Attributed order x.1.shared.data.claimed (stances x.1) x.2 := by
  refine h.invariant (P := fun x : Pool Tid (Shared α) (Thread α) × History Tid α ↦
    ∃ order, Attributed order x.1.shared.data.claimed (stances x.1) x.2) ?_ ?_
  · exact ⟨[], rfl, fun _ ↦ ⟨rfl, rfl⟩, fun _ hcall ↦ by cases hcall⟩
  · rintro x label x' - ⟨order, hattributed⟩ - hmove
    exact attributed_step hattributed hmove

/-! ### The messages received -/

/-- The conditions on the buffer: there is room to claim, and a slot is written before it is
read. -/
def DeliveryCondition (N : ℕ) (p : Pool Tid (Shared α) (Thread α))
    (label : Label Tid (Choice α)) : Prop :=
  RoomToClaim N p label ∧ ReadPublished p label

instance (p : Pool Tid (Shared α) (Thread α)) (label : Label Tid (Choice α)) :
    Decidable (DeliveryCondition N p label) :=
  inferInstanceAs (Decidable (_ ∧ _))

/-- The messages in the order of their claims are those received, the one in the hands of the
receiver, and those waiting in the buffer. Each sender finds in this order its accepted messages,
and then the one of its call if that has claimed a position. An error hands back the message of the
call. -/
structure InOrder (N : ℕ) (p : Pool Tid (Shared α) (Thread α)) (history : History Tid α)
    (order : List (Tid × α)) (taken hand waiting : List α) : Prop where
  sender : ∀ t, (stances p t).Finds (history.current t) (history.accepted t) (messagesOf t order)
  handedBack : ∀ call ∈ history.returned,
    call.handedBack = none ∨ call.handedBack = some call.message
  split : order.map Prod.snd = taken ++ hand ++ waiting
  received : p.shared.received = taken.map some
  carried : hand = [] ∨ ∃ t, (p.threads t).call.carried = hand.map some
  room : waiting.length ≤ N
  empty : p.shared.data.head = p.shared.data.tail → waiting = []

omit [DecidableEq Tid] [Fintype Tid] in
/-- What has been popped has been received, or is in the hands of the receiver. -/
theorem Delivering.split {p : Pool Tid (Shared α) (Thread α)} (h : Delivering p) {popped : List α}
    (hpopped : p.shared.data.popped.map Prod.snd = popped.map some) :
    ∃ taken hand, popped = taken ++ hand ∧ p.shared.received = taken.map some ∧
      (hand = [] ∨ ∃ t, (p.threads t).call.carried = hand.map some) := by
  by_cases hsettled : ∀ t, (p.threads t).phase ≠ .bumping
  · refine ⟨popped, [], (List.append_nil _).symm, ?_, .inl rfl⟩
    rw [← h.settled hsettled, hpopped]
  · obtain ⟨t, ht⟩ := not_forall_not.mp hsettled
    have hsplit := h.carried t ht
    rw [hpopped] at hsplit
    obtain ⟨taken, hand, rfl, htaken, hhand⟩ := List.map_eq_append_iff.mp hsplit
    exact ⟨taken, hand, rfl, htaken.symm, .inr ⟨t, hhand.symm⟩⟩

/-- In every run under the conditions on the buffer every accepted message is received once, in the
order of its sender, or is still in the buffer or in the hands of the receiver, and nothing else is
received. -/
theorem delivered_in_order (hN : RingBuffer.PowerOfTwo N)
    (h : (withHistory N Tid α).ReachableWhen (fun x label ↦ DeliveryCondition N x.1 label) x) :
    ∃ order taken hand waiting, InOrder N x.1 x.2 order taken hand waiting := by
  have hrun : (system N Tid α).ReachableWhen (DeliveryCondition N) x.1 := h.of_recording
  have hbounded := bounded_of_run hN.lt (fun _ _ hmeets ↦ hmeets.1) hrun
  have hconsistent := consistent_of_run hN (fun _ _ hmeets ↦ hmeets.1) (fun _ _ hmeets ↦ hmeets.2)
    hrun
  obtain ⟨order, hattributed⟩ := attributed h
  -- the oldest claims are those that have been popped
  have hpopped : x.1.shared.data.popped.map Prod.snd =
      ((x.1.shared.data.claimed.take x.1.shared.data.popped.length).map Prod.snd).map some := by
    rw [hconsistent.popped_eq hbounded.indexed, List.map_map]
    rfl
  obtain ⟨taken, hand, hsplit, hreceived, hcarried⟩ := (delivering hrun).split hpopped
  refine ⟨order, taken, hand,
    (x.1.shared.data.claimed.drop x.1.shared.data.popped.length).map Prod.snd, {
    sender := hattributed.sender
    handedBack := hattributed.handedBack
    split := ?split
    received := hreceived
    carried := hcarried
    room := ?room
    empty := ?empty }⟩
  case split =>
    rw [hattributed.claims, ← hsplit, ← List.map_append, List.take_append_drop]
  case room =>
    have hroom := hbounded.room
    rw [List.length_map, List.length_drop]
    omega
  case empty =>
    intro hempty
    have hlength := hbounded.length_eq hN.lt hempty
    rw [← hlength, List.drop_length, List.map_nil]

/-- `delivered_in_order` on a run in which thread 1 sends 7 and thread 0 sends 5 through a buffer of
two slots, thread 1 is handed back 8 and sends it again when thread 2 has received a message, and
thread 2 receives the others. -/
theorem delivered_in_order_two_senders :
    ∃ x : Pool (Fin 3) (Shared ℕ) (Thread ℕ) × History (Fin 3) ℕ,
      (x.1.shared.received = [some 7, some 5, some 8] ∧
        x.2.accepted 0 = [5] ∧ x.2.accepted 1 = [7, 8] ∧
        x.2.returned.map Sent.handedBack = [none, none, some 8, none]) ∧
      ∃ order taken hand waiting, InOrder 2 x.1 x.2 order taken hand waiting := by
  obtain ⟨x, hrun, hx⟩ := System.exists_reachableWhen_of_exec
    (M := withHistory 2 (Fin 3) ℕ) (fun x label ↦ DeliveryCondition 2 x.1 label)
    (P := fun x ↦ x.1.shared.received = [some 7, some 5, some 8] ∧
      x.2.accepted 0 = [5] ∧ x.2.accepted 1 = [7, 8] ∧
      x.2.returned.map Sent.handedBack = [none, none, some 8, none])
    ([⟨1, .send 7, none⟩] ++ List.replicate 6 ⟨1, .access .go, none⟩ ++
      [⟨0, .send 5, none⟩] ++ List.replicate 6 ⟨0, .access .go, none⟩ ++
      [⟨1, .trySend 8, none⟩] ++ List.replicate 3 ⟨1, .access .go, none⟩ ++
      [⟨2, .recv, none⟩] ++ List.replicate 7 ⟨2, .access .go, none⟩ ++
      [⟨1, .trySend 8, none⟩] ++ List.replicate 6 ⟨1, .access .go, none⟩ ++
      [⟨2, .recv, none⟩] ++ List.replicate 7 ⟨2, .access .go, none⟩ ++
      [⟨2, .tryRecv, none⟩] ++ List.replicate 4 ⟨2, .access .go, none⟩) (by decide +kernel)
  exact ⟨x, hx, delivered_in_order ⟨1, by decide, rfl⟩ hrun⟩

end Runs

end SyncPrimitives.Channel
