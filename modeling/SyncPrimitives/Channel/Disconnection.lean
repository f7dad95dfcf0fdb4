import SyncPrimitives.Channel.Buffer

/-!
# What `Disconnected` says

`recv` and `try_recv` answer `Disconnected` after two looks, one at `senders_count` and one at the
buffer. `try_recv` looks at the buffer first, so a message can be sent and its `Sender` dropped
between the two looks: `message_lost` is such a run. `recv` looks at the buffer last, but `try_pop`
also returns `None` when its compare-and-exchange fails spuriously. Under `DisconnectCondition`
every `Disconnected` is final: no `Sender` is left, and every message sent has been received
(`disconnected_truthful`).

`Delivering` says that the values popped are those received, with the one that a `recv` carries, and
`Final` is what holds from the first `Disconnected` on.
-/

set_option autoImplicit false
set_option relaxedAutoImplicit false

namespace SyncPrimitives.Channel

open Concurrency Function
open RingBuffer (MaybeUninit Access Progress PopFailure)

variable {Tid α : Type}

/-- No `Sender` is left and no operation on one is in progress, and the value of every push that has
returned `Ok` has been received. -/
structure Truthful (p : Pool Tid (Shared α) (Thread α)) : Prop where
  noSender : p.shared.senders = 0
  noCall : ∀ t, (p.threads t).call.usesSender = false
  received : ∀ i ∈ p.shared.data.pushed, ∃ position value,
    p.shared.data.claimed[i]? = some (position, value) ∧
      p.shared.received[i]? = some (some value)

/-- Thread 0 finds the buffer empty in `try_recv`; thread 1 sends a message and drops the only
`Sender`; thread 0 loads `senders_count`. -/
def lostRun : List (Label (Fin 2) (Choice ℕ)) :=
  [⟨0, .tryRecv, none⟩] ++ List.replicate 2 ⟨0, .access .go, none⟩ ++
    [⟨1, .send 7, none⟩] ++ List.replicate 6 ⟨1, .access .go, none⟩ ++
    [⟨1, .dropSender, none⟩, ⟨1, .access .go, none⟩, ⟨0, .access .go, none⟩]

/-- One sender and one receiver reach a state in which `try_recv` has answered `Disconnected` and a
message sent has not been received. -/
theorem message_lost :
    ∃ p : Pool (Fin 2) (Shared ℕ) (Thread ℕ), (system 2 (Fin 2) ℕ).Reachable p ∧
      ∃ t, (p.threads t).disconnected ∧ ¬ Truthful p := by
  obtain ⟨p, hrun, hpushed, hreceived, hresult⟩ := System.exists_reachableWhen_of_exec
    (M := system 2 (Fin 2) ℕ) (fun _ _ ↦ True)
    (P := fun p ↦ p.shared.data.pushed = [0] ∧ p.shared.received = [] ∧
      (p.threads 0).disconnected)
    lostRun (by decide)
  refine ⟨p, hrun, 0, hresult, fun htruthful ↦ ?_⟩
  obtain ⟨position, value, -, hvalue⟩ := htruthful.received 0 (by simp [hpushed])
  rw [hreceived] at hvalue
  cases hvalue

/-! ### Answers other than `Disconnected` -/

section Steps

variable {N : ℕ} {before after : Shared α} {th moved : Thread α} {signal : Signal Tid Addr}
  {choice : Choice α} {access : Access}

@[simp] theorem disconnected_goto {call : Call α} : (th.goto call).disconnected = th.disconnected :=
  rfl

theorem disconnected_wake : (wake th).disconnected = th.disconnected := by
  unfold wake
  split <;> rfl

theorem notifyStep_disconnected {position : NotifyPc → Call α} {result : Result α} {pc : NotifyPc}
    (hresult : (th.ret result).disconnected = false)
    (h : notifyStep before th position result pc access = some (after, moved, signal))
    (hmoved : moved.disconnected) : th.disconnected := by
  cases pc <;> cases access <;> simp only [notifyStep, reduceCtorEq] at h
  case wakeOne.go =>
    obtain ⟨rfl, rfl, rfl⟩ := by simpa using h
    simp [hresult] at hmoved
  all_goals
    split_ifs at h
    all_goals
      obtain ⟨rfl, rfl, rfl⟩ := quiet_eq_some.mp h
      first | exact hmoved | exact absurd hmoved (by simp [hresult])

theorem sendStep_disconnected {pc : SendPc α}
    (h : sendStep N before th pc access = some (after, moved, signal))
    (hmoved : moved.disconnected) : th.disconnected := by
  cases pc with
  | push pc =>
    simp only [sendStep] at h
    obtain ⟨⟨data, progress⟩, -, heq⟩ := Option.map_eq_some_iff.mp h
    obtain ⟨rfl, rfl, rfl⟩ := by simpa using heq
    exact hmoved
  | notify pc =>
    simp only [sendStep] at h
    exact notifyStep_disconnected rfl h hmoved
  | _ =>
    cases access <;> simp only [sendStep, reduceCtorEq] at h
    all_goals
      try split_ifs at h
      all_goals
        obtain ⟨rfl, rfl, rfl⟩ := quiet_eq_some.mp h
        first | exact hmoved | cases hmoved

theorem trySendStep_disconnected {pc : TrySendPc α}
    (h : trySendStep N before th pc access = some (after, moved, signal))
    (hmoved : moved.disconnected) : th.disconnected := by
  cases pc with
  | loadReceiver message =>
    cases access <;> simp only [trySendStep, reduceCtorEq] at h
    case go =>
      split_ifs at h
      all_goals obtain ⟨rfl, rfl, rfl⟩ := quiet_eq_some.mp h
      · cases hmoved
      · exact hmoved
  | tryPush pc =>
    simp only [trySendStep] at h
    obtain ⟨⟨data, progress⟩, -, heq⟩ := Option.map_eq_some_iff.mp h
    rcases progress with pc | (message | ⟨⟩)
    all_goals obtain ⟨rfl, rfl, rfl⟩ := by simpa using heq
    · exact hmoved
    · cases hmoved
    · exact hmoved
  | notify pc =>
    simp only [trySendStep] at h
    exact notifyStep_disconnected rfl h hmoved

theorem recvStep_disconnected {pc : RecvPc α} (hcall : th.call = .recv pc)
    (h : recvStep N before th pc access = some (after, moved, signal))
    (hmoved : moved.disconnected) :
    th.disconnected ∨ th.phase = .lastPop ∧ moved.phase = .idle := by
  cases pc with
  | tryPop pc =>
    simp only [recvStep] at h
    obtain ⟨⟨data, progress⟩, -, heq⟩ := Option.map_eq_some_iff.mp h
    rcases progress with pc | (_ | message)
    all_goals obtain ⟨rfl, rfl, rfl⟩ := by simpa using heq
    · exact .inl hmoved
    · exact .inr ⟨phase_of_call hcall, rfl⟩
    · cases hmoved
  | pop pc =>
    simp only [recvStep] at h
    obtain ⟨⟨data, progress⟩, -, heq⟩ := Option.map_eq_some_iff.mp h
    obtain ⟨rfl, rfl, rfl⟩ := by simpa using heq
    exact .inl hmoved
  | wakeOne message =>
    cases access <;> simp only [recvStep, reduceCtorEq] at h
    case go =>
      obtain ⟨rfl, rfl, rfl⟩ := by simpa using h
      cases hmoved
  | _ =>
    cases access <;> simp only [recvStep, reduceCtorEq] at h
    all_goals
      try split_ifs at h
      all_goals
        obtain ⟨rfl, rfl, rfl⟩ := quiet_eq_some.mp h
        exact .inl hmoved

theorem tryRecvStep_disconnected {pc : TryRecvPc α} (hcall : th.call = .tryRecv pc)
    (h : tryRecvStep N before th pc access = some (after, moved, signal))
    (hmoved : moved.disconnected) :
    th.disconnected ∨ th.phase = .tryChecking ∧ moved.phase = .idle := by
  cases pc with
  | tryPop pc =>
    simp only [tryRecvStep] at h
    obtain ⟨⟨data, progress⟩, -, heq⟩ := Option.map_eq_some_iff.mp h
    rcases progress with pc | (_ | message)
    all_goals obtain ⟨rfl, rfl, rfl⟩ := by simpa using heq
    · exact .inl hmoved
    · exact .inl hmoved
    · cases hmoved
  | loadSenders =>
    cases access <;> simp only [tryRecvStep, reduceCtorEq] at h
    case go =>
      obtain ⟨rfl, rfl, rfl⟩ := quiet_eq_some.mp h
      exact .inr ⟨phase_of_call hcall, rfl⟩

theorem idleStep_disconnected (h : idleStep before th choice = some (after, moved, signal))
    (hmoved : moved.disconnected) : th.disconnected := by
  cases choice with
  | access access => cases h
  | _ =>
    simp only [idleStep] at h
    split_ifs at h
    obtain ⟨rfl, rfl, rfl⟩ := quiet_eq_some.mp h
    exact hmoved

/-- A thread answers `Disconnected` only at the last step of `recv` or of `try_recv`. -/
theorem step_disconnected (h : step N before th choice = some (after, moved, signal))
    (hmoved : moved.disconnected) :
    th.disconnected ∨ (th.phase = .lastPop ∨ th.phase = .tryChecking) ∧ moved.phase = .idle := by
  unfold step at h
  split at h
  case h_1 hcall => exact .inl (idleStep_disconnected h hmoved)
  case h_2 hcall => exact .inl (sendStep_disconnected h hmoved)
  case h_3 hcall => exact .inl (trySendStep_disconnected h hmoved)
  case h_4 hcall => exact (recvStep_disconnected hcall h hmoved).imp_right (.imp_left .inl)
  case h_5 hcall => exact (tryRecvStep_disconnected hcall h hmoved).imp_right (.imp_left .inr)
  case h_6 access hcall =>
    cases access <;> simp only [cloneStep, reduceCtorEq] at h
    case go =>
      split_ifs at h
      all_goals
        obtain ⟨rfl, rfl, rfl⟩ := quiet_eq_some.mp h
        cases hmoved
  case h_7 access hcall =>
    cases access <;> simp only [dropSenderStep, reduceCtorEq] at h
    case go =>
      obtain ⟨rfl, rfl, rfl⟩ := quiet_eq_some.mp h
      cases hmoved
  case h_8 access hcall =>
    cases access <;> simp only [dropReceiverStep, reduceCtorEq] at h
    case go =>
      obtain ⟨rfl, rfl, rfl⟩ := quiet_eq_some.mp h
      cases hmoved
  case h_9 => cases h

end Steps

/-! ### The values received -/

section Pool

variable [DecidableEq Tid] [Fintype Tid] {N : ℕ} {p p' : Pool Tid (Shared α) (Thread α)}
  {label : Label Tid (Choice α)}

/-- The values popped are those received, in this order, and then the one that a `recv` carries. -/
structure Delivering (p : Pool Tid (Shared α) (Thread α)) : Prop where
  settled : (∀ t, (p.threads t).phase ≠ .bumping) →
    p.shared.data.popped.map Prod.snd = p.shared.received
  carried : ∀ t, (p.threads t).phase = .bumping →
    p.shared.data.popped.map Prod.snd = p.shared.received ++ (p.threads t).call.carried

section Delivery

variable {signal : Signal Tid Addr} {t : Tid} {moved : Thread α}

omit [Fintype Tid] in
/-- A thread that carries a message is not woken. -/
theorem eq_of_bumping
    (hdelivered : (machine N Tid α).Delivered signal (update p.threads t moved)
      p'.threads) {u : Tid}
    (h : (p'.threads u).phase = .bumping ∨ (update p.threads t moved u).phase = .bumping) :
    p'.threads u = update p.threads t moved u := by
  rcases hdelivered.thread u with heq | ⟨addr, hasleep, heq⟩ | heq
  · exact heq
  · rw [heq] at h
    cases addr with
    | senderWaitNum =>
      have hphase := asleepOn_senderWaitNum_iff.mp hasleep
      have hwoken : ((machine N Tid α).wake (update p.threads t moved u)).phase = .seeking :=
        phase_wake_sender hphase
      simp [hphase, hwoken] at h
    | receiverState =>
      have hphase := asleepOn_receiverState_iff.mp hasleep
      have hwoken : ((machine N Tid α).wake (update p.threads t moved u)).phase = .checking :=
        phase_wake_receiver hphase
      simp [hphase, hwoken] at h
  · exact heq

omit [Fintype Tid] in
/-- A thread other than the one that moves carries a message after the step exactly when it did
before. -/
theorem bumping_of_ne
    (hdelivered : (machine N Tid α).Delivered signal (update p.threads t moved)
      p'.threads) {u : Tid}
    (hne : u ≠ t) (h : (p'.threads u).phase = .bumping ∨ (p.threads u).phase = .bumping) :
    p'.threads u = p.threads u := by
  have hmid : update p.threads t moved u = p.threads u := update_of_ne hne _ _
  rw [eq_of_bumping hdelivered (h.imp_right fun hu ↦ by rw [hmid]; exact hu), hmid]

omit [Fintype Tid] in
/-- A step that neither pops nor returns a value, and whose thread carries what it carried
before. -/
theorem delivering_of_quiet (h : Delivering p)
    (hdelivered : (machine N Tid α).Delivered signal (update p.threads t moved) p'.threads)
    (hpopped : p'.shared.data.popped = p.shared.data.popped)
    (hreceived : p'.shared.received = p.shared.received)
    (hphase : moved.phase = .bumping ↔ (p.threads t).phase = .bumping)
    (hcarried : (p.threads t).phase = .bumping →
      moved.call.carried = (p.threads t).call.carried) : Delivering p' := by
  have hself (hmoved : moved.phase = .bumping) : p'.threads t = moved := by
    have heq := eq_of_bumping (u := t) hdelivered (.inr (by rw [update_self]; exact hmoved))
    rw [heq, update_self]
  constructor
  case settled =>
    intro hnone
    rw [hpopped, hreceived]
    refine h.settled fun u hu ↦ ?_
    by_cases hut : u = t
    · subst hut
      have hmoved := hphase.mpr hu
      exact hnone u (by rw [hself hmoved]; exact hmoved)
    · exact hnone u (by rw [bumping_of_ne hdelivered hut (.inr hu)]; exact hu)
  case carried =>
    intro u hu
    rw [hpopped, hreceived]
    by_cases hut : u = t
    · subst hut
      have heq := eq_of_bumping hdelivered (.inl hu)
      rw [update_self] at heq
      rw [heq] at hu ⊢
      rw [hcarried (hphase.mp hu)]
      exact h.carried u (hphase.mp hu)
    · have heq := bumping_of_ne hdelivered hut (.inl hu)
      rw [heq] at hu ⊢
      exact h.carried u hu

omit [DecidableEq Tid] in
/-- The values popped are those received, while another call on the `Receiver` is in progress. -/
theorem Delivering.eq_received (h : Delivering p) (hh : Handled p.shared p.threads)
    (hone : (p.threads t).phase.receiving = 1) (hnot : (p.threads t).phase ≠ .bumping) :
    p.shared.data.popped.map Prod.snd = p.shared.received := by
  refine h.settled fun u hu ↦ hnot ?_
  rw [← hh.eq_of_receiving hone (u := u) (by rw [hu]; rfl)]
  exact hu

/-- After a step of the thread that has the `Receiver`, nobody else carries a message. -/
theorem eq_of_receiving_bumping (hh : Handled p.shared p.threads)
    (hdelivered : (machine N Tid α).Delivered signal (update p.threads t moved) p'.threads)
    (hone : (p.threads t).phase.receiving = 1) {u : Tid} (hu : (p'.threads u).phase = .bumping) :
    u = t := by
  by_contra hne
  rw [bumping_of_ne hdelivered hne (.inl hu)] at hu
  exact hne (hh.eq_of_receiving hone (by rw [hu]; rfl))

end Delivery

/-- One step keeps the invariant. -/
theorem delivering_step (hh : Handled p.shared p.threads) (h : Delivering p)
    (hmove : (system N Tid α).step p label = some p') : Delivering p' := by
  obtain ⟨moved, signal, hevent, hdelivered⟩ := pool_event hmove
  cases hevent
  case stay hcarried hafter hphase hsignal =>
    exact delivering_of_quiet h hdelivered (by rw [hafter]) (by rw [hafter]) (by rw [hphase])
      fun _ ↦ hcarried
  case bump hcarried hafter hbefore hphase hsignal =>
    exact delivering_of_quiet h hdelivered (by rw [hafter]) (by rw [hafter])
      (by rw [hphase, hbefore]) fun _ ↦ hcarried
  case release value hholding hcarried hafter hbefore hphase hsignal =>
    have hreceived := h.eq_received hh (t := label.thread) (by rw [hbefore]; rfl)
      (by simp [hbefore])
    have hself : p'.threads label.thread = moved := by
      rw [eq_of_bumping hdelivered (.inr (by rw [update_self]; exact hphase)), update_self]
    refine ⟨fun hnone ↦ absurd hphase (hself ▸ hnone label.thread), fun u hu ↦ ?_⟩
    rw [eq_of_receiving_bumping hh hdelivered (by rw [hbefore]; rfl) hu, hself, hcarried, hafter]
    simp only [Shared.withData, RingBuffer.Shared.release, List.map_append, hreceived]
    rfl
  case wakeSender value hcarried hafter hbefore hphase hsignal =>
    have hvalue := h.carried label.thread hbefore
    rw [hcarried] at hvalue
    refine ⟨fun _ ↦ by rw [hafter]; exact hvalue, fun u hu ↦ ?_⟩
    have hut := eq_of_receiving_bumping hh hdelivered (by rw [hbefore]; rfl) hu
    have heq := eq_of_bumping hdelivered (.inl hu)
    rw [hut, update_self] at heq
    rw [hut, heq, hphase] at hu
    cases hu
  case lastRelease | tryRelease =>
    rename_i value _ _ _ hafter hbefore hphase hsignal
    have hreceived := h.eq_received hh (t := label.thread) (by rw [hbefore]; rfl)
      (by simp [hbefore])
    refine ⟨fun _ ↦ ?_, fun u hu ↦ ?_⟩
    · rw [hafter]
      simp only [Shared.withData, Shared.deliver, Shared.freeReceiver, RingBuffer.Shared.release,
        List.map_append, hreceived]
      rfl
    · have hut := eq_of_receiving_bumping hh hdelivered (by rw [hbefore]; rfl) hu
      have heq := eq_of_bumping hdelivered (.inl hu)
      rw [hut, update_self] at heq
      rw [hut, heq, hphase] at hu
      cases hu
  -- the other steps neither pop nor return a value, and their threads carry nothing
  all_goals
    rename_i hafter hbefore hphase hsignal
    have hnot : (p.threads label.thread).phase ≠ .bumping := fun h ↦ by simp [h] at hbefore
    have hnot' : moved.phase ≠ .bumping := fun h ↦ by simp [h] at hphase
    exact delivering_of_quiet h hdelivered (congrArg (fun s ↦ s.data.popped) hafter)
      (congrArg (fun s ↦ s.received) hafter) (iff_of_false hnot' hnot) fun h ↦ absurd h hnot

/-- The invariant holds in every state of every run. -/
theorem delivering {ok : Pool Tid (Shared α) (Thread α) → Label Tid (Choice α) → Prop}
    (h : (system N Tid α).ReachableWhen ok p) : Delivering p := by
  refine h.invariant ⟨fun _ ↦ rfl, fun t ht ↦ by cases ht⟩ ?_
  intro p label p' hrun hdelivering _ hmove
  exact delivering_step (handled hrun) hdelivering hmove

/-! ### From the first `Disconnected` on -/

/-- The condition on a step under which `Disconnected` is final: `recv` does not fail spuriously in
the compare-and-exchange of its last pop, and `try_recv` finds no sender only while the buffer is
empty. The other parts say that nothing wraps and that a slot is read only when it has been
written. -/
structure DisconnectCondition (N : ℕ) (p : Pool Tid (Shared α) (Thread α))
    (label : Label Tid (Choice α)) : Prop where
  roomToClaim : RoomToClaim N p label
  readPublished : ReadPublished p label
  cloneBound : CloneBound p label
  noSpurious : (p.threads label.thread).phase = .lastPop →
    (p.threads label.thread).call.ring.holding → label.choice ≠ .access .spurious
  emptyAtCheck : (p.threads label.thread).phase = .tryChecking → p.shared.sendersCount = 0 →
    p.shared.data.head = p.shared.data.tail

instance [DecidableEq α] (p : Pool Tid (Shared α) (Thread α)) (label : Label Tid (Choice α)) :
    Decidable (DisconnectCondition N p label) :=
  decidable_of_iff
    (RoomToClaim N p label ∧ ReadPublished p label ∧ CloneBound p label ∧
      ((p.threads label.thread).phase = .lastPop →
        (p.threads label.thread).call.ring.holding → label.choice ≠ .access .spurious) ∧
      ((p.threads label.thread).phase = .tryChecking → p.shared.sendersCount = 0 →
        p.shared.data.head = p.shared.data.tail))
    ⟨fun ⟨h₁, h₂, h₃, h₄, h₅⟩ ↦ ⟨h₁, h₂, h₃, h₄, h₅⟩,
      fun ⟨h₁, h₂, h₃, h₄, h₅⟩ ↦ ⟨h₁, h₂, h₃, h₄, h₅⟩⟩

/-- One for a thread inside an operation or the drop of a `Sender`, and for a `recv` that carries a
message. -/
def Phase.active : Phase → ℕ
  | .seeking | .trying | .owing | .waking | .sleepingSender | .cloning | .droppingSender
  | .bumping => 1
  | _ => 0

/-- The number of active threads. -/
def active (f : Tid → Thread α) : ℕ := total (fun th ↦ th.phase.active) f

omit [DecidableEq Tid] in
theorem active_eq : active p.threads =
    borrowing p.threads + threadsAt p .droppingSender + threadsAt p .bumping := by
  simp only [active, borrowing, threadsAt, countAt, total, ← Finset.sum_add_distrib]
  refine Finset.sum_congr rfl fun t _ ↦ ?_
  cases (p.threads t).phase <;> rfl

/-- No `Sender` is left, no thread is active, and the buffer is empty. -/
structure Final (p : Pool Tid (Shared α) (Thread α)) : Prop where
  noSender : p.shared.senders = 0
  inactive : active p.threads = 0
  empty : p.shared.data.claimed.length = p.shared.data.popped.length

/-- What is final stays so. -/
theorem final_step (hb : RingBuffer.Bounded N p.shared.data (ringPool p).threads) (h : Final p)
    (hmove : (system N Tid α).step p label = some p') : Final p' := by
  obtain ⟨moved, signal, hevent, hdelivered⟩ := pool_event hmove
  have hactive : active p'.threads + (p.threads label.thread).phase.active =
      active p.threads + moved.phase.active :=
    total_update_delivered rfl rfl hdelivered
  have hself : (p.threads label.thread).phase.active = 0 :=
    Nat.le_zero.mp (h.inactive ▸ le_total (fun th ↦ th.phase.active) p.threads label.thread)
  rw [hself, h.inactive] at hactive
  have hsenders := h.noSender
  have hempty := h.empty
  have hfull (hholding : (p.threads label.thread).call.ring.holding) : False := by
    have hlt := hb.indexed.lt_of_holding (u := label.thread) hholding
    omega
  have hkeep (hsame : p'.shared.senders = p.shared.senders)
      (hdata : p'.shared.data = p.shared.data) (hmoved : moved.phase.active = 0) : Final p' := by
    rw [hmoved] at hactive
    refine ⟨hsame.trans hsenders, hactive, ?_⟩
    rw [hdata]
    exact hempty
  cases hevent
  case stay hcarried hafter hphase hsignal =>
    exact hkeep (congrArg (fun s ↦ s.senders) hafter) (congrArg (fun s ↦ s.data) hafter)
      (by rw [hphase, hself])
  case borrow | takeSender => omega
  case claim hclaiming value hafter hbefore hphase hsignal =>
    rcases hbefore with hbefore | hbefore
    all_goals
      rw [hbefore] at hself
      cases hself
  case release hholding _ _ _ _ _ => exact (hfull hholding).elim
  case lastRelease hholding _ _ _ _ _ _ => exact (hfull hholding).elim
  case tryRelease hholding _ _ _ _ _ _ => exact (hfull hholding).elim
  case unborrow hafter hbefore hphase hsignal =>
    rcases hbefore with ⟨hbefore, -⟩ | hbefore | ⟨hbefore, -⟩
    all_goals
      rw [hbefore] at hself
      cases hself
  case write | swap | wakeReceiver | sleepSender | returnSender | bump | wakeSender | cloned
      | clonePanicked | dropSender =>
    rename_i hafter hbefore hphase hsignal
    rw [hbefore] at hself
    cases hself
  case takeReceiver hfree hafter hbefore hphase hsignal =>
    refine hkeep (congrArg (fun s ↦ s.senders) hafter) (congrArg (fun s ↦ s.data) hafter) ?_
    rcases hphase with hphase | hphase | hphase
    all_goals
      rw [hphase]
      rfl
  -- the other steps are those of the receiver, and none of them pops
  all_goals
    rename_i hafter hbefore hphase hsignal
    exact hkeep (congrArg (fun s ↦ s.senders) hafter) (congrArg (fun s ↦ s.data) hafter)
      (by rw [hphase]; rfl)

/-- A `recv` that has found no sender is right as long as it pops. Assumes: no clone makes
`senders_count` wrap. -/
theorem noSender_of_lastPop {ok : Pool Tid (Shared α) (Thread α) → Label Tid (Choice α) → Prop}
    (hok : ∀ p label, ok p label → CloneBound p label) (h : (system N Tid α).ReachableWhen ok p) :
    0 < threadsAt p .lastPop → p.shared.sendersCount = 0 := by
  refine h.invariant (P := fun p ↦ 0 < threadsAt p .lastPop → p.shared.sendersCount = 0) ?_ ?_
  · intro hpos
    obtain ⟨t, ht⟩ := countAt_pos_iff.mp hpos
    cases ht
  · intro p label p' hrun hcount _ hmove hpos
    obtain ⟨moved, signal, hevent, hdelivered⟩ := pool_event hmove
    have hlast : threadsAt p' .lastPop + _ = threadsAt p .lastPop + _ :=
      total_update_delivered (w := fun phase ↦ if phase = .lastPop then 1 else 0) rfl rfl
        hdelivered
    have hsenders := (senders_le hok hrun).1
    have hborrowed := (handled hrun).borrowed
    have halive := (handled hrun).alive
    rw [borrowing_eq] at hborrowed
    cases hevent
    case stay hcarried hafter hphase hsignal =>
      rw [hphase] at hlast
      rw [hafter]
      exact hcount (by omega)
    case startLastPop hzero hafter hbefore hphase hsignal =>
      rw [hafter]
      exact hzero
    case cloned | clonePanicked =>
      rename_i hafter hbefore hphase hsignal
      have hself : 0 < threadsAt p .cloning := countAt_pos_iff.mpr ⟨_, hbefore⟩
      simp only [hbefore, hphase, reduceCtorEq, if_false] at hlast
      have hzero := hcount (by omega)
      omega
    case dropSender hafter hbefore hphase hsignal =>
      have hself : 0 < threadsAt p .droppingSender := countAt_pos_iff.mpr ⟨_, hbefore⟩
      simp only [hbefore, hphase, reduceCtorEq, if_false] at hlast
      have hzero := hcount (by omega)
      omega
    -- the other steps do not change `senders_count`, and none of them enters the last pop
    all_goals
      rename_i hafter hbefore hphase hsignal
      have hnot : moved.phase ≠ .lastPop := fun h ↦ by simp [h] at hphase
      rw [if_neg hnot] at hlast
      rw [congrArg (fun s ↦ s.sendersCount) hafter]
      exact hcount (by omega)

/-- The first `Disconnected` is final. Assumes: the condition on the step that answers, and the
invariants on the handles, on `senders_count` and on the buffer. -/
theorem final_of_disconnected (hN : N < 2 ^ 64) (hh : Handled p.shared p.threads)
    (hsenders : p.shared.senders + threadsAt p .droppingSender ≤ p.shared.sendersCount)
    (hb : RingBuffer.Bounded N p.shared.data (ringPool p).threads)
    (hlast : 0 < threadsAt p .lastPop → p.shared.sendersCount = 0)
    (hok : DisconnectCondition N p label) {moved : Thread α} {signal : Signal Tid Addr}
    (hevent : Event N p.shared (p.threads label.thread) label.choice p'.shared moved signal)
    (hdelivered :
      (machine N Tid α).Delivered signal (update p.threads label.thread moved) p'.threads)
    (hphase : ((p.threads label.thread).phase = .lastPop ∨
      (p.threads label.thread).phase = .tryChecking) ∧ moved.phase = .idle)
    (hmoved : moved.disconnected) : Final p' := by
  obtain ⟨hbefore, hidle⟩ := hphase
  have hone : (p.threads label.thread).phase.receiving = 1 := by
    rcases hbefore with hbefore | hbefore
    all_goals
      rw [hbefore]
      rfl
  have hactive : active p'.threads + (p.threads label.thread).phase.active =
      active p.threads + moved.phase.active :=
    total_update_delivered rfl rfl hdelivered
  have hclose (hcount : p.shared.sendersCount = 0)
      (hempty : p.shared.data.claimed.length = p.shared.data.popped.length)
      (hafter : p'.shared = p.shared.freeReceiver) : Final p' := by
    have hborrowed := hh.borrowed
    have halive := hh.alive
    have hbumping : threadsAt p .bumping = 0 := by
      refine countAt_eq_zero_iff.mpr fun u hu ↦ ?_
      have heq := hh.eq_of_receiving hone (u := u) (by rw [hu]; rfl)
      rw [← heq, hu] at hbefore
      simp at hbefore
    have hnone := active_eq (p := p)
    refine ⟨?_, ?_, ?_⟩
    · rw [congrArg (fun s ↦ s.senders) hafter]
      show p.shared.senders = 0
      omega
    · rw [hidle] at hactive
      simp only [Phase.active] at hactive
      omega
    · rw [congrArg (fun s ↦ s.data) hafter]
      exact hempty
  cases hevent
  case lastNone pc access hcall hchoice hfailure hafter hbefore hphase hsignal =>
    refine hclose (hlast (countAt_pos_iff.mpr ⟨_, hbefore⟩)) ?_ hafter
    cases hfailure with
    | empty =>
      exact hb.length_eq_of_loadHead hN (u := label.thread)
        (.inr (by simp only [ringPool, hcall, Call.ring]))
    | @contended currentTail value hretry hfailed =>
      rcases hfailed with hspurious | htail
      · exact absurd (hspurious ▸ hchoice) (hok.noSpurious hbefore (by rw [hcall]; rfl))
      · have hseen : (ringPool p).threads label.thread =
            .tryPop (.compareExchange currentTail value) := by
          simp only [ringPool, hcall, Call.ring]
        exact absurd (hb.tail_eq_of_compareExchange hseen) htail
  case tryAnswer hresult hafter hbefore hphase hsignal =>
    have hcount := hresult hmoved
    exact hclose hcount (hb.length_eq hN (hok.emptyAtCheck hbefore hcount)) hafter
  case stay hcarried hafter hphase hsignal =>
    rw [hidle] at hphase
    rw [← hphase] at hbefore
    simp at hbefore
  case lastRelease hresult _ _ _ _ => exact absurd hmoved hresult
  -- the other steps are not the last of a receive that has found no message
  all_goals
    rename_i hafter hbefore' hphase hsignal
    rcases hbefore with hbefore | hbefore
    all_goals simp [hbefore] at hbefore'

/-- What a `Disconnected` says holds from then on, in every state of a run under the condition. -/
theorem final (hN : N < 2 ^ 64) (h : (system N Tid α).ReachableWhen (DisconnectCondition N) p) :
    (∃ t, (p.threads t).disconnected) → Final p := by
  refine h.invariant (P := fun p ↦ (∃ t, (p.threads t).disconnected) → Final p) ?_ ?_
  · rintro ⟨t, ht⟩
    cases ht
  · intro p label p' hrun hfinal hok hmove ⟨t, ht⟩
    have hb := bounded_of_run hN (fun _ _ h ↦ h.roomToClaim) hrun
    obtain ⟨moved, signal, hlocal, hdelivered⟩ := Machine.step_cases hmove
    have hmid : (update p.threads label.thread moved t).disconnected := by
      rcases hdelivered.thread t with heq | ⟨addr, -, heq⟩ | heq
      · rw [← heq]
        exact ht
      · rw [heq] at ht
        exact disconnected_wake.symm.trans ht
      · rw [heq] at ht
        exact ht
    by_cases hself : t = label.thread
    · rw [hself, update_self] at hmid
      rcases step_disconnected hlocal hmid with hbefore | hphase
      · exact final_step hb (hfinal ⟨_, hbefore⟩) hmove
      · exact final_of_disconnected hN (handled hrun) (senders_le (fun _ _ h ↦ h.cloneBound) hrun).1
          hb (noSender_of_lastPop (fun _ _ h ↦ h.cloneBound) hrun) hok (step_event hlocal)
          hdelivered hphase hmid
    · rw [update_of_ne hself] at hmid
      exact final_step hb (hfinal ⟨t, hmid⟩) hmove

omit [DecidableEq Tid] [Fintype Tid] in
/-- A thread inside an operation or the drop of a `Sender` is active. -/
theorem active_of_usesSender {th : Thread α} (h : th.call.usesSender) : th.phase.active = 1 := by
  unfold Thread.phase
  cases hcall : th.call with
  | send pc =>
    cases pc with
    | push pc => cases pc <;> rfl
    | notify pc => cases pc <;> rfl
    | _ => rfl
  | trySend pc =>
    cases pc with
    | tryPush pc => cases pc <;> rfl
    | notify pc => cases pc <;> rfl
    | _ => rfl
  | clone => rfl
  | dropSender => rfl
  | _ =>
    rw [hcall] at h
    cases h

/-- In every run under the condition `Disconnected` is truthful. -/
theorem disconnected_truthful (hN : RingBuffer.PowerOfTwo N)
    (h : (system N Tid α).ReachableWhen (DisconnectCondition N) p) {t : Tid}
    (hresult : (p.threads t).disconnected) : Truthful p := by
  have hfinal := final hN.lt h ⟨t, hresult⟩
  have hconsistent := consistent_of_run hN (fun _ _ h ↦ h.roomToClaim)
    (fun _ _ h ↦ h.readPublished) h
  have hinactive (u : Tid) : (p.threads u).phase.active = 0 :=
    Nat.le_zero.mp (hfinal.inactive ▸ le_total (fun th ↦ th.phase.active) p.threads u)
  refine ⟨hfinal.noSender, fun u ↦ ?_, fun i hi ↦ ?_⟩
  · refine Bool.eq_false_iff.mpr fun huses ↦ ?_
    have hone := active_of_usesSender huses
    rw [hinactive u] at hone
    cases hone
  · have hreceived : p.shared.data.popped.map Prod.snd = p.shared.received := by
      refine (delivering h).settled fun u hu ↦ ?_
      have hzero := hinactive u
      rw [hu] at hzero
      cases hzero
    have hlt : i < p.shared.data.popped.length := hfinal.empty ▸ hconsistent.pushed i hi
    obtain ⟨value, hclaimed, hvalue⟩ :=
      hconsistent.returned i _ (List.getElem?_eq_getElem hlt)
    refine ⟨_, value, hclaimed, ?_⟩
    rw [← hreceived, List.getElem?_map, List.getElem?_eq_getElem hlt, Option.map_some, hvalue]

/-- `disconnected_truthful` on a run in which thread 1 sends a message and drops the only `Sender`,
and thread 0 receives the message and then `Disconnected`. -/
theorem disconnected_truthful_after_message :
    ∃ p : Pool (Fin 2) (Shared ℕ) (Thread ℕ), p.shared.received = [some 7] ∧ Truthful p := by
  obtain ⟨p, hrun, hreceived, hresult⟩ := System.exists_reachableWhen_of_exec
    (M := system 2 (Fin 2) ℕ) (DisconnectCondition 2)
    (P := fun p ↦ p.shared.received = [some 7] ∧ (p.threads 0).disconnected)
    ([⟨1, .send 7, none⟩] ++ List.replicate 6 ⟨1, .access .go, none⟩ ++
      [⟨1, .dropSender, none⟩, ⟨1, .access .go, none⟩] ++
      [⟨0, .recv, none⟩] ++ List.replicate 5 ⟨0, .access .go, none⟩ ++
      [⟨0, .recv, none⟩] ++ List.replicate 3 ⟨0, .access .go, none⟩) (by decide)
  exact ⟨p, hreceived, disconnected_truthful ⟨1, by decide, rfl⟩ hrun hresult⟩

end Pool

end SyncPrimitives.Channel
