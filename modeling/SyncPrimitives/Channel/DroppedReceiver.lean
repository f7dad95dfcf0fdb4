import SyncPrimitives.Channel.Handles

/-!
# After the drop of the receiver

`Drop for Receiver` stores zero in `receiver_state`. The other writes to this word are the store of
two in `recv` and the compare-and-exchange of a sender from two to one. The first needs the
`Receiver`, which is gone (`dropped_step`), and the second needs a two, which the word is not. So
zero stays to the end of the run, and a `send` or `try_send` that begins after the drop ends at its
first load (`send_after_receiver_dropped`). Senders that were in the middle of a call when the drop
came are not spoken of: those may still push, or sleep.
-/

set_option autoImplicit false
set_option relaxedAutoImplicit false

namespace SyncPrimitives.Channel

open Concurrency Function

variable {Tid α : Type}

/-! ### Offers -/

/-- What a call is given that offers a message to the channel. -/
inductive Offer (α : Type)
  | send (message : α)
  | trySend (message : α)

/-- The choice of an idle thread that begins the call. -/
def Offer.choice : Offer α → Choice α
  | .send message => .send message
  | .trySend message => .trySend message

/-- The position at which the call begins. -/
def Offer.start : Offer α → Call α
  | .send message => .send (.loadReceiver message)
  | .trySend message => .trySend (.loadReceiver message)

/-- The `Disconnected` error with which the message is given back. -/
def Offer.refused : Offer α → Result α
  | .send message => .sent (.error (.disconnected message))
  | .trySend message => .trySent (.error (.disconnected message))

/-- `head`, `tail`, the slots and `sender_wait_num` are as before. -/
def SameQueue (before after : Shared α) : Prop :=
  after.data = before.data ∧ after.senderWaitNum = before.senderWaitNum

section Steps

variable {N : ℕ} {before after : Shared α} {th moved : Thread α} {signal : Signal Tid Addr}
  {offer : Offer α} {choice : Choice α}

/-- A thread that begins a call is at its first load, and the queue is as before. -/
theorem step_of_offer (h : step N before th offer.choice = some (after, moved, signal)) :
    moved.call = offer.start ∧ signal = .silent ∧ SameQueue before after := by
  obtain ⟨call, result⟩ := th
  cases call with
  | idle =>
    cases offer <;> simp only [step, Offer.choice, idleStep] at h
    all_goals
      split_ifs at h with hsenders
      obtain ⟨rfl, rfl, rfl⟩ := by simpa [quiet] using h
      exact ⟨rfl, rfl, rfl, rfl⟩
  | _ => cases offer <;> cases h

/-- A call that finds zero at its first load returns the message. -/
theorem step_of_start (hcall : th.call = offer.start) (hstate : before.receiverState = 0) :
    step N before th (.access .go) =
      some (before.unborrow, th.ret offer.refused, (.silent : Signal Tid Addr)) := by
  cases offer with
  | send message => simp [step, hcall, Offer.start, sendStep, hstate, quiet, Offer.refused]
  | trySend message => simp [step, hcall, Offer.start, trySendStep, hstate, quiet, Offer.refused]

/-- At its first load a call has no other step. -/
theorem choice_of_start (hcall : th.call = offer.start)
    (h : step N before th choice = some (after, moved, signal)) : choice = .access .go := by
  cases offer with
  | send message =>
    simp only [step, hcall, Offer.start] at h
    cases choice with
    | access access => cases access <;> [rfl; cases h]
    | _ => cases h
  | trySend message =>
    simp only [step, hcall, Offer.start] at h
    cases choice with
    | access access => cases access <;> [rfl; cases h]
    | _ => cases h

/-- A thread at its first load is awake, so that no signal moves it. -/
theorem asleepOn_of_start (hcall : th.call = offer.start) : asleepOn th = none := by
  cases offer <;> simp [asleepOn, hcall, Offer.start]

end Steps

section Pool

variable [DecidableEq Tid] [Fintype Tid] {N : ℕ} {p p' q q' : Pool Tid (Shared α) (Thread α)}
  {label : Label Tid (Choice α)} {offer : Offer α}

/-- A dropped `Receiver` stays dropped: every step that would change this needs the `Receiver`. -/
theorem dropped_step (h : Handled p.shared p.threads) (hdropped : p.shared.receiver = .dropped)
    (hmove : (system N Tid α).step p label = some p') : p'.shared.receiver = .dropped := by
  obtain ⟨moved, signal, hevent, -⟩ := pool_event hmove
  have hgone (hone : (p.threads label.thread).phase.receiving = 1) : False := by
    have hheld := h.eq_borrowed hone
    rw [hdropped] at hheld
    cases hheld
  cases hevent
  case takeReceiver hfree hafter hbefore hphase hsignal =>
    rw [hdropped] at hfree
    cases hfree
  case lastRelease | lastNone | tryRelease | tryAnswer | wakeSender =>
    rename_i hafter hbefore hphase hsignal
    exact (hgone (by rw [hbefore]; rfl)).elim
  case dropReceiver hafter hbefore hphase hsignal => rw [hafter]
  case stay hcarried hafter hphase hsignal => exact hafter ▸ hdropped
  all_goals
    rename_i hafter _ _ _
    rw [hafter]
    exact hdropped

/-- `Drop for Receiver` has one step. -/
theorem dropped_of_drop (hcall : (p.threads label.thread).call = .dropReceiver)
    (hmove : (system N Tid α).step p label = some p') : p'.shared.receiver = .dropped := by
  obtain ⟨moved, signal, hlocal, -⟩ := Machine.step_cases hmove
  simp only [machine, step, hcall] at hlocal
  cases hchoice : label.choice with
  | access access =>
    rw [hchoice] at hlocal
    cases access with
    | go =>
      obtain ⟨hafter, -⟩ := quiet_eq_some.mp hlocal
      rw [← hafter]
    | spurious => cases hlocal
  | _ =>
    rw [hchoice] at hlocal
    cases hlocal

/-- In every state after the drop of the `Receiver`, `receiver_state` is zero. -/
theorem receiverState_eq_zero_after {ok : Pool Tid (Shared α) (Thread α) → Label Tid (Choice α) →
    Prop} (h : Handled p.shared p.threads) (hdropped : p.shared.receiver = .dropped)
    (hlater : ((machine N Tid α).system p).ReachableWhen ok p') :
    p'.shared.receiverState = 0 ∧ Handled p'.shared p'.threads ∧
      p'.shared.receiver = .dropped := by
  have hafter : Handled p'.shared p'.threads ∧ p'.shared.receiver = .dropped := by
    refine hlater.invariant (P := fun p ↦ Handled p.shared p.threads ∧
      p.shared.receiver = .dropped) ⟨h, hdropped⟩ ?_
    intro p label p' _ ⟨hhandled, hgone⟩ _ hmove
    exact ⟨handled_step hhandled hmove, dropped_step hhandled hgone hmove⟩
  exact ⟨hafter.1.state.mpr hafter.2, hafter⟩

/-- While the others move, a thread stays at its first load. -/
theorem call_of_others (hcall : (q.threads label.thread).call = offer.start)
    (hlater : ((machine N Tid α).system q).ReachableWhen
      (fun _ other ↦ other.thread ≠ label.thread) q') :
    (q'.threads label.thread).call = offer.start := by
  refine hlater.invariant (P := fun p ↦ (p.threads label.thread).call = offer.start) hcall ?_
  intro p other p' _ hstart hother hmove
  obtain ⟨moved, signal, -, hdelivered⟩ := Machine.step_cases hmove
  have hsame : update p.threads other.thread moved label.thread = p.threads label.thread :=
    update_of_ne hother.symm ..
  rcases hdelivered.thread label.thread with heq | ⟨addr, hasleep, -⟩ | heq
  · rw [heq, hsame]
    exact hstart
  · rw [hsame] at hasleep
    have hawake := asleepOn_of_start hstart
    rw [show (machine N Tid α).asleepOn = asleepOn from rfl, hawake] at hasleep
    cases hasleep
  · rw [heq, hsame]
    exact hstart

/-- After the drop of the `Receiver`, `receiver_state` is zero in every state, and every call that
begins is refused: neither its beginning nor its next step changes the queue, and this next step can
be taken whatever the others have done meanwhile, and returns the message. -/
theorem send_after_receiver_dropped (h : (system N Tid α).Reachable p)
    (hdrop : (p.threads label.thread).call = .dropReceiver)
    (hmove : (system N Tid α).step p label = some p')
    (hlater : ((machine N Tid α).system p').Reachable q) :
    q.shared.receiverState = 0 ∧
      ∀ (offer : Offer α) (first : Label Tid (Choice α)) (q₁ : Pool Tid (Shared α) (Thread α)),
        first.choice = offer.choice → (system N Tid α).step q first = some q₁ →
          SameQueue q.shared q₁.shared ∧
            ∀ q₂, ((machine N Tid α).system q₁).ReachableWhen
                (fun _ other ↦ other.thread ≠ first.thread) q₂ →
              (∃ next, next.thread = first.thread ∧
                ((system N Tid α).step q₂ next).isSome) ∧
              ∀ next q₃, next.thread = first.thread →
                (system N Tid α).step q₂ next = some q₃ →
                  SameQueue q₂.shared q₃.shared ∧
                    q₃.threads first.thread = ⟨.idle, some offer.refused⟩ := by
  have hgone := receiverState_eq_zero_after (handled_step (handled h) hmove)
    (dropped_of_drop hdrop hmove) hlater
  refine ⟨hgone.1, fun offer first q₁ hchoice hfirst ↦ ?_⟩
  obtain ⟨moved, signal, hlocal, hdelivered⟩ := Machine.step_cases hfirst
  rw [hchoice] at hlocal
  obtain ⟨hmoved, rfl, hqueue⟩ := step_of_offer hlocal
  have hstart : (q₁.threads first.thread).call = offer.start := by
    rw [hdelivered.silent_eq, update_self]
    exact hmoved
  refine ⟨hqueue, fun q₂ hothers ↦ ?_⟩
  have hstill := call_of_others hstart hothers
  have hzero : q₂.shared.receiverState = 0 :=
    (receiverState_eq_zero_after (handled_step hgone.2.1 hfirst)
      (dropped_step hgone.2.1 hgone.2.2 hfirst) hothers).1
  have hrefused : step N q₂.shared (q₂.threads first.thread) (.access .go) =
      some (q₂.shared.unborrow, (q₂.threads first.thread).ret offer.refused,
        (.silent : Signal Tid Addr)) := step_of_start hstill hzero
  constructor
  · refine ⟨⟨first.thread, .access .go, none⟩, rfl, ?_⟩
    simp [system, Machine.system, machine, hrefused, Machine.deliver]
  · intro next q₃ hnext hlast
    obtain ⟨returned, signal, hlocal, hdelivered⟩ := Machine.step_cases hlast
    rw [hnext] at hlocal hdelivered
    rw [choice_of_start hstill hlocal] at hlocal
    obtain ⟨hshared, rfl, rfl⟩ := by simpa using hrefused.symm.trans hlocal
    refine ⟨by rw [← hshared]; exact ⟨rfl, rfl⟩, ?_⟩
    rw [hdelivered.silent_eq, update_self]
    rfl

/-- `send_after_receiver_dropped` on a run in which thread 1 sends after thread 0 has dropped the
`Receiver`. -/
theorem send_after_receiver_dropped_seven :
    ∃ p : Pool (Fin 2) (Shared ℕ) (Thread ℕ),
      p.shared.receiver = .dropped ∧
        p.threads 1 = ⟨.idle, some (.sent (.error (.disconnected 7)))⟩ := by
  obtain ⟨p, hrun, hcall, hsteps⟩ := System.exists_reachableWhen_of_exec
    (M := system 2 (Fin 2) ℕ) (fun _ _ ↦ True)
    (P := fun p ↦ (p.threads 0).call = .dropReceiver ∧
      ((system 2 (Fin 2) ℕ).exec (fun _ _ ↦ True) p
        [⟨0, .access .go, none⟩, ⟨1, .send 7, none⟩, ⟨1, .access .go, none⟩]).any
          (fun p ↦ decide (p.shared.receiver = .dropped)) = true)
    [⟨0, .dropReceiver, none⟩] (by decide)
  simp only [System.exec, if_true, Option.any_eq_true, Option.bind_eq_some_iff] at hsteps
  obtain ⟨q₃, ⟨p', hdrop, q₁, hfirst, q₂, hnext, hlast⟩, hdropped⟩ := hsteps
  obtain rfl := Option.some.inj hlast
  have hrefused := send_after_receiver_dropped hrun hcall hdrop .init
  refine ⟨q₂, of_decide_eq_true hdropped, ?_⟩
  exact (((hrefused.2 (.send 7) ⟨1, .send 7, none⟩ q₁ rfl hfirst).2 q₁ .init).2
    ⟨1, .access .go, none⟩ q₂ rfl hnext).2

end Pool

end SyncPrimitives.Channel
