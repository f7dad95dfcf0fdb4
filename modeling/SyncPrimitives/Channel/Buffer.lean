import SyncPrimitives.Channel.Handles
import SyncPrimitives.RingBuffer.Publication

/-!
# The buffer of the channel

`ringPool` is the buffer of a channel with what the ring buffer sees of every thread. A step of the
channel is a step of the ring buffer or leaves both as they are (`step_ring`), and only the thread
that has the `Receiver` pops. So the runs of a channel are runs of the ring buffer with one
consumer, and the results on the ring buffer apply to them (`bounded_of_run`, `consistent_of_run`).
-/

set_option autoImplicit false
set_option relaxedAutoImplicit false

namespace SyncPrimitives.Channel

open Concurrency Function
open RingBuffer (MaybeUninit Access Progress PushPc PopPc)

variable {Tid α : Type}

/-! ### A step of the channel as a step of the ring buffer -/

/-- What the ring buffer sees of a step: nothing, or one of its own steps, and a pop starts only in
the thread that has the `Receiver` or takes it. -/
inductive RingStep (N : ℕ) (before : Shared α) (th : Thread α) (choice : Choice α)
    (after : Shared α) (moved : Thread α) : Prop
  | stutter (hdata : after.data = before.data) (hring : moved.call.ring = th.call.ring)
  | call (method : RingBuffer.Method α) (hbefore : th.call.ring = .idle)
      (hdata : after.data = before.data) (hring : moved.call.ring = method.start)
      (howner : (RingBuffer.Choice.call method).startsPop →
        th.phase = .checking ∨ before.receiver = .free)
  | access (access : Access) (hchoice : choice = .access access)
      (hstep : RingBuffer.step N before.data th.call.ring (.access access) =
        some (after.data, moved.call.ring))

section Steps

variable {N : ℕ} {before after : Shared α} {th moved : Thread α} {signal : Signal Tid Addr}
  {choice : Choice α} {access : Access}

@[simp] theorem ring_goto {call : Call α} : (th.goto call).call.ring = call.ring := rfl

@[simp] theorem ring_ret {result : Result α} : (th.ret result).call.ring = .idle := rfl

theorem notifyStep_ring {position : NotifyPc → Call α} {result : Result α} {pc : NotifyPc}
    (hposition : ∀ pc, (position pc).ring = .idle) (hcall : th.call = position pc)
    (h : notifyStep before th position result pc access = some (after, moved, signal)) :
    RingStep N before th choice after moved := by
  have hbefore : th.call.ring = .idle := by rw [hcall, hposition]
  cases pc <;> cases access <;> simp only [notifyStep, reduceCtorEq] at h
  case wakeOne.go =>
    obtain ⟨rfl, rfl, rfl⟩ := by simpa using h
    exact .stutter rfl hbefore.symm
  all_goals
    split_ifs at h
    all_goals
      obtain ⟨rfl, rfl, rfl⟩ := quiet_eq_some.mp h
      exact .stutter rfl (by simp [hposition, hbefore])

theorem sendStep_ring {pc : SendPc α} (hcall : th.call = .send pc)
    (hchoice : choice = .access access)
    (h : sendStep N before th pc access = some (after, moved, signal)) :
    RingStep N before th choice after moved := by
  have hbefore : th.call.ring = (Call.send pc).ring := by rw [hcall]
  cases pc with
  | push pc =>
    simp only [sendStep] at h
    obtain ⟨⟨data, progress⟩, hpush, heq⟩ := Option.map_eq_some_iff.mp h
    obtain ⟨rfl, rfl, rfl⟩ := by simpa using heq
    refine .access access hchoice ?_
    rw [hbefore]
    simp only [Call.ring, RingBuffer.step, hpush, Option.map_some]
    rcases progress with pc | (message | ⟨⟩) <;> rfl
  | notify pc =>
    simp only [sendStep] at h
    exact notifyStep_ring (fun _ ↦ rfl) hcall h
  | loadReceiver message =>
    cases access <;> simp only [sendStep, reduceCtorEq] at h
    case go =>
      split_ifs at h
      all_goals obtain ⟨rfl, rfl, rfl⟩ := quiet_eq_some.mp h
      · exact .stutter rfl hbefore.symm
      · exact .call (.push message) hbefore rfl rfl (fun h ↦ by cases h)
  | _ =>
    cases access <;> simp only [sendStep, reduceCtorEq] at h
    all_goals
      try split_ifs at h
      all_goals
        obtain ⟨rfl, rfl, rfl⟩ := quiet_eq_some.mp h
        exact .stutter rfl hbefore.symm

theorem trySendStep_ring {pc : TrySendPc α} (hcall : th.call = .trySend pc)
    (hchoice : choice = .access access)
    (h : trySendStep N before th pc access = some (after, moved, signal)) :
    RingStep N before th choice after moved := by
  have hbefore : th.call.ring = (Call.trySend pc).ring := by rw [hcall]
  cases pc with
  | loadReceiver message =>
    cases access <;> simp only [trySendStep, reduceCtorEq] at h
    case go =>
      split_ifs at h
      all_goals obtain ⟨rfl, rfl, rfl⟩ := quiet_eq_some.mp h
      · exact .stutter rfl hbefore.symm
      · exact .call (.tryPush message) hbefore rfl rfl (fun h ↦ by cases h)
  | tryPush pc =>
    simp only [trySendStep] at h
    obtain ⟨⟨data, progress⟩, hpush, heq⟩ := Option.map_eq_some_iff.mp h
    have hstep : RingBuffer.step N before.data th.call.ring (.access access) =
        some (data, progress.call .tryPush) := by
      rw [hbefore]
      simp only [Call.ring, RingBuffer.step, hpush, Option.map_some]
    rcases progress with pc | (message | ⟨⟩)
    all_goals
      obtain ⟨rfl, rfl, rfl⟩ := by simpa using heq
      exact .access access hchoice hstep
  | notify pc =>
    simp only [trySendStep] at h
    exact notifyStep_ring (fun _ ↦ rfl) hcall h

theorem recvStep_ring {pc : RecvPc α} (hcall : th.call = .recv pc)
    (hchoice : choice = .access access)
    (h : recvStep N before th pc access = some (after, moved, signal)) :
    RingStep N before th choice after moved := by
  have hbefore : th.call.ring = (Call.recv pc).ring := by rw [hcall]
  cases pc with
  | loadSenders =>
    have hphase : th.phase = .checking := phase_of_call hcall
    cases access <;> simp only [recvStep, reduceCtorEq] at h
    case go =>
      split_ifs at h
      all_goals obtain ⟨rfl, rfl, rfl⟩ := quiet_eq_some.mp h
      · exact .call .tryPop hbefore rfl rfl (fun _ ↦ .inl hphase)
      · exact .call .pop hbefore rfl rfl (fun _ ↦ .inl hphase)
  | tryPop pc =>
    simp only [recvStep] at h
    obtain ⟨⟨data, progress⟩, hpop, heq⟩ := Option.map_eq_some_iff.mp h
    have hstep : RingBuffer.step N before.data th.call.ring (.access access) =
        some (data, progress.call .tryPop) := by
      rw [hbefore]
      simp only [Call.ring, RingBuffer.step, hpop, Option.map_some]
    rcases progress with pc | (_ | message)
    all_goals
      obtain ⟨rfl, rfl, rfl⟩ := by simpa using heq
      exact .access access hchoice hstep
  | pop pc =>
    simp only [recvStep] at h
    obtain ⟨⟨data, progress⟩, hpop, heq⟩ := Option.map_eq_some_iff.mp h
    obtain ⟨rfl, rfl, rfl⟩ := by simpa using heq
    refine .access access hchoice ?_
    rw [hbefore]
    simp only [Call.ring, RingBuffer.step, hpop, Option.map_some]
    rcases progress with pc | (_ | message) <;> rfl
  | wakeOne message =>
    cases access <;> simp only [recvStep, reduceCtorEq] at h
    case go =>
      obtain ⟨rfl, rfl, rfl⟩ := by simpa using h
      exact .stutter rfl hbefore.symm
  | _ =>
    cases access <;> simp only [recvStep, reduceCtorEq] at h
    all_goals
      try split_ifs at h
      all_goals
        obtain ⟨rfl, rfl, rfl⟩ := quiet_eq_some.mp h
        exact .stutter rfl hbefore.symm

theorem tryRecvStep_ring {pc : TryRecvPc α} (hcall : th.call = .tryRecv pc)
    (hchoice : choice = .access access)
    (h : tryRecvStep N before th pc access = some (after, moved, signal)) :
    RingStep N before th choice after moved := by
  have hbefore : th.call.ring = (Call.tryRecv pc).ring := by rw [hcall]
  cases pc with
  | tryPop pc =>
    simp only [tryRecvStep] at h
    obtain ⟨⟨data, progress⟩, hpop, heq⟩ := Option.map_eq_some_iff.mp h
    have hstep : RingBuffer.step N before.data th.call.ring (.access access) =
        some (data, progress.call .tryPop) := by
      rw [hbefore]
      simp only [Call.ring, RingBuffer.step, hpop, Option.map_some]
    rcases progress with pc | (_ | message)
    all_goals
      obtain ⟨rfl, rfl, rfl⟩ := by simpa using heq
      exact .access access hchoice hstep
  | loadSenders =>
    cases access <;> simp only [tryRecvStep, reduceCtorEq] at h
    case go =>
      obtain ⟨rfl, rfl, rfl⟩ := quiet_eq_some.mp h
      exact .stutter rfl hbefore.symm

theorem idleStep_ring (hcall : th.call = .idle)
    (h : idleStep before th choice = some (after, moved, signal)) :
    RingStep N before th choice after moved := by
  have hbefore : th.call.ring = .idle := by rw [hcall]; rfl
  cases choice with
  | access access => cases h
  | tryRecv =>
    simp only [idleStep] at h
    split_ifs at h with hfree
    obtain ⟨rfl, rfl, rfl⟩ := quiet_eq_some.mp h
    exact .call .tryPop hbefore rfl rfl (fun _ ↦ .inr hfree)
  | _ =>
    simp only [idleStep] at h
    split_ifs at h
    obtain ⟨rfl, rfl, rfl⟩ := quiet_eq_some.mp h
    exact .stutter rfl hbefore.symm

/-- Every step of a thread is seen by the ring buffer as one of these. -/
theorem step_ring (h : step N before th choice = some (after, moved, signal)) :
    RingStep N before th choice after moved := by
  unfold step at h
  split at h
  case h_1 hcall => exact idleStep_ring hcall h
  case h_2 hcall => exact sendStep_ring hcall rfl h
  case h_3 hcall => exact trySendStep_ring hcall rfl h
  case h_4 hcall => exact recvStep_ring hcall rfl h
  case h_5 hcall => exact tryRecvStep_ring hcall rfl h
  case h_6 access hcall =>
    cases access <;> simp only [cloneStep, reduceCtorEq] at h
    case go =>
      split_ifs at h
      all_goals
        obtain ⟨rfl, rfl, rfl⟩ := quiet_eq_some.mp h
        exact .stutter rfl (by rw [hcall]; rfl)
  case h_7 access hcall =>
    cases access <;> simp only [dropSenderStep, reduceCtorEq] at h
    case go =>
      obtain ⟨rfl, rfl, rfl⟩ := quiet_eq_some.mp h
      exact .stutter rfl (by rw [hcall]; rfl)
  case h_8 access hcall =>
    cases access <;> simp only [dropReceiverStep, reduceCtorEq] at h
    case go =>
      obtain ⟨rfl, rfl, rfl⟩ := quiet_eq_some.mp h
      exact .stutter rfl (by rw [hcall]; rfl)
  case h_9 => cases h

end Steps

/-! ### Runs of the channel as runs of the ring buffer -/

/-- Only the thread that has the `Receiver` is inside `pop` or `try_pop`, and it is past its look at
`senders_count`. -/
theorem Call.receiving_of_consuming {call : Call α} (h : call.ring.consuming) :
    call.phase.receiving = 1 ∧ call.phase ≠ .checking := by
  cases call with
  | send pc => cases pc <;> cases h
  | trySend pc => cases pc <;> cases h
  | recv pc =>
    cases pc with
    | tryPop pc => exact ⟨rfl, Phase.noConfusion⟩
    | pop pc => exact ⟨rfl, Phase.noConfusion⟩
    | _ => cases h
  | tryRecv pc =>
    cases pc with
    | tryPop pc => exact ⟨rfl, Phase.noConfusion⟩
    | _ => cases h
  | _ => cases h

section Runs

variable [DecidableEq Tid] [Fintype Tid] {N : ℕ} {p p' : Pool Tid (Shared α) (Thread α)}

/-- The buffer of a channel, and what the ring buffer sees of every thread. -/
def ringPool (p : Pool Tid (Shared α) (Thread α)) :
    Pool Tid (RingBuffer.Shared α) (RingBuffer.Call α) where
  shared := p.shared.data
  threads := fun t ↦ (p.threads t).call.ring

omit [Fintype Tid] in
/-- Waking threads leaves what the ring buffer sees of them. -/
theorem ringPool_threads {signal : Signal Tid Addr} {t : Tid} {moved : Thread α}
    (h : (machine N Tid α).Delivered signal (update p.threads t moved) p'.threads) :
    (ringPool p').threads = update (ringPool p).threads t moved.call.ring := by
  funext u
  have hmid : (update p.threads t moved u).call.ring =
      update (ringPool p).threads t moved.call.ring u := by
    by_cases hu : u = t
    · rw [hu, update_self, update_self]
    · rw [update_of_ne hu, update_of_ne hu]
      rfl
  rw [← hmid]
  show (p'.threads u).call.ring = _
  rcases h.thread u with heq | ⟨addr, -, heq⟩ | heq
  · rw [heq]
  · rw [heq]
    exact ring_wake
  · rw [heq]
    rfl

omit [DecidableEq Tid] in
/-- Nobody is inside `pop` or `try_pop` when a pop starts. -/
theorem Handled.none_consuming (h : Handled p.shared p.threads) {t : Tid}
    (howner : (p.threads t).phase = .checking ∨ p.shared.receiver = .free) (u : Tid) :
    (p.threads u).call.ring.consuming = false := by
  refine Bool.eq_false_iff.mpr fun hconsuming ↦ ?_
  obtain ⟨hone, hnot⟩ := Call.receiving_of_consuming hconsuming
  rcases howner with hchecking | hfree
  · have heq := h.eq_of_receiving (t := t) (by rw [hchecking]; rfl) hone
    exact hnot (heq ▸ hchecking)
  · rw [h.eq_borrowed (t := u) hone] at hfree
    cases hfree

/-- A run of the channel is a run of the ring buffer in which a pop starts only when none is in
progress. -/
theorem ringPool_reachable {ok : Pool Tid (Shared α) (Thread α) → Label Tid (Choice α) → Prop}
    (ok' : Pool Tid (RingBuffer.Shared α) (RingBuffer.Call α) →
      Label Tid (RingBuffer.Choice α) → Prop)
    (hok : ∀ p (label : Label Tid (Choice α)) (ringLabel : Label Tid (RingBuffer.Choice α)),
      ok p label → ringLabel.thread = label.thread →
        (ringLabel.choice.startsPop → ∀ u, ((ringPool p).threads u).consuming = false) →
          ok' (ringPool p) ringLabel)
    (h : (system N Tid α).ReachableWhen ok p) :
    (RingBuffer.system N Tid α).ReachableWhen ok' (ringPool p) := by
  refine h.map ringPool rfl ?_
  intro p label p' hrun hmeets hmove
  obtain ⟨moved, signal, hlocal, hdelivered⟩ := Machine.step_cases hmove
  have hthreads := ringPool_threads hdelivered
  have hstep (ringChoice : RingBuffer.Choice α)
      (hring : RingBuffer.step N p.shared.data (p.threads label.thread).call.ring ringChoice =
        some (p'.shared.data, moved.call.ring))
      (hstart : ringChoice.startsPop → ∀ u, ((ringPool p).threads u).consuming = false) :
      ∃ j, ok' (ringPool p) j ∧
        (RingBuffer.system N Tid α).step (ringPool p) j = some (ringPool p') := by
    refine ⟨⟨label.thread, ringChoice, none⟩, hok p label _ hmeets rfl hstart, ?_⟩
    rw [RingBuffer.step_of (p := ringPool p) hring, ← hthreads]
    rfl
  cases step_ring hlocal with
  | stutter hdata hring =>
    left
    refine Pool.ext hdata ?_
    rw [hthreads, hring]
    exact update_eq_self label.thread (ringPool p).threads
  | call method hbefore hdata hring howner =>
    right
    refine hstep (.call method) ?_ fun hpop ↦
      (handled hrun).none_consuming (howner hpop)
    rw [hbefore, hdata, hring]
    rfl
  | access access hchoice hstep' =>
    right
    exact hstep (.access access) hstep' fun hpop ↦ by cases hpop

/-- The condition on a claim in the buffer: fewer than `2 ^ 64` positions have been claimed, or the
buffer is not full. -/
def RoomToClaim (N : ℕ) (p : Pool Tid (Shared α) (Thread α))
    (label : Label Tid (Choice α)) : Prop :=
  (p.threads label.thread).call.ring.claiming →
    p.shared.data.claimed.length < 2 ^ 64 ∨ subUsize p.shared.data.head p.shared.data.tail < N

instance (p : Pool Tid (Shared α) (Thread α)) (label : Label Tid (Choice α)) :
    Decidable (RoomToClaim N p label) :=
  inferInstanceAs (Decidable (_ → _))

/-- The condition on a slot read in the buffer: the push that claimed the position has written
it. -/
def ReadPublished (p : Pool Tid (Shared α) (Thread α)) (label : Label Tid (Choice α)) : Prop :=
  (p.threads label.thread).call.ring.reading →
    ∀ u, (p.threads u).call.ring.writing ≠ some p.shared.data.popped.length

instance (p : Pool Tid (Shared α) (Thread α)) (label : Label Tid (Choice α)) :
    Decidable (ReadPublished p label) :=
  inferInstanceAs (Decidable (_ → _))

/-- Every message sent has claimed a position of the buffer. -/
theorem logged_of_run {ok : Pool Tid (Shared α) (Thread α) → Label Tid (Choice α) → Prop}
    (h : (system N Tid α).ReachableWhen ok p) :
    RingBuffer.Logged p.shared.data (ringPool p).threads :=
  RingBuffer.logged (ringPool_reachable (fun _ _ ↦ True) (fun _ _ _ _ _ _ ↦ trivial) h)

/-- The indices of the buffer are bounded. Assumes: the condition on the claims. -/
theorem bounded_of_run (hN : N < 2 ^ 64)
    {ok : Pool Tid (Shared α) (Thread α) → Label Tid (Choice α) → Prop}
    (hok : ∀ p label, ok p label → RoomToClaim N p label)
    (h : (system N Tid α).ReachableWhen ok p) :
    RingBuffer.Bounded N p.shared.data (ringPool p).threads := by
  refine RingBuffer.bounded hN (fun _ _ h ↦ h)
    (ringPool_reachable (RingBuffer.IndexCondition N) ?_ h)
  intro p label ringLabel hmeets hthread hstart
  refine ⟨hstart, ?_⟩
  rw [hthread]
  exact hok p label hmeets

/-- The buffer holds the messages that have been sent and not received. Assumes: the conditions on
the claims and on the slot reads. -/
theorem consistent_of_run (hN : RingBuffer.PowerOfTwo N)
    {ok : Pool Tid (Shared α) (Thread α) → Label Tid (Choice α) → Prop}
    (hroom : ∀ p label, ok p label → RoomToClaim N p label)
    (hpublished : ∀ p label, ok p label → ReadPublished p label)
    (h : (system N Tid α).ReachableWhen ok p) :
    RingBuffer.Consistent N p.shared.data (ringPool p).threads := by
  refine RingBuffer.consistent hN (fun _ _ h ↦ h)
    (ringPool_reachable (RingBuffer.PublishCondition N) ?_ h)
  intro p label ringLabel hmeets hthread hstart
  refine ⟨⟨hstart, ?_⟩, ?_⟩
  · rw [hthread]
    exact hroom p label hmeets
  · rw [hthread]
    exact hpublished p label hmeets

end Runs

end SyncPrimitives.Channel
