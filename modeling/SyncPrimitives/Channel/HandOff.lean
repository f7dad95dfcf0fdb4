import SyncPrimitives.Channel.Buffer

/-!
# Messages that the receiver sleeps through

`recv` announces with a plain store of two to `receiver_state` that it is about to sleep, after it
has found the buffer empty; a sender looks at `receiver_state` after its push.
`message_slept_through` is a run in which the push and the look fall between the empty pop and the
store: the receiver sleeps with a message in the buffer. Under `HandOffCondition` no run ends like
that; the condition asks of every such store that the buffer is still empty, or that somebody inside
`send`, or past the claim of `try_send`, has yet to look.
-/

set_option autoImplicit false
set_option relaxedAutoImplicit false

namespace SyncPrimitives.Channel

open Concurrency Function

variable {Tid α : Type}

/-- Whether a position is inside `send` or `try_send`. -/
def Call.insideSend : Call α → Bool
  | .send _ => true
  | .trySend _ => true
  | _ => false

/-- The receiver is asleep in `recv`, a message whose push has returned `Ok` has not been popped,
and no `send` or `try_send` is in progress. -/
structure SleptThrough (p : Pool Tid (Shared α) (Thread α)) : Prop where
  asleep : ∃ t, (p.threads t).call = .recv .asleep
  message : ∃ i ∈ p.shared.data.pushed, p.shared.data.popped.length ≤ i
  noSend : ∀ t, (p.threads t).call.insideSend = false

/-- Thread 0 finds the buffer empty in `recv`; thread 1 sends a message and sees that
`receiver_state` is one; thread 0 stores two and sleeps. -/
def sleptThroughRun : List (Label (Fin 2) (Choice ℕ)) :=
  [⟨0, .recv, none⟩] ++ List.replicate 3 ⟨0, .access .go, none⟩ ++
    [⟨1, .send 7, none⟩] ++ List.replicate 6 ⟨1, .access .go, none⟩ ++
    List.replicate 2 ⟨0, .access .go, none⟩

/-- One sender and one receiver reach a state in which the receiver sleeps through a message. -/
theorem message_slept_through :
    ∃ p : Pool (Fin 2) (Shared ℕ) (Thread ℕ), (system 2 (Fin 2) ℕ).Reachable p ∧
      SleptThrough p := by
  obtain ⟨p, hrun, hasleep, hpushed, hpopped, hnone⟩ := System.exists_reachableWhen_of_exec
    (M := system 2 (Fin 2) ℕ) (fun _ _ ↦ True)
    (P := fun p ↦ (p.threads 0).call = .recv .asleep ∧ p.shared.data.pushed = [0] ∧
      p.shared.data.popped.length = 0 ∧ ∀ t, (p.threads t).call.insideSend = false)
    sleptThroughRun (by decide)
  exact ⟨p, hrun, ⟨0, hasleep⟩, ⟨0, by simp [hpushed], by simp [hpopped]⟩, hnone⟩

/-! ### The invariant -/

section Pool

variable [DecidableEq Tid] [Fintype Tid] {N : ℕ} {p p' : Pool Tid (Shared α) (Thread α)}
  {label : Label Tid (Choice α)}

/-- A sleeping receiver is still announced in `receiver_state`, or somebody is about to wake it; and
an announced receiver that is about to sleep or asleep has an empty buffer before it, or some sender
has yet to look at `receiver_state`. -/
structure Announced (p : Pool Tid (Shared α) (Thread α)) : Prop where
  sleeping : 0 < threadsAt p .sleeping → p.shared.receiverState = 2 ∨ 0 < threadsAt p .waking
  looking : p.shared.receiverState = 2 → 0 < threadsAt p .waiting + threadsAt p .sleeping →
    p.shared.data.popped.length < p.shared.data.claimed.length →
      0 < threadsAt p .seeking + threadsAt p .owing + threadsAt p .sleepingSender

omit [DecidableEq Tid] in
theorem announced_iff : Announced p ↔
    (0 < threadsAt p .sleeping → p.shared.receiverState = 2 ∨ 0 < threadsAt p .waking) ∧
      (p.shared.receiverState = 2 → 0 < threadsAt p .waiting + threadsAt p .sleeping →
        p.shared.data.popped.length < p.shared.data.claimed.length →
          0 < threadsAt p .seeking + threadsAt p .owing + threadsAt p .sleepingSender) :=
  ⟨fun ⟨h₁, h₂⟩ ↦ ⟨h₁, h₂⟩, fun ⟨h₁, h₂⟩ ↦ ⟨h₁, h₂⟩⟩

/-- The condition on a step under which no message is slept through: when `recv` announces that it
is about to sleep, every claimed message has been popped, or some thread is inside `send`, or past
the claim of `try_send`, and has yet to look at `receiver_state`. -/
def HandOffCondition (p : Pool Tid (Shared α) (Thread α)) (label : Label Tid (Choice α)) : Prop :=
  (p.threads label.thread).phase = .storing →
    p.shared.data.popped.length < p.shared.data.claimed.length →
      ∃ u, (p.threads u).phase = .seeking ∨ (p.threads u).phase = .owing ∨
        (p.threads u).phase = .sleepingSender

instance (p : Pool Tid (Shared α) (Thread α)) (label : Label Tid (Choice α)) :
    Decidable (HandOffCondition p label) :=
  inferInstanceAs (Decidable (_ → _ → _))

/-- One step keeps the invariant. Assumes: the condition on the step. -/
theorem announced_step (hh : Handled p.shared p.threads) (h : Announced p)
    (hok : HandOffCondition p label) (hmove : (system N Tid α).step p label = some p') :
    Announced p' := by
  obtain ⟨moved, signal, hevent, hdelivered⟩ := pool_event hmove
  have hone := hh.receiving_le_one
  have hstate := hh.state
  rw [receiving_eq] at hone
  rw [announced_iff] at h ⊢
  have hmoved {k k' : Phase} (hsignal : signal = .silent)
      (hbefore : (p.threads label.thread).phase = k) (hafter : moved.phase = k') :=
    Phase.forall.mp (threadsAt_moved hsignal hdelivered hbefore hafter)
  cases hevent
  case stay hcarried hafter hphase hsignal =>
    rw [hafter, threadsAt_stay hsignal hdelivered hphase]
    exact h
  case claim hclaiming value hafter hbefore hphase hsignal =>
    simp only [hafter, Shared.withData, RingBuffer.length_claimed_claim, RingBuffer.popped_claim]
    rcases hbefore with hbefore | hbefore
    all_goals
      have hmover : 0 < threadsAt p _ := countAt_pos_iff.mpr ⟨_, hbefore⟩
      have hcount := hmoved hsignal hbefore hphase
      simp only [reduceCtorEq, if_true, if_false, Nat.add_zero, Nat.sub_zero] at hcount
      simp only [hcount]
      clear hcount
      omega
  case unborrow hafter hbefore hphase hsignal =>
    simp only [hafter, Shared.unborrow]
    rcases hbefore with ⟨hbefore, hzero⟩ | hbefore | ⟨hbefore, hstate⟩
    all_goals
      have hmover : 0 < threadsAt p _ := countAt_pos_iff.mpr ⟨_, hbefore⟩
      have hcount := hmoved hsignal hbefore hphase
      simp only [reduceCtorEq, if_true, if_false, Nat.add_zero, Nat.sub_zero] at hcount
      simp only [hcount]
      clear hcount
      omega
  case borrow | takeReceiver =>
    rename_i hafter hbefore hphase hsignal
    simp only [hafter, Shared.borrow]
    rcases hphase with hphase | hphase | hphase
    all_goals
      have hmover : 0 < threadsAt p _ := countAt_pos_iff.mpr ⟨_, hbefore⟩
      have hcount := hmoved hsignal hbefore hphase
      simp only [reduceCtorEq, if_true, if_false, Nat.add_zero, Nat.sub_zero] at hcount
      simp only [hcount]
      clear hcount
      omega
  case awake hafter hbefore hphase hsignal =>
    simp only [hafter]
    rcases hbefore with hbefore | hbefore
    all_goals
      have hmover : 0 < threadsAt p _ := countAt_pos_iff.mpr ⟨_, hbefore⟩
      have hcount := hmoved hsignal hbefore hphase
      simp only [reduceCtorEq, if_true, if_false, Nat.add_zero, Nat.sub_zero] at hcount
      simp only [hcount]
      clear hcount
      omega
  case store hafter hbefore hphase hsignal =>
    have hmover : 0 < threadsAt p _ := countAt_pos_iff.mpr ⟨_, hbefore⟩
    have hcount := hmoved hsignal hbefore hphase
    simp only [reduceCtorEq, if_true, if_false, Nat.add_zero, Nat.sub_zero] at hcount
    have hlooking : p.shared.data.popped.length < p.shared.data.claimed.length →
        0 < threadsAt p .seeking + threadsAt p .owing + threadsAt p .sleepingSender := by
      intro hlt
      obtain ⟨u, hu | hu | hu⟩ := hok hbefore hlt
      · exact Nat.add_pos_left (Nat.add_pos_left (countAt_pos_iff.mpr ⟨u, hu⟩) _) _
      · exact Nat.add_pos_left (Nat.add_pos_right _ (countAt_pos_iff.mpr ⟨u, hu⟩)) _
      · exact Nat.add_pos_right _ (countAt_pos_iff.mpr ⟨u, hu⟩)
    simp only [hafter, hcount]
    clear hcount
    omega
  case wakeReceiver hafter hbefore hphase hsignal =>
    simp only [hafter, Shared.unborrow]
    rcases threadsAt_wakeOne hsignal hdelivered (fun _ ↦ asleepOn_receiverState_iff)
      (fun _ ↦ phase_wake_receiver) hbefore hphase (by decide)
      (by decide) with ⟨hzero, hcount⟩ | hcount
    all_goals
      have hcount := Phase.forall.mp hcount
      simp only [reduceCtorEq, if_true, if_false] at hcount
      omega
  case wakeSender value hcarried hafter hbefore hphase hsignal =>
    simp only [hafter, Shared.deliver, Shared.freeReceiver]
    rcases threadsAt_wakeOne hsignal hdelivered (fun _ ↦ asleepOn_senderWaitNum_iff)
      (fun _ ↦ phase_wake_sender) hbefore hphase (by decide)
      (by decide) with ⟨hzero, hcount⟩ | hcount
    all_goals
      have hcount := Phase.forall.mp hcount
      simp only [reduceCtorEq, if_true, if_false] at hcount
      omega
  -- the other steps wake nobody, and none of them puts the receiver to sleep unannounced
  all_goals
    rename_i hafter hbefore hphase hsignal
    have hmover : 0 < threadsAt p _ := countAt_pos_iff.mpr ⟨_, hbefore⟩
    have hcount := hmoved hsignal hbefore hphase
    simp only [reduceCtorEq, if_true, if_false, Nat.add_zero, Nat.sub_zero] at hcount
    simp only [hafter, Shared.withData, Shared.deliver, Shared.freeReceiver, Shared.unborrow,
      RingBuffer.claimed_write, RingBuffer.popped_write, RingBuffer.claimed_release,
      RingBuffer.length_popped_release]
    omega

omit [DecidableEq Tid] in
/-- The invariant holds of a new channel. -/
theorem announced_new : Announced (new Tid α) := by
  have hzero : ∀ phase, phase ≠ .idle → threadsAt (new Tid α) phase = 0 := fun phase hphase ↦
    countAt_eq_zero_iff.mpr fun _ ↦ hphase.symm
  simp [announced_iff, hzero]

/-- The invariant holds in every state of a run under the condition. -/
theorem announced (h : (system N Tid α).ReachableWhen HandOffCondition p) : Announced p := by
  refine h.invariant announced_new ?_
  intro p label p' hrun hannounced hok hmove
  exact announced_step (handled hrun) hannounced hok hmove

omit [DecidableEq Tid] [Fintype Tid] in
/-- A thread that has yet to look at `receiver_state`, or to wake the receiver, is inside `send` or
`try_send`. -/
theorem insideSend_of_phase {th : Thread α}
    (h : th.phase = .seeking ∨ th.phase = .owing ∨ th.phase = .sleepingSender ∨
      th.phase = .waking) :
    th.call.insideSend := by
  unfold Thread.phase at h
  cases hcall : th.call with
  | send pc => rfl
  | trySend pc => rfl
  | recv pc => rw [hcall] at h; cases pc <;> simp [Call.phase] at h
  | tryRecv pc => rw [hcall] at h; cases pc <;> simp [Call.phase] at h
  | _ => rw [hcall] at h; simp [Call.phase] at h

/-- In every run under the condition the receiver sleeps through no message. -/
theorem no_message_slept_through (h : (system N Tid α).ReachableWhen HandOffCondition p) :
    ¬ SleptThrough p := by
  rintro ⟨⟨t, hasleep⟩, ⟨i, hpushed, hunpopped⟩, hnone⟩
  have hannounced := announced h
  have hclaimed := (logged_of_run h).pushed i hpushed
  have hzero (phase : Phase) (hphase : phase = .seeking ∨ phase = .owing ∨
      phase = .sleepingSender ∨ phase = .waking) : threadsAt p phase = 0 := by
    refine countAt_eq_zero_iff.mpr fun u hu ↦ ?_
    have hinside := insideSend_of_phase (hu ▸ hphase)
    rw [hnone u] at hinside
    cases hinside
  have hsleeping : 0 < threadsAt p .sleeping :=
    countAt_pos_iff.mpr ⟨t, phase_of_call hasleep⟩
  have hwaking := hzero .waking (by simp)
  have hstate : p.shared.receiverState = 2 := by
    rcases hannounced.sleeping hsleeping with hstate | hpos
    · exact hstate
    · omega
  have hlooking := hannounced.looking hstate (by omega) (by omega)
  rw [hzero .seeking (by simp), hzero .owing (by simp),
    hzero .sleepingSender (by simp)] at hlooking
  exact absurd hlooking (lt_irrefl 0)

/-- `no_message_slept_through` on a run in which the receiver 0 falls asleep and is woken by the
send of thread 1. -/
theorem no_message_slept_through_woken :
    ∃ p : Pool (Fin 2) (Shared ℕ) (Thread ℕ), p.shared.received = [some 7] ∧ ¬ SleptThrough p := by
  obtain ⟨p, hrun, hreceived⟩ := System.exists_reachableWhen_of_exec
    (M := system 2 (Fin 2) ℕ) HandOffCondition (P := fun p ↦ p.shared.received = [some 7])
    ([⟨0, .recv, none⟩] ++ List.replicate 5 ⟨0, .access .go, none⟩ ++
      [⟨1, .send 7, none⟩] ++ List.replicate 7 ⟨1, .access .go, none⟩ ++
      [⟨1, .access .go, some 0⟩] ++ List.replicate 7 ⟨0, .access .go, none⟩) (by decide)
  exact ⟨p, hreceived, no_message_slept_through hrun⟩

end Pool

end SyncPrimitives.Channel
