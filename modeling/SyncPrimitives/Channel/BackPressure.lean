import SyncPrimitives.Channel.Buffer

/-!
# Senders that sleep in front of a free slot

A sender that finds the buffer full loads `sender_wait_num` afterwards and sleeps on it; `recv`
bumps that word and wakes one sender after its pop, and `try_recv` does neither. `sender_stuck` is a
run in which the pop and the bump fall between the failed push and the load: the sender sleeps in
front of a free slot. Under `BackPressureCondition` no run ends like that.

The invariant counts slots. While a sender sleeps, every free slot is matched by another sender that
is awake inside `send`, or by a `recv` that has popped and has yet to wake a sender.
-/

set_option autoImplicit false
set_option relaxedAutoImplicit false

namespace SyncPrimitives.Channel

open Concurrency Function

variable {Tid α : Type}

/-- The receiver is alive and no receive is past its pop, some thread is inside `send`, every such
thread is asleep on `sender_wait_num`, and the buffer has room. -/
structure StuckSenders (N : ℕ) (p : Pool Tid (Shared α) (Thread α)) : Prop where
  alive : p.shared.receiver ≠ .dropped
  noPop : ∀ t message, (p.threads t).call ≠ .recv (.fetchAdd message) ∧
    (p.threads t).call ≠ .recv (.wakeOne message)
  sending : ∃ t pc, (p.threads t).call = .send pc
  asleep : ∀ t pc, (p.threads t).call = .send pc → ∃ message, pc = .asleep message
  room : subUsize p.shared.data.head p.shared.data.tail < N

/-- Thread 1 fills the buffer and fails to push a third message; thread 0 receives the first one,
bumps `sender_wait_num` and wakes nobody; thread 1 loads the new number and sleeps. -/
def stuckRun : List (Label (Fin 2) (Choice ℕ)) :=
  [⟨1, .send 1, none⟩] ++ List.replicate 6 ⟨1, .access .go, none⟩ ++
    [⟨1, .send 2, none⟩] ++ List.replicate 6 ⟨1, .access .go, none⟩ ++
    [⟨1, .send 3, none⟩] ++ List.replicate 3 ⟨1, .access .go, none⟩ ++
    [⟨0, .recv, none⟩] ++ List.replicate 7 ⟨0, .access .go, none⟩ ++
    List.replicate 2 ⟨1, .access .go, none⟩

/-- One sender and one receiver reach a state in which the sender is stuck. -/
theorem sender_stuck :
    ∃ p : Pool (Fin 2) (Shared ℕ) (Thread ℕ),
      (system 2 (Fin 2) ℕ).Reachable p ∧ StuckSenders 2 p := by
  obtain ⟨p, hrun, hidle, hasleep, halive, hroom⟩ := System.exists_reachableWhen_of_exec
    (M := system 2 (Fin 2) ℕ) (fun _ _ ↦ True)
    (P := fun p ↦ (p.threads 0).call = .idle ∧ (p.threads 1).call = .send (.asleep 3) ∧
      p.shared.receiver = .free ∧ subUsize p.shared.data.head p.shared.data.tail < 2)
    stuckRun (by decide)
  refine ⟨p, hrun, ⟨by simp [halive], ?_, ⟨1, _, hasleep⟩, ?_, hroom⟩⟩
  · refine Fin.forall_fin_two.mpr ⟨fun message ↦ ?_, fun message ↦ ?_⟩
    · simp [hidle]
    · simp [hasleep]
  · refine Fin.forall_fin_two.mpr ⟨fun pc hcall ↦ ?_, fun pc hcall ↦ ?_⟩
    · cases hidle.symm.trans hcall
    · exact ⟨3, (Call.send.inj (hasleep.symm.trans hcall)).symm⟩

/-! ### The invariant -/

/-- Whether a position is the `wait` of `send` with the given current value of `sender_wait_num`. -/
def Call.fallsAsleep (senderWaitNum : ℕ) : Call α → Bool
  | .send (.wait _ num) => num == senderWaitNum
  | _ => false

section Pool

variable [DecidableEq Tid] [Fintype Tid] {N : ℕ} {p p' : Pool Tid (Shared α) (Thread α)}
  {label : Label Tid (Choice α)}

/-- While the receiver is alive and a sender sleeps, every free slot is matched by a sender that is
awake inside `send` or by a `recv` that has popped and has yet to wake a sender. -/
def Matched (N : ℕ) (p : Pool Tid (Shared α) (Thread α)) : Prop :=
  p.shared.receiverState ≠ 0 → 0 < threadsAt p .sleepingSender →
    N + p.shared.data.popped.length ≤
      p.shared.data.claimed.length + threadsAt p .seeking + threadsAt p .bumping

/-- The condition on a step under which no sender is stuck. When a sender falls asleep, every free
slot is matched by another sender that is awake inside `send` or by a `recv` that has popped and has
yet to wake a sender; and so is every slot, the new one included, when a pop that wakes nobody frees
one while a sender sleeps: that of `try_recv`, or that of `recv` after it has found no sender. -/
structure BackPressureCondition (N : ℕ) (p : Pool Tid (Shared α) (Thread α))
    (label : Label Tid (Choice α)) : Prop where
  roomToClaim : RoomToClaim N p label
  sleepMatched : (p.threads label.thread).call.fallsAsleep p.shared.senderWaitNum →
    label.choice = .access .go → p.shared.receiverState ≠ 0 →
      N + p.shared.data.popped.length + 1 ≤
        p.shared.data.claimed.length + threadsAt p .seeking + threadsAt p .bumping
  releaseMatched : (p.threads label.thread).phase = .tryPopping ∨
      (p.threads label.thread).phase = .lastPop →
    (p.threads label.thread).call.ring.holding → label.choice = .access .go →
      0 < threadsAt p .sleepingSender →
        N + p.shared.data.popped.length + 1 ≤
          p.shared.data.claimed.length + threadsAt p .seeking + threadsAt p .bumping

instance (p : Pool Tid (Shared α) (Thread α)) (label : Label Tid (Choice α)) [DecidableEq α] :
    Decidable (BackPressureCondition N p label) :=
  decidable_of_iff
    (RoomToClaim N p label ∧
      ((p.threads label.thread).call.fallsAsleep p.shared.senderWaitNum →
        label.choice = .access .go → p.shared.receiverState ≠ 0 →
          N + p.shared.data.popped.length + 1 ≤
            p.shared.data.claimed.length + threadsAt p .seeking + threadsAt p .bumping) ∧
      ((p.threads label.thread).phase = .tryPopping ∨ (p.threads label.thread).phase = .lastPop →
        (p.threads label.thread).call.ring.holding → label.choice = .access .go →
          0 < threadsAt p .sleepingSender →
            N + p.shared.data.popped.length + 1 ≤
              p.shared.data.claimed.length + threadsAt p .seeking + threadsAt p .bumping))
    ⟨fun ⟨h₁, h₂, h₃⟩ ↦ ⟨h₁, h₂, h₃⟩, fun ⟨h₁, h₂, h₃⟩ ↦ ⟨h₁, h₂, h₃⟩⟩

/-- One step keeps the invariant. Assumes: the condition on the step. -/
theorem matched_step (hh : Handled p.shared p.threads) (h : Matched N p)
    (hok : BackPressureCondition N p label) (hmove : (system N Tid α).step p label = some p') :
    Matched N p' := by
  obtain ⟨moved, signal, hevent, hdelivered⟩ := pool_event hmove
  unfold Matched at h ⊢
  have hmoved {k k' : Phase} (hsignal : signal = .silent)
      (hbefore : (p.threads label.thread).phase = k) (hafter : moved.phase = k') :=
    Phase.forall.mp (threadsAt_moved hsignal hdelivered hbefore hafter)
  cases hevent
  case stay hcarried hafter hphase hsignal =>
    rw [hafter, threadsAt_stay hsignal hdelivered hphase]
    exact h
  case claim hclaiming value hafter hbefore hphase hsignal =>
    simp only [hafter, Shared.withData, RingBuffer.length_claimed_claim, RingBuffer.popped_claim]
    rcases hbefore with hbefore | hbefore
    all_goals
      have hmover : 0 < threadsAt p _ := countAt_pos_iff.mpr ⟨_, hbefore⟩
      have hcount := hmoved hsignal hbefore hphase
      simp only [reduceCtorEq, if_true, if_false, Nat.add_zero, Nat.sub_zero] at hcount
      simp only [hcount]
      clear hcount
      omega
  case unborrow hafter hbefore hphase hsignal =>
    simp only [hafter, Shared.unborrow]
    rcases hbefore with ⟨hbefore, hzero⟩ | hbefore | ⟨hbefore, hstate⟩
    all_goals
      have hmover : 0 < threadsAt p _ := countAt_pos_iff.mpr ⟨_, hbefore⟩
      have hcount := hmoved hsignal hbefore hphase
      simp only [reduceCtorEq, if_true, if_false, Nat.add_zero, Nat.sub_zero] at hcount
      simp only [hcount]
      clear hcount
      omega
  case borrow | takeReceiver =>
    rename_i hafter hbefore hphase hsignal
    simp only [hafter, Shared.borrow]
    rcases hphase with hphase | hphase | hphase
    all_goals
      have hmover : 0 < threadsAt p _ := countAt_pos_iff.mpr ⟨_, hbefore⟩
      have hcount := hmoved hsignal hbefore hphase
      simp only [reduceCtorEq, if_true, if_false, Nat.add_zero, Nat.sub_zero] at hcount
      simp only [hcount]
      clear hcount
      omega
  case awake hafter hbefore hphase hsignal =>
    simp only [hafter]
    rcases hbefore with hbefore | hbefore
    all_goals
      have hmover : 0 < threadsAt p _ := countAt_pos_iff.mpr ⟨_, hbefore⟩
      have hcount := hmoved hsignal hbefore hphase
      simp only [reduceCtorEq, if_true, if_false, Nat.add_zero, Nat.sub_zero] at hcount
      simp only [hcount]
      clear hcount
      omega
  case store hafter hbefore hphase hsignal =>
    have hmover : 0 < threadsAt p _ := countAt_pos_iff.mpr ⟨_, hbefore⟩
    have hcount := hmoved hsignal hbefore hphase
    simp only [reduceCtorEq, if_true, if_false, Nat.add_zero, Nat.sub_zero] at hcount
    have hstate : p.shared.receiverState ≠ 0 := by
      rw [Ne, hh.state, hh.eq_borrowed (t := label.thread) (by rw [hbefore]; rfl)]
      exact ReceiverHandle.noConfusion
    simp only [hafter, hcount]
    clear hcount
    omega
  case sleepSender hcall hchoice hafter hbefore hphase hsignal =>
    have hmover : 0 < threadsAt p _ := countAt_pos_iff.mpr ⟨_, hbefore⟩
    have hcount := hmoved hsignal hbefore hphase
    simp only [reduceCtorEq, if_true, if_false, Nat.add_zero, Nat.sub_zero] at hcount
    obtain ⟨message, hcall⟩ := hcall
    have hmatched := hok.sleepMatched (by simp [hcall, Call.fallsAsleep]) hchoice
    simp only [hafter, hcount]
    clear hcount
    omega
  case lastRelease | tryRelease =>
    rename_i hholding hchoice _ hafter hbefore hphase hsignal
    have hmover : 0 < threadsAt p _ := countAt_pos_iff.mpr ⟨_, hbefore⟩
    have hcount := hmoved hsignal hbefore hphase
    simp only [reduceCtorEq, if_true, if_false, Nat.add_zero, Nat.sub_zero] at hcount
    have hmatched := hok.releaseMatched (by simp [hbefore]) hholding hchoice
    simp only [hafter, Shared.withData, Shared.deliver, Shared.freeReceiver,
      RingBuffer.claimed_release, RingBuffer.length_popped_release]
    simp only [hcount]
    clear hcount
    omega
  case wakeReceiver hafter hbefore hphase hsignal =>
    simp only [hafter, Shared.unborrow]
    rcases threadsAt_wakeOne hsignal hdelivered (fun _ ↦ asleepOn_receiverState_iff)
      (fun _ ↦ phase_wake_receiver) hbefore hphase (by decide)
      (by decide) with ⟨hzero, hcount⟩ | hcount
    all_goals
      have hcount := Phase.forall.mp hcount
      simp only [reduceCtorEq, if_true, if_false] at hcount
      omega
  case wakeSender value hcarried hafter hbefore hphase hsignal =>
    simp only [hafter, Shared.deliver, Shared.freeReceiver]
    rcases threadsAt_wakeOne hsignal hdelivered (fun _ ↦ asleepOn_senderWaitNum_iff)
      (fun _ ↦ phase_wake_sender) hbefore hphase (by decide)
      (by decide) with ⟨hzero, hcount⟩ | hcount
    all_goals
      have hcount := Phase.forall.mp hcount
      simp only [reduceCtorEq, if_true, if_false] at hcount
      omega
  -- the other steps wake nobody, free no slot, and put no sender to sleep
  all_goals
    rename_i hafter hbefore hphase hsignal
    have hmover : 0 < threadsAt p _ := countAt_pos_iff.mpr ⟨_, hbefore⟩
    have hcount := hmoved hsignal hbefore hphase
    simp only [reduceCtorEq, if_true, if_false, Nat.add_zero, Nat.sub_zero] at hcount
    simp only [hafter, Shared.withData, Shared.freeReceiver, Shared.unborrow,
      RingBuffer.claimed_write, RingBuffer.popped_write, RingBuffer.claimed_release,
      RingBuffer.length_popped_release]
    simp only [hcount]
    clear hcount
    omega

/-- The invariant holds in every state of a run under the condition. -/
theorem matched (h : (system N Tid α).ReachableWhen (BackPressureCondition N) p) : Matched N p := by
  refine h.invariant ?_ ?_
  · intro _ hpos
    obtain ⟨t, ht⟩ := countAt_pos_iff.mp hpos
    cases ht
  · intro p label p' hrun hmatched hok hmove
    exact matched_step (handled hrun) hmatched hok hmove

omit [DecidableEq Tid] [Fintype Tid] in
/-- A sender that is awake and has not claimed is inside `send`. -/
theorem awake_of_seeking {th : Thread α} (h : th.phase = .seeking) :
    ∃ pc, th.call = .send pc ∧ ∀ message, pc ≠ .asleep message := by
  unfold Thread.phase at h
  cases hcall : th.call with
  | send pc =>
    refine ⟨pc, rfl, fun message heq ↦ ?_⟩
    rw [hcall, heq] at h
    cases h
  | trySend pc =>
    rw [hcall] at h
    cases pc with
    | tryPush pc => cases pc <;> cases h
    | notify pc => cases pc <;> cases h
    | _ => cases h
  | recv pc => rw [hcall] at h; cases pc <;> cases h
  | tryRecv pc => rw [hcall] at h; cases pc <;> cases h
  | _ => rw [hcall] at h; cases h

omit [DecidableEq Tid] [Fintype Tid] in
/-- A receive between its pop and its return is about to bump `sender_wait_num` or to wake a
sender. -/
theorem call_of_bumping {th : Thread α} (h : th.phase = .bumping) :
    ∃ message, th.call = .recv (.fetchAdd message) ∨ th.call = .recv (.wakeOne message) := by
  unfold Thread.phase at h
  cases hcall : th.call with
  | recv pc =>
    rw [hcall] at h
    cases pc with
    | fetchAdd message => exact ⟨message, .inl rfl⟩
    | wakeOne message => exact ⟨message, .inr rfl⟩
    | _ => cases h
  | send pc =>
    rw [hcall] at h
    cases pc with
    | push pc => cases pc <;> cases h
    | notify pc => cases pc <;> cases h
    | _ => cases h
  | trySend pc =>
    rw [hcall] at h
    cases pc with
    | tryPush pc => cases pc <;> cases h
    | notify pc => cases pc <;> cases h
    | _ => cases h
  | tryRecv pc => rw [hcall] at h; cases pc <;> cases h
  | _ => rw [hcall] at h; cases h

/-- In every run under the condition no sender is stuck. -/
theorem senders_not_stuck (hN : N < 2 ^ 64)
    (h : (system N Tid α).ReachableWhen (BackPressureCondition N) p) : ¬ StuckSenders N p := by
  rintro ⟨halive, hnoPop, ⟨t, pc, hcall⟩, hasleep, hroom⟩
  have hbounded := bounded_of_run hN (fun _ _ h ↦ h.roomToClaim) h
  have hstate : p.shared.receiverState ≠ 0 := fun hzero ↦ halive ((handled h).state.mp hzero)
  have hsleeping : 0 < threadsAt p .sleepingSender := by
    obtain ⟨message, rfl⟩ := hasleep t pc hcall
    exact countAt_pos_iff.mpr ⟨t, phase_of_call hcall⟩
  have hseeking : threadsAt p .seeking = 0 := by
    refine countAt_eq_zero_iff.mpr fun u hu ↦ ?_
    obtain ⟨pc', hcall', hnot⟩ := awake_of_seeking hu
    obtain ⟨message, hpc⟩ := hasleep u pc' hcall'
    exact hnot message hpc
  have hbumping : threadsAt p .bumping = 0 := by
    refine countAt_eq_zero_iff.mpr fun u hu ↦ ?_
    obtain ⟨message, hcall' | hcall'⟩ := call_of_bumping hu
    · exact (hnoPop u message).1 hcall'
    · exact (hnoPop u message).2 hcall'
  have hfull := matched h hstate hsleeping
  have hle := hbounded.room
  rw [hbounded.head, hbounded.tail] at hroom
  unfold subUsize at hroom
  omega

/-- `senders_not_stuck` on a run in which the sender 1 falls asleep in front of a full buffer, and
the receive of thread 0 wakes it. -/
theorem senders_not_stuck_woken :
    ∃ p : Pool (Fin 2) (Shared ℕ) (Thread ℕ),
      p.shared.data.pushed = [0, 1, 2] ∧ ¬ StuckSenders 2 p := by
  obtain ⟨p, hrun, hpushed⟩ := System.exists_reachableWhen_of_exec
    (M := system 2 (Fin 2) ℕ) (BackPressureCondition 2)
    (P := fun p ↦ p.shared.data.pushed = [0, 1, 2])
    ([⟨1, .send 1, none⟩] ++ List.replicate 6 ⟨1, .access .go, none⟩ ++
      [⟨1, .send 2, none⟩] ++ List.replicate 6 ⟨1, .access .go, none⟩ ++
      [⟨1, .send 3, none⟩] ++ List.replicate 5 ⟨1, .access .go, none⟩ ++
      [⟨0, .recv, none⟩] ++ List.replicate 6 ⟨0, .access .go, none⟩ ++
      [⟨0, .access .go, some 1⟩] ++ List.replicate 5 ⟨1, .access .go, none⟩) (by decide +kernel)
  exact ⟨p, hpushed, senders_not_stuck (by decide) hrun⟩

end Pool

end SyncPrimitives.Channel
