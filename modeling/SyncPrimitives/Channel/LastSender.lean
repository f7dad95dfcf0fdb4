import SyncPrimitives.Channel.Buffer

/-!
# The drop of the last sender

`recv` looks at `senders_count` only at the top of its loop, and the drop of a `Sender` wakes
nobody. `receiver_abandoned` is a run in which the last `Sender` is dropped while the receiver
sleeps. Under `LastDropCondition` no run ends like that; the condition asks of the drop that makes
`senders_count` zero that the receiver is not on its way from its look at `senders_count` to its
sleep.
-/

set_option autoImplicit false
set_option relaxedAutoImplicit false

namespace SyncPrimitives.Channel

open Concurrency Function

variable {Tid α : Type}

/-- The receiver is asleep in `recv`, `senders_count` is zero, and no operation or drop of a
`Sender` is in progress. -/
structure Abandoned (p : Pool Tid (Shared α) (Thread α)) : Prop where
  asleep : ∃ t, (p.threads t).call = .recv .asleep
  noSender : p.shared.sendersCount = 0
  noCall : ∀ t, (p.threads t).call.usesSender = false

/-- Thread 0 falls asleep in `recv`; thread 1 drops the only `Sender`. -/
def abandonedRun : List (Label (Fin 2) (Choice ℕ)) :=
  [⟨0, .recv, none⟩] ++ List.replicate 5 ⟨0, .access .go, none⟩ ++
    [⟨1, .dropSender, none⟩, ⟨1, .access .go, none⟩]

/-- One sender and one receiver reach a state in which the receiver is abandoned. -/
theorem receiver_abandoned :
    ∃ p : Pool (Fin 2) (Shared ℕ) (Thread ℕ), (system 2 (Fin 2) ℕ).Reachable p ∧ Abandoned p := by
  obtain ⟨p, hrun, hasleep, hcount, hnone⟩ := System.exists_reachableWhen_of_exec
    (M := system 2 (Fin 2) ℕ) (fun _ _ ↦ True)
    (P := fun p ↦ (p.threads 0).call = .recv .asleep ∧ p.shared.sendersCount = 0 ∧
      ∀ t, (p.threads t).call.usesSender = false)
    abandonedRun (by decide)
  exact ⟨p, hrun, ⟨0, hasleep⟩, hcount, hnone⟩

/-! ### The invariant -/

section Pool

variable [DecidableEq Tid] [Fintype Tid] {N : ℕ} {p p' : Pool Tid (Shared α) (Thread α)}
  {label : Label Tid (Choice α)}

/-- The receiver is not on its way to sleep: it neither sleeps nor is about to announce it, a `wait`
will find `receiver_state` changed, and a pop will find a message. -/
structure StaysAwake (p : Pool Tid (Shared α) (Thread α)) : Prop where
  storing : threadsAt p .storing = 0
  sleeping : threadsAt p .sleeping = 0
  waiting : 0 < threadsAt p .waiting → p.shared.receiverState ≠ 2
  popping : 0 < threadsAt p .popping →
    p.shared.data.popped.length < p.shared.data.claimed.length

omit [DecidableEq Tid] in
theorem staysAwake_iff : StaysAwake p ↔ threadsAt p .storing = 0 ∧ threadsAt p .sleeping = 0 ∧
    (0 < threadsAt p .waiting → p.shared.receiverState ≠ 2) ∧
      (0 < threadsAt p .popping →
        p.shared.data.popped.length < p.shared.data.claimed.length) :=
  ⟨fun ⟨h₁, h₂, h₃, h₄⟩ ↦ ⟨h₁, h₂, h₃, h₄⟩, fun ⟨h₁, h₂, h₃, h₄⟩ ↦ ⟨h₁, h₂, h₃, h₄⟩⟩

instance : Decidable (StaysAwake p) := decidable_of_iff' _ staysAwake_iff

/-- The condition on a step under which the receiver is not abandoned: the drop that makes
`senders_count` zero happens only while the receiver is not on its way to sleep. The other two parts
say that nothing wraps. -/
structure LastDropCondition (N : ℕ) (p : Pool Tid (Shared α) (Thread α))
    (label : Label Tid (Choice α)) : Prop where
  roomToClaim : RoomToClaim N p label
  cloneBound : CloneBound p label
  lastDrop : (p.threads label.thread).phase = .droppingSender → p.shared.sendersCount = 1 →
    StaysAwake p

instance (p : Pool Tid (Shared α) (Thread α)) (label : Label Tid (Choice α)) :
    Decidable (LastDropCondition N p label) :=
  decidable_of_iff
    (RoomToClaim N p label ∧ CloneBound p label ∧
      ((p.threads label.thread).phase = .droppingSender → p.shared.sendersCount = 1 →
        StaysAwake p))
    ⟨fun ⟨h₁, h₂, h₃⟩ ↦ ⟨h₁, h₂, h₃⟩, fun ⟨h₁, h₂, h₃⟩ ↦ ⟨h₁, h₂, h₃⟩⟩

/-- One step keeps the invariant. Assumes: the condition on the step, and the invariants on the
handles, on `senders_count` and on the buffer. -/
theorem staysAwake_step (hN : N < 2 ^ 64) (hh : Handled p.shared p.threads)
    (hsenders : p.shared.senders + threadsAt p .droppingSender ≤ p.shared.sendersCount ∧
      p.shared.sendersCount < 2 ^ 64)
    (hb : RingBuffer.Bounded N p.shared.data (ringPool p).threads)
    (h : p.shared.sendersCount = 0 → StaysAwake p) (hok : LastDropCondition N p label)
    (hmove : (system N Tid α).step p label = some p') :
    p'.shared.sendersCount = 0 → StaysAwake p' := by
  obtain ⟨moved, signal, hevent, hdelivered⟩ := pool_event hmove
  have hmoved {k k' : Phase} (hsignal : signal = .silent)
      (hbefore : (p.threads label.thread).phase = k) (hafter : moved.phase = k') :=
    Phase.forall.mp (threadsAt_moved hsignal hdelivered hbefore hafter)
  have hone := hh.receiving_le_one
  have hborrowed := hh.borrowed
  have halive := hh.alive
  rw [receiving_eq] at hone
  rw [borrowing_eq] at hborrowed
  rw [staysAwake_iff] at h ⊢
  cases hevent
  case stay hcarried hafter hphase hsignal =>
    rw [hafter, threadsAt_stay hsignal hdelivered hphase]
    exact h
  case cloned | clonePanicked =>
    rename_i hafter hbefore hphase hsignal
    have hword := addUsize_of_lt (hok.cloneBound hbefore)
    simp only [hafter, hword, Shared.unborrow]
    intro hzero
    omega
  case dropSender hafter hbefore hphase hsignal =>
    have hmover : 0 < threadsAt p _ := countAt_pos_iff.mpr ⟨_, hbefore⟩
    have hcount := hmoved hsignal hbefore hphase
    simp only [reduceCtorEq, if_true, if_false, Nat.add_zero, Nat.sub_zero] at hcount
    have hself : 0 < threadsAt p .droppingSender := countAt_pos_iff.mpr ⟨_, hbefore⟩
    have hword : subUsize p.shared.sendersCount 1 = p.shared.sendersCount - 1 :=
      subUsize_of_le (by omega) hsenders.2
    simp only [hafter, hword]
    intro hzero
    have hawake := staysAwake_iff.mp (hok.lastDrop hbefore (by omega))
    simp only [hcount]
    clear hcount
    omega
  case popNone hcall hafter hbefore hphase hsignal =>
    have hempty := hb.length_eq_of_loadHead hN (u := label.thread)
      (.inl (by simp only [ringPool, hcall, Call.ring]))
    have hself : 0 < threadsAt p .popping := countAt_pos_iff.mpr ⟨_, hbefore⟩
    simp only [hafter]
    intro hzero
    have hawake := h hzero
    omega
  case unborrow hafter hbefore hphase hsignal =>
    simp only [hafter, Shared.unborrow]
    rcases hbefore with ⟨hbefore, hzero⟩ | hbefore | ⟨hbefore, hstate⟩
    all_goals
      have hmover : 0 < threadsAt p _ := countAt_pos_iff.mpr ⟨_, hbefore⟩
      have hcount := hmoved hsignal hbefore hphase
      simp only [reduceCtorEq, if_true, if_false, Nat.add_zero, Nat.sub_zero] at hcount
      simp only [hcount]
      clear hcount
      omega
  case claim hclaiming value hafter hbefore hphase hsignal =>
    simp only [hafter, Shared.withData, RingBuffer.length_claimed_claim, RingBuffer.popped_claim]
    rcases hbefore with hbefore | hbefore
    all_goals
      have hmover : 0 < threadsAt p _ := countAt_pos_iff.mpr ⟨_, hbefore⟩
      have hcount := hmoved hsignal hbefore hphase
      simp only [reduceCtorEq, if_true, if_false, Nat.add_zero, Nat.sub_zero] at hcount
      simp only [hcount]
      clear hcount
      omega
  case borrow | takeReceiver =>
    rename_i hafter hbefore hphase hsignal
    simp only [hafter, Shared.borrow]
    rcases hphase with hphase | hphase | hphase
    all_goals
      have hmover : 0 < threadsAt p _ := countAt_pos_iff.mpr ⟨_, hbefore⟩
      have hcount := hmoved hsignal hbefore hphase
      simp only [reduceCtorEq, if_true, if_false, Nat.add_zero, Nat.sub_zero] at hcount
      simp only [hcount]
      clear hcount
      omega
  case awake hafter hbefore hphase hsignal =>
    simp only [hafter]
    rcases hbefore with hbefore | hbefore
    all_goals
      have hmover : 0 < threadsAt p _ := countAt_pos_iff.mpr ⟨_, hbefore⟩
      have hcount := hmoved hsignal hbefore hphase
      simp only [reduceCtorEq, if_true, if_false, Nat.add_zero, Nat.sub_zero] at hcount
      simp only [hcount]
      clear hcount
      omega
  case wakeReceiver hafter hbefore hphase hsignal =>
    have hself : 0 < threadsAt p .waking := countAt_pos_iff.mpr ⟨_, hbefore⟩
    simp only [hafter, Shared.unborrow]
    intro hzero
    omega
  case wakeSender value hcarried hafter hbefore hphase hsignal =>
    simp only [hafter, Shared.deliver, Shared.freeReceiver]
    rcases threadsAt_wakeOne hsignal hdelivered (fun _ ↦ asleepOn_senderWaitNum_iff)
      (fun _ ↦ phase_wake_sender) hbefore hphase (by decide)
      (by decide) with ⟨hzero, hcount⟩ | hcount
    all_goals
      have hcount := Phase.forall.mp hcount
      simp only [reduceCtorEq, if_true, if_false] at hcount
      omega
  -- the other steps need a `Sender`, or do not bring the receiver nearer to its sleep
  all_goals
    rename_i hafter hbefore hphase hsignal
    have hmover : 0 < threadsAt p _ := countAt_pos_iff.mpr ⟨_, hbefore⟩
    have hcount := hmoved hsignal hbefore hphase
    simp only [reduceCtorEq, if_true, if_false, Nat.add_zero, Nat.sub_zero] at hcount
    simp only [hafter, Shared.withData, Shared.deliver, Shared.freeReceiver,
      RingBuffer.claimed_write, RingBuffer.popped_write, RingBuffer.claimed_release,
      RingBuffer.length_popped_release]
    simp only [hcount]
    clear hcount
    omega

/-- Once `senders_count` is zero, the receiver stays awake in every state of a run under the
condition. -/
theorem staysAwake (hN : N < 2 ^ 64) (h : (system N Tid α).ReachableWhen (LastDropCondition N) p) :
    p.shared.sendersCount = 0 → StaysAwake p := by
  refine h.invariant (P := fun p ↦ p.shared.sendersCount = 0 → StaysAwake p) ?_ ?_
  · intro hzero
    cases hzero
  · intro p label p' hrun hawake hok hmove
    have hsenders := senders_le (fun _ _ h ↦ h.cloneBound) hrun
    have hbounded := bounded_of_run hN (fun _ _ h ↦ h.roomToClaim) hrun
    exact staysAwake_step hN (handled hrun) hsenders hbounded hawake hok hmove

/-- In every run under the condition the receiver is not abandoned. -/
theorem receiver_not_abandoned (hN : N < 2 ^ 64)
    (h : (system N Tid α).ReachableWhen (LastDropCondition N) p) : ¬ Abandoned p := by
  rintro ⟨⟨t, hasleep⟩, hcount, -⟩
  have hsleeping : 0 < threadsAt p .sleeping := countAt_pos_iff.mpr ⟨t, phase_of_call hasleep⟩
  have hzero := (staysAwake hN h hcount).sleeping
  omega

/-- `receiver_not_abandoned` on a run in which the last `Sender` is dropped between two calls of
`recv`, the second of which finds that there is no sender. -/
theorem receiver_not_abandoned_between_calls :
    ∃ p : Pool (Fin 2) (Shared ℕ) (Thread ℕ),
      p.shared.sendersCount = 0 ∧ (p.threads 0).call = .recv (.tryPop .loadTail) ∧
        ¬ Abandoned p := by
  obtain ⟨p, hrun, hcount, hcall⟩ := System.exists_reachableWhen_of_exec
    (M := system 2 (Fin 2) ℕ) (LastDropCondition 2)
    (P := fun p ↦ p.shared.sendersCount = 0 ∧ (p.threads 0).call = .recv (.tryPop .loadTail))
    ([⟨1, .send 7, none⟩] ++ List.replicate 6 ⟨1, .access .go, none⟩ ++
      [⟨0, .recv, none⟩] ++ List.replicate 7 ⟨0, .access .go, none⟩ ++
      [⟨1, .dropSender, none⟩, ⟨1, .access .go, none⟩] ++
      [⟨0, .recv, none⟩, ⟨0, .access .go, none⟩]) (by decide)
  exact ⟨p, hcount, hcall, receiver_not_abandoned (by decide) hrun⟩

end Pool

end SyncPrimitives.Channel
