import SyncPrimitives.Channel.Phases

/-!
# The handles of the channel

`threadsAt` counts the threads in a phase; a step of one thread, with the wake-up it sends, changes
the counts by one. `Handled` is the invariant on the handles: which calls borrow a
`Sender`, who has the `Receiver`, and that `receiver_state` is zero exactly when the `Receiver` has
been dropped. It holds in every run, without a condition. `senders_count` is at least the number of
`Sender`s as long as no clone makes it wrap (`senders_le`).
-/

set_option autoImplicit false
set_option relaxedAutoImplicit false

namespace SyncPrimitives.Channel

open Concurrency Function

variable {α : Type}

/-! ### Sleeping and waking -/

section Sleeping

variable {th : Thread α}

/-- The word on which a thread in a phase is asleep. -/
def Phase.address : Phase → Option Addr
  | .sleepingSender => some .senderWaitNum
  | .sleeping => some .receiverState
  | _ => none

theorem asleepOn_eq_address : asleepOn th = th.phase.address := by
  unfold asleepOn Thread.phase
  cases th.call with
  | send pc =>
    cases pc with
    | push pc => cases pc <;> rfl
    | notify pc => cases pc <;> rfl
    | _ => rfl
  | trySend pc =>
    cases pc with
    | tryPush pc => cases pc <;> rfl
    | notify pc => cases pc <;> rfl
    | _ => rfl
  | recv pc => cases pc <;> rfl
  | tryRecv pc => cases pc <;> rfl
  | _ => rfl

theorem asleepOn_senderWaitNum_iff :
    asleepOn th = some .senderWaitNum ↔ th.phase = .sleepingSender := by
  rw [asleepOn_eq_address]
  cases th.phase <;> simp [Phase.address]

theorem asleepOn_receiverState_iff : asleepOn th = some .receiverState ↔ th.phase = .sleeping := by
  rw [asleepOn_eq_address]
  cases th.phase <;> simp [Phase.address]

/-- A sender that has been woken starts over. -/
theorem phase_wake_sender (h : th.phase = .sleepingSender) : (wake th).phase = .seeking := by
  have hasleep := asleepOn_senderWaitNum_iff.mpr h
  unfold asleepOn at hasleep
  unfold wake
  split at hasleep
  case h_1 => rfl
  all_goals cases hasleep

/-- The receiver that has been woken starts over. -/
theorem phase_wake_receiver (h : th.phase = .sleeping) : (wake th).phase = .checking := by
  have hasleep := asleepOn_receiverState_iff.mpr h
  unfold asleepOn at hasleep
  unfold wake
  split at hasleep
  case h_2 => rfl
  all_goals cases hasleep

/-- A thread is asleep outside the ring buffer. -/
theorem ring_wake : (wake th).call.ring = th.call.ring := by
  unfold wake
  split
  case h_1 message hcall => rw [hcall]; rfl
  case h_2 hcall => rw [hcall]; rfl
  case h_3 => rfl

end Sleeping

/-! ### Counting the threads in a phase -/

section Pool

variable {Tid : Type} [Fintype Tid]

/-- The number of threads in a phase. -/
def threadsAt (p : Pool Tid (Shared α) (Thread α)) (phase : Phase) : ℕ :=
  countAt Thread.phase phase p.threads

variable [DecidableEq Tid] {N : ℕ} {p p' : Pool Tid (Shared α) (Thread α)}
  {label : Label Tid (Choice α)}

/-- A step of the pool is an event of one thread and the delivery of its signal. -/
theorem pool_event (h : (system N Tid α).step p label = some p') :
    ∃ moved signal,
      Event N p.shared (p.threads label.thread) label.choice p'.shared moved signal ∧
        (machine N Tid α).Delivered signal (update p.threads label.thread moved) p'.threads := by
  obtain ⟨moved, signal, hlocal, hdelivered⟩ := Machine.step_cases h
  exact ⟨moved, signal, step_event hlocal, hdelivered⟩

section Delivery

variable {t : Tid} {moved : Thread α} {k k' : Phase}

/-- The counts after a step that wakes nobody. -/
theorem threadsAt_silent {signal : Signal Tid Addr} (hsignal : signal = .silent)
    (hdelivered : (machine N Tid α).Delivered signal (update p.threads t moved) p'.threads)
    (hbefore : (p.threads t).phase = k) (hafter : moved.phase = k') (r : Phase) :
    threadsAt p' r + (if k = r then 1 else 0) = threadsAt p r + if k' = r then 1 else 0 := by
  subst hsignal
  exact hdelivered.countAt_update_silent hbefore hafter r

/-- The same counts, to rewrite with. -/
theorem threadsAt_moved {signal : Signal Tid Addr} (hsignal : signal = .silent)
    (hdelivered : (machine N Tid α).Delivered signal (update p.threads t moved) p'.threads)
    (hbefore : (p.threads t).phase = k) (hafter : moved.phase = k') (r : Phase) :
    threadsAt p' r = threadsAt p r + (if k' = r then 1 else 0) - if k = r then 1 else 0 :=
  Nat.eq_sub_of_add_eq (threadsAt_silent hsignal hdelivered hbefore hafter r)

/-- The counts after a step that wakes nobody and leaves its thread in its phase. -/
theorem threadsAt_stay {signal : Signal Tid Addr} (hsignal : signal = .silent)
    (hdelivered : (machine N Tid α).Delivered signal (update p.threads t moved) p'.threads)
    (hphase : moved.phase = (p.threads t).phase) : threadsAt p' = threadsAt p := by
  funext r
  have hcount := threadsAt_silent hsignal hdelivered rfl hphase r
  omega

/-- The counts after a step that wakes a thread in the phase `asleep`, if there is one. -/
theorem threadsAt_wakeOne {addr : Addr} {asleep awake : Phase} {signal : Signal Tid Addr}
    (hsignal : signal = .wakeOne addr)
    (hdelivered : (machine N Tid α).Delivered signal (update p.threads t moved) p'.threads)
    (hasleep : ∀ th : Thread α, asleepOn th = some addr ↔ th.phase = asleep)
    (hwake : ∀ th : Thread α, th.phase = asleep → (wake th).phase = awake)
    (hbefore : (p.threads t).phase = k) (hafter : moved.phase = k') (hk : k ≠ asleep)
    (hk' : k' ≠ asleep) :
    (threadsAt p asleep = 0 ∧
        ∀ r, threadsAt p' r + (if k = r then 1 else 0) =
          threadsAt p r + if k' = r then 1 else 0) ∨
      ∀ r, threadsAt p' r + (if k = r then 1 else 0) + (if asleep = r then 1 else 0) =
        threadsAt p r + (if k' = r then 1 else 0) + if awake = r then 1 else 0 := by
  subst hsignal
  exact hdelivered.countAt_update_wakeOne hasleep hwake hbefore hafter hk hk'

end Delivery

/-! ### The invariant on the handles -/

/-- The number of calls in progress on the `Receiver`. -/
def ReceiverHandle.taken : ReceiverHandle → ℕ
  | .free => 0
  | .borrowed => 1
  | .dropped => 0

/-- Whether a position is inside an operation or the drop of a `Sender`. -/
def Call.usesSender : Call α → Bool
  | .send _ => true
  | .trySend _ => true
  | .clone => true
  | .dropSender => true
  | _ => false

/-- One for a thread that borrows a `Sender`. -/
def Phase.borrowing : Phase → ℕ
  | .seeking | .trying | .owing | .waking | .sleepingSender | .cloning => 1
  | _ => 0

/-- One for a thread that has the `Receiver`. -/
def Phase.receiving : Phase → ℕ
  | .checking | .popping | .lastPop | .tryPopping | .tryChecking | .bumping | .storing | .waiting
  | .sleeping | .droppingReceiver => 1
  | _ => 0

/-- The number of threads that borrow a `Sender`. -/
def borrowing (f : Tid → Thread α) : ℕ := total (fun th ↦ th.phase.borrowing) f

/-- The number of threads that have the `Receiver`. -/
def receiving (f : Tid → Thread α) : ℕ := total (fun th ↦ th.phase.receiving) f

/-- At most one thread has the `Receiver`, every call on a `Sender` borrows one that is not dropped,
and `receiver_state` is zero exactly when the `Receiver` has been dropped. -/
structure Handled (s : Shared α) (f : Tid → Thread α) : Prop where
  taken : receiving f = s.receiver.taken
  borrowed : borrowing f = s.borrows
  alive : 0 < s.borrows → 0 < s.senders
  state : s.receiverState = 0 ↔ s.receiver = .dropped

omit [DecidableEq Tid] in
theorem borrowing_eq : borrowing p.threads = threadsAt p .seeking + threadsAt p .trying +
    threadsAt p .owing + threadsAt p .waking + threadsAt p .sleepingSender +
    threadsAt p .cloning := by
  simp only [borrowing, threadsAt, countAt, total, ← Finset.sum_add_distrib]
  refine Finset.sum_congr rfl fun t _ ↦ ?_
  cases (p.threads t).phase <;> rfl

omit [DecidableEq Tid] in
theorem receiving_eq : receiving p.threads = threadsAt p .checking + threadsAt p .popping +
    threadsAt p .lastPop + threadsAt p .tryPopping + threadsAt p .tryChecking +
    threadsAt p .bumping + threadsAt p .storing + threadsAt p .waiting + threadsAt p .sleeping +
    threadsAt p .droppingReceiver := by
  simp only [receiving, threadsAt, countAt, total, ← Finset.sum_add_distrib]
  refine Finset.sum_congr rfl fun t _ ↦ ?_
  cases (p.threads t).phase <;> rfl

section Handled

variable {s s' : Shared α} {f f' : Tid → Thread α} {t : Tid}

omit [DecidableEq Tid] in
/-- A thread that has the `Receiver` shows that it is borrowed. -/
theorem Handled.eq_borrowed (h : Handled s f) (hone : (f t).phase.receiving = 1) :
    s.receiver = .borrowed := by
  have hle : (f t).phase.receiving ≤ receiving f := le_total (fun th ↦ th.phase.receiving) f t
  have htaken := h.taken
  cases hreceiver : s.receiver with
  | borrowed => rfl
  | _ =>
    rw [hreceiver, ReceiverHandle.taken] at htaken
    omega

omit [DecidableEq Tid] in
theorem Handled.receiving_le_one (h : Handled s f) : receiving f ≤ 1 := by
  rw [h.taken]
  cases s.receiver <;> simp [ReceiverHandle.taken]

omit [DecidableEq Tid] in
/-- At most one thread has the `Receiver`. -/
theorem Handled.eq_of_receiving (h : Handled s f) {u : Tid} (ht : (f t).phase.receiving = 1)
    (hu : (f u).phase.receiving = 1) : u = t := by
  by_contra hne
  have hsum : (f u).phase.receiving + (f t).phase.receiving ≤ receiving f :=
    add_le_total (fun th ↦ th.phase.receiving) f hne
  have hle := h.receiving_le_one
  omega

omit [DecidableEq Tid] in
/-- The invariant depends on the handles, on `receiver_state`, and on how many threads have
which. -/
theorem Handled.congr (h : Handled s f) (hreceiving : receiving f' = receiving f)
    (hborrowing : borrowing f' = borrowing f) (hreceiver : s'.receiver = s.receiver)
    (hborrows : s'.borrows = s.borrows) (hsenders : s'.senders = s.senders)
    (hstate : s'.receiverState = 0 ↔ s.receiverState = 0) : Handled s' f' := by
  refine ⟨?_, ?_, ?_, ?_⟩
  · rw [hreceiving, hreceiver]
    exact h.taken
  · rw [hborrowing, hborrows]
    exact h.borrowed
  · rw [hborrows, hsenders]
    exact h.alive
  · rw [hstate, hreceiver]
    exact h.state

omit [DecidableEq Tid] in
/-- A call on a `Sender` returns. -/
theorem Handled.unborrow (h : Handled s f) (hreceiving : receiving f' = receiving f)
    (hborrowing : borrowing f' + 1 = borrowing f) (hreceiver : s'.receiver = s.receiver)
    (hborrows : s'.borrows = s.borrows - 1) (hsenders : s.senders ≤ s'.senders)
    (hstate : s'.receiverState = s.receiverState) : Handled s' f' := by
  have hborrowed := h.borrowed
  refine ⟨?_, ?_, ?_, ?_⟩
  · rw [hreceiving, hreceiver]
    exact h.taken
  · omega
  · intro hpos
    exact (h.alive (by omega)).trans_le hsenders
  · rw [hstate, hreceiver]
    exact h.state

omit [DecidableEq Tid] in
/-- A call on the `Receiver` returns. -/
theorem Handled.returned (h : Handled s f) (hone : (f t).phase.receiving = 1)
    (hreceiving : receiving f' + 1 = receiving f) (hborrowing : borrowing f' = borrowing f)
    (hreceiver : s'.receiver = .free) (hborrows : s'.borrows = s.borrows)
    (hsenders : s'.senders = s.senders) (hstate : s'.receiverState = s.receiverState) :
    Handled s' f' := by
  have hheld := h.eq_borrowed hone
  have htaken := h.taken
  rw [hheld] at htaken
  refine ⟨?_, ?_, ?_, ?_⟩
  · rw [hreceiver]
    simp only [ReceiverHandle.taken] at htaken ⊢
    omega
  · rw [hborrowing, hborrows]
    exact h.borrowed
  · rw [hborrows, hsenders]
    exact h.alive
  · rw [hstate, h.state, hheld, hreceiver]
    simp

end Handled

/-- Neither a wake-up nor its delivery changes who has which handle. -/
theorem total_update_delivered {w : Phase → ℕ} (hsender : w .seeking = w .sleepingSender)
    (hreceiver : w .checking = w .sleeping) {signal : Signal Tid Addr} {t : Tid} {moved : Thread α}
    (hdelivered : (machine N Tid α).Delivered signal (update p.threads t moved) p'.threads) :
    total (fun th ↦ w th.phase) p'.threads + w (p.threads t).phase =
      total (fun th ↦ w th.phase) p.threads + w moved.phase := by
  rw [hdelivered.total_eq (w := fun th ↦ w th.phase) ?_ fun _ ↦ rfl]
  · exact total_update (fun th ↦ w th.phase) p.threads t moved
  · intro th addr hasleep
    show w (wake th).phase = w th.phase
    cases addr with
    | senderWaitNum =>
      have hphase := asleepOn_senderWaitNum_iff.mp hasleep
      rw [phase_wake_sender hphase, hphase, hsender]
    | receiverState =>
      have hphase := asleepOn_receiverState_iff.mp hasleep
      rw [phase_wake_receiver hphase, hphase, hreceiver]

/-- One step keeps the invariant. -/
theorem handled_step (h : Handled p.shared p.threads)
    (hmove : (system N Tid α).step p label = some p') : Handled p'.shared p'.threads := by
  obtain ⟨moved, signal, hevent, hdelivered⟩ := pool_event hmove
  have hborrowing : borrowing p'.threads + (p.threads label.thread).phase.borrowing =
      borrowing p.threads + moved.phase.borrowing :=
    total_update_delivered rfl rfl hdelivered
  have hreceiving : receiving p'.threads + (p.threads label.thread).phase.receiving =
      receiving p.threads + moved.phase.receiving :=
    total_update_delivered rfl rfl hdelivered
  have hborrowed := h.borrowed
  cases hevent
  case stay hcarried hafter hphase hsignal =>
    rw [hphase] at hborrowing hreceiving
    rw [hafter]
    exact h.congr (by omega) (by omega) rfl rfl rfl .rfl
  -- neither the handles nor `receiver_state` change
  case startPop | startLastPop | popNone | tryNone | fallAsleep | sleepSender | returnSender
      | write | release | bump | dropSender =>
    rename_i hafter hbefore hphase hsignal
    rw [hbefore, hphase] at hborrowing hreceiving
    rw [hafter]
    exact h.congr (Nat.add_right_cancel hreceiving) (Nat.add_right_cancel hborrowing)
      rfl rfl rfl .rfl
  case claim | awake =>
    rename_i hafter hbefore hphase hsignal
    rw [hafter]
    rcases hbefore with hbefore | hbefore
    all_goals
      rw [hbefore, hphase] at hborrowing hreceiving
      exact h.congr (Nat.add_right_cancel hreceiving) (Nat.add_right_cancel hborrowing) rfl rfl rfl
        .rfl
  case swap hstate hafter hbefore hphase hsignal =>
    rw [hbefore, hphase] at hborrowing hreceiving
    rw [hafter]
    exact h.congr (Nat.add_right_cancel hreceiving) (Nat.add_right_cancel hborrowing) rfl rfl rfl
      (by simp [hstate])
  case store hafter hbefore hphase hsignal =>
    have hheld := h.eq_borrowed (t := label.thread) (by rw [hbefore]; rfl)
    have hstate : p.shared.receiverState ≠ 0 := by
      rw [Ne, h.state, hheld]
      exact ReceiverHandle.noConfusion
    rw [hbefore, hphase] at hborrowing hreceiving
    rw [hafter]
    exact h.congr (Nat.add_right_cancel hreceiving) (Nat.add_right_cancel hborrowing) rfl rfl rfl
      (by simp [hstate])
  -- calls on a `Sender` begin and return
  case borrow howned hafter hbefore hphase hsignal =>
    rw [hafter]
    rcases hphase with hphase | hphase | hphase
    all_goals
      rw [hbefore, hphase] at hborrowing hreceiving
      refine ⟨(Nat.add_right_cancel hreceiving).trans h.taken, ?_, fun _ ↦ howned, h.state⟩
      simp only [Phase.borrowing] at hborrowing
      simp only [Shared.borrow]
      omega
  case unborrow hafter hbefore hphase hsignal =>
    rw [hafter]
    rcases hbefore with ⟨hbefore, -⟩ | hbefore | ⟨hbefore, -⟩
    all_goals
      rw [hbefore, hphase] at hborrowing hreceiving
      exact h.unborrow (Nat.add_right_cancel hreceiving) hborrowing rfl rfl le_rfl rfl
  case wakeReceiver | clonePanicked =>
    rename_i hafter hbefore hphase hsignal
    rw [hbefore, hphase] at hborrowing hreceiving
    rw [hafter]
    exact h.unborrow (Nat.add_right_cancel hreceiving) hborrowing rfl rfl le_rfl rfl
  case cloned hcount hafter hbefore hphase hsignal =>
    rw [hbefore, hphase] at hborrowing hreceiving
    rw [hafter]
    exact h.unborrow (Nat.add_right_cancel hreceiving) hborrowing rfl rfl (Nat.le_succ _) rfl
  case takeSender hspare hafter hbefore hphase hsignal =>
    rw [hbefore, hphase] at hborrowing hreceiving
    rw [hafter]
    refine ⟨(Nat.add_right_cancel hreceiving).trans h.taken,
      (Nat.add_right_cancel hborrowing).trans h.borrowed, ?_, h.state⟩
    intro (hpos : 0 < p.shared.borrows)
    show 0 < p.shared.senders - 1
    omega
  -- calls on the `Receiver` begin and return
  case takeReceiver hfree hafter hbefore hphase hsignal =>
    have htaken := h.taken
    have hstate := h.state
    rw [hfree] at htaken hstate
    rw [hafter]
    rcases hphase with hphase | hphase | hphase
    all_goals
      rw [hbefore, hphase] at hborrowing hreceiving
      refine ⟨?_, (Nat.add_right_cancel hborrowing).trans h.borrowed, h.alive, by
        simpa using hstate⟩
      simp only [Phase.receiving, ReceiverHandle.taken] at hreceiving htaken ⊢
      omega
  case lastRelease | lastNone | tryRelease | tryAnswer | wakeSender =>
    rename_i hafter hbefore hphase hsignal
    have hone : (p.threads label.thread).phase.receiving = 1 := by rw [hbefore]; rfl
    rw [hbefore, hphase] at hborrowing hreceiving
    rw [hafter]
    exact h.returned hone hreceiving (Nat.add_right_cancel hborrowing) rfl rfl rfl rfl
  case dropReceiver hafter hbefore hphase hsignal =>
    have htaken := h.taken
    rw [h.eq_borrowed (t := label.thread) (by rw [hbefore]; rfl)] at htaken
    rw [hbefore, hphase] at hborrowing hreceiving
    rw [hafter]
    refine ⟨?_, (Nat.add_right_cancel hborrowing).trans h.borrowed, h.alive, by simp⟩
    simp only [Phase.receiving, ReceiverHandle.taken] at hreceiving htaken ⊢
    omega

omit [DecidableEq Tid] in
/-- The invariant holds of a new channel. -/
theorem handled_new : Handled (new Tid α).shared (new Tid α).threads := by
  constructor
  all_goals simp [new, receiving, borrowing, total, Thread.phase, Call.phase, Phase.receiving,
    Phase.borrowing, ReceiverHandle.taken]

/-- The invariant holds in every state of every run. -/
theorem handled {ok : Pool Tid (Shared α) (Thread α) → Label Tid (Choice α) → Prop}
    (h : (system N Tid α).ReachableWhen ok p) : Handled p.shared p.threads := by
  refine h.invariant (P := fun p ↦ Handled p.shared p.threads) handled_new ?_
  intro p label p' _ hhandled _ hmove
  exact handled_step hhandled hmove

/-! ### The count of the senders -/

/-- A clone does not make `senders_count` wrap. -/
def CloneBound (p : Pool Tid (Shared α) (Thread α)) (label : Label Tid (Choice α)) : Prop :=
  (p.threads label.thread).phase = .cloning → p.shared.sendersCount + 1 < 2 ^ 64

instance (p : Pool Tid (Shared α) (Thread α)) (label : Label Tid (Choice α)) :
    Decidable (CloneBound p label) :=
  inferInstanceAs (Decidable (_ → _))

/-- `senders_count` counts every `Sender` that no drop has taken, and every drop that has yet to
subtract from it. -/
theorem senders_le {ok : Pool Tid (Shared α) (Thread α) → Label Tid (Choice α) → Prop}
    (hok : ∀ p label, ok p label → CloneBound p label) (h : (system N Tid α).ReachableWhen ok p) :
    p.shared.senders + threadsAt p .droppingSender ≤ p.shared.sendersCount ∧
      p.shared.sendersCount < 2 ^ 64 := by
  refine h.invariant (P := fun p ↦
    p.shared.senders + threadsAt p .droppingSender ≤ p.shared.sendersCount ∧
      p.shared.sendersCount < 2 ^ 64) ?_ ?_
  · have hzero : threadsAt (new Tid α) .droppingSender = 0 :=
      countAt_eq_zero_iff.mpr fun _ h ↦ by cases h
    rw [show (system N Tid α).init = new Tid α from rfl, hzero]
    simp [new]
  · intro p label p' _ hcounted hmeets hmove
    obtain ⟨moved, signal, hevent, hdelivered⟩ := pool_event hmove
    have hdropping : threadsAt p' .droppingSender + _ = threadsAt p .droppingSender + _ :=
      total_update_delivered (w := fun phase ↦ if phase = .droppingSender then 1 else 0) rfl rfl
        hdelivered
    obtain ⟨hle, hlt⟩ := hcounted
    cases hevent
    case stay hcarried hafter hphase hsignal =>
      rw [hphase] at hdropping
      rw [hafter]
      omega
    case cloned | clonePanicked =>
      rename_i hafter hbefore hphase hsignal
      have hword := addUsize_of_lt (hok _ _ hmeets hbefore)
      have hbound := hok _ _ hmeets hbefore
      simp only [hbefore, hphase, reduceCtorEq, if_false] at hdropping
      simp only [hafter, hword, Shared.unborrow]
      omega
    case takeSender hspare hafter hbefore hphase hsignal =>
      simp only [hbefore, hphase, reduceCtorEq, if_true, if_false] at hdropping
      simp only [hafter]
      omega
    case dropSender hafter hbefore hphase hsignal =>
      simp only [hbefore, hphase, reduceCtorEq, if_true, if_false] at hdropping
      have hword : subUsize p.shared.sendersCount 1 = p.shared.sendersCount - 1 :=
        subUsize_of_le (by omega) hlt
      simp only [hafter, hword]
      omega
    -- the other steps neither start nor end a drop
    all_goals
      rename_i hafter hbefore hphase hsignal
      have hnot : (p.threads label.thread).phase ≠ .droppingSender := fun h ↦ by
        simp [h] at hbefore
      have hnot' : moved.phase ≠ .droppingSender := fun h ↦ by simp [h] at hphase
      have hsame : p'.shared.senders = p.shared.senders ∧
          p'.shared.sendersCount = p.shared.sendersCount := by
        rw [hafter]
        exact ⟨rfl, rfl⟩
      simp only [hnot, hnot', if_false] at hdropping
      omega

end Pool

end SyncPrimitives.Channel
