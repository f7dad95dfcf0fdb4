import SyncPrimitives.Channel.Handles

/-!
# The drop of the receiver

`send` looks at `receiver_state` only at the top of its loop and sleeps on `sender_wait_num`, which
the drop of the `Receiver` leaves alone; the drop wakes nobody. `sender_stranded` is a run in which
the `Receiver` is dropped while a sender sleeps. Under `DropCondition` no run ends like that; the
condition asks of the drop that no sender is on its way from its look at `receiver_state` to its
sleep. Senders that look later find zero, and those that have looked before either push into a
buffer with room for all of them, or find `sender_wait_num` changed (`settled_step`).
-/

set_option autoImplicit false
set_option relaxedAutoImplicit false

namespace SyncPrimitives.Channel

open Concurrency Function
open RingBuffer (Access PushPc)

variable {Tid α : Type}

/-- The drop of the `Receiver` has completed, and some thread is asleep in `send`. -/
def SenderStranded (p : Pool Tid (Shared α) (Thread α)) : Prop :=
  p.shared.receiver = .dropped ∧ ∃ t message, (p.threads t).call = .send (.asleep message)

/-- Thread 1 fills the buffer and falls asleep in `send`; thread 0 drops the `Receiver`. -/
def strandingRun : List (Label (Fin 2) (Choice ℕ)) :=
  [⟨1, .send 7, none⟩] ++ List.replicate 6 ⟨1, .access .go, none⟩ ++
    [⟨1, .send 8, none⟩] ++ List.replicate 6 ⟨1, .access .go, none⟩ ++
    [⟨1, .send 9, none⟩] ++ List.replicate 5 ⟨1, .access .go, none⟩ ++
    [⟨0, .dropReceiver, none⟩, ⟨0, .access .go, none⟩]

/-- One sender and one receiver reach a state in which the sender is stranded. -/
theorem sender_stranded :
    ∃ p : Pool (Fin 2) (Shared ℕ) (Thread ℕ),
      (system 2 (Fin 2) ℕ).Reachable p ∧ SenderStranded p := by
  obtain ⟨p, hrun, hdropped, hasleep⟩ := System.exists_reachableWhen_of_exec
    (M := system 2 (Fin 2) ℕ) (fun _ _ ↦ True)
    (P := fun p ↦ p.shared.receiver = .dropped ∧ (p.threads 1).call = .send (.asleep 9))
    strandingRun (by decide)
  exact ⟨p, hrun, hdropped, 1, 9, hasleep⟩

/-! ### On the way to sleep -/

/-- One for a position inside `push` or `try_push` before the claim. -/
def Call.pushing : Call α → ℕ
  | .send (.push (.write _ _ _)) => 0
  | .send (.push _) => 1
  | .trySend (.tryPush (.write _ _ _)) => 0
  | .trySend (.tryPush _) => 1
  | _ => 0

/-- The buffer, with its tail where a thread has loaded it, has room for a number of pushes. -/
def Shared.roomFor (N : ℕ) (s : Shared α) (pushes currentTail : ℕ) : Bool :=
  decide (subUsize s.data.head currentTail + pushes ≤ N)

/-- A position from which `send` does not get to its sleep any more if the `Receiver` is dropped
now: it is not past the push, except for a `wait` that finds `sender_wait_num` changed, and there is
room for a push and all others in progress, `pushes` in number. -/
def Call.settled (N : ℕ) (s : Shared α) (pushes : ℕ) : Call α → Bool
  | .send (.push (.write _ _ _)) => true
  | .send (.push (.loadHead _ currentTail)) =>
    s.roomFor N pushes currentTail && s.roomFor N pushes s.data.tail
  | .send (.push _) => s.roomFor N pushes s.data.tail
  | .send (.loadWaitNum _) => false
  | .send (.wait _ senderWaitNum) => decide (senderWaitNum ≠ s.senderWaitNum)
  | .send (.asleep _) => false
  | _ => true

/-- What a step does once the `Receiver` is dropped: nobody moves `tail` or `sender_wait_num`, and
`head` moves only when a push claims. The thread has not come nearer to the sleep. -/
structure Fades (N : ℕ) (before : Shared α) (th : Thread α) (after : Shared α)
    (moved : Thread α) : Prop where
  tail : after.data.tail = before.data.tail
  waitNum : after.senderWaitNum = before.senderWaitNum
  head : after.data.head = before.data.head ∧ moved.call.pushing ≤ th.call.pushing ∨
    after.data.head = addUsize before.data.head 1 ∧ moved.call.pushing + 1 = th.call.pushing
  settled : ∀ pushes, th.call.pushing ≤ pushes → th.call.settled N before pushes = true →
    moved.call.settled N before pushes = true

section Steps

variable {N : ℕ} {before after : Shared α} {th moved : Thread α} {signal : Signal Tid Addr}
  {choice : Choice α} {access : Access}

theorem goto_call {call : Call α} : (th.goto call).call = call := rfl

/-- A step that leaves the words alone and does not go on to a push or a `wait`. -/
theorem fades_of_quiet (hdata : after.data = before.data)
    (hwaitNum : after.senderWaitNum = before.senderWaitNum)
    (hpushing : moved.call.pushing = 0)
    (hsettled : ∀ pushes, moved.call.settled N before pushes = true) :
    Fades N before th after moved where
  tail := by rw [hdata]
  waitNum := hwaitNum
  head := .inl ⟨by rw [hdata], hpushing.trans_le (Nat.zero_le _)⟩
  settled := fun pushes _ _ ↦ hsettled pushes

theorem notifyStep_fades {position : NotifyPc → Call α} {result : Result α} {pc : NotifyPc}
    (hpushing : ∀ pc, (position pc).pushing = 0)
    (hsettled : ∀ pc pushes, (position pc).settled N before pushes = true)
    (h : notifyStep before th position result pc access = some (after, moved, signal)) :
    Fades N before th after moved := by
  have hreturned (th' : Thread α) (hidle : th'.call = .idle) :
      th'.call.pushing = 0 ∧ ∀ pushes, th'.call.settled N before pushes = true := by
    rw [hidle]
    exact ⟨rfl, fun _ ↦ rfl⟩
  cases pc <;> cases access <;> simp only [notifyStep, reduceCtorEq] at h
  case wakeOne.go =>
    obtain ⟨rfl, rfl, -⟩ := by simpa using h
    exact fades_of_quiet rfl rfl (hreturned _ rfl).1 (hreturned _ rfl).2
  all_goals
    split_ifs at h
    all_goals obtain ⟨rfl, rfl, -⟩ := quiet_eq_some.mp h
    all_goals
      first
        | exact fades_of_quiet rfl rfl (hpushing _) (hsettled _)
        | exact fades_of_quiet rfl rfl rfl fun _ ↦ rfl

/-- A push of `send` that has room for itself does not fail, and it does not lose the room of the
others. -/
theorem push_fades {pc : PushPc α} (hcall : th.call = .send (.push pc))
    (h : sendStep N before th (.push pc) access = some (after, moved, signal)) :
    Fades N before th after moved := by
  cases pc <;> cases access <;>
    simp only [sendStep, RingBuffer.pushStep, RingBuffer.pushWith, Option.map_none, reduceCtorEq]
      at h
  case loadTail.go value =>
    obtain ⟨rfl, rfl, -⟩ := by simpa using h
    refine ⟨rfl, rfl, .inl ⟨rfl, by rw [hcall]; rfl⟩, fun pushes _ hroom ↦ ?_⟩
    rw [hcall] at hroom
    rw [goto_call]
    simpa [Call.settled] using hroom
  case loadHead.go value currentTail =>
    split_ifs at h with hfull
    all_goals
      obtain ⟨rfl, rfl, -⟩ := by simpa using h
      refine ⟨rfl, rfl, .inl ⟨rfl, by rw [hcall]; first | exact le_rfl | exact Nat.zero_le _⟩,
        fun pushes hpushes hroom ↦ ?_⟩
      rw [hcall] at hroom hpushes
      simp only [Call.settled, Call.pushing, Shared.roomFor, Bool.and_eq_true,
        decide_eq_true_eq] at hroom hpushes
    · omega
    · exact decide_eq_true hroom.2
  case compareExchange.go value currentHead =>
    split_ifs at h with hsame
    all_goals obtain ⟨rfl, rfl, -⟩ := by simpa using h
    · exact ⟨rfl, rfl, .inr ⟨by rw [← hsame], by rw [hcall]; rfl⟩, fun _ _ _ ↦ rfl⟩
    · refine ⟨rfl, rfl, .inl ⟨rfl, by rw [hcall]; rfl⟩, fun pushes _ hroom ↦ ?_⟩
      rw [hcall] at hroom
      exact hroom
  case compareExchange.spurious value currentHead =>
    obtain ⟨rfl, rfl, -⟩ := by simpa using h
    refine ⟨rfl, rfl, .inl ⟨rfl, by rw [hcall]; rfl⟩, fun pushes _ hroom ↦ ?_⟩
    rw [hcall] at hroom
    exact hroom
  case write.go value currentHead claim =>
    obtain ⟨rfl, rfl, -⟩ := by simpa using h
    exact ⟨rfl, rfl, .inl ⟨rfl, Nat.zero_le _⟩, fun _ _ _ ↦ rfl⟩

theorem sendStep_fades {pc : SendPc α} (hcall : th.call = .send pc)
    (hstate : before.receiverState = 0)
    (h : sendStep N before th pc access = some (after, moved, signal)) :
    Fades N before th after moved := by
  cases pc with
  | push pc => exact push_fades hcall h
  | notify pc =>
    simp only [sendStep] at h
    exact notifyStep_fades (fun _ ↦ rfl) (fun _ _ ↦ rfl) h
  | loadReceiver message =>
    cases access <;> simp only [sendStep, reduceCtorEq, if_pos hstate] at h
    obtain ⟨rfl, rfl, -⟩ := quiet_eq_some.mp h
    exact fades_of_quiet rfl rfl rfl fun _ ↦ rfl
  | loadWaitNum message =>
    cases access <;> simp only [sendStep, reduceCtorEq] at h
    obtain ⟨rfl, rfl, -⟩ := quiet_eq_some.mp h
    refine ⟨rfl, rfl, .inl ⟨rfl, Nat.zero_le _⟩, fun pushes _ hsettled ↦ ?_⟩
    rw [hcall] at hsettled
    cases hsettled
  | wait message senderWaitNum =>
    cases access <;> simp only [sendStep] at h
    case go =>
      split_ifs at h with hsame
      all_goals obtain ⟨rfl, rfl, -⟩ := quiet_eq_some.mp h
      · refine ⟨rfl, rfl, .inl ⟨rfl, Nat.zero_le _⟩, fun pushes _ hsettled ↦ ?_⟩
        rw [hcall] at hsettled
        exact absurd hsame.symm (of_decide_eq_true hsettled)
      · exact fades_of_quiet rfl rfl rfl fun _ ↦ rfl
    case spurious =>
      obtain ⟨rfl, rfl, -⟩ := quiet_eq_some.mp h
      exact fades_of_quiet rfl rfl rfl fun _ ↦ rfl
  | asleep message =>
    cases access <;> simp only [sendStep, reduceCtorEq] at h
    obtain ⟨rfl, rfl, -⟩ := quiet_eq_some.mp h
    exact fades_of_quiet rfl rfl rfl fun _ ↦ rfl

theorem trySendStep_fades {pc : TrySendPc α} (hcall : th.call = .trySend pc)
    (hstate : before.receiverState = 0)
    (h : trySendStep N before th pc access = some (after, moved, signal)) :
    Fades N before th after moved := by
  cases pc with
  | loadReceiver message =>
    cases access <;> simp only [trySendStep, reduceCtorEq, if_pos hstate] at h
    obtain ⟨rfl, rfl, -⟩ := quiet_eq_some.mp h
    exact fades_of_quiet rfl rfl rfl fun _ ↦ rfl
  | notify pc =>
    simp only [trySendStep] at h
    exact notifyStep_fades (fun _ ↦ rfl) (fun _ _ ↦ rfl) h
  | tryPush pc =>
    simp only [trySendStep] at h
    obtain ⟨⟨data, progress⟩, hpush, heq⟩ := Option.map_eq_some_iff.mp h
    have hpushing (pc : PushPc α) (hpc : pc.writing = none) :
        (Call.trySend (.tryPush pc)).pushing = 1 := by
      cases pc with
      | write value currentHead claim => cases hpc
      | _ => rfl
    cases RingBuffer.pushWith_effect hpush with
    | @goOn pc' hbefore hafter =>
      obtain ⟨rfl, rfl, -⟩ := by simpa using heq
      refine ⟨rfl, rfl, .inl ⟨rfl, ?_⟩, fun _ _ _ ↦ rfl⟩
      rw [hcall, hpushing pc hbefore, goto_call, hpushing pc' hafter]
    | fail hbefore =>
      obtain ⟨rfl, rfl, -⟩ := by simpa using heq
      exact fades_of_quiet rfl rfl rfl fun _ ↦ rfl
    | claim hpc =>
      subst hpc
      obtain ⟨rfl, rfl, -⟩ := by simpa using heq
      exact ⟨rfl, rfl, .inr ⟨rfl, by rw [hcall]; rfl⟩, fun _ _ _ ↦ rfl⟩
    | write hpc =>
      subst hpc
      obtain ⟨rfl, rfl, -⟩ := by simpa using heq
      exact ⟨rfl, rfl, .inl ⟨rfl, Nat.zero_le _⟩, fun _ _ _ ↦ rfl⟩

theorem idleStep_fades (hreceiver : before.receiver = .dropped)
    (h : idleStep before th choice = some (after, moved, signal)) :
    Fades N before th after moved := by
  cases choice with
  | recv | tryRecv | dropReceiver => simp [idleStep, hreceiver] at h
  | access access => cases h
  | _ =>
    simp only [idleStep] at h
    split_ifs at h
    obtain ⟨rfl, rfl, -⟩ := quiet_eq_some.mp h
    exact fades_of_quiet rfl rfl rfl fun _ ↦ rfl

/-- Once the `Receiver` is dropped, every step fades. -/
theorem step_fades (hstate : before.receiverState = 0) (hreceiver : before.receiver = .dropped)
    (hsender : th.phase.receiving = 0)
    (h : step N before th choice = some (after, moved, signal)) :
    Fades N before th after moved := by
  unfold step at h
  split at h
  case h_1 => exact idleStep_fades hreceiver h
  case h_2 hcall => exact sendStep_fades hcall hstate h
  case h_3 hcall => exact trySendStep_fades hcall hstate h
  case h_4 pc access hcall =>
    rw [phase_of_call hcall] at hsender
    cases pc <;> cases hsender
  case h_5 pc access hcall =>
    rw [phase_of_call hcall] at hsender
    cases pc <;> cases hsender
  case h_6 access hcall =>
    cases access <;> simp only [cloneStep, reduceCtorEq] at h
    split_ifs at h
    all_goals
      obtain ⟨rfl, rfl, -⟩ := quiet_eq_some.mp h
      exact fades_of_quiet rfl rfl rfl fun _ ↦ rfl
  case h_7 access hcall =>
    cases access <;> simp only [dropSenderStep, reduceCtorEq] at h
    obtain ⟨rfl, rfl, -⟩ := quiet_eq_some.mp h
    exact fades_of_quiet rfl rfl rfl fun _ ↦ rfl
  case h_8 hcall =>
    rw [phase_of_call hcall] at hsender
    cases hsender
  case h_9 => cases h

/-- A position stays settled when `head` moves because a push claims, or stays with no more pushes
in progress. -/
theorem settled_of_fades {call : Call α} {pushes pushes' : ℕ}
    (htail : after.data.tail = before.data.tail)
    (hwaitNum : after.senderWaitNum = before.senderWaitNum)
    (hhead : after.data.head = before.data.head ∧ pushes' ≤ pushes ∨
      after.data.head = addUsize before.data.head 1 ∧ pushes' + 1 ≤ pushes)
    (hsettled : call.settled N before pushes = true) : call.settled N after pushes' = true := by
  have hroom (currentTail : ℕ) (h : before.roomFor N pushes currentTail = true) :
      after.roomFor N pushes' currentTail = true := by
    simp only [Shared.roomFor, decide_eq_true_eq] at h ⊢
    rcases hhead with ⟨hsame, hle⟩ | ⟨hmore, hle⟩
    · rw [hsame]
      omega
    · rw [hmore]
      unfold addUsize subUsize at *
      omega
  cases call with
  | send pc =>
    cases pc with
    | push pc =>
      cases pc with
      | loadHead value currentTail =>
        simp only [Call.settled, Bool.and_eq_true, htail] at hsettled ⊢
        exact ⟨hroom _ hsettled.1, hroom _ hsettled.2⟩
      | write value currentHead claim => rfl
      | _ =>
        simp only [Call.settled, htail] at hsettled ⊢
        exact hroom _ hsettled
    | wait message senderWaitNum =>
      simp only [Call.settled, hwaitNum] at hsettled ⊢
      exact hsettled
    | loadWaitNum message => cases hsettled
    | asleep message => cases hsettled
    | _ => rfl
  | _ => rfl

end Steps

/-! ### Every run -/

section Pool

variable [DecidableEq Tid] [Fintype Tid] {N : ℕ} {p p' : Pool Tid (Shared α) (Thread α)}
  {label : Label Tid (Choice α)}

/-- The number of pushes in progress that have not claimed a position. -/
def pushing (p : Pool Tid (Shared α) (Thread α)) : ℕ :=
  total (fun th ↦ th.call.pushing) p.threads

/-- No sender is on its way to sleep. -/
def Settled (N : ℕ) (p : Pool Tid (Shared α) (Thread α)) : Prop :=
  ∀ t, (p.threads t).call.settled N p.shared (pushing p) = true

instance : Decidable (Settled N p) := inferInstanceAs (Decidable (∀ _, _))

/-- The condition on a step under which no sender is stranded: the drop of the `Receiver` stores
zero only while no sender is on its way from its look at `receiver_state` to its sleep. -/
def DropCondition (N : ℕ) (p : Pool Tid (Shared α) (Thread α)) (label : Label Tid (Choice α)) :
    Prop :=
  (p.threads label.thread).phase = .droppingReceiver → Settled N p

instance (p : Pool Tid (Shared α) (Thread α)) (label : Label Tid (Choice α)) :
    Decidable (DropCondition N p label) :=
  inferInstanceAs (Decidable (_ → _))

omit [DecidableEq Tid] in
/-- A thread that has been woken or unparked is settled. -/
theorem settled_wake {th : Thread α} {pushes : ℕ} {s : Shared α}
    (h : th.call.settled N s pushes = true) : (wake th).call.settled N s pushes = true := by
  unfold wake
  split
  · rfl
  · rfl
  · exact h

/-- Once the `Receiver` is dropped, senders stay settled. -/
theorem settled_step (hh : Handled p.shared p.threads) (hdropped : p.shared.receiver = .dropped)
    (h : Settled N p) (hmove : (system N Tid α).step p label = some p') : Settled N p' := by
  obtain ⟨moved, signal, hlocal, hdelivered⟩ := Machine.step_cases hmove
  have hnobody : receiving p.threads = 0 := by
    rw [hh.taken, hdropped]
    rfl
  have hsender : (p.threads label.thread).phase.receiving = 0 :=
    (total_eq_zero_iff (fun th : Thread α ↦ th.phase.receiving) _).mp hnobody _
  have hfades := step_fades (hh.state.mpr hdropped) hdropped hsender hlocal
  have hpushing : pushing p' + (p.threads label.thread).call.pushing =
      pushing p + moved.call.pushing := by
    unfold pushing
    rw [hdelivered.total_eq (w := fun th ↦ th.call.pushing) ?_ fun _ ↦ rfl]
    · exact total_update (fun th : Thread α ↦ th.call.pushing) p.threads label.thread moved
    · intro th addr hasleep
      show (wake th).call.pushing = th.call.pushing
      unfold wake
      split
      · rename_i hcall
        rw [hcall]
        rfl
      · rename_i hcall
        rw [hcall]
        rfl
      · rfl
  have hself : (p.threads label.thread).call.pushing ≤ pushing p :=
    le_total (fun th : Thread α ↦ th.call.pushing) p.threads label.thread
  have hhead : p'.shared.data.head = p.shared.data.head ∧ pushing p' ≤ pushing p ∨
      p'.shared.data.head = addUsize p.shared.data.head 1 ∧ pushing p' + 1 ≤ pushing p := by
    rcases hfades.head with ⟨hsame, hle⟩ | ⟨hmore, heq⟩
    · exact .inl ⟨hsame, by omega⟩
    · exact .inr ⟨hmore, by omega⟩
  intro t
  refine settled_of_fades hfades.tail hfades.waitNum hhead ?_
  have hmid : (update p.threads label.thread moved t).call.settled N p.shared (pushing p) =
      true := by
    by_cases ht : t = label.thread
    · rw [ht, update_self]
      exact hfades.settled _ hself (h label.thread)
    · rw [update_of_ne ht]
      exact h t
  rcases hdelivered.thread t with heq | ⟨addr, -, heq⟩ | heq
  · rw [heq]
    exact hmid
  · rw [heq]
    exact settled_wake hmid
  · rw [heq]
    exact hmid

theorem call_of_idle {th : Thread α} (h : th.phase = .idle) : th.call = .idle := by
  unfold Thread.phase at h
  cases hcall : th.call with
  | idle => rfl
  | send pc =>
    rw [hcall] at h
    cases pc with
    | push pc => cases pc <;> cases h
    | notify pc => cases pc <;> cases h
    | _ => cases h
  | trySend pc =>
    rw [hcall] at h
    cases pc with
    | tryPush pc => cases pc <;> cases h
    | notify pc => cases pc <;> cases h
    | _ => cases h
  | recv pc =>
    rw [hcall] at h
    cases pc <;> cases h
  | tryRecv pc =>
    rw [hcall] at h
    cases pc <;> cases h
  | _ =>
    rw [hcall] at h
    cases h

/-- The `Receiver` is dropped by its drop only, which leaves everything else as it is. -/
theorem dropped_cases (hmove : (system N Tid α).step p label = some p')
    (hdropped : p'.shared.receiver = .dropped) : p.shared.receiver = .dropped ∨
      (p.threads label.thread).phase = .droppingReceiver ∧ (Settled N p → Settled N p') := by
  obtain ⟨moved, signal, hevent, hdelivered⟩ := pool_event hmove
  cases hevent
  case dropReceiver hafter hbefore hphase hsignal =>
    refine .inr ⟨hbefore, fun h t ↦ ?_⟩
    subst hsignal
    have hmoved := call_of_idle hphase
    have hpushing : pushing p' ≤ pushing p := by
      have hupdate : _ + _ = _ + moved.call.pushing :=
        total_update (fun th : Thread α ↦ th.call.pushing) p.threads label.thread moved
      have hzero : moved.call.pushing = 0 := by
        rw [hmoved]
        rfl
      unfold pushing
      rw [hdelivered.silent_eq]
      omega
    refine settled_of_fades (by rw [hafter]) (by rw [hafter]) (.inl ⟨by rw [hafter], hpushing⟩) ?_
    rw [hdelivered.silent_eq]
    by_cases ht : t = label.thread
    · rw [ht, update_self, hmoved]
      rfl
    · rw [update_of_ne ht]
      exact h t
  case stay hcarried hafter hphase hsignal =>
    rw [hafter] at hdropped
    exact .inl hdropped
  all_goals
    rename_i hafter hbefore hphase hsignal
    rw [hafter] at hdropped
    first
      | exact .inl hdropped
      | cases hdropped

/-- In every run under the condition all senders are settled once the `Receiver` is dropped. -/
theorem settled_of_run (h : (system N Tid α).ReachableWhen (DropCondition N) p) :
    p.shared.receiver = .dropped → Settled N p := by
  refine h.invariant (P := fun p ↦ p.shared.receiver = .dropped → Settled N p) ?_ ?_
  · intro hnew
    cases hnew
  · intro p label p' hrun hsettled hok hmove hdropped
    rcases dropped_cases hmove hdropped with hbefore | ⟨hdrop, hkeeps⟩
    · exact settled_step (handled hrun) hbefore (hsettled hbefore) hmove
    · exact hkeeps (hok hdrop)

/-- In every run under the condition no sender is stranded. -/
theorem sender_not_stranded (h : (system N Tid α).ReachableWhen (DropCondition N) p) :
    ¬ SenderStranded p := by
  rintro ⟨hdropped, t, message, hasleep⟩
  have hsettled := settled_of_run h hdropped t
  rw [hasleep] at hsettled
  cases hsettled

/-- `sender_not_stranded` on a run in which the `Receiver` is dropped while thread 1 is about to
`wait` with a value of `sender_wait_num` that the `Receiver` has changed, and thread 2 is about to
push into the free slot. -/
theorem sender_not_stranded_woken :
    ∃ p : Pool (Fin 3) (Shared ℕ) (Thread ℕ),
      p.shared.receiver = .dropped ∧ (p.threads 1).call = .idle ∧ (p.threads 2).call = .idle ∧
        ¬ SenderStranded p := by
  obtain ⟨p, hrun, hdropped, hidle, hpushed⟩ := System.exists_reachableWhen_of_exec
    (M := system 2 (Fin 3) ℕ) (DropCondition 2)
    (P := fun p ↦ p.shared.receiver = .dropped ∧ (p.threads 1).call = .idle ∧
      (p.threads 2).call = .idle)
    ([⟨1, .send 7, none⟩] ++ List.replicate 6 ⟨1, .access .go, none⟩ ++
      [⟨1, .send 8, none⟩] ++ List.replicate 6 ⟨1, .access .go, none⟩ ++
      [⟨1, .send 9, none⟩] ++ List.replicate 4 ⟨1, .access .go, none⟩ ++
      [⟨0, .recv, none⟩] ++ List.replicate 7 ⟨0, .access .go, none⟩ ++
      [⟨2, .send 5, none⟩, ⟨2, .access .go, none⟩] ++
      [⟨0, .dropReceiver, none⟩, ⟨0, .access .go, none⟩] ++
      List.replicate 2 ⟨1, .access .go, none⟩ ++ List.replicate 6 ⟨2, .access .go, none⟩)
    (by decide)
  exact ⟨p, hdropped, hidle, hpushed, sender_not_stranded hrun⟩

end Pool

end SyncPrimitives.Channel
