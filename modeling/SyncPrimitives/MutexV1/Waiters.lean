import SyncPrimitives.Concurrency.Runs
import SyncPrimitives.MutexV1.Wakeup

/-!
# The handles in the queue of the queueing mutex

Every handle in the queue should belong to a thread that waits in `enqueue_thread`, so that a
release does not spend its `unpark` on another one. A handle is put in on the way into `park` and
only a release takes it out; a spurious return of `park` leaves it behind. `unpark_wasted` is a run
in which a thread has returned so and its handle stands before the handle of a parked thread: the
next release unparks the former.

`QueueMove` lists what a step does to the queue, to the handle a release has popped, and to whether
its thread waits. A thread has at most one handle, in the queue or popped, and it has one only while
it waits (`HandledOnce`); this holds along every run in which `park` returns only to threads without
a handle (`ReturnCondition`).
-/

set_option autoImplicit false
set_option relaxedAutoImplicit false

namespace SyncPrimitives.MutexV1

open Concurrency Function MutexCommon

variable {Tid : Type}

/-! ### Handles -/

/-- Whether a position of `enqueue_thread` is behind its `push_back`. -/
def EnqueuePc.waits : EnqueuePc → Bool
  | .store => true
  | .park => true
  | .parked => true
  | _ => false

/-- Whether a thread has put its handle into the queue and has not returned from `park`. -/
def Call.waits : Call Tid → Bool
  | .lock (.enqueue pc) => pc.waits
  | _ => false

/-- The handle a release has popped and not unparked. -/
def Call.popped : Call Tid → Option Tid
  | .drop (.dequeue (.store popped)) => popped
  | .drop (.dequeue (.unpark handle)) => some handle
  | _ => none

/-- Whether `park` returns on a step of the thread itself. -/
def Thread.returns (th : Thread Tid) (choice : Choice) : Bool :=
  match th.call, choice with
  | .lock (.enqueue .park), .go => th.token
  | .lock (.enqueue .park), .spurious => true
  | .lock (.enqueue .parked), .spurious => true
  | _, _ => false

/-- The condition on a step: `park` returns only to a thread whose handle is neither in the queue
nor popped by a release that has yet to unpark it. -/
def ReturnCondition (p : Pool Tid (Shared Tid) (Thread Tid)) (label : Label Tid Choice) : Prop :=
  (p.threads label.thread).returns label.choice = true →
    label.thread ∉ p.shared.queue ∧ ∀ u, (p.threads u).call.popped ≠ some label.thread

/-- The handles in the queue belong to waiting threads, none twice, and so do the handles that
releases have popped, which are not in the queue any more. -/
structure WaitersOnly (p : Pool Tid (Shared Tid) (Thread Tid)) : Prop where
  queued : ∀ t ∈ p.shared.queue, (p.threads t).call.waits = true
  nodup : p.shared.queue.Nodup
  popped : ∀ u t, (p.threads u).call.popped = some t →
    (p.threads t).call.waits = true ∧ t ∉ p.shared.queue

section Runs

variable [DecidableEq Tid] [Fintype Tid]

instance (p : Pool Tid (Shared Tid) (Thread Tid)) (label : Label Tid Choice) :
    Decidable (ReturnCondition p label) :=
  inferInstanceAs (Decidable (_ → _))

/-- The threads of a mutex, with whether each has been unparked since it last put its handle into
the queue. -/
def entries (ids : ThreadIds Tid) :
    System (Pool Tid (Shared Tid) (Thread Tid) × (Tid → Bool)) (Label Tid Choice) :=
  (system ids).recording (fun _ ↦ false) fun unparked p label _ ↦
    match (p.threads label.thread).call with
    | .lock (.enqueue .pushBack) => update unparked label.thread false
    | .drop (.dequeue (.unpark handle)) => update unparked handle true
    | _ => unparked

end Runs

/-- The ids 1, 2 and 3. -/
def threeThreadIds : ThreadIds (Fin 3) where
  get := fun t ↦ t.val + 1
  get_ne_zero := fun _ ↦ Nat.succ_ne_zero _
  get_injective := fun _ _ h ↦ Fin.ext (Nat.succ.inj h)

/-- Thread 0 locks. Threads 1 and 2 spin until their counters run out, put their handles into the
queue and park, and thread 1 returns spuriously. -/
def leftBehindRun : List (Label (Fin 3) Choice) :=
  [⟨0, .call .lock, none⟩] ++ List.replicate 4 ⟨0, .go, none⟩ ++
  [⟨1, .call .lock, none⟩] ++ List.replicate 106 ⟨1, .go, none⟩ ++ [⟨1, .spurious, none⟩] ++
  [⟨2, .call .lock, none⟩] ++ List.replicate 106 ⟨2, .go, none⟩

/-- Thread 0 drops its guard, up to the `unpark`. -/
def releaseRun : List (Label (Fin 3) Choice) :=
  [⟨0, .drop false, none⟩] ++ List.replicate 6 ⟨0, .go, none⟩

/-- The handle of a thread that is not waiting is in the queue, and the release is about to unpark
this thread while another one stays parked. -/
theorem unpark_wasted :
    ∃ p : Pool (Fin 3) (Shared (Fin 3)) (Thread (Fin 3)),
      (system threeThreadIds).Reachable p ∧ p.shared.queue = [1, 2] ∧
      (p.threads 1).call.waits = false ∧
      ((system threeThreadIds).exec (fun _ _ ↦ True) p releaseRun).any (fun q ↦
        decide ((q.threads 0).call = .drop (.dequeue (.unpark 1)) ∧
          (q.threads 1).call.waits = false ∧ (q.threads 2).blocked = true)) = true :=
  System.exists_reachableWhen_of_exec (M := system threeThreadIds) (fun _ _ ↦ True)
    (P := fun p ↦ p.shared.queue = [1, 2] ∧ (p.threads 1).call.waits = false ∧
      ((system threeThreadIds).exec (fun _ _ ↦ True) p releaseRun).any (fun q ↦
        decide ((q.threads 0).call = .drop (.dequeue (.unpark 1)) ∧
          (q.threads 1).call.waits = false ∧ (q.threads 2).blocked = true)) = true)
    leftBehindRun (by decide +kernel)

/-! ### What a step does to the handles -/

/-- The steps that matter for the handles. -/
inductive QueueMove (self : Tid) (choice : Choice) (before : Shared Tid) (th : Thread Tid)
    (after : Shared Tid) (moved : Thread Tid) (signal : Signal Tid Addr) : Prop
  | stay (hqueue : after.queue = before.queue) (hpopped : moved.call.popped = th.call.popped)
      (hwaits : moved.call.waits = th.call.waits) (hsignal : signal = .silent)
  | pushBack (hcall : th.call = .lock (.enqueue .pushBack))
      (hqueue : after.queue = before.queue ++ [self]) (hpopped : moved.call.popped = none)
      (hwaits : moved.call.waits = true) (hsignal : signal = .silent)
  | returns (hreturns : th.returns choice = true) (hqueue : after.queue = before.queue)
      (hpopped : moved.call.popped = th.call.popped) (hwaits : moved.call.waits = false)
      (hsignal : signal = .silent)
  | popFront (hbefore : th.call.popped = none)
      (hqueue : before.queue = moved.call.popped.toList ++ after.queue)
      (hwaits : moved.call.waits = th.call.waits) (hsignal : signal = .silent)
  | unpark (handle : Tid) (hcall : th.call = .drop (.dequeue (.unpark handle)))
      (hqueue : after.queue = before.queue) (hpopped : moved.call.popped = none)
      (hwaits : moved.call.waits = th.call.waits) (hsignal : signal = .unpark handle)

section Local

variable {th : Thread Tid} {spinCounter : ℕ}

@[simp] theorem waits_spinLoop : (spinLoop th spinCounter).call.waits = false := by
  unfold spinLoop
  split_ifs <;> rfl

@[simp] theorem popped_spinLoop : (spinLoop th spinCounter).call.popped = none := by
  unfold spinLoop
  split_ifs <;> rfl

/-- An unpark changes no handle, and it ends the wait of its thread only. -/
@[simp] theorem popped_unpark : (unpark th).call.popped = th.call.popped := by
  unfold unpark
  split
  case h_1 hcall =>
    rw [hcall]
    rfl
  case h_2 => rfl

end Local

section Steps

variable {self : Tid} {currentThread : ℕ} {before after : Shared Tid} {th moved : Thread Tid}
  {signal : Signal Tid Addr} {choice : Choice}

theorem enqueueThreadStep_queueMove {pc : EnqueuePc} (hcall : th.call = .lock (.enqueue pc))
    (h : enqueueThreadStep self before th pc choice = some (after, moved, signal)) :
    QueueMove self choice before th after moved signal := by
  have hpopped : th.call.popped = none := by rw [hcall]; rfl
  have hwaits : th.call.waits = pc.waits := by rw [hcall]; rfl
  cases pc <;> cases choice <;> simp only [enqueueThreadStep, reduceCtorEq] at h
  case pushBack.go =>
    obtain ⟨rfl, rfl, rfl⟩ := quiet_eq_some.mp h
    exact .pushBack hcall rfl rfl rfl rfl
  case park.go =>
    split_ifs at h with htoken
    all_goals obtain ⟨rfl, rfl, rfl⟩ := quiet_eq_some.mp h
    · exact .returns (by simp [Thread.returns, hcall, htoken]) rfl hpopped.symm rfl rfl
    · exact .stay rfl hpopped.symm hwaits.symm rfl
  case park.spurious | parked.spurious =>
    obtain ⟨rfl, rfl, rfl⟩ := quiet_eq_some.mp h
    exact .returns (by simp [Thread.returns, hcall]) rfl hpopped.symm rfl rfl
  all_goals try split_ifs at h
  all_goals obtain ⟨rfl, rfl, rfl⟩ := quiet_eq_some.mp h
  all_goals
    first
    | exact .stay rfl rfl rfl rfl
    | exact .stay rfl hpopped.symm hwaits.symm rfl

theorem lockStep_queueMove {pc : LockPc} (hcall : th.call = .lock pc)
    (h : lockStep self currentThread before th pc choice = some (after, moved, signal)) :
    QueueMove self choice before th after moved signal := by
  cases pc with
  | enqueue pc => cases choice <;> exact enqueueThreadStep_queueMove hcall h
  | _ =>
    have hpopped : th.call.popped = none := by rw [hcall]; rfl
    have hwaits : th.call.waits = false := by rw [hcall]; rfl
    cases choice <;> simp only [lockStep, reduceCtorEq] at h
    all_goals try split_ifs at h
    all_goals obtain ⟨rfl, rfl, rfl⟩ := quiet_eq_some.mp h
    all_goals
      first
      | exact .stay rfl hpopped.symm hwaits.symm rfl
      | exact .stay rfl (popped_spinLoop.trans hpopped.symm) (waits_spinLoop.trans hwaits.symm) rfl

theorem tryLockStep_queueMove {pc : TryLockPc} (hcall : th.call = .tryLock pc)
    (h : tryLockStep currentThread before th pc choice = some (after, moved, signal)) :
    QueueMove self choice before th after moved signal := by
  have hpopped : th.call.popped = none := by rw [hcall]; rfl
  have hwaits : th.call.waits = false := by rw [hcall]; rfl
  cases pc <;> cases choice <;> simp only [tryLockStep, reduceCtorEq] at h
  all_goals split_ifs at h
  all_goals obtain ⟨rfl, rfl, rfl⟩ := quiet_eq_some.mp h
  all_goals exact .stay rfl hpopped.symm hwaits.symm rfl

theorem dequeueThreadStep_queueMove {pc : DequeuePc Tid} (hcall : th.call = .drop (.dequeue pc))
    (h : dequeueThreadStep before th pc choice = some (after, moved, signal)) :
    QueueMove self choice before th after moved signal := by
  have hwaits : th.call.waits = false := by rw [hcall]; rfl
  cases pc with
  | popFront =>
    cases choice <;> simp only [dequeueThreadStep, reduceCtorEq] at h
    obtain ⟨rfl, rfl, rfl⟩ := quiet_eq_some.mp h
    refine .popFront (by rw [hcall]; rfl) ?_ hwaits.symm rfl
    show before.queue = before.queue.head?.toList ++ before.queue.tail
    cases before.queue <;> rfl
  | store popped =>
    have hpopped : th.call.popped = popped := by rw [hcall]; rfl
    cases popped <;> cases choice <;> simp only [dequeueThreadStep, reduceCtorEq] at h
    all_goals
      obtain ⟨rfl, rfl, rfl⟩ := quiet_eq_some.mp h
      exact .stay rfl hpopped.symm hwaits.symm rfl
  | unpark handle =>
    cases choice <;> simp only [dequeueThreadStep, reduceCtorEq] at h
    obtain ⟨rfl, rfl, rfl⟩ := by simpa using h
    exact .unpark handle hcall rfl rfl hwaits.symm rfl
  | _ =>
    have hpopped : th.call.popped = none := by rw [hcall]; rfl
    cases choice <;> simp only [dequeueThreadStep, reduceCtorEq] at h
    all_goals try split_ifs at h
    all_goals obtain ⟨rfl, rfl, rfl⟩ := quiet_eq_some.mp h
    all_goals
      first
      | exact .stay rfl rfl rfl rfl
      | exact .stay rfl hpopped.symm hwaits.symm rfl

theorem idleStep_queueMove (hcall : th.call = .idle)
    (h : idleStep before th choice = some (after, moved, signal)) :
    QueueMove self choice before th after moved signal := by
  have hpopped : th.call.popped = none := by rw [hcall]; rfl
  have hwaits : th.call.waits = false := by rw [hcall]; rfl
  cases choice with
  | call method =>
    cases method
    all_goals
      obtain ⟨rfl, rfl, rfl⟩ := quiet_eq_some.mp h
      exact .stay rfl hpopped.symm hwaits.symm rfl
  | drop panicking =>
    simp only [idleStep] at h
    split_ifs at h
    obtain ⟨rfl, rfl, rfl⟩ := quiet_eq_some.mp h
    exact .stay rfl hpopped.symm hwaits.symm rfl
  | clearPoison =>
    obtain ⟨rfl, rfl, rfl⟩ := quiet_eq_some.mp h
    exact .stay rfl rfl rfl rfl
  | go => cases h
  | spurious => cases h

/-- Every step of a thread is one of these. -/
theorem step_queueMove
    (h : step self currentThread before th choice = some (after, moved, signal)) :
    QueueMove self choice before th after moved signal := by
  unfold step at h
  split at h
  case h_1 hcall => exact idleStep_queueMove hcall h
  case h_2 hcall => exact lockStep_queueMove hcall h
  case h_3 hcall => exact tryLockStep_queueMove hcall h
  case h_4 hcall =>
    split_ifs at h
    obtain ⟨rfl, rfl, rfl⟩ := quiet_eq_some.mp h
    exact .stay rfl (by rw [hcall]; rfl) (by rw [hcall]; rfl) rfl
  case h_5 pc hcall =>
    cases pc with
    | store =>
      cases choice <;> simp only [dropStep, reduceCtorEq] at h
      obtain ⟨rfl, rfl, rfl⟩ := quiet_eq_some.mp h
      exact .stay rfl (by rw [hcall]; rfl) (by rw [hcall]; rfl) rfl
    | dequeue pc => cases choice <;> exact dequeueThreadStep_queueMove hcall h

/-- A step on which `park` returns moves no handle. -/
theorem returned_of_returns (hreturns : th.returns choice = true)
    (h : step self currentThread before th choice = some (after, moved, signal)) :
    after.queue = before.queue ∧ moved.call.popped = th.call.popped ∧
      moved.call.waits = false ∧ signal = .silent := by
  unfold Thread.returns at hreturns
  split at hreturns
  case h_1 hcall =>
    simp only [step, hcall, lockStep, enqueueThreadStep, hreturns, if_true] at h
    obtain ⟨rfl, rfl, rfl⟩ := quiet_eq_some.mp h
    exact ⟨rfl, by rw [hcall]; rfl, rfl, rfl⟩
  case h_2 hcall | h_3 hcall =>
    simp only [step, hcall, lockStep, enqueueThreadStep] at h
    obtain ⟨rfl, rfl, rfl⟩ := quiet_eq_some.mp h
    exact ⟨rfl, by rw [hcall]; rfl, rfl, rfl⟩
  case h_4 => cases hreturns

end Steps

/-! ### One handle at most -/

section Runs

variable [DecidableEq Tid] [Fintype Tid] {ids : ThreadIds Tid}
  {p p' : Pool Tid (Shared Tid) (Thread Tid)} {label : Label Tid Choice}

/-- Whether a release in a thread has popped a handle. -/
def Thread.handles (t : Tid) (th : Thread Tid) : ℕ := if th.call.popped = some t then 1 else 0

/-- The handles of a thread, in the queue or popped. -/
def handles (p : Pool Tid (Shared Tid) (Thread Tid)) (t : Tid) : ℕ :=
  p.shared.queue.count t + total (Thread.handles t) p.threads

/-- A thread has one handle at most, and none if it does not wait. -/
def HandledOnce (p : Pool Tid (Shared Tid) (Thread Tid)) : Prop :=
  ∀ t, handles p t ≤ if (p.threads t).call.waits = true then 1 else 0

theorem handles_eq_zero_iff {t : Tid} :
    handles p t = 0 ↔ t ∉ p.shared.queue ∧ ∀ u, (p.threads u).call.popped ≠ some t := by
  rw [handles, Nat.add_eq_zero_iff, List.count_eq_zero, total_eq_zero_iff]
  refine and_congr_right fun _ ↦ forall_congr' fun u ↦ ?_
  unfold Thread.handles
  split_ifs with hpopped
  · exact ⟨nofun, fun hne ↦ absurd hpopped hne⟩
  · exact ⟨fun _ ↦ hpopped, fun _ ↦ rfl⟩

/-- The handles after a step of the pool. -/
theorem handles_step {moved : Thread Tid} {signal : Signal Tid Addr} (t : Tid)
    (h : (machine ids).Delivered signal (update p.threads label.thread moved) p'.threads) :
    handles p' t + p.shared.queue.count t + (p.threads label.thread).handles t =
      handles p t + p'.shared.queue.count t + moved.handles t := by
  have hdelivered : total (Thread.handles t) p'.threads =
      total (Thread.handles t) (update p.threads label.thread moved) :=
    h.total_eq (fun _ _ _ ↦ rfl) fun a ↦ by
      show Thread.handles t (unpark a) = a.handles t
      rw [Thread.handles, popped_unpark, Thread.handles]
  have hupdate := total_update (Thread.handles t) p.threads label.thread moved
  unfold handles
  omega

omit [Fintype Tid] in
/-- Only an unpark ends the wait of a thread that takes no step. -/
theorem waits_of_delivered {signal : Signal Tid Addr} {f f' : Tid → Thread Tid} {t : Tid}
    (h : (machine ids).Delivered signal f f') (hsignal : signal ≠ .unpark t) :
    (f' t).call.waits = (f t).call.waits := by
  cases signal with
  | silent => rw [h.silent_eq]
  | wakeOne addr => cases addr
  | wakeAll addr => cases addr
  | unpark u =>
    have hne : t ≠ u := fun heq ↦ hsignal (congrArg Signal.unpark heq.symm)
    rw [h.unpark_eq, update_of_ne hne]

/-- What the invariant says of the queue and of the popped handles. -/
theorem HandledOnce.waitersOnly (h : HandledOnce p) : WaitersOnly p := by
  have hpos (t : Tid) (ht : 0 < handles p t) :
      (p.threads t).call.waits = true ∧ handles p t = 1 := by
    have hle := h t
    split_ifs at hle with hwaits
    · exact ⟨hwaits, by omega⟩
    · omega
  constructor
  case queued =>
    intro t ht
    exact (hpos t (Nat.add_pos_left (List.count_pos_iff.mpr ht) _)).1
  case nodup =>
    refine List.nodup_iff_count_le_one.mpr fun t ↦ ?_
    have hle := h t
    unfold handles at hle
    split_ifs at hle <;> omega
  case popped =>
    intro u t hpopped
    have hone : 1 ≤ total (Thread.handles t) p.threads := by
      refine le_trans ?_ (le_total _ _ u)
      rw [Thread.handles, if_pos hpopped]
    obtain ⟨hwaits, hhandles⟩ := hpos t (Nat.add_pos_right _ hone)
    refine ⟨hwaits, List.count_eq_zero.mp ?_⟩
    unfold handles at hhandles
    omega

/-- One step keeps the invariant. Assumes: the condition on the step. -/
theorem handledOnce_step (h : HandledOnce p) (hmeets : ReturnCondition p label)
    (hmove : (system ids).step p label = some p') : HandledOnce p' := by
  obtain ⟨moved, signal, hlocal, hdelivered⟩ := Machine.step_cases hmove
  intro t
  have hbefore := h t
  have hhandles := handles_step t hdelivered
  -- a thread that is not unparked waits as after its own step
  have hwaiting (hne : signal ≠ .unpark t) : (p'.threads t).call.waits =
      if t = label.thread then moved.call.waits else (p.threads t).call.waits := by
    rw [waits_of_delivered hdelivered hne]
    split_ifs with hself
    · rw [hself, update_self]
    · rw [update_of_ne hself]
  have hkept (hne : signal ≠ .unpark t)
      (hwaits : moved.call.waits = (p.threads label.thread).call.waits) :
      (p'.threads t).call.waits = (p.threads t).call.waits := by
    rw [hwaiting hne]
    split_ifs with hself
    · rw [hwaits, hself]
    · rfl
  cases step_queueMove hlocal with
  | stay hqueue hpopped hwaits hsignal =>
    rw [hqueue, Thread.handles, Thread.handles, hpopped] at hhandles
    rw [hkept (by rw [hsignal]; nofun) hwaits]
    omega
  | pushBack hcall hqueue hpopped hwaits hsignal =>
    have hnone : (p.threads label.thread).call.popped = none := by rw [hcall]; rfl
    rw [hqueue, List.count_append, Thread.handles, Thread.handles, hpopped, hnone] at hhandles
    rw [hwaiting (by rw [hsignal]; nofun)]
    by_cases hself : t = label.thread
    · subst hself
      have hidle : (p.threads label.thread).call.waits = false := by rw [hcall]; rfl
      rw [hidle, if_neg Bool.false_ne_true] at hbefore
      rw [List.count_singleton_self] at hhandles
      rw [if_pos rfl, if_pos hwaits]
      omega
    · have hzero : List.count t [label.thread] = 0 :=
        List.count_eq_zero.mpr fun hmem ↦ hself (List.mem_singleton.mp hmem)
      rw [if_neg hself]
      omega
  | returns hreturns hqueue hpopped hwaits hsignal =>
    rw [hqueue, Thread.handles, Thread.handles, hpopped] at hhandles
    rw [hwaiting (by rw [hsignal]; nofun)]
    by_cases hself : t = label.thread
    · have hzero := handles_eq_zero_iff.mpr (hmeets hreturns)
      rw [← hself] at hzero
      omega
    · rw [if_neg hself]
      omega
  | popFront hnone hqueue hwaits hsignal =>
    rw [hqueue, List.count_append, Thread.handles, Thread.handles, hnone] at hhandles
    have hpopped : moved.call.popped.toList.count t =
        if moved.call.popped = some t then 1 else 0 := by
      cases moved.call.popped with
      | none => rfl
      | some handle => simp [List.count_singleton]
    rw [hkept (by rw [hsignal]; nofun) hwaits]
    simp only [reduceCtorEq, if_false] at hhandles
    omega
  | unpark handle hcall hqueue hpopped hwaits hsignal =>
    have hheld : (p.threads label.thread).call.popped = some handle := by rw [hcall]; rfl
    rw [hqueue, Thread.handles, Thread.handles, hpopped, hheld] at hhandles
    simp only [reduceCtorEq, if_false, Option.some.injEq] at hhandles
    by_cases hunparked : handle = t
    · rw [if_pos hunparked] at hhandles
      split_ifs at hbefore <;> omega
    · have hne : signal ≠ .unpark t := by
        rw [hsignal]
        exact fun heq ↦ hunparked (Signal.unpark.inj heq)
      rw [hkept hne hwaits]
      omega

/-- The invariant holds in every state of a run under the condition. -/
theorem handledOnce (h : (system ids).ReachableWhen ReturnCondition p) : HandledOnce p := by
  have hnew : HandledOnce (new Tid) := fun t ↦ by
    have hzero : handles (new Tid) t = 0 :=
      handles_eq_zero_iff.mpr ⟨List.not_mem_nil, fun _ hpopped ↦ nomatch hpopped⟩
    omega
  exact h.invariant (P := HandledOnce) hnew fun _ _ _ _ hhandled hmeets hmove ↦
    handledOnce_step hhandled hmeets hmove

/-- A handle in the queue has been there or has just been put in by its thread. -/
theorem mem_queue_of_step {t : Tid} (hmove : (system ids).step p label = some p')
    (ht : t ∈ p'.shared.queue) :
    t ∈ p.shared.queue ∨
      t = label.thread ∧ (p.threads label.thread).call = .lock (.enqueue .pushBack) := by
  obtain ⟨moved, signal, hlocal, -⟩ := Machine.step_cases hmove
  cases step_queueMove hlocal with
  | stay hqueue => exact .inl (hqueue ▸ ht)
  | pushBack hcall hqueue =>
    rw [hqueue, List.mem_append, List.mem_singleton] at ht
    exact ht.imp_right fun heq ↦ ⟨heq, hcall⟩
  | returns hreturns hqueue => exact .inl (hqueue ▸ ht)
  | popFront hnone hqueue => exact .inl (hqueue ▸ List.mem_append_right _ ht)
  | unpark handle hcall hqueue => exact .inl (hqueue ▸ ht)

/-- Nobody whose handle is in the queue has been unparked since it put it there. -/
theorem not_unparked {x : Pool Tid (Shared Tid) (Thread Tid) × (Tid → Bool)}
    (h : (entries ids).ReachableWhen (fun x label ↦ ReturnCondition x.1 label) x) :
    ∀ t ∈ x.1.shared.queue, x.2 t = false := by
  refine h.invariant (P := fun x ↦ ∀ t ∈ x.1.shared.queue, x.2 t = false)
    (fun _ _ ↦ rfl) ?_
  intro x label x' hrun hnone _ hmove t ht
  obtain ⟨hstep, hrecord⟩ := System.recording_step hmove
  have hbefore := mem_queue_of_step hstep ht
  split at hrecord
  all_goals rw [hrecord]
  case h_1 =>
    by_cases hself : t = label.thread
    · rw [hself, update_self]
    · rw [update_of_ne hself]
      exact hnone t (hbefore.resolve_right fun hpushed ↦ hself hpushed.1)
  case h_2 handle hcall =>
    have hin : t ∈ x.1.shared.queue := hbefore.resolve_right fun hpushed ↦ by
      rw [hcall] at hpushed
      cases hpushed.2
    have hpopped : (x.1.threads label.thread).call.popped = some handle := by rw [hcall]; rfl
    have hout := (handledOnce hrun.of_recording).waitersOnly.popped _ _ hpopped
    have hne : t ≠ handle := by
      rintro rfl
      exact hout.2 hin
    rw [update_of_ne hne]
    exact hnone t hin
  case h_3 hcall _ => exact hnone t (hbefore.resolve_right fun hpushed ↦ hcall hpushed.2)

/-- A step that lets `park` return to a thread with a handle leaves a handle of a thread that does
not wait. -/
theorem not_waitersOnly_of_returns (hreturns : (p.threads label.thread).returns label.choice = true)
    (hhandle : handles p label.thread ≠ 0) (hmove : (system ids).step p label = some p') :
    ¬WaitersOnly p' := by
  intro hwaiters
  obtain ⟨moved, signal, hlocal, hdelivered⟩ := Machine.step_cases hmove
  obtain ⟨hqueue, hpopped, hwaits, rfl⟩ := returned_of_returns hreturns hlocal
  have hout : (p'.threads label.thread).call.waits = false := by
    rw [hdelivered.silent_eq, update_self, hwaits]
  refine hhandle (handles_eq_zero_iff.mpr ⟨fun hin ↦ ?_, fun u hu ↦ ?_⟩)
  · have hin' := hwaiters.queued _ (hqueue.symm ▸ hin)
    rw [hout] at hin'
    cases hin'
  · have hu' : (p'.threads u).call.popped = some label.thread := by
      rw [hdelivered.silent_eq]
      by_cases hself : u = label.thread
      · rw [hself, update_self, hpopped, ← hself]
        rw [← hself] at hu
        exact hu
      · rw [update_of_ne hself, hu]
    have hin' := (hwaiters.popped _ _ hu').1
    rw [hout] at hin'
    cases hin'

/-- In every run in which `park` returns only to threads without a handle, every handle in the queue
belongs to a thread that waits in `enqueue_thread` and has not been unparked for it, no thread has
two, and every handle that a release has popped belongs to a waiting thread. A step leaves this so
if and only if it meets the condition. -/
theorem wakeups_to_waiters {x : Pool Tid (Shared Tid) (Thread Tid) × (Tid → Bool)}
    (h : (entries ids).ReachableWhen (fun x label ↦ ReturnCondition x.1 label) x) :
    WaitersOnly x.1 ∧ (∀ t ∈ x.1.shared.queue, x.2 t = false) ∧
      ∀ label p', (system ids).step x.1 label = some p' →
        (WaitersOnly p' ↔ ReturnCondition x.1 label) := by
  have hhandled : HandledOnce x.1 := handledOnce h.of_recording
  refine ⟨hhandled.waitersOnly, not_unparked h, fun label p' hmove ↦ ⟨fun hwaiters hreturns ↦ ?_,
    fun hmeets ↦ (handledOnce_step hhandled hmeets hmove).waitersOnly⟩⟩
  refine handles_eq_zero_iff.mp ?_
  by_contra hhandle
  exact not_waitersOnly_of_returns hreturns hhandle hmove hwaiters

/-- `wakeups_to_waiters` on a run in which thread 1 is parked and thread 0 has popped its handle. -/
theorem wakeups_to_waiters_popped :
    ∃ x : Pool (Fin 2) (Shared (Fin 2)) (Thread (Fin 2)) × (Fin 2 → Bool),
      (x.1.threads 0).call = .drop (.dequeue (.unpark 1)) ∧ WaitersOnly x.1 ∧
        ∀ t ∈ x.1.shared.queue, x.2 t = false := by
  obtain ⟨x, hrun, hcall⟩ := System.exists_reachableWhen_of_exec
    (M := entries twoThreadIds) (fun x label ↦ ReturnCondition x.1 label)
    (P := fun x ↦ (x.1.threads 0).call = .drop (.dequeue (.unpark 1)))
    ([⟨0, .call .lock, none⟩] ++ List.replicate 4 ⟨0, .go, none⟩ ++
      [⟨1, .call .lock, none⟩] ++ List.replicate 106 ⟨1, .go, none⟩ ++
      [⟨0, .drop false, none⟩] ++ List.replicate 6 ⟨0, .go, none⟩) (by decide +kernel)
  exact ⟨x, hcall, (wakeups_to_waiters hrun).1, (wakeups_to_waiters hrun).2.1⟩

end Runs

end SyncPrimitives.MutexV1
