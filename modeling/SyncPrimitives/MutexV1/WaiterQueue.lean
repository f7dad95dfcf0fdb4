import SyncPrimitives.Concurrency.Runs
import SyncPrimitives.MutexV1.Waiters

/-!
# The waiter queue of the queueing mutex

`queue` is a plain `VecDeque`, which all threads reach through a shared reference. What keeps their
accesses apart is `queue_is_accessed`: `enqueue_thread` and `dequeue_thread` spin until they have
set it, and clear it when they are done with the queue. `Call.remaining` is the number of accesses a
thread has still to make before it has cleared the flag, zero outside, and `SectionMove` lists what
a step does to the flag, the queue and this number.

`queueSystem` is more than the mutex: a thread may call the two functions at any time, in any
order, and it may also take every step of the mutex, so that the runs of the mutex are among its
runs (`reachable_queueSystem`). `traced` records the handles pushed and popped. In every run at most
one thread is inside, and the handles popped so far, followed by the queue, are the handles pushed
so far (`waiter_queue_fifo`).
-/

set_option autoImplicit false
set_option relaxedAutoImplicit false

namespace SyncPrimitives.MutexV1

open Concurrency Function MutexCommon

variable {Tid : Type}

/-! ### The section between setting and clearing the flag -/

/-- The accesses `enqueue_thread` has to make before it has cleared the flag it has set. -/
def EnqueuePc.remaining : EnqueuePc → ℕ
  | .pushBack => 2
  | .store => 1
  | _ => 0

/-- The accesses `dequeue_thread` has to make before it has cleared the flag it has set; one fewer
on the empty path. -/
def DequeuePc.remaining : DequeuePc Tid → ℕ
  | .isEmpty => 3
  | .popFront => 2
  | .store _ => 1
  | _ => 0

/-- The accesses a thread has to make before it has cleared the flag it has set, zero for a thread
that is not between the two. -/
def Call.remaining : Call Tid → ℕ
  | .lock (.enqueue pc) => pc.remaining
  | .drop (.dequeue pc) => pc.remaining
  | _ => 0

/-- A thread is between setting and clearing `queue_is_accessed`. -/
def Thread.inside (th : Thread Tid) : Prop := 0 < th.call.remaining

/-- Where a thread is when it has cleared the flag: before `park`, before `unpark`, or back from
`dequeue_thread`. -/
inductive Call.Left : Call Tid → Prop
  | park : Left (.lock (.enqueue .park))
  | unpark (handle : Tid) : Left (.drop (.dequeue (.unpark handle)))
  | returned : Left .idle

/-- What a step does to the flag, to the queue, and to the accesses that remain. -/
inductive SectionMove (self : Tid) (before : Shared Tid) (th : Thread Tid) (after : Shared Tid)
    (moved : Thread Tid) (signal : Signal Tid Addr) : Prop
  | outside (hbefore : th.call.remaining = 0) (hmoved : moved.call.remaining = 0)
      (hflag : after.queueIsAccessed = before.queueIsAccessed) (hqueue : after.queue = before.queue)
  | enter (hbefore : th.call.remaining = 0) (hopen : before.queueIsAccessed = false)
      (hmoved : moved.call = .lock (.enqueue .pushBack) ∨ moved.call = .drop (.dequeue .isEmpty))
      (hflag : after.queueIsAccessed = true) (hqueue : after.queue = before.queue)
  | pushBack (hbefore : th.call = .lock (.enqueue .pushBack))
      (hmoved : moved.call = .lock (.enqueue .store))
      (hflag : after.queueIsAccessed = before.queueIsAccessed)
      (hqueue : after.queue = before.queue ++ [self]) (hsignal : signal = .silent)
  | isEmpty (hbefore : th.call = .drop (.dequeue .isEmpty))
      (hmoved : moved.call =
        .drop (.dequeue (if before.queue = [] then .store none else .popFront)))
      (hflag : after.queueIsAccessed = before.queueIsAccessed) (hqueue : after.queue = before.queue)
      (hsignal : signal = .silent)
  | popFront (hbefore : th.call = .drop (.dequeue .popFront))
      (hmoved : moved.call = .drop (.dequeue (.store before.queue.head?)))
      (hflag : after.queueIsAccessed = before.queueIsAccessed)
      (hqueue : after.queue = before.queue.tail) (hsignal : signal = .silent)
  | leave (hbefore : th.call.remaining = 1) (hmoved : moved.call.Left)
      (hflag : after.queueIsAccessed = false) (hqueue : after.queue = before.queue)
      (hsignal : signal = .silent)

section Steps

variable {self : Tid} {currentThread : ℕ} {before after : Shared Tid} {th moved : Thread Tid}
  {signal : Signal Tid Addr} {choice : Choice}

@[simp] theorem remaining_spinLoop {spinCounter : ℕ} :
    (spinLoop th spinCounter).call.remaining = 0 := by
  unfold spinLoop
  split_ifs <;> rfl

theorem Call.Left.remaining {call : Call Tid} (h : call.Left) : call.remaining = 0 := by
  cases h <;> rfl

/-- An unpark moves only a thread that is parked, which has cleared the flag. -/
@[simp] theorem remaining_unpark : (unpark th).call.remaining = th.call.remaining := by
  unfold unpark
  split
  case h_1 hcall =>
    rw [hcall]
    rfl
  case h_2 => rfl

theorem call_unpark_of_inside (h : th.inside) : (unpark th).call = th.call := by
  unfold unpark
  split
  case h_1 hcall =>
    rw [Thread.inside, hcall] at h
    cases h
  case h_2 => rfl

theorem enqueueThreadStep_sectionMove {pc : EnqueuePc} (hcall : th.call = .lock (.enqueue pc))
    (h : enqueueThreadStep self before th pc choice = some (after, moved, signal)) :
    SectionMove self before th after moved signal := by
  have hbefore : th.call.remaining = pc.remaining := by rw [hcall]; rfl
  cases pc <;> cases choice <;> simp only [enqueueThreadStep, reduceCtorEq] at h
  case compareExchange.go =>
    split_ifs at h with hflag
    all_goals obtain ⟨rfl, rfl, rfl⟩ := quiet_eq_some.mp h
    · exact .outside hbefore rfl rfl rfl
    · exact .enter hbefore (Bool.eq_false_of_not_eq_true hflag) (.inl rfl) rfl rfl
  case pushBack.go =>
    obtain ⟨rfl, rfl, rfl⟩ := quiet_eq_some.mp h
    exact .pushBack hcall rfl rfl rfl rfl
  case store.go =>
    obtain ⟨rfl, rfl, rfl⟩ := quiet_eq_some.mp h
    exact .leave hbefore .park rfl rfl rfl
  all_goals try split_ifs at h
  all_goals obtain ⟨rfl, rfl, rfl⟩ := quiet_eq_some.mp h
  all_goals
    first
    | exact .outside hbefore hbefore rfl rfl
    | exact .outside hbefore rfl rfl rfl

theorem dequeueThreadStep_sectionMove {pc : DequeuePc Tid} (hcall : th.call = .drop (.dequeue pc))
    (h : dequeueThreadStep before th pc choice = some (after, moved, signal)) :
    SectionMove self before th after moved signal := by
  have hbefore : th.call.remaining = pc.remaining := by rw [hcall]; rfl
  cases pc with
  | load =>
    cases choice <;> simp only [dequeueThreadStep, reduceCtorEq] at h
    split_ifs at h
    all_goals obtain ⟨rfl, rfl, rfl⟩ := quiet_eq_some.mp h
    · exact .outside hbefore hbefore rfl rfl
    · exact .outside hbefore rfl rfl rfl
  | compareExchange =>
    cases choice <;> simp only [dequeueThreadStep, reduceCtorEq] at h
    case go =>
      split_ifs at h with hflag
      all_goals obtain ⟨rfl, rfl, rfl⟩ := quiet_eq_some.mp h
      · exact .outside hbefore rfl rfl rfl
      · exact .enter hbefore (Bool.eq_false_of_not_eq_true hflag) (.inr rfl) rfl rfl
    case spurious =>
      obtain ⟨rfl, rfl, rfl⟩ := quiet_eq_some.mp h
      exact .outside hbefore rfl rfl rfl
  | isEmpty =>
    cases choice <;> simp only [dequeueThreadStep, reduceCtorEq] at h
    split_ifs at h with hempty
    all_goals obtain ⟨rfl, rfl, rfl⟩ := quiet_eq_some.mp h
    · exact .isEmpty hcall (by rw [if_pos hempty]; rfl) rfl rfl rfl
    · exact .isEmpty hcall (by rw [if_neg hempty]; rfl) rfl rfl rfl
  | popFront =>
    cases choice <;> simp only [dequeueThreadStep, reduceCtorEq] at h
    obtain ⟨rfl, rfl, rfl⟩ := quiet_eq_some.mp h
    exact .popFront hcall rfl rfl rfl rfl
  | store popped =>
    cases popped <;> cases choice <;> simp only [dequeueThreadStep, reduceCtorEq] at h
    case none.go =>
      obtain ⟨rfl, rfl, rfl⟩ := quiet_eq_some.mp h
      exact .leave hbefore .returned rfl rfl rfl
    case some.go =>
      obtain ⟨rfl, rfl, rfl⟩ := quiet_eq_some.mp h
      exact .leave hbefore (.unpark _) rfl rfl rfl
  | unpark handle =>
    cases choice <;> simp only [dequeueThreadStep, reduceCtorEq] at h
    obtain ⟨rfl, rfl, rfl⟩ := by simpa using h
    exact .outside hbefore rfl rfl rfl

theorem lockStep_sectionMove {pc : LockPc} (hcall : th.call = .lock pc)
    (h : lockStep self currentThread before th pc choice = some (after, moved, signal)) :
    SectionMove self before th after moved signal := by
  cases pc with
  | enqueue pc => cases choice <;> exact enqueueThreadStep_sectionMove hcall h
  | _ =>
    have hbefore : th.call.remaining = 0 := by rw [hcall]; rfl
    cases choice <;> simp only [lockStep, reduceCtorEq] at h
    all_goals try split_ifs at h
    all_goals obtain ⟨rfl, rfl, rfl⟩ := quiet_eq_some.mp h
    all_goals
      first
      | exact .outside hbefore rfl rfl rfl
      | exact .outside hbefore remaining_spinLoop rfl rfl

theorem tryLockStep_sectionMove {pc : TryLockPc} (hcall : th.call = .tryLock pc)
    (h : tryLockStep currentThread before th pc choice = some (after, moved, signal)) :
    SectionMove self before th after moved signal := by
  have hbefore : th.call.remaining = 0 := by rw [hcall]; rfl
  cases pc <;> cases choice <;> simp only [tryLockStep, reduceCtorEq] at h
  all_goals split_ifs at h
  all_goals obtain ⟨rfl, rfl, rfl⟩ := quiet_eq_some.mp h
  all_goals exact .outside hbefore rfl rfl rfl

theorem dropStep_sectionMove {pc : DropPc Tid} (hcall : th.call = .drop pc)
    (h : dropStep before th pc choice = some (after, moved, signal)) :
    SectionMove self before th after moved signal := by
  cases pc with
  | dequeue pc => cases choice <;> exact dequeueThreadStep_sectionMove hcall h
  | store =>
    have hbefore : th.call.remaining = 0 := by rw [hcall]; rfl
    cases choice <;> simp only [dropStep, reduceCtorEq] at h
    obtain ⟨rfl, rfl, rfl⟩ := quiet_eq_some.mp h
    exact .outside hbefore rfl rfl rfl

theorem idleStep_sectionMove (hcall : th.call = .idle)
    (h : idleStep before th choice = some (after, moved, signal)) :
    SectionMove self before th after moved signal := by
  have hbefore : th.call.remaining = 0 := by rw [hcall]; rfl
  cases choice with
  | call method =>
    cases method
    all_goals
      obtain ⟨rfl, rfl, rfl⟩ := quiet_eq_some.mp h
      exact .outside hbefore rfl rfl rfl
  | drop panicking =>
    simp only [idleStep] at h
    split_ifs at h
    obtain ⟨rfl, rfl, rfl⟩ := quiet_eq_some.mp h
    exact .outside hbefore rfl rfl rfl
  | clearPoison =>
    obtain ⟨rfl, rfl, rfl⟩ := quiet_eq_some.mp h
    exact .outside hbefore hbefore rfl rfl
  | go => cases h
  | spurious => cases h

/-- Every step of a thread of the mutex is one of the moves. -/
theorem step_sectionMove
    (h : step self currentThread before th choice = some (after, moved, signal)) :
    SectionMove self before th after moved signal := by
  unfold step at h
  split at h
  case h_1 hcall => exact idleStep_sectionMove hcall h
  case h_2 hcall => exact lockStep_sectionMove hcall h
  case h_3 hcall => exact tryLockStep_sectionMove hcall h
  case h_4 hcall =>
    split_ifs at h
    obtain ⟨rfl, rfl, rfl⟩ := quiet_eq_some.mp h
    exact .outside (by rw [hcall]; rfl) rfl rfl rfl
  case h_5 hcall => exact dropStep_sectionMove hcall h

/-- A thread that is inside can always move: neither function waits for anything there. -/
theorem exists_step_of_inside (h : th.inside) : ∃ after moved,
    step self currentThread before th .go = some (after, moved, .silent) := by
  unfold Thread.inside Call.remaining at h
  split at h
  case h_1 pc hcall =>
    unfold step
    rw [hcall]
    cases pc <;> first | exact ⟨_, _, rfl⟩ | cases h
  case h_2 pc hcall =>
    unfold step
    rw [hcall]
    cases pc with
    | isEmpty =>
      by_cases hempty : before.queue = []
      · exact ⟨_, _, if_pos hempty⟩
      · exact ⟨_, _, if_neg hempty⟩
    | popFront => exact ⟨_, _, rfl⟩
    | store popped => cases popped <;> exact ⟨_, _, rfl⟩
    | _ => cases h
  case h_3 => cases h

/-- A step of a thread that is inside brings it nearer to the store that clears the flag, and this
store is the step that leads out. -/
theorem SectionMove.remaining_lt (h : SectionMove self before th after moved signal)
    (hinside : th.inside) :
    moved.call.remaining < th.call.remaining ∧ signal = .silent ∧
      (¬ moved.inside → after.queueIsAccessed = false ∧ moved.call.Left) := by
  cases h with
  | outside hbefore => exact absurd hbefore hinside.ne'
  | enter hbefore => exact absurd hbefore hinside.ne'
  | pushBack hbefore hmoved _ _ hsignal =>
    rw [Thread.inside, hbefore, hmoved]
    exact ⟨Nat.lt_succ_self _, hsignal, fun hnot ↦ absurd Nat.one_pos hnot⟩
  | isEmpty hbefore hmoved _ _ hsignal =>
    rw [Thread.inside, hbefore, hmoved]
    split_ifs
    · refine ⟨?_, hsignal, fun hnot ↦ absurd Nat.one_pos hnot⟩
      show 1 < 3
      decide
    · exact ⟨Nat.lt_succ_self _, hsignal, fun hnot ↦ absurd Nat.two_pos hnot⟩
  | popFront hbefore hmoved _ _ hsignal =>
    rw [Thread.inside, hbefore, hmoved]
    exact ⟨Nat.lt_succ_self _, hsignal, fun hnot ↦ absurd Nat.one_pos hnot⟩
  | leave hbefore hmoved hflag _ hsignal =>
    rw [hbefore, hmoved.remaining]
    exact ⟨Nat.one_pos, hsignal, fun _ ↦ ⟨hflag, hmoved⟩⟩

end Steps

/-! ### Threads that use the queue -/

/-- What resolves a step of a thread that may call `enqueue_thread` and `dequeue_thread` besides
using the mutex. -/
inductive QueueChoice
  | enqueueThread
  | dequeueThread
  | step (choice : Choice)
  deriving DecidableEq

/-- Whether a thread is inside `enqueue_thread` or `dequeue_thread`. -/
def Call.queueing : Call Tid → Bool
  | .lock (.enqueue _) => true
  | .drop (.dequeue _) => true
  | _ => false

/-- One step of a thread that may start either function whenever it is in neither. -/
def queueStep (self : Tid) (currentThread : ℕ) (shared : Shared Tid) (th : Thread Tid) :
    QueueChoice → Option (Shared Tid × Thread Tid × Signal Tid Addr)
  | .enqueueThread =>
    if th.call.queueing then none else quiet shared (th.goto (.lock (.enqueue .load)))
  | .dequeueThread =>
    if th.call.queueing then none else quiet shared (th.goto (.drop (.dequeue .load)))
  | .step choice => step self currentThread shared th choice

/-- Every step of a thread that uses the queue is one of the moves, too. -/
theorem queueStep_sectionMove {self : Tid} {currentThread : ℕ} {before after : Shared Tid}
    {th moved : Thread Tid} {signal : Signal Tid Addr} {choice : QueueChoice}
    (h : queueStep self currentThread before th choice = some (after, moved, signal)) :
    SectionMove self before th after moved signal := by
  have houtside (hnot : ¬ th.call.queueing = true) : th.call.remaining = 0 := by
    unfold Call.queueing at hnot
    unfold Call.remaining
    split
    case h_1 hcall => exact absurd (by rw [hcall]) hnot
    case h_2 hcall => exact absurd (by rw [hcall]) hnot
    case h_3 => rfl
  cases choice with
  | enqueueThread =>
    simp only [queueStep] at h
    split_ifs at h with hqueueing
    obtain ⟨rfl, rfl, rfl⟩ := quiet_eq_some.mp h
    exact .outside (houtside hqueueing) rfl rfl rfl
  | dequeueThread =>
    simp only [queueStep] at h
    split_ifs at h with hqueueing
    obtain ⟨rfl, rfl, rfl⟩ := quiet_eq_some.mp h
    exact .outside (houtside hqueueing) rfl rfl rfl
  | step choice => exact step_sectionMove h

/-- The threads of a mutex that may also use the queue directly. -/
def queueMachine (ids : ThreadIds Tid) :
    Machine Tid (Shared Tid) (Thread Tid) QueueChoice Addr where
  step := fun t shared th choice ↦ queueStep t (ids.get t) shared th choice
  asleepOn := fun _ ↦ none
  wake := id
  unpark := unpark

/-- The handles pushed and the handles popped so far, in this order. -/
structure Trace (Tid : Type) where
  pushed : List Tid
  popped : List Tid
  deriving DecidableEq

section Runs

variable [DecidableEq Tid] [Fintype Tid]

/-- Any number of threads using one queue. -/
def queueSystem (ids : ThreadIds Tid) :
    System (Pool Tid (Shared Tid) (Thread Tid)) (Label Tid QueueChoice) :=
  (queueMachine ids).system (new Tid)

/-- The runs, with what `push_back` has been given and what `pop_front` has returned. -/
def traced (ids : ThreadIds Tid) :
    System (Pool Tid (Shared Tid) (Thread Tid) × Trace Tid) (Label Tid QueueChoice) :=
  (queueSystem ids).recording ⟨[], []⟩ fun trace p label p' ↦
    match (p.threads label.thread).call with
    | .lock (.enqueue .pushBack) => { trace with pushed := trace.pushed ++ [label.thread] }
    | .drop (.dequeue .popFront) =>
      { trace with popped := trace.popped ++ (p'.threads label.thread).call.popped.toList }
    | _ => trace

variable {ids : ThreadIds Tid} {p p' : Pool Tid (Shared Tid) (Thread Tid)}
  {x x' : Pool Tid (Shared Tid) (Thread Tid) × Trace Tid} {label : Label Tid QueueChoice}

/-- The runs of the mutex are runs of the threads that use its queue. -/
theorem reachable_queueSystem (h : (system ids).Reachable p) : (queueSystem ids).Reachable p := by
  refine System.ReachableWhen.map (M := system ids) (N := queueSystem ids) id rfl ?_ h
  intro p label p' _ _ hmove
  exact .inr ⟨⟨label.thread, .step label.choice, label.woken⟩, trivial, hmove⟩

/-- A step of the pool is a move of one thread; an unpark it may send changes neither who is inside
nor the positions of those who are. -/
theorem pool_sectionMove (hmove : (queueSystem ids).step p label = some p') :
    ∃ moved signal,
      SectionMove label.thread p.shared (p.threads label.thread) p'.shared moved signal ∧
        (signal = .silent → p'.threads = update p.threads label.thread moved) ∧
        ∀ u, (p'.threads u).call.remaining =
            (update p.threads label.thread moved u).call.remaining ∧
          ((p'.threads u).inside →
            (p'.threads u).call = (update p.threads label.thread moved u).call) := by
  obtain ⟨moved, signal, hlocal, hdelivered⟩ := Machine.step_cases hmove
  refine ⟨moved, signal, queueStep_sectionMove hlocal, ?_, fun u ↦ ?_⟩
  · rintro rfl
    exact hdelivered.silent_eq
  rcases hdelivered.thread u with heq | ⟨_, hasleep, -⟩ | heq
  · rw [heq]
    exact ⟨rfl, fun _ ↦ rfl⟩
  · cases hasleep
  · rw [heq]
    refine ⟨remaining_unpark, fun hinside ↦ call_unpark_of_inside ?_⟩
    exact remaining_unpark.symm.trans_gt hinside

/-! ### The invariant -/

/-- At most one thread is inside, and the flag is set exactly while one is. -/
structure Sectioned (p : Pool Tid (Shared Tid) (Thread Tid)) : Prop where
  alone : ∀ t u, (p.threads t).inside → (p.threads u).inside → t = u
  flag : (∃ t, (p.threads t).inside) ↔ p.shared.queueIsAccessed = true

omit [DecidableEq Tid] [Fintype Tid] in
/-- The invariant of a state in which only one thread can be inside. -/
theorem sectioned_of_only {t : Tid} (honly : ∀ u, (p'.threads u).inside → u = t)
    (hflag : (p'.threads t).inside ↔ p'.shared.queueIsAccessed = true) : Sectioned p' where
  alone := fun _ _ ht hu ↦ (honly _ ht).trans (honly _ hu).symm
  flag := ⟨fun ⟨u, hu⟩ ↦ hflag.mp (honly u hu ▸ hu), fun h ↦ ⟨t, hflag.mpr h⟩⟩

/-- One step keeps the invariant. -/
theorem sectioned_step (h : Sectioned p) (hmove : (queueSystem ids).step p label = some p') :
    Sectioned p' := by
  obtain ⟨moved, signal, hsection, -, hpositions⟩ := pool_sectionMove hmove
  have hself : (p'.threads label.thread).inside ↔ 0 < moved.call.remaining := by
    rw [Thread.inside, (hpositions _).1, update_self]
  have hother (u : Tid) (hu : u ≠ label.thread) :
      (p'.threads u).inside ↔ (p.threads u).inside := by
    rw [Thread.inside, (hpositions _).1, update_of_ne hu]
    rfl
  -- whoever is inside while the thread that moves is inside is this thread
  have honly (hinside : (p.threads label.thread).inside) (u : Tid)
      (hu : (p'.threads u).inside) : u = label.thread := by
    by_contra hne
    exact hne (h.alone _ _ ((hother u hne).mp hu) hinside)
  -- a step within the section
  have hwithin (hbefore : 0 < (p.threads label.thread).call.remaining)
      (hmoved : 0 < moved.call.remaining)
      (hflag : p'.shared.queueIsAccessed = p.shared.queueIsAccessed) : Sectioned p' := by
    refine sectioned_of_only (honly hbefore) ⟨fun _ ↦ ?_, fun _ ↦ hself.mpr hmoved⟩
    rw [hflag]
    exact h.flag.mp ⟨_, hbefore⟩
  cases hsection with
  | outside hbefore hmoved hflag =>
    have hsame (u : Tid) : (p'.threads u).inside ↔ (p.threads u).inside := by
      by_cases hu : u = label.thread
      · subst hu
        rw [hself, hmoved, Thread.inside, hbefore]
      · exact hother u hu
    refine ⟨fun t u ht hu ↦ h.alone t u ((hsame t).mp ht) ((hsame u).mp hu), ?_⟩
    rw [hflag, ← h.flag]
    exact exists_congr hsame
  | enter hbefore hopen hmoved hflag =>
    have hnobody (u : Tid) : ¬ (p.threads u).inside := fun hu ↦ by
      have hset := h.flag.mp ⟨u, hu⟩
      rw [hopen] at hset
      cases hset
    have hinside : 0 < moved.call.remaining := by
      rcases hmoved with hmoved | hmoved
      all_goals
        rw [hmoved]
        exact Nat.succ_pos _
    refine sectioned_of_only (t := label.thread) (fun u hu ↦ ?_)
      ⟨fun _ ↦ hflag, fun _ ↦ hself.mpr hinside⟩
    by_contra hne
    exact hnobody u ((hother u hne).mp hu)
  | pushBack hbefore hmoved hflag =>
    exact hwithin (by rw [hbefore]; exact Nat.two_pos) (by rw [hmoved]; exact Nat.one_pos) hflag
  | isEmpty hbefore hmoved hflag =>
    refine hwithin (by rw [hbefore]; exact Nat.succ_pos _) ?_ hflag
    rw [hmoved]
    split_ifs <;> exact Nat.succ_pos _
  | popFront hbefore hmoved hflag =>
    exact hwithin (by rw [hbefore]; exact Nat.two_pos) (by rw [hmoved]; exact Nat.one_pos) hflag
  | leave hbefore hmoved hflag =>
    refine sectioned_of_only (honly (Nat.one_pos.trans_eq hbefore.symm)) ?_
    rw [hself, hmoved.remaining, hflag]
    decide

/-- The invariant holds in every state of every run. -/
theorem sectioned {ok : Pool Tid (Shared Tid) (Thread Tid) → Label Tid QueueChoice → Prop}
    (h : (queueSystem ids).ReachableWhen ok p) : Sectioned p := by
  refine h.invariant ?_ fun p label p' _ hsectioned _ hmove ↦ sectioned_step hsectioned hmove
  exact ⟨fun t u ht _ ↦ absurd ht (lt_irrefl 0), ⟨fun ⟨t, ht⟩ ↦ absurd ht (lt_irrefl 0), nofun⟩⟩

/-- What has been popped, followed by the queue, is what has been pushed. -/
def Trace.Fifo (trace : Trace Tid) (queue : List Tid) : Prop :=
  trace.popped ++ queue = trace.pushed

/-- One step keeps the order of the handles. -/
theorem fifo_step (h : x.2.Fifo x.1.shared.queue) (hmove : (traced ids).step x label = some x') :
    x'.2.Fifo x'.1.shared.queue := by
  obtain ⟨hstep, htrace⟩ := System.recording_step hmove
  obtain ⟨moved, signal, hsection, -, hpositions⟩ := pool_sectionMove hstep
  have hkept (hpush : (x.1.threads label.thread).call ≠ .lock (.enqueue .pushBack))
      (hpop : (x.1.threads label.thread).call ≠ .drop (.dequeue .popFront))
      (hqueue : x'.1.shared.queue = x.1.shared.queue) : x'.2.Fifo x'.1.shared.queue := by
    rw [hqueue, htrace]
    split
    case h_1 hcall => exact absurd hcall hpush
    case h_2 hcall => exact absurd hcall hpop
    case h_3 => exact h
  have houtside (hzero : (x.1.threads label.thread).call.remaining ≤ 1)
      (hqueue : x'.1.shared.queue = x.1.shared.queue) : x'.2.Fifo x'.1.shared.queue := by
    refine hkept (fun hcall ↦ ?_) (fun hcall ↦ ?_) hqueue
    all_goals
      rw [hcall] at hzero
      exact absurd hzero (Nat.not_succ_le_self 1)
  cases hsection with
  | outside hbefore _ _ hqueue => exact houtside (hbefore.trans_le zero_le_one) hqueue
  | enter hbefore _ _ _ hqueue => exact houtside (hbefore.trans_le zero_le_one) hqueue
  | leave hbefore _ _ hqueue => exact houtside hbefore.le hqueue
  | isEmpty hbefore _ _ hqueue =>
    refine hkept (fun hcall ↦ ?_) (fun hcall ↦ ?_) hqueue
    all_goals
      rw [hcall] at hbefore
      cases hbefore
  | pushBack hbefore _ _ hqueue =>
    rw [htrace, hbefore, hqueue]
    show x.2.popped ++ (x.1.shared.queue ++ [label.thread]) = x.2.pushed ++ [label.thread]
    rw [← List.append_assoc, h]
  | popFront hbefore hmoved _ hqueue =>
    have hinside : (x'.1.threads label.thread).inside := by
      rw [Thread.inside, (hpositions _).1, update_self, hmoved]
      exact Nat.one_pos
    have hcall := (hpositions label.thread).2 hinside
    rw [update_self, hmoved] at hcall
    rw [htrace, hbefore, hqueue]
    show x.2.popped ++ (x'.1.threads label.thread).call.popped.toList ++ x.1.shared.queue.tail =
      x.2.pushed
    rw [hcall, List.append_assoc]
    show x.2.popped ++ (x.1.shared.queue.head?.toList ++ x.1.shared.queue.tail) = x.2.pushed
    rw [← h]
    cases x.1.shared.queue <;> rfl

/-- Along every run what has been popped, followed by the queue, is what has been pushed. -/
theorem fifo (h : (traced ids).Reachable x) : x.2.Fifo x.1.shared.queue :=
  h.invariant (P := fun x ↦ x.2.Fifo x.1.shared.queue) rfl
    fun _ _ _ _ hfifo _ hmove ↦ fifo_step hfifo hmove

/-- The waiter queue in every state of every run: at most one thread is between setting and clearing
the flag, and the flag is set exactly while one is; the handles popped, followed by the queue, are
the handles pushed. A thread that has set the flag can always move, every step of it brings it
nearer to clearing it, and the step that takes it out is the one that clears it, after which it
parks, unparks or has returned. -/
theorem waiter_queue_fifo (h : (traced ids).Reachable x) :
    (∀ t u, (x.1.threads t).inside → (x.1.threads u).inside → t = u) ∧
      ((∃ t, (x.1.threads t).inside) ↔ x.1.shared.queueIsAccessed = true) ∧
      x.2.popped ++ x.1.shared.queue = x.2.pushed ∧
      ∀ t, (x.1.threads t).inside →
        (∃ label, label.thread = t ∧ ((traced ids).step x label).isSome) ∧
        ∀ label x', label.thread = t → (traced ids).step x label = some x' →
          (x'.1.threads t).call.remaining < (x.1.threads t).call.remaining ∧
            (¬ (x'.1.threads t).inside →
              x'.1.shared.queueIsAccessed = false ∧ (x'.1.threads t).call.Left) := by
  have hrun : (queueSystem ids).Reachable x.1 := h.of_recording
  have hsectioned := sectioned hrun
  refine ⟨hsectioned.alone, hsectioned.flag, fifo h, fun t hinside ↦ ⟨?_, ?_⟩⟩
  · obtain ⟨after, moved, hlocal⟩ : ∃ after moved,
        step t (ids.get t) x.1.shared (x.1.threads t) .go = some (after, moved, .silent) :=
      exists_step_of_inside hinside
    refine ⟨⟨t, .step .go, none⟩, rfl, ?_⟩
    simp [traced, System.recording, queueSystem, Machine.system, queueMachine, queueStep, hlocal,
      Machine.deliver]
  · rintro label x' rfl hmove
    obtain ⟨moved, signal, hsection, hsilent, -⟩ :=
      pool_sectionMove (System.recording_step hmove).1
    obtain ⟨hlt, hsignal, hout⟩ := hsection.remaining_lt hinside
    rw [hsilent hsignal, update_self]
    exact ⟨hlt, hout⟩

/-- `waiter_queue_fifo` on a run in which both threads enqueue themselves and thread 1, back from
`park`, pops the handle of thread 0. -/
theorem waiter_queue_fifo_two :
    ∃ x : Pool (Fin 2) (Shared (Fin 2)) (Thread (Fin 2)) × Trace (Fin 2),
      x.1.shared.queue = [1] ∧ x.2.popped = [0] ∧ x.2.pushed = [0] ++ [1] ∧
        ¬ (x.1.threads 0).inside := by
  obtain ⟨x, hrun, hqueue, hpopped, hcall⟩ := System.exists_reachableWhen_of_exec
    (M := traced twoThreadIds) (fun _ _ ↦ True)
    (P := fun x ↦ x.1.shared.queue = [1] ∧ x.2.popped = [0] ∧
      (x.1.threads 1).call = .drop (.dequeue (.store (some 0))))
    ([⟨0, .enqueueThread, none⟩] ++ List.replicate 5 ⟨0, .step .go, none⟩ ++
      [⟨1, .enqueueThread, none⟩] ++ List.replicate 4 ⟨1, .step .go, none⟩ ++
      [⟨1, .step .spurious, none⟩, ⟨1, .dequeueThread, none⟩] ++
      List.replicate 4 ⟨1, .step .go, none⟩) (by decide)
  obtain ⟨halone, -, hfifo, -⟩ := waiter_queue_fifo hrun
  refine ⟨x, hqueue, hpopped, ?_, fun hinside ↦ ?_⟩
  · rw [← hfifo, hqueue, hpopped]
  · have hother : (x.1.threads 1).inside := by
      rw [Thread.inside, hcall]
      exact Nat.one_pos
    exact absurd (halone 0 1 hinside hother) (by decide)

end Runs

end SyncPrimitives.MutexV1
