import SyncPrimitives.Concurrency.Progress
import SyncPrimitives.MutexV2.ManyMutexes
import SyncPrimitives.MutexV2.Wakeup
import Mathlib.Data.Finset.Max

/-!
# A lock order prevents deadlocks

Threads that lock the mutexes of `mutex_v2.rs` in one order cannot block each other for good: from
every state of every run steps that finish the calls and drop the guards, none of them in a
panicking thread, lead to a state in which all threads are done and all words are `UNLOCKED`
(`Many.lock_order_can_finish`). `Many.InOrder` asks of a call of `lock` that the mutexes whose
guards the thread owns rank below the one it locks; a call on a mutex the thread owns is refused at
once, and `try_lock` never waits, so both are free. With one mutex the condition asks nothing.
Without it two threads can reach a deadlock (`Many.opposite_orders_deadlock`).

A thread that is inside a call and outside the slow loop of `lock`, or owns a guard and is between
two calls, makes progress by one step (`exists_prompt_step`). Otherwise every thread is done or in
the slow loop of some mutex. Nobody owns the highest of these, since its owner would wait for a
higher one. It cannot be that all who wait for it are asleep (`owed`), and one that is awake goes on
to acquire it (`exists_step_of_unlocked`).
-/

set_option autoImplicit false
set_option relaxedAutoImplicit false

namespace SyncPrimitives.MutexV2

open Concurrency Function MutexCommon

/-! ### One step of one thread -/

/-- The thread has reached the slow loop of `lock`. -/
def Call.slow : Call → Bool
  | .lock .slowCompareExchange => true
  | .lock .wait => true
  | .lock .asleep => true
  | _ => false

/-- How far a position is from the return, apart from the drop of what has been acquired. -/
def Call.weight : Call → ℕ
  | .idle => 3
  | .lock .acquiredCheck => 124
  | .lock .compareExchangeWeak => 123
  | .lock (.spin counter _) => 122 - counter
  | .lock .compareExchange => 22
  | .lock .slowCompareExchange => 20
  | .lock _ => 21
  | .tryLock .acquiredCheck => 21
  | .tryLock .compareExchangeWeak => 20
  | .acquired => 4
  | .drop .removeAcquired => 2
  | .drop .swap => 1
  | .drop .wakeOne => 4

/-- How far a thread is from being done: the drop of a guard weighs less than the guard. -/
def Thread.weight (th : Thread) : ℕ := 8 * th.outstanding + th.call.weight

/-- The thread is between two calls and owns no guard. -/
def Thread.Done (th : Thread) : Prop := th.call = .idle ∧ th.guards = 0

/-- A choice that goes on with a call, or drops a guard in a thread that does not panic. -/
def Finishing (choice : Choice) : Prop := choice = .go ∨ choice = .drop false

theorem exists_lock_of_slow {call : Call} (h : call.slow = true) : ∃ pc, call = .lock pc := by
  cases call with
  | lock pc => exact ⟨pc, rfl⟩
  | _ => cases h

section Steps

attribute [local simp] Call.weight

variable {Tid : Type} {before after : Shared} {th moved : Thread} {signal : Signal Tid Addr}
  {choice : Choice}

theorem weight_of_call {call : Call} (hcall : th.call = call) (hdropping : call.dropping = false) :
    th.weight = 8 * th.guards + call.weight := by
  rw [Thread.weight, outstanding_of_call hcall hdropping, hcall]

/-- A thread in the slow loop owns no guard. -/
theorem outstanding_of_slow (hmarked : th.Marked) (hslow : th.call.slow = true) :
    th.outstanding = 0 := by
  unfold Call.slow at hslow
  split at hslow
  case h_4 => cases hslow
  all_goals
    rename_i hcall
    rw [Thread.Marked, hcall] at hmarked
    rw [outstanding_of_call hcall rfl]
    exact hmarked.2

/-- Whoever is in the slow loop and not awake there is asleep. -/
theorem place_of_slow (hslow : th.call.slow = true) (hasleep : th.call.awakeInSlowLoop = false) :
    th.place = .sleeping := by
  unfold Call.slow at hslow
  split at hslow
  case h_3 hcall => exact place_of_call hcall
  case h_4 => cases hslow
  all_goals
    rename_i hcall
    rw [hcall] at hasleep
    cases hasleep

theorem weight_acquire : th.acquire.weight = 8 * th.guards + 12 := by
  have hacquired : th.acquire.weight = 8 * (th.guards + 1) + 4 := weight_of_call rfl rfl
  omega

theorem weight_of_same (hguards : moved.guards = th.guards)
    (hdropping : moved.call.dropping = false) :
    moved.weight = 8 * th.guards + moved.call.weight := by
  rw [weight_of_call rfl hdropping, hguards]

theorem weight_ret {result : LockResult} : (th.ret result).weight = 8 * th.guards + 3 :=
  weight_of_same rfl rfl

theorem weight_goto_lock {pc : LockPc} :
    (th.goto (.lock pc)).weight = 8 * th.guards + (Call.lock pc).weight :=
  weight_of_same rfl rfl

theorem weight_spinLoop {counter : ℕ} (hcounter : counter ≤ 100) :
    (spinLoop th counter).weight = 8 * th.guards + (122 - counter) := by
  unfold spinLoop
  split_ifs with hlt
  · exact weight_goto_lock
  · obtain rfl : counter = 100 := by omega
    exact weight_goto_lock

theorem weight_acquiredCheck_le {next : Call} (hnext : next.dropping = false)
    (hless : 3 ≤ next.weight) :
    (acquiredCheck th next).weight ≤ 8 * th.guards + next.weight := by
  unfold acquiredCheck
  split_ifs
  · rw [weight_ret]
    omega
  · exact (weight_of_same rfl hnext).le

/-- A wake-up adds no weight. -/
theorem weight_wake_le : (wake th).weight ≤ th.weight := by
  unfold wake
  split
  case h_1 hcall =>
    rw [weight_of_call hcall rfl, weight_goto_lock]
    simp
  case h_2 => exact le_rfl

/-- A step inside `lock` before the slow loop makes progress. -/
theorem exists_prompt_lockStep {pc : LockPc} (hcall : th.call = .lock pc)
    (hprompt : (Call.lock pc).slow = false) :
    ∃ after moved, @lockStep Tid before th pc .go = some (after, moved, .silent) ∧
      moved.weight < th.weight := by
  rw [weight_of_call hcall rfl]
  cases pc with
  | acquiredCheck =>
    refine ⟨_, _, rfl, (weight_acquiredCheck_le rfl (by decide)).trans_lt ?_⟩
    simp
  | compareExchangeWeak =>
    by_cases hfree : before.state = unlocked
    · exact ⟨_, _, if_pos hfree, by rw [weight_acquire]; simp⟩
    · exact ⟨_, _, if_neg hfree, by rw [weight_spinLoop (by omega)]; simp⟩
  | spin counter bounded =>
    by_cases hfree : before.state = unlocked
    · refine ⟨_, _, if_pos hfree, ?_⟩
      rw [weight_goto_lock]
      simp only [Call.weight]
      omega
    · refine ⟨_, _, if_neg hfree, ?_⟩
      rw [weight_spinLoop (by omega)]
      simp only [Call.weight]
      omega
  | compareExchange =>
    by_cases hfree : before.state = unlocked
    · exact ⟨_, _, if_pos hfree, by rw [weight_acquire]; simp⟩
    · exact ⟨_, _, if_neg hfree, by rw [weight_goto_lock]; simp⟩
  | _ => cases hprompt

/-- A step inside `try_lock` makes progress. -/
theorem exists_prompt_tryLockStep {pc : TryLockPc} (hcall : th.call = .tryLock pc) :
    ∃ after moved, @tryLockStep Tid before th pc .go = some (after, moved, .silent) ∧
      moved.weight < th.weight := by
  rw [weight_of_call hcall rfl]
  cases pc with
  | acquiredCheck =>
    refine ⟨_, _, rfl, (weight_acquiredCheck_le rfl (by decide)).trans_lt ?_⟩
    simp
  | compareExchangeWeak =>
    by_cases hfree : before.state = unlocked
    · exact ⟨_, _, if_pos hfree, by rw [weight_acquire]; simp⟩
    · exact ⟨_, _, if_neg hfree, by rw [weight_ret]; simp⟩

/-- A step inside the drop of a guard makes progress. -/
theorem exists_prompt_dropStep {pc : DropPc} (hcall : th.call = .drop pc) :
    ∃ after moved signal, @dropStep Tid before th pc .go = some (after, moved, signal) ∧
      moved.weight < th.weight := by
  cases pc with
  | removeAcquired =>
    refine ⟨_, _, _, rfl, ?_⟩
    simp [Thread.weight, Thread.outstanding, hcall, Call.dropping]
  | swap =>
    refine ⟨_, _, _, rfl, ?_⟩
    split_ifs
    all_goals
      simp [Thread.weight, Thread.outstanding, hcall, Call.dropping, Thread.goto]
      omega
  | wakeOne =>
    refine ⟨_, _, _, rfl, ?_⟩
    simp [Thread.weight, Thread.outstanding, hcall, Call.dropping, Thread.goto]

/-- A thread that is neither done nor in the slow loop makes progress by one step. -/
theorem exists_prompt_step (hbusy : ¬ th.Done) (hprompt : th.call.slow = false) :
    ∃ choice after moved signal, @step Tid before th choice = some (after, moved, signal) ∧
      Finishing choice ∧ moved.weight < th.weight := by
  cases hcall : th.call with
  | idle =>
    have hpos : 0 < th.guards := Nat.pos_of_ne_zero fun hzero ↦ hbusy ⟨hcall, hzero⟩
    have hdrop : @step Tid before th (.drop false) =
        quiet { before with poisoned := before.poisoned || false }
          { th with call := .drop .removeAcquired, guards := th.guards - 1 } := by
      simp only [step, hcall, idleStep, if_pos hpos]
    refine ⟨.drop false, _, _, _, hdrop, .inr rfl, ?_⟩
    simp [Thread.weight, Thread.outstanding, hcall, Call.dropping]
    omega
  | acquired =>
    have hfinish : @step Tid before th .go = quiet before (finish before th) := by
      simp only [step, hcall, if_true]
    refine ⟨.go, _, _, _, hfinish, .inl rfl, ?_⟩
    simp [Thread.weight, Thread.outstanding, hcall, Call.dropping, finish, Thread.ret]
  | lock pc =>
    rw [hcall] at hprompt
    obtain ⟨after, moved, hstep, hless⟩ := @exists_prompt_lockStep Tid before th pc hcall hprompt
    exact ⟨.go, after, moved, .silent, by simp only [step, hcall, hstep], .inl rfl, hless⟩
  | tryLock pc =>
    obtain ⟨after, moved, hstep, hless⟩ := @exists_prompt_tryLockStep Tid before th pc hcall
    exact ⟨.go, after, moved, .silent, by simp only [step, hcall, hstep], .inl rfl, hless⟩
  | drop pc =>
    obtain ⟨after, moved, signal, hstep, hless⟩ := @exists_prompt_dropStep Tid before th pc hcall
    exact ⟨.go, after, moved, signal, by simp only [step, hcall, hstep], .inl rfl, hless⟩

/-- A thread awake in the slow loop makes progress while the word is `UNLOCKED`: it acquires, or it
returns to the compare-and-exchange. -/
theorem exists_step_of_unlocked (hawake : th.call.awakeInSlowLoop = true)
    (hfree : before.state = unlocked) :
    ∃ after moved, @step Tid before th .go = some (after, moved, .silent) ∧
      moved.weight < th.weight := by
  unfold Call.awakeInSlowLoop at hawake
  split at hawake
  case h_1 hcall =>
    refine ⟨{ before with state := lockedHasWaiters }, th.acquire,
      by simp only [step, hcall, lockStep, if_pos hfree, quiet], ?_⟩
    rw [weight_of_call hcall rfl, weight_acquire]
    simp
  case h_2 hcall =>
    have hwaiters : before.state ≠ lockedHasWaiters := by
      rw [hfree]
      decide
    refine ⟨before, th.goto (.lock .slowCompareExchange),
      by simp only [step, hcall, lockStep, if_neg hwaiters, quiet], ?_⟩
    rw [weight_of_call hcall rfl, weight_goto_lock]
    simp
  case h_3 => cases hawake

/-- A thread in the slow loop of an owned mutex stays there, and changes nothing. -/
theorem slow_of_step (hslow : th.call.slow = true) (hlocked : before.state ≠ unlocked)
    (h : step before th choice = some (after, moved, signal)) :
    after = before ∧ moved.call.slow = true ∧ signal = .silent := by
  obtain ⟨pc, hcall⟩ := exists_lock_of_slow hslow
  rw [hcall] at hslow
  simp only [step, hcall] at h
  cases pc <;> cases choice <;> simp only [lockStep, reduceCtorEq, if_neg hlocked] at h
  all_goals try split_ifs at h
  all_goals
    obtain ⟨rfl, rfl, rfl⟩ := quiet_eq_some.mp h
    first
      | exact ⟨rfl, rfl, rfl⟩
      | cases hslow

/-- A thread inside `lock` was so before the step, or has just called; its guards are the same. -/
theorem lock_of_step {pc : LockPc} (h : step before th choice = some (after, moved, signal))
    (hlock : moved.call = .lock pc) :
    moved.guards = th.guards ∧
      ((∃ pc', th.call = .lock pc') ∨ th.call = .idle ∧ choice = .call .lock) := by
  unfold step at h
  split at h
  case h_1 hcall =>
    cases choice with
    | call method =>
      cases method
      all_goals obtain ⟨rfl, rfl, -⟩ := quiet_eq_some_iff.mp h
      · exact ⟨rfl, .inr ⟨hcall, rfl⟩⟩
      · cases hlock
    | drop panicking =>
      simp only [idleStep] at h
      split_ifs at h
      obtain ⟨rfl, rfl, -⟩ := quiet_eq_some_iff.mp h
      cases hlock
    | clearPoison =>
      obtain ⟨rfl, rfl, -⟩ := quiet_eq_some_iff.mp h
      cases hcall.symm.trans hlock
    | go => cases h
    | spurious => cases h
  case h_2 pc' hcall =>
    refine ⟨?_, .inl ⟨pc', hcall⟩⟩
    cases pc' <;> cases choice <;> simp only [lockStep, reduceCtorEq] at h
    all_goals try split_ifs at h
    all_goals
      obtain ⟨rfl, rfl, -⟩ := quiet_eq_some_iff.mp h
      first
        | rfl
        | exact guards_acquiredCheck
        | exact guards_spinLoop
        | cases hlock
  case h_3 pc' hcall =>
    cases pc' <;> cases choice <;> simp only [tryLockStep, reduceCtorEq] at h
    all_goals try split_ifs at h
    all_goals
      obtain ⟨rfl, rfl, -⟩ := quiet_eq_some_iff.mp h
      first
        | cases hlock
        | exact absurd hlock (acquiredCheck_ne Call.noConfusion Call.noConfusion)
  case h_4 =>
    split_ifs at h
    obtain ⟨rfl, rfl, -⟩ := quiet_eq_some_iff.mp h
    cases hlock
  case h_5 pc' hcall =>
    cases pc' <;> cases choice <;> simp only [dropStep, reduceCtorEq] at h
    all_goals
      obtain ⟨rfl, rfl, -⟩ := by simpa [quiet] using h
      try split_ifs at hlock
      all_goals cases hlock

end Steps

/-! ### Many mutexes -/

namespace Many

section Threads

variable {Tid Mutex α : Type}

/-- The thread is between two calls and owns no guard. -/
def Thread.Done (th : Thread Mutex α) : Prop := th.position = none ∧ ∀ mutex, th.guards mutex = 0

/-- A thread inside a call is somewhere in it, and inside `lock` the guards of the thread rank below
the mutex it locks. -/
structure Thread.Ranked (rank : Mutex → ℕ) (th : Thread Mutex α) : Prop where
  busy : ∀ mutex, th.position ≠ some (mutex, .idle)
  below : ∀ mutex pc, th.position = some (mutex, .lock pc) → ∀ other, 0 < th.guards other →
    other = mutex ∨ rank other < rank mutex

/-- The choice is a call of `lock`. -/
def Choice.callsLock (choice : Choice Mutex α) : Bool :=
  match choice.choice with
  | .lock (.call .lock) => true
  | _ => false

/-- A call of `lock` is on a mutex that ranks above the others whose guards the thread owns. -/
def InOrder (rank : Mutex → ℕ) (p : Pool Tid (Shared Mutex α) (Thread Mutex α))
    (label : Label Tid (Choice Mutex α)) : Prop :=
  label.choice.callsLock → ∀ other, 0 < (p.threads label.thread).guards other →
    other = label.choice.mutex ∨ rank other < rank label.choice.mutex

/-- A step that goes on with a call, or drops a guard in a thread that does not panic. -/
def Finishes (_ : Pool Tid (Shared Mutex α) (Thread Mutex α)) (label : Label Tid (Choice Mutex α)) :
    Prop :=
  ∃ choice, label.choice.choice = .lock choice ∧ Finishing choice

/-- Some thread is in the slow loop of a mutex. -/
def Waited (p : Pool Tid (Shared Mutex α) (Thread Mutex α)) (mutex : Mutex) : Prop :=
  ∃ t call, (p.threads t).position = some (mutex, call) ∧ call.slow = true

theorem Finishes.inOrder {rank : Mutex → ℕ} {p : Pool Tid (Shared Mutex α) (Thread Mutex α)}
    {label : Label Tid (Choice Mutex α)} (h : Finishes p label) : InOrder rank p label := by
  obtain ⟨choice, hchoice, hgo | hdrop⟩ := h
  · intro hcall
    rw [Choice.callsLock, hchoice, hgo] at hcall
    cases hcall
  · intro hcall
    rw [Choice.callsLock, hchoice, hdrop] at hcall
    cases hcall

theorem ranked_wake {rank : Mutex → ℕ} {th : Thread Mutex α} (h : th.Ranked rank) :
    (wake th).Ranked rank := by
  unfold wake
  split
  case h_1 held hposition =>
    constructor
    · intro mutex hmoved
      cases hmoved
    · intro mutex pc hmoved
      obtain ⟨rfl, -⟩ := Prod.mk.inj (Option.some.inj hmoved)
      exact h.below held .asleep hposition
  case h_2 => exact h

end Threads

variable {Tid Mutex α : Type} [DecidableEq Mutex]

/-- How far a thread is from being done, over all mutexes. -/
def Thread.weight [Fintype Mutex] (ids : MutexIds Mutex) (th : Thread Mutex α) : ℕ :=
  total (fun view : Guarded.Local MutexV2.Thread α ↦ view.lock.weight) fun mutex ↦ th.view ids mutex

instance [Fintype Mutex] (rank : Mutex → ℕ) (p : Pool Tid (Shared Mutex α) (Thread Mutex α))
    (label : Label Tid (Choice Mutex α)) : Decidable (InOrder rank p label) :=
  inferInstanceAs (Decidable (_ → _))

section Views

variable {ids : MutexIds Mutex} {rank : Mutex → ℕ} {th : Thread Mutex α} {mutex other : Mutex}

theorem callAt_of_position {call : Call} (hposition : th.position = some (mutex, call)) :
    th.callAt mutex = call := by
  unfold Thread.callAt
  rw [hposition]
  exact if_pos rfl

/-- A thread inside a call is between two calls on the other mutexes. -/
theorem callAt_of_ne {call : Call} (hposition : th.position = some (mutex, call))
    (hne : other ≠ mutex) : th.callAt other = .idle := by
  unfold Thread.callAt
  rw [hposition]
  exact if_neg hne.symm

/-- A thread that is not between two calls on a mutex is inside a call there. -/
theorem position_of_callAt {call : Call} (hcall : th.callAt mutex = call) (hbusy : call ≠ .idle) :
    th.position = some (mutex, call) := by
  unfold Thread.callAt at hcall
  split at hcall
  case h_1 held inner hposition =>
    split_ifs at hcall with hheld
    · rw [hposition, hheld, hcall]
    · exact absurd hcall.symm hbusy
  case h_2 => exact absurd hcall.symm hbusy

/-- A wake-up adds no weight. -/
theorem weight_wake_le [Fintype Mutex] {addr : Mutex × Addr} (hasleep : asleepOn th = some addr) :
    (wake th).weight ids ≤ th.weight ids := by
  obtain ⟨held, inner⟩ := addr
  refine Finset.sum_le_sum fun mutex _ ↦ ?_
  show ((wake th).view ids mutex).lock.weight ≤ (th.view ids mutex).lock.weight
  by_cases hmutex : mutex = held
  · subst hmutex
    rw [view_wake (asleepOn_iff.mp hasleep)]
    exact MutexV2.weight_wake_le
  · rw [view_wake_of_ne hasleep hmutex]

/-- A step on one mutex changes the weight there. -/
theorem weight_put [Fintype Mutex] {moved : Guarded.Local MutexV2.Thread α}
    (hposition : th.position.all (·.1 = mutex) = true) :
    (th.put ids mutex moved).weight ids + (th.view ids mutex).lock.weight =
      th.weight ids + moved.lock.weight := by
  have hviews : (fun other ↦ (th.put ids mutex moved).view ids other) =
      update (fun other ↦ th.view ids other) mutex moved := by
    funext other
    by_cases hother : other = mutex
    · rw [hother, update_self, view_put]
    · rw [update_of_ne hother, view_put_of_ne hposition hother]
  rw [Thread.weight, hviews]
  exact total_update _ _ mutex moved

/-- A thread that has put a step on one mutex is inside a call only there. -/
theorem position_put {moved : Guarded.Local MutexV2.Thread α} {call : Call}
    (hposition : (th.put ids mutex moved).position = some (other, call)) :
    other = mutex ∧ moved.lock.call = call ∧ call ≠ .idle := by
  simp only [Thread.put] at hposition
  split_ifs at hposition with hidle
  obtain ⟨rfl, rfl⟩ := Prod.mk.inj (Option.some.inj hposition)
  exact ⟨rfl, rfl, hidle⟩

end Views

section Runs

variable [Fintype Mutex] [DecidableEq Tid] [Fintype Tid] {ids : MutexIds Mutex} {data : Mutex → α}
  {rank : Mutex → ℕ} {p p' : Pool Tid (Shared Mutex α) (Thread Mutex α)} {mutex : Mutex} {t : Tid}

omit [Fintype Mutex] in
/-- In an ordered run the guards of a thread inside `lock` rank below the mutex it locks. -/
theorem ranked (h : (system Tid ids data).ReachableWhen (InOrder rank) p) (t : Tid) :
    (p.threads t).Ranked rank := by
  refine h.invariant (P := fun p ↦ ∀ t, (p.threads t).Ranked rank) ?_ ?_ t
  · intro t
    constructor
    · intro mutex hposition
      cases hposition
    · intro mutex pc hposition
      cases hposition
  intro p label p' _ hranked hordered hmove t
  obtain ⟨after, moved, signal, -, hinner, -, hdelivered⟩ := step_cases hmove
  have hmoved :
      ((p.threads label.thread).put ids label.choice.mutex moved).Ranked rank := by
    constructor
    · intro mutex hposition
      exact (position_put hposition).2.2 rfl
    intro mutex pc hposition other hother
    obtain ⟨rfl, hlock, -⟩ := position_put hposition
    rcases Guarded.lock_or_use_of_step hinner with
      ⟨inner, hchoice, hstep, -⟩ | ⟨-, hidle, -, hsame, -⟩
    · obtain ⟨hguards, hcases⟩ := lock_of_step hstep hlock
      have hsame : ((p.threads label.thread).put ids label.choice.mutex moved).guards =
          (p.threads label.thread).guards := by
        rw [Thread.put, hguards]
        exact update_eq_self _ _
      rw [hsame] at hother
      rcases hcases with ⟨pc', hcall⟩ | ⟨-, hcall⟩
      · have hbefore := position_of_callAt hcall Call.noConfusion
        exact (hranked label.thread).below _ pc' hbefore other hother
      · exact hordered (by rw [Choice.callsLock, hchoice, hcall]) other hother
    · rw [hsame, of_decide_eq_true hidle] at hlock
      cases hlock
  have hmid : (update p.threads label.thread
      ((p.threads label.thread).put ids label.choice.mutex moved) t).Ranked rank := by
    by_cases ht : t = label.thread
    · rw [ht, update_self]
      exact hmoved
    · rw [update_of_ne ht]
      exact hranked t
  rcases hdelivered.thread t with heq | ⟨-, -, heq⟩ | heq
  · rw [heq]
    exact hmid
  · rw [heq]
    exact ranked_wake hmid
  · rw [heq]
    exact hmid

/-- A step of one mutex that makes progress there is a step of progress. -/
theorem exists_continuation {choice : MutexCommon.Choice} {after : MutexV2.Shared}
    {moved : MutexV2.Thread} {signal : Signal Tid Addr}
    (hposition : (p.threads t).position.all (·.1 = mutex) = true)
    (hstep : MutexV2.step (p.shared mutex).lock ((p.threads t).view ids mutex).lock choice =
      some (after, moved, signal))
    (hfinishing : Finishing choice)
    (hless : moved.weight < ((p.threads t).view ids mutex).lock.weight) :
    ∃ p', (system Tid ids data).Continues Finishes p p' ∧
      total (Thread.weight ids) p'.threads < total (Thread.weight ids) p.threads := by
  let movedView : Guarded.Local MutexV2.Thread α :=
    { lock := moved
      loaded := if guards.owns moved then ((p.threads t).view ids mutex).loaded else none }
  have hlocal : (machine Tid ids α).step t p.shared (p.threads t) ⟨mutex, .lock choice⟩ =
      some (update p.shared mutex { p.shared mutex with lock := after },
        (p.threads t).put ids mutex movedView, signal.map fun addr ↦ (mutex, addr)) := by
    show step ids _ t _ _ = _
    simp only [step, if_pos hposition, Machine.guarded, MutexV2.machine, hstep, Option.map_some]
    rfl
  have hput : ((p.threads t).put ids mutex movedView).weight ids < (p.threads t).weight ids := by
    have hchange : ((p.threads t).put ids mutex movedView).weight ids +
        ((p.threads t).view ids mutex).lock.weight = (p.threads t).weight ids + moved.weight :=
      weight_put hposition
    omega
  obtain ⟨woken, p', hmove, hless⟩ : ∃ woken p',
      (system Tid ids data).step p ⟨t, ⟨mutex, .lock choice⟩, woken⟩ = some p' ∧
        total (Thread.weight ids) p'.threads < total (Thread.weight ids) p.threads :=
    Machine.exists_descent (fun _ _ hasleep ↦ weight_wake_le hasleep) (fun _ ↦ le_rfl) hlocal hput
  exact ⟨p', .single ⟨choice, rfl, hfinishing⟩ hmove, hless⟩

omit [Fintype Mutex] [DecidableEq Tid] [Fintype Tid] in
/-- If nobody can make progress by one step, every thread is done or in the slow loop of a mutex. -/
theorem done_or_slow (hranked : ∀ t, (p.threads t).Ranked rank)
    (hstuck : ∀ t mutex, (p.threads t).position.all (·.1 = mutex) = true →
      ¬ ((p.threads t).view ids mutex).lock.Done → ((p.threads t).callAt mutex).slow = true)
    (t : Tid) : (p.threads t).Done ∨
      ∃ mutex call, (p.threads t).position = some (mutex, call) ∧ call.slow = true := by
  cases hposition : (p.threads t).position with
  | none =>
    left
    refine ⟨hposition, fun mutex ↦ ?_⟩
    by_contra hguards
    have hslow := hstuck t mutex (by rw [hposition]; rfl) fun hdone ↦ hguards hdone.2
    have hidle : (p.threads t).callAt mutex = .idle := by rw [Thread.callAt, hposition]
    rw [hidle] at hslow
    cases hslow
  | some held =>
    obtain ⟨mutex, call⟩ := held
    have hcall := callAt_of_position hposition
    right
    refine ⟨mutex, call, rfl, ?_⟩
    rw [← hcall]
    refine hstuck t mutex (by rw [hposition]; simp) fun hdone ↦ (hranked t).busy mutex ?_
    have hidle : (p.threads t).callAt mutex = .idle := hdone.1
    rw [hposition, ← hcall, hidle]

omit [Fintype Mutex] [DecidableEq Tid] [Fintype Tid] in
/-- Nobody owns the highest of the mutexes waited for. -/
theorem outstanding_of_highest (hranked : ∀ t, (p.threads t).Ranked rank)
    (hcases : ∀ t, (p.threads t).Done ∨
      ∃ mutex call, (p.threads t).position = some (mutex, call) ∧ call.slow = true)
    (hhighest : ∀ other, Waited p other → rank other ≤ rank mutex)
    (hmarked : ((p.threads t).view ids mutex).lock.Marked) :
    ((p.threads t).view ids mutex).lock.outstanding = 0 := by
  have hguards (hidle : (p.threads t).callAt mutex = .idle) :
      ((p.threads t).view ids mutex).lock.outstanding = (p.threads t).guards mutex :=
    outstanding_of_call hidle rfl
  rcases hcases t with hdone | ⟨held, call, hposition, hslow⟩
  · rw [hguards (by rw [Thread.callAt, hdone.1])]
    exact hdone.2 mutex
  by_cases hheld : mutex = held
  · refine outstanding_of_slow hmarked ?_
    show ((p.threads t).callAt mutex).slow = true
    rw [hheld, callAt_of_position hposition, hslow]
  · rw [hguards (callAt_of_ne hposition hheld)]
    by_contra hpos
    obtain ⟨pc, rfl⟩ := exists_lock_of_slow hslow
    rcases (hranked t).below held pc hposition mutex (Nat.pos_of_ne_zero hpos) with heq | hlt
    · exact hheld heq
    · exact absurd (hhighest held ⟨t, _, hposition, hslow⟩) (not_le.mpr hlt)

/-- Until all threads are done, progress can be made. -/
theorem exists_progress (h : (system Tid ids data).ReachableWhen (InOrder rank) p)
    (hbusy : ¬ ∀ t, (p.threads t).Done) :
    ∃ p', (system Tid ids data).Continues Finishes p p' ∧
      total (Thread.weight ids) p'.threads < total (Thread.weight ids) p.threads := by
  have hranked := ranked h
  by_cases hprompt : ∃ t mutex, (p.threads t).position.all (·.1 = mutex) = true ∧
      ¬ ((p.threads t).view ids mutex).lock.Done ∧ ((p.threads t).callAt mutex).slow = false
  · obtain ⟨t, mutex, hposition, hdone, hslow⟩ := hprompt
    obtain ⟨choice, after, moved, signal, hstep, hfinishing, hless⟩ :=
      @exists_prompt_step Tid (p.shared mutex).lock _ hdone hslow
    exact exists_continuation hposition hstep hfinishing hless
  -- every thread is done or in the slow loop; the highest mutex waited for has no owner
  have hcases := done_or_slow hranked fun t mutex hposition hdone ↦ by
    by_contra hslow
    exact hprompt ⟨t, mutex, hposition, hdone, Bool.eq_false_iff.mpr hslow⟩
  obtain ⟨mutex, hwaited, hhighest⟩ :
      ∃ mutex, Waited p mutex ∧ ∀ other, Waited p other → rank other ≤ rank mutex := by
    classical
    obtain ⟨t, ht⟩ := not_forall.mp hbusy
    obtain ⟨mutex, call, hslow⟩ := (hcases t).resolve_left ht
    obtain ⟨highest, hmem, hmax⟩ := Finset.exists_max_image
      (Finset.univ.filter fun mutex ↦ Waited p mutex) rank
      ⟨mutex, Finset.mem_filter.mpr ⟨Finset.mem_univ _, t, call, hslow⟩⟩
    refine ⟨highest, (Finset.mem_filter.mp hmem).2, fun other hother ↦ ?_⟩
    exact hmax other (Finset.mem_filter.mpr ⟨Finset.mem_univ _, hother⟩)
  have hquiet (t : Tid) : (p.threads t).callAt mutex = .idle ∨
      ((p.threads t).callAt mutex).slow = true := by
    rcases hcases t with hdone | ⟨held, call, hposition, hslow⟩
    · exact .inl (by rw [Thread.callAt, hdone.1])
    · by_cases hheld : mutex = held
      · exact .inr (by rw [hheld, callAt_of_position hposition, hslow])
      · exact .inl (callAt_of_ne hposition hheld)
  have hexclusive := exclusive_only mutex h.reachable
  have hfree : (p.shared mutex).lock.state = unlocked := by
    by_contra hlocked
    obtain ⟨t, ht⟩ := hexclusive.state_ne_unlocked_iff.mp hlocked
    exact ht.ne' (outstanding_of_highest hranked hcases hhighest (hexclusive.marked t))
  by_cases hawake : ∃ t, ((p.threads t).callAt mutex).awakeInSlowLoop = true
  · obtain ⟨t, ht⟩ := hawake
    obtain ⟨after, moved, hstep, hless⟩ : ∃ after moved,
        @MutexV2.step Tid (p.shared mutex).lock ((p.threads t).view ids mutex).lock .go =
          some (after, moved, .silent) ∧
        moved.weight < ((p.threads t).view ids mutex).lock.weight :=
      exists_step_of_unlocked ht hfree
    have hbusy : (p.threads t).callAt mutex ≠ .idle := by
      intro hidle
      rw [hidle] at ht
      cases ht
    refine exists_continuation ?_ hstep (.inl rfl) hless
    rw [position_of_callAt rfl hbusy]
    simp
  -- somebody would be asleep while nobody could wake him
  exfalso
  obtain ⟨t, call, hposition, hslow⟩ := hwaited
  rw [← callAt_of_position hposition] at hslow
  have hsleeps : 0 < threadsAt (Guarded.lockPool (only ids mutex p)) .sleeping := by
    refine countAt_pos_iff.mpr ⟨t, place_of_slow hslow (Bool.eq_false_iff.mpr fun hloop ↦ ?_)⟩
    exact hawake ⟨t, hloop⟩
  rcases owed (Guarded.lockPool_reachable (only_reachable mutex h.reachable)) hsleeps with
    hword | hwaking | hloop
  · have hword' : (p.shared mutex).lock.state = lockedHasWaiters := hword
    rw [hfree] at hword'
    cases hword'
  · obtain ⟨u, hu⟩ := countAt_pos_iff.mp hwaking
    have hcall : (p.threads u).callAt mutex = .drop .wakeOne := place_eq_waking_iff.mp hu
    have hquiet := hquiet u
    rw [hcall] at hquiet
    rcases hquiet with hidle | hslow
    · cases hidle
    · cases hslow
  · obtain ⟨u, hu⟩ := countAt_pos_iff.mp hloop
    exact hawake ⟨u, place_eq_slowLoop_iff.mp hu⟩

/-- Threads that lock the mutexes in one order never block each other for good: from every state of
every run steps that finish the calls and drop the guards lead to a state in which all threads are
done and all mutexes are unlocked. -/
theorem lock_order_can_finish (h : (system Tid ids data).ReachableWhen (InOrder rank) p) :
    ∃ p', (system Tid ids data).Continues Finishes p p' ∧ (∀ t, (p'.threads t).Done) ∧
      ∀ mutex, (p'.shared mutex).lock.state = unlocked := by
  obtain ⟨p', hpath, hdone⟩ : ∃ p', (system Tid ids data).Continues Finishes p p' ∧
      ∀ t, (p'.threads t).Done := by
    refine h.exists_goal (fun p ↦ total (Thread.weight ids) p.threads) _
      (fun _ _ hfinishes ↦ hfinishes.inOrder) ?_
    intro p hrun hbusy
    exact exists_progress hrun hbusy
  have hrun := h.continues hpath fun _ _ hfinishes ↦ hfinishes.inOrder
  refine ⟨p', hpath, hdone, fun mutex ↦ ?_⟩
  by_contra hlocked
  obtain ⟨t, ht⟩ := (exclusive_only mutex hrun.reachable).state_ne_unlocked_iff.mp hlocked
  have hidle : (p'.threads t).callAt mutex = .idle := by rw [Thread.callAt, (hdone t).1]
  have hnone : ((p'.threads t).view ids mutex).lock.outstanding = (p'.threads t).guards mutex :=
    outstanding_of_call hidle rfl
  exact ht.ne' (hnone.trans ((hdone t).2 mutex))

/-- `lock_order_can_finish` from a state in which one thread owns the lower mutex and waits for the
higher one, which the other thread owns. -/
theorem lock_order_can_finish_two_mutexes :
    ∃ p p' : Pool (Fin 2) (Shared Bool ℕ) (Thread Bool ℕ),
      ((p.threads 0).guards false = 1 ∧ (p.threads 0).position = some (true, .lock .wait) ∧
        (p.threads 1).guards true = 1) ∧
      (system (Fin 2) twoMutexIds fun _ ↦ 5).Continues Finishes p p' ∧
      (∀ t, (p'.threads t).Done) ∧ ∀ mutex, (p'.shared mutex).lock.state = unlocked := by
  obtain ⟨p, hrun, hreached⟩ := System.exists_reachableWhen_of_exec
    (M := system (Fin 2) twoMutexIds fun _ ↦ 5) (InOrder Bool.toNat)
    (P := fun p ↦ (p.threads 0).guards false = 1 ∧
      (p.threads 0).position = some (true, .lock .wait) ∧ (p.threads 1).guards true = 1)
    ([⟨0, ⟨false, .lock (.call .lock)⟩, none⟩] ++ List.replicate 3 ⟨0, ⟨false, .lock .go⟩, none⟩ ++
      [⟨1, ⟨true, .lock (.call .lock)⟩, none⟩] ++ List.replicate 3 ⟨1, ⟨true, .lock .go⟩, none⟩ ++
      [⟨0, ⟨true, .lock (.call .lock)⟩, none⟩] ++ List.replicate 104 ⟨0, ⟨true, .lock .go⟩, none⟩)
    (by decide +kernel)
  obtain ⟨p', hfinish⟩ := lock_order_can_finish hrun
  exact ⟨p, p', hreached, hfinish⟩

/-! ### Without an order -/

omit [DecidableEq Mutex] [Fintype Mutex] [DecidableEq Tid] [Fintype Tid] in
/-- Every thread waits for a mutex that somebody owns. -/
def Deadlocked (p : Pool Tid (Shared Mutex α) (Thread Mutex α)) : Prop :=
  ∀ t, ∃ mutex call, (p.threads t).position = some (mutex, call) ∧ call.slow = true ∧
    (p.shared mutex).lock.state ≠ unlocked

omit [Fintype Mutex] in
/-- No step leads out of a deadlock. -/
theorem deadlocked_step {label : Label Tid (Choice Mutex α)} (h : Deadlocked p)
    (hmove : (system Tid ids data).step p label = some p') : Deadlocked p' := by
  obtain ⟨after, moved, signal, hposition, hinner, hshared, hdelivered⟩ := step_cases hmove
  obtain ⟨mutex, call, hcall, hslow, hlocked⟩ := h label.thread
  obtain rfl : mutex = label.choice.mutex := by
    rw [hcall] at hposition
    simpa using hposition
  rw [← callAt_of_position hcall] at hslow
  rcases Guarded.lock_or_use_of_step hinner with ⟨inner, -, hstep, -⟩ | ⟨-, hidle, -⟩
  · obtain ⟨hsame, hmoved, rfl⟩ := slow_of_step hslow hlocked hstep
    have hwords (other : Mutex) : (p'.shared other).lock = (p.shared other).lock := by
      rw [hshared]
      by_cases hother : other = label.choice.mutex
      · rw [hother, update_self, hsame]
      · rw [update_of_ne hother]
    have hthreads := hdelivered.silent_eq
    intro t
    by_cases ht : t = label.thread
    · refine ⟨label.choice.mutex, moved.lock.call, ?_, hmoved, ?_⟩
      · have hbusy : moved.lock.call ≠ .idle := by
          intro hidle
          rw [hidle] at hmoved
          cases hmoved
        rw [hthreads, ht, update_self, Thread.put, if_neg hbusy]
      · rw [hwords]
        exact hlocked
    · obtain ⟨other, call', hcall', hslow', hlocked'⟩ := h t
      refine ⟨other, call', ?_, hslow', ?_⟩
      · rw [hthreads, update_of_ne ht, hcall']
      · rw [hwords]
        exact hlocked'
  · have hcall' : (p.threads label.thread).callAt label.choice.mutex = .idle :=
      of_decide_eq_true hidle
    rw [hcall'] at hslow
    cases hslow

/-- Two threads that lock two mutexes in opposite orders reach a deadlock, which no steps leave. -/
theorem opposite_orders_deadlock :
    ∃ p : Pool (Fin 2) (Shared Bool ℕ) (Thread Bool ℕ),
      (system (Fin 2) twoMutexIds fun _ ↦ 5).Reachable p ∧
      ∀ p', (system (Fin 2) twoMutexIds fun _ ↦ 5).Continues (fun _ _ ↦ True) p p' →
        ∀ t, ¬ (p'.threads t).Done := by
  obtain ⟨p, hrun, hfirst, hsecond, hlocked⟩ := System.exists_reachableWhen_of_exec
    (M := system (Fin 2) twoMutexIds fun _ ↦ 5) (fun _ _ ↦ True)
    (P := fun p ↦ (p.threads 0).position = some (true, .lock .wait) ∧
      (p.threads 1).position = some (false, .lock .wait) ∧
      ∀ mutex, (p.shared mutex).lock.state = locked)
    ([⟨0, ⟨false, .lock (.call .lock)⟩, none⟩] ++ List.replicate 3 ⟨0, ⟨false, .lock .go⟩, none⟩ ++
      [⟨1, ⟨true, .lock (.call .lock)⟩, none⟩] ++ List.replicate 3 ⟨1, ⟨true, .lock .go⟩, none⟩ ++
      [⟨0, ⟨true, .lock (.call .lock)⟩, none⟩] ++ List.replicate 104 ⟨0, ⟨true, .lock .go⟩, none⟩ ++
      [⟨1, ⟨false, .lock (.call .lock)⟩, none⟩] ++
      List.replicate 104 ⟨1, ⟨false, .lock .go⟩, none⟩) (by decide +kernel)
  have hdeadlocked : Deadlocked p := by
    have hheld (mutex : Bool) : (p.shared mutex).lock.state ≠ unlocked := by
      rw [hlocked]
      decide
    refine Fin.forall_fin_two.mpr ⟨?_, ?_⟩
    · exact ⟨true, _, hfirst, rfl, hheld true⟩
    · exact ⟨false, _, hsecond, rfl, hheld false⟩
  refine ⟨p, hrun, ?_⟩
  intro p' hpath t hdone
  have hstill : Deadlocked p' := hpath.invariant hdeadlocked fun _ _ _ ↦ deadlocked_step
  obtain ⟨mutex, call, hposition, -⟩ := hstill t
  rw [hdone.1] at hposition
  cases hposition

end Runs

end Many

end SyncPrimitives.MutexV2
