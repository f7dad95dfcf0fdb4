import SyncPrimitives.CondVar.WithMutex
import SyncPrimitives.MutexV1.Clients
import Mathlib.Logic.Function.Basic

/-!
# The condition variable keeps its promise over the queueing mutex

Every run of the two together is a run of the mutex (`mutexPool_reachable`), so that its exclusion
holds, and as long as no thread panics it is a run of the condition variable over the mutex it
assumes (`callPool_step`): the holder there is the thread whose id is in the word `state`, a
call of `lock` takes the mutex with its acquiring compare-and-exchange, a drop gives it up with its
store, and what the mutex does on its queue is not seen. On the way no `unwrap` fails: a thread that
locks does not own the mutex, and the mutex is not poisoned (`refines_both`). Hence no notification
is lost here either (`owing_of_asleep`).
-/

set_option autoImplicit false
set_option relaxedAutoImplicit false

namespace SyncPrimitives.CondVar.WithMutex

open Concurrency Function
open MutexV1 (ThreadIds)

variable {Tid : Type}

/-! ### The mutex -/

/-- The mutex without the condition variable. -/
def mutexPool (p : Pool Tid (Shared Tid) (Thread Tid)) :
    Pool Tid (MutexV1.Shared Tid) (MutexV1.Thread Tid) where
  shared := p.shared.mutex
  threads := fun t ↦ (p.threads t).mutex

section Steps

variable {ids : ThreadIds Tid} {self : Tid} {before after : Shared Tid} {th moved : Thread Tid}
  {signal : Signal Tid Addr} {choice : Choice}

/-- What a step does to the mutex: nothing, or one of its own steps. -/
def UsesMutex (ids : ThreadIds Tid) (self : Tid) (before : Shared Tid) (th : Thread Tid)
    (after : Shared Tid) (moved : Thread Tid) (signal : Signal Tid Addr) : Prop :=
  (after.mutex = before.mutex ∧ moved.mutex = th.mutex ∧ ∀ u, signal ≠ .unpark u) ∨
    ∃ inner innerSignal,
      MutexV1.step self (ids.get self) before.mutex th.mutex inner =
          some (after.mutex, moved.mutex, innerSignal) ∧
        signal = innerSignal.map outer

theorem quiet_eq_some {position : Position} :
    quiet th before position = some (after, moved, signal) ↔
      before = after ∧ { th with position := position } = moved ∧ .silent = signal := by
  simp [quiet]

theorem mutexStep_eq_some {inner : MutexCommon.Choice} {next : MutexV1.Thread Tid → Position} :
    mutexStep ids self before th inner next = some (after, moved, signal) ↔
      ∃ mutex movedMutex innerSignal,
        MutexV1.step self (ids.get self) before.mutex th.mutex inner =
            some (mutex, movedMutex, innerSignal) ∧
          { before with mutex := mutex } = after ∧
          { position := next movedMutex, mutex := movedMutex } = moved ∧
          innerSignal.map outer = signal := by
  simp [mutexStep, Option.map_eq_some_iff]

theorem usesMutex_of_quiet {position : Position} {middle : Shared Tid}
    (h : quiet th middle position = some (after, moved, signal))
    (hmiddle : middle.mutex = before.mutex) :
    UsesMutex ids self before th after moved signal := by
  obtain ⟨rfl, rfl, rfl⟩ := quiet_eq_some.mp h
  exact .inl ⟨hmiddle, rfl, by simp⟩

theorem usesMutex_of_mutexStep {inner : MutexCommon.Choice} {middle : Shared Tid}
    {next : MutexV1.Thread Tid → Position}
    (h : mutexStep ids self middle th inner next = some (after, moved, signal))
    (hmiddle : middle.mutex = before.mutex) :
    UsesMutex ids self before th after moved signal := by
  obtain ⟨mutex, movedMutex, innerSignal, hstep, rfl, rfl, rfl⟩ := mutexStep_eq_some.mp h
  exact .inr ⟨inner, innerSignal, hmiddle ▸ hstep, rfl⟩

theorem usesMutex_of_bind {next : MutexV1.Thread Tid → Position}
    (h : (choice.inner.bind fun inner ↦ mutexStep ids self before th inner next) =
      some (after, moved, signal)) :
    UsesMutex ids self before th after moved signal := by
  obtain ⟨inner, -, hstep⟩ := Option.bind_eq_some_iff.mp h
  exact usesMutex_of_mutexStep hstep rfl

/-- Every step does nothing to the mutex or is one of the steps of the mutex. -/
theorem step_usesMutex (h : step ids self before th choice = some (after, moved, signal)) :
    UsesMutex ids self before th after moved signal := by
  unfold step at h
  split at h
  case h_1 owing =>
    cases choice <;> simp only [betweenStep, reduceCtorEq] at h
    case consume | lock =>
      split_ifs at h
      exact usesMutex_of_mutexStep h rfl
    case write =>
      split_ifs at h
      exact usesMutex_of_quiet h rfl
    case unlock => exact usesMutex_of_mutexStep h rfl
    all_goals exact usesMutex_of_quiet h rfl
  case h_2 => exact usesMutex_of_bind h
  case h_3 =>
    split_ifs at h
    all_goals exact usesMutex_of_quiet h rfl
  case h_4 => exact usesMutex_of_bind h
  case h_5 pc hposition =>
    cases pc with
    | unlock state loadedAt =>
      simp only [waitStep] at h
      split_ifs at h
      · exact usesMutex_of_bind h
      · exact usesMutex_of_mutexStep h rfl
    | fetchSub =>
      cases choice <;> simp only [waitStep, reduceCtorEq] at h
      exact usesMutex_of_mutexStep h rfl
    | _ =>
      cases choice <;> simp only [waitStep, reduceCtorEq] at h
      all_goals
        try split_ifs at h
        all_goals exact usesMutex_of_quiet h rfl
  case h_6 pc owing hposition =>
    cases pc <;> cases choice <;> simp only [notifyAllStep, reduceCtorEq] at h
    case wakeAll.go =>
      obtain ⟨rfl, rfl, rfl⟩ := by simpa using h
      exact .inl ⟨rfl, rfl, by simp⟩
    all_goals
      try split_ifs at h
      all_goals exact usesMutex_of_quiet h rfl
  case h_7 pc owing hposition =>
    cases pc <;> cases choice <;> simp only [notifyOneStep, reduceCtorEq] at h
    case wakeOne.go =>
      obtain ⟨rfl, rfl, rfl⟩ := by simpa using h
      exact .inl ⟨rfl, rfl, by simp⟩
    case fetchAdd.go => exact usesMutex_of_quiet h rfl
  case h_8 =>
    unfold unwindStep at h
    split_ifs at h
    · exact usesMutex_of_bind h
    · exact usesMutex_of_mutexStep h rfl
    · exact usesMutex_of_quiet h rfl
  case h_9 => cases h

end Steps

section Runs

variable [DecidableEq Tid] [Fintype Tid] {ids : ThreadIds Tid} {predicate : Bool}
  {p p' : Pool Tid (Shared Tid) (Thread Tid)} {label : Label Tid Choice}

omit [DecidableEq Tid] [Fintype Tid] in
theorem mutex_wake (th : Thread Tid) : (wake th).mutex = th.mutex := by
  unfold wake
  split <;> rfl

/-- A step of the two is a step of the mutex, or it leaves the mutex alone. -/
theorem mutexPool_step (hmove : (system ids predicate).step p label = some p') :
    mutexPool p' = mutexPool p ∨
      ∃ j, (MutexV1.system ids).step (mutexPool p) j = some (mutexPool p') := by
  obtain ⟨moved, signal, hlocal, hdelivered⟩ := Machine.step_cases hmove
  have hupdate : (fun t ↦ (update p.threads label.thread moved t).mutex) =
      update (mutexPool p).threads label.thread moved.mutex := by
    funext t
    by_cases ht : t = label.thread
    · rw [ht, update_self, update_self]
    · rw [update_of_ne ht, update_of_ne ht]
      rfl
  rcases step_usesMutex hlocal with ⟨hshared, hmoved, hsignal⟩ | ⟨inner, innerSignal, hstep, rfl⟩
  · refine .inl (Pool.ext hshared (funext fun t ↦ ?_))
    have hsame : (update p.threads label.thread moved t).mutex = (p.threads t).mutex := by
      rw [congrFun hupdate t, hmoved]
      exact congrFun (update_eq_self label.thread (mutexPool p).threads) t
    show (p'.threads t).mutex = (p.threads t).mutex
    rcases hdelivered.thread_of_not_unpark hsignal t with heq | heq
    · rw [heq, hsame]
    · rw [heq]
      exact (mutex_wake _).trans hsame
  · have hinner : (MutexV1.machine ids).Delivered innerSignal
        (update (mutexPool p).threads label.thread moved.mutex) (mutexPool p').threads := by
      rw [← hupdate]
      exact hdelivered.map outer Thread.mutex (fun _ addr ↦ by cases addr)
        (fun _ addr ↦ by cases addr) fun _ ↦ rfl
    have hmachine : (MutexV1.machine ids).step label.thread (mutexPool p).shared
        ((mutexPool p).threads label.thread) inner =
          some ((mutexPool p').shared, moved.mutex, innerSignal) := hstep
    have hpool : ∃ woken, (MutexV1.system ids).step (mutexPool p) ⟨label.thread, inner, woken⟩ =
        some (mutexPool p') := Machine.exists_step hmachine hinner
    exact .inr ⟨_, hpool.choose_spec⟩

/-- Every run of the two is a run of the mutex. -/
theorem mutexPool_reachable {ok : Pool Tid (Shared Tid) (Thread Tid) → Label Tid Choice → Prop}
    (h : (system ids predicate).ReachableWhen ok p) :
    (MutexV1.system ids).Reachable (mutexPool p) := by
  refine h.map mutexPool rfl fun p label p' _ _ hmove ↦ ?_
  rcases mutexPool_step hmove with hsame | ⟨j, hstep⟩
  · exact .inl hsame
  · exact .inr ⟨j, trivial, hstep⟩

end Runs

/-! ### The condition variable -/

/-- The thread whose id is in the word of the mutex. -/
noncomputable def holder (ids : ThreadIds Tid) (state : ℕ) : Option Tid := partialInv ids.get state

/-- The shared state as the condition variable over an assumed mutex has it. -/
noncomputable def Shared.view (ids : ThreadIds Tid) (shared : Shared Tid) :
    CondVar.Shared Tid where
  counter := shared.counter
  waiting := shared.waiting
  holder := holder ids shared.mutex.state
  predicate := shared.predicate
  notifications := shared.notifications

/-- The position as the condition variable over an assumed mutex has it. A call of the mutex is over
there with the step that takes the mutex or gives it up. -/
def Position.call (standing : MutexV1.Standing) : Position → Call
  | .between owing => .between (standing = .holding) owing
  | .locking consumer =>
    if standing = .acquired then if consumer then .check else .between true false
    else .lock consumer
  | .check => .check
  | .unlocking owing => .between (standing = .dropping) owing
  | .wait (.unlock state loadedAt) =>
    if standing = .dequeuing then .wait (.wait state loadedAt) else .wait (.unlock state loadedAt)
  | .wait pc => .wait pc
  | .notifyAll pc owing => .notifyAll pc (standing = .holding) owing
  | .notifyOne pc owing => .notifyOne pc (standing = .holding) owing
  | .unwinding => .between false false
  | .panicked => .between false false

/-- The position of a thread, seen so. -/
def Thread.call (th : Thread Tid) : Call := th.position.call th.mutex.standing

/-- How a thread stands to the mutex at its position, when nobody panics. -/
def Position.fits (standing : MutexV1.Standing) : Position → Bool
  | .between _ => standing = .outside ∨ standing = .holding
  | .locking _ => standing = .locking ∨ standing = .acquired
  | .check => standing = .holding
  | .unlocking _ => standing = .dropping ∨ standing = .dequeuing
  | .wait .load => standing = .holding
  | .wait (.fetchAdd _ _) => standing = .holding
  | .wait (.unlock _ _) => standing = .holding ∨ standing = .dropping ∨ standing = .dequeuing
  | .wait _ => standing = .outside
  | .notifyAll _ _ => standing = .outside ∨ standing = .holding
  | .notifyOne _ _ => standing = .outside ∨ standing = .holding
  | .unwinding => false
  | .panicked => false

/-- A thread at its position. -/
def Thread.Fits (th : Thread Tid) : Prop := th.position.fits th.mutex.standing = true

/-- The condition variable over the mutex it assumes. -/
noncomputable def callPool (ids : ThreadIds Tid) (p : Pool Tid (Shared Tid) (Thread Tid)) :
    Pool Tid (CondVar.Shared Tid) Call where
  shared := p.shared.view ids
  threads := fun t ↦ (p.threads t).call

theorem holder_zero (ids : ThreadIds Tid) : holder ids 0 = none := by
  unfold holder partialInv
  rw [dif_neg]
  rintro ⟨t, ht⟩
  exact ids.get_ne_zero t ht

theorem holder_get (ids : ThreadIds Tid) (t : Tid) : holder ids (ids.get t) = some t :=
  partialInv_left ids.get_injective t

section Seen

variable {ids : ThreadIds Tid} {self : Tid} {before after : Shared Tid} {th moved : Thread Tid}
  {signal : Signal Tid Addr} {choice : Choice}

/-- What a step of the two is to the condition variable over an assumed mutex: nothing, or one of
its own steps. -/
inductive Seen (ids : ThreadIds Tid) (self : Tid) (before : Shared Tid) (th : Thread Tid)
    (after : Shared Tid) (moved : Thread Tid) (signal : Signal Tid Addr) : Prop
  | hidden (hview : after.view ids = before.view ids) (hcall : moved.call = th.call)
      (hsignal : signal = .silent ∨ ∃ u, signal = .unpark u)
  | step (choice : CondVar.Choice)
      (hstep : CondVar.step self (before.view ids) th.call choice =
        some (after.view ids, moved.call, signal))
      (hwait : ∀ state loadedAt, th.call = .wait (.wait state loadedAt) →
        th.position = .wait (.wait state loadedAt))

/-- What is shown of every step: it is seen, the thread fits again, and the mutex stays clean. -/
structure Step (ids : ThreadIds Tid) (t : Tid) (before : Shared Tid) (th : Thread Tid)
    (after : Shared Tid) (moved : Thread Tid) (signal : Signal Tid Addr) : Prop where
  seen : Seen ids t before th after moved signal
  fits : moved.Fits
  clean : after.mutex.poisoned = false

theorem afterLock_of_locking (consumer : Bool) {mutex : MutexV1.Thread Tid}
    (h : mutex.standing = .locking ∨ mutex.standing = .acquired) :
    afterLock consumer mutex = .locking consumer := by
  rcases h with h | h
  · obtain ⟨⟨pc, hcall⟩, -⟩ := MutexV1.standing_eq_locking_iff.mp h
    simp only [afterLock, hcall]
  · simp only [afterLock, (MutexV1.standing_eq_acquired_iff.mp h).1]

theorem afterLock_of_holding (consumer : Bool) {mutex : MutexV1.Thread Tid}
    (h : mutex.standing = .holding) (hresult : mutex.result = some (.ok ())) :
    afterLock consumer mutex = if consumer then .check else .between false := by
  simp only [afterLock, (MutexV1.standing_eq_holding_iff.mp h).1, hresult]

theorem afterDrop_of_dequeuing (dropping next : Position) {mutex : MutexV1.Thread Tid}
    (h : mutex.standing = .dequeuing) : afterDrop dropping next mutex = dropping := by
  obtain ⟨⟨pc, hcall⟩, -⟩ := MutexV1.standing_eq_dequeuing_iff.mp h
  simp only [afterDrop, hcall]

theorem afterDrop_of_outside (dropping next : Position) {mutex : MutexV1.Thread Tid}
    (h : mutex.standing = .outside) : afterDrop dropping next mutex = next := by
  simp only [afterDrop, (MutexV1.standing_eq_outside_iff.mp h).1]

/-- The mutex sends no wake-ups. -/
theorem outer_cases (innerSignal : Signal Tid MutexV1.Addr) :
    innerSignal.map outer = .silent ∨ ∃ u, innerSignal.map outer = .unpark u := by
  cases innerSignal with
  | silent => exact .inl rfl
  | wakeOne addr => cases addr
  | wakeAll addr => cases addr
  | unpark u => exact .inr ⟨u, rfl⟩

/-- A step that leaves the word of the mutex and the rest alone leaves the view. -/
theorem view_of_state {mutex : MutexV1.Shared Tid} (h : mutex.state = before.mutex.state) :
    ({ before with mutex := mutex } : Shared Tid).view ids = before.view ids := by
  simp only [Shared.view, h]

theorem locking_step {consumer : Bool} (hposition : th.position = .locking consumer)
    (hfits : th.Fits) (hclean : before.mutex.poisoned = false)
    (howner : th.mutex.standing = .locking → before.mutex.state ≠ ids.get self)
    (h : (choice.inner.bind fun inner ↦
      mutexStep ids self before th inner (afterLock consumer)) = some (after, moved, signal)) :
    Step ids self before th after moved signal := by
  obtain ⟨inner, -, hstep⟩ := Option.bind_eq_some_iff.mp h
  obtain ⟨mutex, movedMutex, innerSignal, hmutex, rfl, rfl, rfl⟩ := mutexStep_eq_some.mp hstep
  rw [Thread.Fits, hposition] at hfits
  rcases of_decide_eq_true hfits with hstanding | hstanding
  · obtain ⟨rfl, hpoisoned, hmoved⟩ := MutexV1.step_locking hstanding (howner hstanding) hmutex
    have hcall : th.call = .lock consumer := by
      rw [Thread.call, hposition, hstanding]
      rfl
    rcases hmoved with ⟨hmoved, hstate⟩ | ⟨hmoved, hfree, hstate⟩
    · have hafter := afterLock_of_locking consumer (.inl hmoved)
      refine ⟨.hidden (view_of_state hstate) ?_ (.inl rfl), ?_, hpoisoned.trans hclean⟩
      · rw [hcall, Thread.call, hafter, hmoved]
        rfl
      · rw [Thread.Fits, hafter, hmoved]
        rfl
    · have hafter := afterLock_of_locking consumer (.inr hmoved)
      refine ⟨.step .go ?_ (fun _ _ hwait ↦ by rw [hcall] at hwait; cases hwait), ?_,
        hpoisoned.trans hclean⟩
      · rw [hcall, Thread.call, hafter, hmoved]
        simp [CondVar.step, CondVar.quiet, Shared.view, hfree, hstate, holder_zero, holder_get,
          Position.call]
        rfl
      · rw [Thread.Fits, hafter, hmoved]
        rfl
  · obtain ⟨rfl, hmoved, hresult, rfl⟩ := MutexV1.step_acquired hstanding hmutex
    have hok : movedMutex.result = some (.ok ()) := by
      rw [hresult, hclean]
      rfl
    have hafter := afterLock_of_holding consumer hmoved hok
    refine ⟨.hidden rfl ?_ (.inl rfl), ?_, hclean⟩
    · rw [Thread.call, Thread.call, hposition, hstanding, hafter, hmoved]
      cases consumer <;> rfl
    · rw [Thread.Fits, hafter, hmoved]
      cases consumer <;> rfl

/-- A step outside the mutex that is a step of the condition variable. -/
theorem quiet_step {position : Position} {middle : Shared Tid} (outerChoice : CondVar.Choice)
    (hclean : before.mutex.poisoned = false)
    (h : quiet th middle position = some (after, moved, signal))
    (hmutex : middle.mutex = before.mutex) (hfits : position.fits th.mutex.standing = true)
    (hwait : ∀ state loadedAt, th.call = .wait (.wait state loadedAt) →
      th.position = .wait (.wait state loadedAt))
    (hstep : CondVar.step self (before.view ids) th.call outerChoice =
      some (middle.view ids, position.call th.mutex.standing, .silent)) :
    Step ids self before th after moved signal := by
  obtain ⟨rfl, rfl, rfl⟩ := quiet_eq_some.mp h
  exact ⟨.step outerChoice hstep hwait, hfits, hmutex ▸ hclean⟩

/-- A call of `lock` that is the next step of the condition variable. -/
theorem callLock_step {consumer : Bool} {middle : Shared Tid} (outerChoice : CondVar.Choice)
    (hstanding : th.mutex.standing = .outside) (hclean : before.mutex.poisoned = false)
    (h : mutexStep ids self middle th (.call .lock) (fun _ ↦ .locking consumer) =
      some (after, moved, signal))
    (hmutex : middle.mutex = before.mutex)
    (hwait : ∀ state loadedAt, th.call = .wait (.wait state loadedAt) →
      th.position = .wait (.wait state loadedAt))
    (hstep : CondVar.step self (before.view ids) th.call outerChoice =
      some (middle.view ids, .lock consumer, .silent)) :
    Step ids self before th after moved signal := by
  obtain ⟨mutex, movedMutex, innerSignal, hinner, rfl, rfl, rfl⟩ := mutexStep_eq_some.mp h
  obtain ⟨rfl, hmoved, rfl⟩ := MutexV1.step_callLock hstanding hinner
  have hcall : ({ position := .locking consumer, mutex := movedMutex } : Thread Tid).call =
      .lock consumer := by
    rw [Thread.call, hmoved]
    rfl
  refine ⟨.step outerChoice ?_ hwait, ?_, hmutex ▸ hclean⟩
  · rw [hcall]
    exact hstep
  · rw [Thread.Fits, hmoved]
    rfl

/-- A drop of the guard that begins at a position which goes on as before until the store. -/
theorem callDrop_step {position : Position} (hstanding : th.mutex.standing = .holding)
    (hone : th.mutex.guards ≤ 1) (hclean : before.mutex.poisoned = false)
    (h : mutexStep ids self before th (.drop false) (fun _ ↦ position) =
      some (after, moved, signal))
    (hfits : position.fits .dropping = true) (hcall : position.call .dropping = th.call) :
    Step ids self before th after moved signal := by
  obtain ⟨mutex, movedMutex, innerSignal, hinner, rfl, rfl, rfl⟩ := mutexStep_eq_some.mp h
  obtain ⟨rfl, hmoved, rfl⟩ := MutexV1.step_callDrop hstanding hone hinner
  refine ⟨.hidden rfl ?_ (.inl rfl), ?_, hclean⟩
  · rw [Thread.call, hmoved, hcall]
  · rw [Thread.Fits, hmoved]
    exact hfits

/-- A step inside the drop of a guard. Assumes: the position that drops is left for `next`, both
seen as the same once the mutex is given up, and giving it up is the next step of the condition
variable. -/
theorem drop_step {dropping next : Position} (outerChoice : CondVar.Choice)
    (hposition : th.position = dropping)
    (hstanding : th.mutex.standing = .dropping ∨ th.mutex.standing = .dequeuing)
    (hclean : before.mutex.poisoned = false)
    (h : (choice.inner.bind fun inner ↦
      mutexStep ids self before th inner (afterDrop dropping next)) = some (after, moved, signal))
    (hfits : dropping.fits .dequeuing = true) (hfits' : next.fits .outside = true)
    (hnext : next.call .outside = dropping.call .dequeuing)
    (hwait : ∀ state loadedAt, dropping.call .dropping ≠ .wait (.wait state loadedAt))
    (hstep : CondVar.step self (before.view ids) (dropping.call .dropping) outerChoice =
      some ({ before.view ids with holder := none }, dropping.call .dequeuing, .silent)) :
    Step ids self before th after moved signal := by
  obtain ⟨inner, -, hinner⟩ := Option.bind_eq_some_iff.mp h
  obtain ⟨mutex, movedMutex, innerSignal, hmutex, rfl, rfl, rfl⟩ := mutexStep_eq_some.mp hinner
  rcases hstanding with hstanding | hstanding
  · obtain ⟨hmoved, hstate, hpoisoned, rfl⟩ := MutexV1.step_dropping hstanding hmutex
    have hcall : th.call = dropping.call .dropping := by rw [Thread.call, hposition, hstanding]
    have hafter := afterDrop_of_dequeuing dropping next hmoved
    refine ⟨.step outerChoice ?_ (fun state loadedAt heq ↦ ?_), ?_, hpoisoned.trans hclean⟩
    · rw [hcall, Thread.call, hafter, hmoved, hstep]
      simp only [Shared.view, hstate, holder_zero]
      rfl
    · exact absurd (hcall.symm.trans heq) (hwait state loadedAt)
    · rw [Thread.Fits, hafter, hmoved]
      exact hfits
  · obtain ⟨hhidden, hmoved⟩ := MutexV1.step_dequeuing hstanding hmutex
    have hcall : th.call = dropping.call .dequeuing := by rw [Thread.call, hposition, hstanding]
    rcases hmoved with hmoved | hmoved
    · have hafter := afterDrop_of_dequeuing dropping next hmoved
      refine ⟨.hidden (view_of_state hhidden.state) ?_ (outer_cases _), ?_,
        hhidden.poisoned.trans hclean⟩
      · rw [hcall, Thread.call, hafter, hmoved]
      · rw [Thread.Fits, hafter, hmoved]
        exact hfits
    · have hafter := afterDrop_of_outside dropping next hmoved
      refine ⟨.hidden (view_of_state hhidden.state) ?_ (outer_cases _), ?_,
        hhidden.poisoned.trans hclean⟩
      · rw [hcall, Thread.call, hafter, hmoved, hnext]
      · rw [Thread.Fits, hafter, hmoved]
        exact hfits'

theorem betweenStep_step {owing : Bool} (hposition : th.position = .between owing)
    (hfits : th.Fits) (hone : th.mutex.guards ≤ 1) (hclean : before.mutex.poisoned = false)
    (hpanic : choice ≠ .panic)
    (h : betweenStep ids self before th owing choice = some (after, moved, signal)) :
    Step ids self before th after moved signal := by
  have hcall : th.call = .between (decide (th.mutex.standing = .holding)) owing := by
    rw [Thread.call, hposition]
    rfl
  have hwait (state loadedAt : ℕ) (heq : th.call = .wait (.wait state loadedAt)) :
      th.position = .wait (.wait state loadedAt) := by
    rw [hcall] at heq
    cases heq
  rw [Thread.Fits, hposition] at hfits
  have hstanding := of_decide_eq_true hfits
  have hholding (hpos : 0 < th.mutex.guards) : th.mutex.standing = .holding :=
    hstanding.resolve_left fun houtside ↦
      hpos.ne' (MutexV1.standing_eq_outside_iff.mp houtside).2
  have houtside (hnone : ¬ 0 < th.mutex.guards) : th.mutex.standing = .outside :=
    hstanding.resolve_right fun hholding ↦
      hnone (MutexV1.standing_eq_holding_iff.mp hholding).2
  cases choice <;> simp only [betweenStep, reduceCtorEq] at h
  case consume | lock =>
    split_ifs at h with hbusy
    obtain ⟨hnone, howing⟩ := not_or.mp hbusy
    have hnobody := houtside hnone
    first
      | refine callLock_step .consume hnobody hclean h rfl hwait ?_
        rw [hcall, hnobody, Bool.eq_false_iff.mpr howing]
        rfl
      | refine callLock_step .lock hnobody hclean h rfl hwait ?_
        rw [hcall, hnobody, Bool.eq_false_iff.mpr howing]
        rfl
  case write value =>
    split_ifs at h with hpos
    have hself := hholding hpos
    refine quiet_step (.write value) hclean h rfl ?_ hwait ?_
    · rw [hself]
      rfl
    · rw [hcall, hself]
      rfl
  case unlock =>
    rcases hstanding with houtside | hself
    · simp only [mutexStep, MutexV1.not_callDrop houtside, Option.map_none, reduceCtorEq] at h
    · refine callDrop_step hself hone hclean h rfl ?_
      rw [hcall, hself]
      rfl
  case notifyAll =>
    refine quiet_step .notifyAll hclean h rfl hfits hwait ?_
    rw [hcall]
    rfl
  case notifyOne =>
    refine quiet_step .notifyOne hclean h rfl hfits hwait ?_
    rw [hcall]
    rfl
  case panic => exact absurd rfl hpanic

theorem waitStep_step {pc : WaitPc} (hposition : th.position = .wait pc) (hfits : th.Fits)
    (hone : th.mutex.guards ≤ 1) (hclean : before.mutex.poisoned = false)
    (h : waitStep ids self before th pc choice = some (after, moved, signal)) :
    Step ids self before th after moved signal := by
  rw [Thread.Fits, hposition] at hfits
  have hcall (hpc : ∀ state loadedAt, pc ≠ .unlock state loadedAt) : th.call = .wait pc := by
    rw [Thread.call, hposition]
    cases pc with
    | unlock state loadedAt => exact absurd rfl (hpc state loadedAt)
    | _ => rfl
  have hwait (hpc : ∀ state loadedAt, pc ≠ .unlock state loadedAt) (state loadedAt : ℕ)
      (heq : th.call = .wait (.wait state loadedAt)) :
      th.position = .wait (.wait state loadedAt) := by
    rw [hcall hpc, Call.wait.injEq] at heq
    rw [hposition, heq]
  cases pc with
  | unlock state loadedAt =>
    simp only [waitStep] at h
    have hcases := of_decide_eq_true hfits
    split_ifs at h with hcalling hgo
    · have hstanding : th.mutex.standing = .dropping ∨ th.mutex.standing = .dequeuing :=
        hcases.resolve_left fun hholding ↦ by
          simp [Thread.calling, (MutexV1.standing_eq_holding_iff.mp hholding).1] at hcalling
      exact drop_step .go hposition hstanding hclean h rfl rfl rfl (by simp [Position.call]) rfl
    · have hstanding : th.mutex.standing = .holding := by
        refine hcases.resolve_right fun hdropping ↦ hcalling ?_
        rcases hdropping with hdropping | hdequeuing
        · simp [Thread.calling, (MutexV1.standing_eq_dropping_iff.mp hdropping).1]
        · obtain ⟨⟨pc, hpc⟩, -⟩ := MutexV1.standing_eq_dequeuing_iff.mp hdequeuing
          simp [Thread.calling, hpc]
      refine callDrop_step hstanding hone hclean h rfl ?_
      rw [Thread.call, hposition, hstanding]
      rfl
  | fetchSub =>
    cases choice <;> simp only [waitStep, reduceCtorEq] at h
    refine callLock_step .go (of_decide_eq_true hfits) hclean h rfl (hwait (by simp)) ?_
    rw [hcall (by simp)]
    rfl
  | wait state loadedAt =>
    have hself := hcall (by simp)
    cases choice <;> simp only [waitStep, reduceCtorEq] at h
    case go =>
      split_ifs at h with hcounter
      · refine quiet_step .go hclean h rfl hfits (hwait (by simp)) ?_
        rw [hself]
        exact if_pos hcounter
      · refine quiet_step .go hclean h rfl hfits (hwait (by simp)) ?_
        rw [hself]
        exact if_neg hcounter
    case spurious =>
      refine quiet_step .spurious hclean h rfl hfits (hwait (by simp)) ?_
      rw [hself]
      rfl
  | fetchAdd state loadedAt =>
    have hself := hcall (by simp)
    have hholding : th.mutex.standing = .holding := of_decide_eq_true hfits
    cases choice <;> simp only [waitStep, reduceCtorEq] at h
    refine quiet_step .go hclean h rfl ?_ (hwait (by simp)) ?_
    · rw [hholding]
      rfl
    · rw [hself, hholding]
      rfl
  | _ =>
    have hself := hcall (by simp)
    cases choice <;> simp only [waitStep, reduceCtorEq] at h
    all_goals
      first
        | refine quiet_step .go hclean h rfl hfits (hwait (by simp)) ?_
          rw [hself]
          rfl
        | refine quiet_step .spurious hclean h rfl hfits (hwait (by simp)) ?_
          rw [hself]
          rfl

theorem notifyAllStep_step {pc : NotifyAllPc} {owing : Bool}
    (hposition : th.position = .notifyAll pc owing) (hfits : th.Fits)
    (hclean : before.mutex.poisoned = false)
    (h : notifyAllStep before th owing pc choice = some (after, moved, signal)) :
    Step ids self before th after moved signal := by
  rw [Thread.Fits, hposition] at hfits
  have hcall : th.call = .notifyAll pc (decide (th.mutex.standing = .holding)) owing := by
    rw [Thread.call, hposition]
    rfl
  have hwait (state loadedAt : ℕ) (heq : th.call = .wait (.wait state loadedAt)) :
      th.position = .wait (.wait state loadedAt) := by
    rw [hcall] at heq
    cases heq
  cases pc <;> cases choice <;> simp only [notifyAllStep, reduceCtorEq] at h
  case fetchAdd.go =>
    refine quiet_step .go hclean h rfl hfits hwait ?_
    rw [hcall]
    rfl
  case load.go =>
    split_ifs at h with hwaiting
    · refine quiet_step .go hclean h rfl hfits hwait ?_
      rw [hcall]
      exact if_pos hwaiting
    · refine quiet_step .go hclean h rfl hfits hwait ?_
      rw [hcall]
      exact if_neg hwaiting
  case wakeAll.go =>
    obtain ⟨rfl, rfl, rfl⟩ := by simpa using h
    refine ⟨.step .go ?_ hwait, hfits, hclean⟩
    rw [hcall]
    rfl

theorem notifyOneStep_step {pc : NotifyOnePc} {owing : Bool}
    (hposition : th.position = .notifyOne pc owing) (hfits : th.Fits)
    (hclean : before.mutex.poisoned = false)
    (h : notifyOneStep before th owing pc choice = some (after, moved, signal)) :
    Step ids self before th after moved signal := by
  rw [Thread.Fits, hposition] at hfits
  have hcall : th.call = .notifyOne pc (decide (th.mutex.standing = .holding)) owing := by
    rw [Thread.call, hposition]
    rfl
  have hwait (state loadedAt : ℕ) (heq : th.call = .wait (.wait state loadedAt)) :
      th.position = .wait (.wait state loadedAt) := by
    rw [hcall] at heq
    cases heq
  cases pc <;> cases choice <;> simp only [notifyOneStep, reduceCtorEq] at h
  case fetchAdd.go =>
    refine quiet_step .go hclean h rfl hfits hwait ?_
    rw [hcall]
    rfl
  case wakeOne.go =>
    obtain ⟨rfl, rfl, rfl⟩ := by simpa using h
    refine ⟨.step .go ?_ hwait, hfits, hclean⟩
    rw [hcall]
    rfl

/-- Every step without a panic is seen, and keeps what it needs. Assumes: the mutex is not poisoned,
and the word is not the id of a thread inside `lock`. -/
theorem step_step (hfits : th.Fits) (hone : th.mutex.guards ≤ 1)
    (hclean : before.mutex.poisoned = false)
    (howner : th.mutex.standing = .locking → before.mutex.state ≠ ids.get self)
    (hpanic : choice ≠ .panic)
    (h : step ids self before th choice = some (after, moved, signal)) :
    Step ids self before th after moved signal := by
  unfold step at h
  split at h
  case h_1 hposition => exact betweenStep_step hposition hfits hone hclean hpanic h
  case h_2 hposition => exact locking_step hposition hfits hclean howner h
  case h_3 hposition =>
    rw [Thread.Fits, hposition] at hfits
    have hholding : th.mutex.standing = .holding := of_decide_eq_true hfits
    have hcall : th.call = .check := by
      rw [Thread.call, hposition]
      rfl
    have hwait (state loadedAt : ℕ) (heq : th.call = .wait (.wait state loadedAt)) :
        th.position = .wait (.wait state loadedAt) := by
      rw [hcall] at heq
      cases heq
    split_ifs at h with hgo hpredicate
    · refine quiet_step .go hclean h rfl ?_ hwait ?_
      · rw [hholding]
        rfl
      · rw [hcall, hholding]
        simp [CondVar.step, Shared.view, hpredicate]
        rfl
    · refine quiet_step .go hclean h rfl hfits hwait ?_
      rw [hcall]
      simp [CondVar.step, Shared.view, hpredicate]
      rfl
  case h_4 hposition =>
    rw [Thread.Fits, hposition] at hfits
    exact drop_step .unlock hposition (of_decide_eq_true hfits) hclean h rfl rfl rfl
      (by simp [Position.call]) rfl
  case h_5 hposition => exact waitStep_step hposition hfits hone hclean h
  case h_6 hposition => exact notifyAllStep_step hposition hfits hclean h
  case h_7 hposition => exact notifyOneStep_step hposition hfits hclean h
  case h_8 hposition =>
    rw [Thread.Fits, hposition] at hfits
    cases hfits
  case h_9 => cases h

end Seen

/-! ### Runs without a panic -/

section Calm

variable [DecidableEq Tid] [Fintype Tid] {ids : ThreadIds Tid} {predicate : Bool}
  {p p' : Pool Tid (Shared Tid) (Thread Tid)} {label : Label Tid Choice}

/-- Nobody has panicked: every thread fits its position, and the mutex is not poisoned. -/
structure Calm (p : Pool Tid (Shared Tid) (Thread Tid)) : Prop where
  fits : ∀ t, (p.threads t).Fits
  clean : p.shared.mutex.poisoned = false

omit [DecidableEq Tid] [Fintype Tid] in
theorem fits_wake {th : Thread Tid} (h : th.Fits) : (wake th).Fits := by
  unfold wake
  split
  case h_1 hposition =>
    rw [Thread.Fits, hposition] at h
    exact h
  case h_2 => exact h

omit [DecidableEq Tid] [Fintype Tid] in
theorem fits_unpark {th : Thread Tid} (h : th.Fits) : ((machine ids).unpark th).Fits := by
  show th.position.fits (MutexV1.unpark th.mutex).standing = true
  rw [MutexV1.standing_unpark]
  exact h

omit [DecidableEq Tid] [Fintype Tid] in
theorem call_unpark (th : Thread Tid) : ((machine ids).unpark th).call = th.call := by
  show th.position.call (MutexV1.unpark th.mutex).standing = th.call
  rw [MutexV1.standing_unpark]
  rfl

omit [DecidableEq Tid] [Fintype Tid] in
theorem asleepOn_call (th : Thread Tid) (addr : Addr) :
    asleepOn th = some addr ↔ CondVar.asleepOn th.call = some addr := by
  rw [Thread.call]
  cases hposition : th.position with
  | wait pc =>
    cases pc <;> simp only [asleepOn, hposition, Position.call, CondVar.asleepOn]
    split_ifs <;> simp
  | locking consumer =>
    simp only [asleepOn, hposition, Position.call]
    split_ifs <;> simp [CondVar.asleepOn]
  | _ => simp [asleepOn, hposition, Position.call, CondVar.asleepOn]

omit [DecidableEq Tid] [Fintype Tid] in
theorem call_wake {th : Thread Tid} {addr : Addr}
    (h : CondVar.asleepOn th.call = some addr) : (wake th).call = CondVar.wake th.call := by
  have hasleep := (asleepOn_call th addr).mpr h
  unfold asleepOn at hasleep
  split at hasleep
  case h_1 hposition =>
    rw [Thread.call, Thread.call, wake, hposition]
    rfl
  case h_2 => cases hasleep

/-- One step of a run without a panic. -/
theorem calm_step (hcalm : Calm p) (hrun : (MutexV1.system ids).Reachable (mutexPool p))
    (hpanic : label.choice ≠ .panic) (hmove : (system ids predicate).step p label = some p') :
    ∃ moved signal,
      (machine ids).Delivered signal (update p.threads label.thread moved) p'.threads ∧
        Step ids label.thread p.shared (p.threads label.thread) p'.shared moved signal := by
  obtain ⟨moved, signal, hlocal, hdelivered⟩ := Machine.step_cases hmove
  have howned := MutexV1.owned_of_run hrun
  refine ⟨moved, signal, hdelivered, step_step (hcalm.fits _) ?_ hcalm.clean ?_ hpanic hlocal⟩
  · by_contra hmany
    have hone := howned.outstanding_eq_one (t := label.thread)
      (Nat.add_pos_left (Nat.zero_lt_of_lt (not_le.mp hmany)) _)
    exact hmany ((Nat.le_add_right _ _).trans hone.le)
  · intro hlocking hself
    have hpos := howned.word_eq_id_iff.mp hself
    obtain ⟨⟨pc, hcall⟩, hnone⟩ := MutexV1.standing_eq_locking_iff.mp hlocking
    have hzero : (p.threads label.thread).mutex.outstanding = 0 := by
      rw [MutexV1.Thread.outstanding, hcall, hnone]
      rfl
    exact hpos.ne' hzero

/-- A run without a panic stays calm. -/
theorem calm_of_run
    (h : (system ids predicate).ReachableWhen (fun _ label ↦ label.choice ≠ .panic) p) :
    Calm p := by
  refine h.invariant ⟨fun _ ↦ rfl, rfl⟩ ?_
  intro p label p' hrun hcalm hpanic hmove
  obtain ⟨moved, signal, hdelivered, hstep⟩ :=
    calm_step hcalm (mutexPool_reachable hrun) hpanic hmove
  refine ⟨fun t ↦ ?_, hstep.clean⟩
  have hmid : (update p.threads label.thread moved t).Fits := by
    by_cases ht : t = label.thread
    · rw [ht, update_self]
      exact hstep.fits
    · rw [update_of_ne ht]
      exact hcalm.fits t
  rcases hdelivered.thread t with heq | ⟨-, -, heq⟩ | heq
  · rw [heq]
    exact hmid
  · rw [heq]
    exact fits_wake hmid
  · rw [heq]
    exact fits_unpark hmid

/-- A step without a panic is not seen by the condition variable, or is one of its steps. -/
theorem callPool_step (hcalm : Calm p) (hrun : (MutexV1.system ids).Reachable (mutexPool p))
    (hpanic : label.choice ≠ .panic) (hmove : (system ids predicate).step p label = some p') :
    callPool ids p' = callPool ids p ∨
      ∃ j, (CondVar.system Tid predicate).step (callPool ids p) j = some (callPool ids p') ∧
        j.thread = label.thread ∧
        ∀ state loadedAt, (p.threads label.thread).call = .wait (.wait state loadedAt) →
          (p.threads label.thread).position = .wait (.wait state loadedAt) := by
  obtain ⟨moved, signal, hdelivered, hstep⟩ := calm_step hcalm hrun hpanic hmove
  have hupdate : (fun t ↦ (update p.threads label.thread moved t).call) =
      update (callPool ids p).threads label.thread moved.call := by
    funext t
    by_cases ht : t = label.thread
    · rw [ht, update_self, update_self]
    · rw [update_of_ne ht, update_of_ne ht]
      rfl
  cases hstep.seen with
  | hidden hview hcall hsignal =>
    refine .inl (Pool.ext hview (funext fun t ↦ ?_))
    have hsame : (update p.threads label.thread moved t).call = (p.threads t).call := by
      rw [congrFun hupdate t, hcall]
      exact congrFun (update_eq_self label.thread (callPool ids p).threads) t
    show (p'.threads t).call = (p.threads t).call
    rcases hsignal with rfl | ⟨u, rfl⟩
    · rw [hdelivered.silent_eq, hsame]
    · rw [← hsame, hdelivered.unpark_eq]
      by_cases ht : t = u
      · rw [ht, update_self]
        exact call_unpark _
      · rw [update_of_ne ht]
  | step choice hlocal hwait =>
    have houter : (CondVar.machine Tid).Delivered signal
        (update (callPool ids p).threads label.thread moved.call) (callPool ids p').threads :=
      hdelivered.map_update Thread.call asleepOn_call (fun _ _ ↦ call_wake) call_unpark
    have hmachine : (CondVar.machine Tid).step label.thread (callPool ids p).shared
        ((callPool ids p).threads label.thread) choice =
          some ((callPool ids p').shared, moved.call, signal) := hlocal
    have hpool : ∃ woken, (CondVar.system Tid predicate).step (callPool ids p)
        ⟨label.thread, choice, woken⟩ = some (callPool ids p') :=
      Machine.exists_step hmachine houter
    exact .inr ⟨_, hpool.choose_spec, rfl, hwait⟩

omit [DecidableEq Tid] [Fintype Tid] in
theorem callPool_new : callPool ids (new Tid predicate) = CondVar.new Tid predicate := by
  refine Pool.ext ?_ rfl
  show Shared.view ids _ = _
  simp only [Shared.view, new, CondVar.new]
  congr 1
  exact holder_zero ids

/-- In a run without a panic the two together are a run of the mutex and a run of the condition
variable over the mutex it assumes. Nobody is unwinding, and the mutex is not poisoned. -/
theorem refines_both
    (h : (system ids predicate).ReachableWhen (fun _ label ↦ label.choice ≠ .panic) p) :
    (MutexV1.system ids).Reachable (mutexPool p) ∧
      (CondVar.system Tid predicate).Reachable (callPool ids p) ∧
      p.shared.mutex.poisoned = false ∧
      ∀ t, (p.threads t).position ≠ .unwinding ∧ (p.threads t).position ≠ .panicked := by
  have hcalm := calm_of_run h
  refine ⟨mutexPool_reachable h, ?_, hcalm.clean, fun t ↦ ⟨fun hposition ↦ ?_, fun hposition ↦ ?_⟩⟩
  · refine h.map (callPool ids) callPool_new fun p label p' hrun hpanic hmove ↦ ?_
    rcases callPool_step (calm_of_run hrun) (mutexPool_reachable hrun) hpanic hmove with
      hsame | ⟨j, hstep, -⟩
    · exact .inl hsame
    · exact .inr ⟨j, trivial, hstep⟩
  all_goals
    have hfits := hcalm.fits t
    rw [Thread.Fits, hposition] at hfits
    cases hfits

end Calm

/-- `refines_both` on a run in which thread 0 is asleep and thread 1, which has locked the mutex and
made the predicate true, is inside `notify_all`. -/
theorem refines_both_two_threads :
    ∃ p : Pool (Fin 2) (Shared (Fin 2)) (Thread (Fin 2)),
      ((p.threads 0).position = .wait .asleep ∧ p.shared.predicate = true) ∧
        (MutexV1.system MutexV1.twoThreadIds).Reachable (mutexPool p) ∧
        (CondVar.system (Fin 2) false).Reachable (callPool MutexV1.twoThreadIds p) ∧
        p.shared.mutex.poisoned = false ∧
        ∀ t, (p.threads t).position ≠ .unwinding ∧ (p.threads t).position ≠ .panicked := by
  obtain ⟨p, hrun, hreached⟩ := System.exists_reachableWhen_of_exec
    (M := system MutexV1.twoThreadIds false) (fun _ label ↦ label.choice ≠ .panic)
    (P := fun p ↦ (p.threads 0).position = .wait .asleep ∧ p.shared.predicate = true)
    ([⟨0, .consume, none⟩] ++ List.replicate 14 ⟨0, .go, none⟩ ++ [⟨1, .lock, none⟩] ++
      List.replicate 4 ⟨1, .go, none⟩ ++
      [⟨1, .write true, none⟩, ⟨1, .notifyAll, none⟩, ⟨1, .go, none⟩]) (by decide)
  exact ⟨p, hreached, refines_both hrun⟩

/-! ### No notification is lost -/

/-- The thread has made the predicate true and has not completed a `notify_all` since. -/
def Position.owing : Position → Bool
  | .between owing => owing
  | .unlocking owing => owing
  | .notifyAll _ owing => owing
  | .notifyOne _ owing => owing
  | _ => false

/-- The thread is between the `fetch_add` and the `fetch_sub` of `wait`. -/
def Position.counted : Position → Bool
  | .wait .load => false
  | .wait (.fetchAdd _ _) => false
  | .wait _ => true
  | _ => false

theorem phase_owing (th : Thread Tid) : th.call.phase.owing = th.position.owing := by
  rw [Thread.call]
  cases th.position with
  | locking consumer =>
    simp only [Position.call]
    split_ifs <;> rfl
  | wait pc =>
    cases pc <;> try rfl
    simp only [Position.call]
    split_ifs <;> rfl
  | notifyAll pc owing => cases pc <;> rfl
  | _ => rfl

theorem phase_counted (th : Thread Tid) : th.call.phase.counted = th.position.counted := by
  rw [Thread.call]
  cases th.position with
  | locking consumer =>
    simp only [Position.call]
    split_ifs <;> rfl
  | wait pc =>
    cases pc <;> try rfl
    simp only [Position.call]
    split_ifs <;> rfl
  | notifyAll pc owing => cases pc <;> rfl
  | _ => rfl

theorem position_of_call_fetchAdd {th : Thread Tid} {state loadedAt : ℕ}
    (h : th.call = .wait (.fetchAdd state loadedAt)) :
    th.position = .wait (.fetchAdd state loadedAt) := by
  rw [Thread.call] at h
  cases hposition : th.position with
  | locking consumer =>
    rw [hposition, Position.call] at h
    split_ifs at h
  | wait pc =>
    rw [hposition] at h
    cases pc with
    | unlock =>
      rw [Position.call] at h
      split_ifs at h <;> cases h
    | _ => exact congrArg Position.wait (Call.wait.inj h)
  | _ =>
    rw [hposition] at h
    cases h

section Pending

variable [Fintype Tid] {ids : ThreadIds Tid} {predicate : Bool}
  {p : Pool Tid (Shared Tid) (Thread Tid)} {label : Label Tid Choice}

/-- The number of threads between the `fetch_add` and the `fetch_sub` of `wait`. -/
def counted (p : Pool Tid (Shared Tid) (Thread Tid)) : ℕ :=
  total (fun th ↦ if th.position.counted then 1 else 0) p.threads

/-- Nobody panics, fewer than `2^32` notifications fall between the load of `counter` in `wait` and
the sleep, and fewer than `2^32` threads are in `wait` at the same time. -/
structure Few (p : Pool Tid (Shared Tid) (Thread Tid)) (label : Label Tid Choice) : Prop where
  calm : label.choice ≠ .panic
  notifications : ∀ state loadedAt,
    (p.threads label.thread).position = .wait (.wait state loadedAt) →
      p.shared.notifications < loadedAt + 2 ^ 32
  waiting : ∀ state loadedAt,
    (p.threads label.thread).position = .wait (.fetchAdd state loadedAt) →
      counted p + 1 < 2 ^ 32

theorem counted_callPool : CondVar.counted (callPool ids p) = counted p := by
  refine Finset.sum_congr rfl fun t _ ↦ ?_
  show (if (p.threads t).call.phase.counted then 1 else 0) = _
  rw [phase_counted]

variable [DecidableEq Tid]

/-- Fewer than `2^32` threads keep the bound on those in `wait`. -/
theorem counted_lt_of_card (ids : ThreadIds Tid) (hthreads : Fintype.card Tid < 2 ^ 32)
    {state loadedAt : ℕ} {t : Tid}
    (hposition : (p.threads t).position = .wait (.fetchAdd state loadedAt)) :
    counted p + 1 < 2 ^ 32 := by
  have hfew : FewWaiting (callPool ids p) ⟨t, .go, none⟩ := fewWaiting_of_card hthreads
  have hcall : (p.threads t).call = .wait (.fetchAdd state loadedAt) := by
    rw [Thread.call, hposition]
    rfl
  have hlt := hfew state loadedAt hcall
  rwa [counted_callPool] at hlt

/-- While the predicate is true and a thread is asleep, some thread that has made the predicate true
has yet to complete its `notify_all`, in every state of a run within the bounds, with every step of
the mutex a step of the run. -/
theorem owing_of_asleep (h : (system ids predicate).ReachableWhen Few p)
    (htrue : p.shared.predicate = true) (hasleep : ∃ t, (p.threads t).position = .wait .asleep) :
    ∃ t, (p.threads t).position.owing = true := by
  have hcall : (CondVar.system Tid predicate).ReachableWhen CondVar.Few (callPool ids p) := by
    refine h.map (callPool ids) callPool_new fun p label p' hrun hfew hmove ↦ ?_
    have hquiet := hrun.mono fun _ _ hmeets ↦ hmeets.calm
    rcases callPool_step (calm_of_run hquiet) (mutexPool_reachable hrun) hfew.calm hmove with
      hsame | ⟨j, hstep, hthread, hwait⟩
    · exact .inl hsame
    · refine .inr ⟨j, ⟨fun state loadedAt hcall ↦ ?_, fun state loadedAt hcall ↦ ?_⟩, hstep⟩
      · rw [hthread] at hcall
        exact hfew.notifications state loadedAt (hwait state loadedAt hcall)
      · rw [hthread] at hcall
        rw [counted_callPool]
        exact hfew.waiting state loadedAt (position_of_call_fetchAdd hcall)
  obtain ⟨t, ht⟩ := hasleep
  have hsleeping : ((callPool ids p).threads t).phase = .sleeping := by
    show ((p.threads t).position.call _).phase = .sleeping
    rw [ht]
    rfl
  have hpromise := (promised hcall).fits t
  rw [hsleeping] at hpromise
  obtain ⟨u, hu⟩ := hpromise htrue
  exact ⟨u, (phase_owing _).symm.trans hu⟩

/-- `owing_of_asleep` on the run of `refines_both_two_threads`. -/
theorem owing_of_asleep_two_threads :
    ∃ p : Pool (Fin 2) (Shared (Fin 2)) (Thread (Fin 2)),
      ((p.threads 0).position = .wait .asleep ∧ p.shared.predicate = true) ∧
        ∃ t, (p.threads t).position.owing = true := by
  obtain ⟨p, hrun, hasleep, htrue⟩ := System.exists_reachableWhen_of_exec
    (M := system MutexV1.twoThreadIds false)
    (fun p label ↦ label.choice ≠ .panic ∧ p.shared.notifications < 2 ^ 32)
    (P := fun p ↦ (p.threads 0).position = .wait .asleep ∧ p.shared.predicate = true)
    ([⟨0, .consume, none⟩] ++ List.replicate 14 ⟨0, .go, none⟩ ++ [⟨1, .lock, none⟩] ++
      List.replicate 4 ⟨1, .go, none⟩ ++
      [⟨1, .write true, none⟩, ⟨1, .notifyAll, none⟩, ⟨1, .go, none⟩]) (by decide)
  have hfew : (system MutexV1.twoThreadIds false).ReachableWhen Few p :=
    hrun.mono fun p label hmeets ↦
      { calm := hmeets.1
        notifications := fun _ _ _ ↦ Nat.lt_add_left _ hmeets.2
        waiting := fun _ _ ↦ counted_lt_of_card MutexV1.twoThreadIds (by decide) }
  exact ⟨p, ⟨hasleep, htrue⟩, owing_of_asleep hfew htrue ⟨0, hasleep⟩⟩

end Pending

end SyncPrimitives.CondVar.WithMutex
