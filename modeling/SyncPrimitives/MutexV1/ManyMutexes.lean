import SyncPrimitives.MutexCalls.Owners
import SyncPrimitives.MutexV1.Model
import Mathlib.Tactic.SplitIfs

/-!
# Many mutexes of the first version, call by call

Any number of mutexes, used by any number of threads. A thread is inside at most one call at a time,
on one of the mutexes, and may own guards of any number of them; it has one unpark token for all of
them. `Thread.view` is what one mutex sees of a thread and `Thread.put` writes it back, so a step on
a mutex is a step of `mutex_v1.rs` on its fields.

Run call by call, the mutexes are their owners (`refines_owners`). The relation is `Represents`: the
word of a mutex is the id of its owner or zero, nobody is in its queue, and a thread has the guard
of the mutexes it owns and has not leaked.
-/

set_option autoImplicit false
set_option relaxedAutoImplicit false

namespace SyncPrimitives.MutexV1.Many

open Concurrency Function Relation StateTransition
open MutexCommon hiding Method
open MutexCalls (Ownership Version Method Result)

/-- What a thread is doing on which mutex, its unpark token, and for each mutex the guards it owns
and what its last finished call returned. -/
structure Thread (Tid Mutex : Type) where
  position : Option (Mutex × Call Tid)
  token : Bool
  guards : Mutex → ℕ
  result : Mutex → Option LockResult

section Steps

variable {Tid Mutex : Type} [DecidableEq Mutex] (ids : ThreadIds Tid) (th : Thread Tid Mutex)

/-- What a thread is doing on one mutex. -/
def Thread.callAt (mutex : Mutex) : Call Tid :=
  match th.position with
  | some (other, call) => if other = mutex then call else .idle
  | none => .idle

/-- What one mutex sees of a thread. -/
def Thread.view (mutex : Mutex) : MutexV1.Thread Tid where
  call := th.callAt mutex
  token := th.token
  guards := th.guards mutex
  result := th.result mutex

/-- The position of a call on a mutex. -/
def positionOf (mutex : Mutex) : Call Tid → Option (Mutex × Call Tid)
  | .idle => none
  | call => some (mutex, call)

/-- The thread after a step on one mutex. -/
def Thread.put (mutex : Mutex) (moved : MutexV1.Thread Tid) : Thread Tid Mutex where
  position := positionOf mutex moved.call
  token := moved.token
  guards := update th.guards mutex moved.guards
  result := update th.result mutex moved.result

/-- What resolves a step: the mutex, and the choice there. -/
structure Choice (Mutex : Type) where
  mutex : Mutex
  choice : MutexCommon.Choice

/-- The mutexes. -/
abbrev Shared (Tid Mutex : Type) := Mutex → MutexV1.Shared Tid

/-- One step of a thread; a thread inside a call on another mutex cannot use this one. -/
def step (t : Tid) (shared : Shared Tid Mutex) (choice : Choice Mutex) :
    Option (Shared Tid Mutex × Thread Tid Mutex × Signal Tid Addr) :=
  if th.position.all (·.1 = choice.mutex) then
    ((MutexV1.machine ids).step t (shared choice.mutex) (th.view choice.mutex) choice.choice).map
      fun (after, moved, signal) ↦
        (update shared choice.mutex after, th.put choice.mutex moved, signal)
  else none

/-- `Thread::unpark`: a parked thread returns from `park`, any other thread gets the token. -/
def unpark : Thread Tid Mutex :=
  match th.position with
  | some (mutex, .lock (.enqueue .parked)) =>
    { th with position := some (mutex, .lock (.load 0)), token := false }
  | _ => { th with token := true }

end Steps

variable {Tid Mutex : Type} [DecidableEq Mutex]

/-- The threads of many mutexes. -/
def machine (ids : ThreadIds Tid) (Mutex : Type) [DecidableEq Mutex] :
    Machine Tid (Shared Tid Mutex) (Thread Tid Mutex) (Choice Mutex) Addr where
  step := fun t shared th choice ↦ step ids th t shared choice
  asleepOn := fun _ ↦ none
  wake := id
  unpark := unpark

/-- New mutexes, before any call. -/
def new (Tid Mutex : Type) : Pool Tid (Shared Tid Mutex) (Thread Tid Mutex) where
  shared := fun _ ↦ (MutexV1.new Tid).shared
  threads := fun _ ↦
    { position := none, token := false, guards := fun _ ↦ 0, result := fun _ ↦ none }

/-- The first version, as a program sees it between two calls. -/
def version (ids : ThreadIds Tid) (Mutex : Type) [DecidableEq Mutex] :
    Version Tid Mutex (Shared Tid Mutex) (Thread Tid Mutex) (Choice Mutex) Addr where
  machine := machine ids Mutex
  choose := Choice.mk
  idle := fun th ↦ th.position = none
  result := Thread.result
  guards := Thread.guards
  forget := fun th mutex ↦ { th with guards := update th.guards mutex (th.guards mutex - 1) }
  isPoisoned := fun shared mutex ↦ (shared mutex).poisoned
  mayLock := fun shared t _ mutex ↦ (shared mutex).state = 0 ∨ (shared mutex).state = ids.get t

/-! ### One of the mutexes -/

section Views

variable {th : Thread Tid Mutex} {mutex : Mutex} {moved : MutexV1.Thread Tid}

theorem view_put : (th.put mutex moved).view mutex = moved := by
  have hcall : (th.put mutex moved).callAt mutex = moved.call := by
    unfold Thread.put Thread.callAt
    cases moved.call <;> simp [positionOf]
  unfold Thread.view
  rw [hcall]
  simp [Thread.put]

theorem put_put {again : MutexV1.Thread Tid} :
    (th.put mutex moved).put mutex again = th.put mutex again := by
  simp [Thread.put]

theorem position_put : (th.put mutex moved).position.all (·.1 = mutex) = true := by
  unfold Thread.put
  cases moved.call <;> simp [positionOf]

end Views

variable {ids : ThreadIds Tid} {t : Tid} {mutex : Mutex}
  {p : Pool Tid (Shared Tid Mutex) (Thread Tid Mutex)}

/-- The pool with one thread inside a call on one mutex. -/
def inside [DecidableEq Tid] (p : Pool Tid (Shared Tid Mutex) (Thread Tid Mutex)) (t : Tid)
    (mutex : Mutex) (state : MutexV1.Shared Tid × MutexV1.Thread Tid) :
    Pool Tid (Shared Tid Mutex) (Thread Tid Mutex) where
  shared := update p.shared mutex state.1
  threads := update p.threads t ((p.threads t).put mutex state.2)

section Calls

variable [DecidableEq Tid] [Fintype Tid] {choice : MutexCommon.Choice}
  {state after begun : MutexV1.Shared Tid × MutexV1.Thread Tid}

/-- A step on the mutex is a step of the pool. -/
theorem solo_inside (h : (MutexV1.machine ids).silentStep t choice state = some after) :
    (machine ids Mutex).solo t ⟨mutex, choice⟩ (inside p t mutex state) =
      some (inside p t mutex after) := by
  have hstep := Machine.step_of_silentStep h
  have hmachine : (machine ids Mutex).step t (inside p t mutex state).shared
      ((inside p t mutex state).threads t) ⟨mutex, choice⟩ =
      some (update (inside p t mutex state).shared mutex after.1,
        ((inside p t mutex state).threads t).put mutex after.2, .silent) := by
    simp [machine, step, inside, position_put, view_put, hstep]
  rw [Machine.solo_eq_some hmachine]
  simp [inside, put_put]

/-- The first step of a call. -/
theorem solo_begin (hidle : (p.threads t).position = none)
    (h : (MutexV1.machine ids).silentStep t choice
      (p.shared mutex, (p.threads t).view mutex) = some begun) :
    (machine ids Mutex).solo t ⟨mutex, choice⟩ p = some (inside p t mutex begun) := by
  have hstep := Machine.step_of_silentStep h
  refine Machine.solo_eq_some ?_
  simp only at hstep
  simp [machine, step, hidle, hstep]

/-- A call that takes its steps on the mutex ends in the pool. -/
theorem ends_inside (hidle : (p.threads t).position = none)
    (hbegun : (MutexV1.machine ids).silentStep t choice
      (p.shared mutex, (p.threads t).view mutex) = some begun)
    (hruns : Reaches ((MutexV1.machine ids).silentStep t .go) begun after)
    (hends : after.2.call = .idle) :
    (version ids Mutex).Ends p t mutex choice (inside p t mutex after) := by
  have hlast : ((inside p t mutex after).threads t).position = none := by
    simp [inside, Thread.put, positionOf, hends]
  have hstuck : (machine ids Mutex).solo t ⟨mutex, .go⟩ (inside p t mutex after) = none := by
    refine Machine.solo_eq_none ?_
    simp [machine, step, hlast, MutexV1.machine, MutexV1.step, Thread.view, Thread.callAt, idleStep]
  have hreaches : Reaches ((machine ids Mutex).solo t ⟨mutex, .go⟩) (inside p t mutex begun)
      (inside p t mutex after) :=
    ReflTransGen.lift (inside p t mutex) (fun _ _ hstep ↦ solo_inside hstep) _ _ hruns
  exact ⟨_, solo_begin hidle hbegun, mem_eval.mpr ⟨hreaches, hstuck⟩, hlast⟩

/-- A call that cannot begin does not end. -/
theorem not_ends_of_none (hidle : (p.threads t).position = none)
    (hnone : MutexV1.step t (ids.get t) (p.shared mutex) ((p.threads t).view mutex) choice = none)
    (p' : Pool Tid (Shared Tid Mutex) (Thread Tid Mutex)) :
    ¬ (version ids Mutex).Ends p t mutex choice p' := by
  rintro ⟨begun, hbegun, -⟩
  have hsolo : (machine ids Mutex).solo t ⟨mutex, choice⟩ p = none := by
    refine Machine.solo_eq_none ?_
    simp [machine, step, hidle, MutexV1.machine, hnone]
  cases hsolo.symm.trans hbegun

end Calls

/-! ### Calls on one mutex -/

/-- The fields of a mutex between two calls. -/
def fields (ids : ThreadIds Tid) (o : Ownership Tid) : MutexV1.Shared Tid where
  queueIsAccessed := false
  state := o.owner.elim 0 ids.get
  queue := []
  poisoned := o.poisoned

section Methods

variable {o : Ownership Tid} {th : MutexV1.Thread Tid} {owner : Tid}

/-- An acquired mutex, and the thread whose call returns. -/
def acquired (ids : ThreadIds Tid) (o : Ownership Tid) (t : Tid) (th : MutexV1.Thread Tid) :
    MutexV1.Shared Tid × MutexV1.Thread Tid :=
  (fields ids (o.acquire t), th.acquire.ret (lockResult o.poisoned))

theorem lock_free (hfree : o.owner = none) :
    Reaches ((MutexV1.machine ids).silentStep t .go) (fields ids o, th.goto (.lock .loadOwner))
      (acquired ids o t th) := by
  have hstate : (fields ids o).state = 0 := by simp [fields, hfree]
  have hid : ¬ 0 = ids.get t := (ids.get_ne_zero t).symm
  refine .head (b := (fields ids o, th.goto (.lock (.load 0)))) ?_ ?_
  · simp [Machine.silentStep, MutexV1.machine, MutexV1.step, Thread.goto, lockStep, hstate, hid,
      spinLoop, quiet]
  refine .head (b := (fields ids o, th.goto (.lock (.compareExchange 0)))) ?_ ?_
  · simp [Machine.silentStep, MutexV1.machine, MutexV1.step, Thread.goto, lockStep, hstate, quiet]
  refine .head (b := (fields ids (o.acquire t), th.acquire)) ?_ (.single ?_)
  · simp [Machine.silentStep, MutexV1.machine, MutexV1.step, Thread.goto, lockStep, quiet,
      fields, hfree, MutexV1.Thread.acquire, Ownership.acquire]
  · simp [Machine.silentStep, MutexV1.machine, MutexV1.step, MutexV1.Thread.acquire, quiet,
      acquired, fields, Ownership.acquire]

theorem lock_owned (howned : o.owner = some t) :
    Reaches ((MutexV1.machine ids).silentStep t .go) (fields ids o, th.goto (.lock .loadOwner))
      (fields ids o, th.ret (.error .wouldBlock)) := by
  refine .single ?_
  simp [Machine.silentStep, MutexV1.machine, MutexV1.step, Thread.goto, lockStep, fields, howned,
    quiet, MutexV1.Thread.ret]

theorem tryLock_free (hfree : o.owner = none) :
    Reaches ((MutexV1.machine ids).silentStep t .go) (fields ids o, th.goto (.tryLock .loadOwner))
      (acquired ids o t th) := by
  have hstate : (fields ids o).state = 0 := by simp [fields, hfree]
  have hid : ¬ 0 = ids.get t := (ids.get_ne_zero t).symm
  refine .head (b := (fields ids o, th.goto (.tryLock .compareExchange))) ?_ ?_
  · simp [Machine.silentStep, MutexV1.machine, MutexV1.step, Thread.goto, tryLockStep,
      hstate, hid, quiet]
  refine .head (b := (fields ids (o.acquire t), th.acquire)) ?_ (.single ?_)
  · simp [Machine.silentStep, MutexV1.machine, MutexV1.step, Thread.goto, tryLockStep, quiet,
      fields, hfree, MutexV1.Thread.acquire, Ownership.acquire]
  · simp [Machine.silentStep, MutexV1.machine, MutexV1.step, MutexV1.Thread.acquire, quiet,
      acquired, fields, Ownership.acquire]

theorem tryLock_owned (howned : o.owner = some owner) :
    Reaches ((MutexV1.machine ids).silentStep t .go) (fields ids o, th.goto (.tryLock .loadOwner))
      (fields ids o, th.ret (.error .wouldBlock)) := by
  have hstate : (fields ids o).state = ids.get owner := by simp [fields, howned]
  by_cases howner : owner = t
  · refine .single ?_
    simp [Machine.silentStep, MutexV1.machine, MutexV1.step, Thread.goto, tryLockStep, hstate,
      howner, quiet, MutexV1.Thread.ret]
  · have hother : ¬ ids.get owner = ids.get t := fun heq ↦ howner (ids.get_injective heq)
    refine .head (b := (fields ids o, th.goto (.tryLock .compareExchange))) ?_ (.single ?_)
    · simp [Machine.silentStep, MutexV1.machine, MutexV1.step, Thread.goto, tryLockStep, hstate,
        hother, quiet]
    · simp [Machine.silentStep, MutexV1.machine, MutexV1.step, Thread.goto, tryLockStep, hstate,
        ids.get_ne_zero, quiet, MutexV1.Thread.ret]

/-- The drop of a guard finds nobody in the queue. -/
theorem drop_held (panicking : Bool) (hidle : th.call = .idle) :
    Reaches ((MutexV1.machine ids).silentStep t .go)
      ({ fields ids o with poisoned := o.poisoned || panicking }, th.goto (.drop .store))
      (fields ids (o.release panicking), th) := by
  have hgoto : th.goto .idle = th := by rw [← hidle]; rfl
  refine .head (b := (fields ids (o.release panicking), th.goto (.drop (.dequeue .load)))) rfl ?_
  refine .head (b := (fields ids (o.release panicking),
    th.goto (.drop (.dequeue .compareExchange)))) rfl ?_
  refine .head (b := ({ fields ids (o.release panicking) with queueIsAccessed := true },
    th.goto (.drop (.dequeue .isEmpty)))) rfl ?_
  refine .head (b := ({ fields ids (o.release panicking) with queueIsAccessed := true },
    th.goto (.drop (.dequeue (.store none))))) ?_ (.single ?_)
  · simp [Machine.silentStep, MutexV1.machine, MutexV1.step, Thread.goto, dropStep,
      dequeueThreadStep, fields, quiet]
  · exact congrArg (fun idle ↦ some (fields ids (o.release panicking), idle)) hgoto

end Methods

/-! ### The owners -/

variable [DecidableEq Tid]

/-- The pool between two calls, and the owners of its mutexes. -/
structure Represents (ids : ThreadIds Tid) (p : Pool Tid (Shared Tid Mutex) (Thread Tid Mutex))
    (o : Mutex → Ownership Tid) : Prop where
  mutexes : ∀ mutex, p.shared mutex = fields ids (o mutex)
  idle : ∀ t, (p.threads t).position = none
  guards : ∀ t mutex, (p.threads t).guards mutex = (o mutex).guards t

section Owners

variable {o : Mutex → Ownership Tid} {after : Ownership Tid} {th : MutexV1.Thread Tid}

theorem Represents.view_idle (h : Represents ids p o) :
    ((p.threads t).view mutex).call = .idle := by
  simp [Thread.view, Thread.callAt, h.idle t]

theorem Represents.view_guards (h : Represents ids p o) :
    ((p.threads t).view mutex).guards = (o mutex).guards t := h.guards t mutex

/-- The pool after a call. Assumes: the call leaves the fields of the new owner, its thread has the
guards of the new owner, and those of the others have not changed. -/
theorem Represents.inside (h : Represents ids p o) (hidle : th.call = .idle)
    (hguards : th.guards = after.guards t)
    (hothers : ∀ u, u ≠ t → after.guards u = (o mutex).guards u) :
    Represents ids (inside p t mutex (fields ids after, th)) (update o mutex after) where
  mutexes := by
    intro other
    by_cases hother : other = mutex
    · subst hother
      simp [Many.inside]
    · simp [Many.inside, hother, h.mutexes other]
  idle := by
    intro u
    by_cases hu : u = t
    · subst hu
      simp [Many.inside, Thread.put, positionOf, hidle]
    · simp [Many.inside, hu, h.idle u]
  guards := by
    intro u other
    by_cases hu : u = t
    · subst hu
      by_cases hother : other = mutex
      · subst hother
        simp [Many.inside, Thread.put, hguards]
      · simp [Many.inside, Thread.put, hother, h.guards u other]
    · by_cases hother : other = mutex
      · subst hother
        simp [Many.inside, hu, h.guards u other, hothers u hu]
      · simp [Many.inside, hu, hother, h.guards u other]

/-- The word of a mutex lets `lock` return if and only if its owner does. -/
theorem mayLock_iff (h : Represents ids p o) :
    (version ids Mutex).mayLock p.shared t (p.threads t) mutex ↔ (o mutex).MayLock t := by
  show (p.shared mutex).state = 0 ∨ (p.shared mutex).state = ids.get t ↔ _
  rw [h.mutexes mutex, Ownership.MayLock]
  cases howner : (o mutex).owner with
  | none => simp [fields, howner]
  | some owner => simp [fields, howner, ids.get_ne_zero, ids.get_injective.eq_iff]

omit [DecidableEq Mutex] in
theorem represents_new : Represents ids (new Tid Mutex) fun _ ↦ .new Tid where
  mutexes := fun _ ↦ rfl
  idle := fun _ ↦ rfl
  guards := fun _ _ ↦ rfl

theorem begin_call (h : Represents ids p o) (t : Tid) (mutex : Mutex) (choice : MutexCommon.Choice)
    {begun : MutexV1.Shared Tid} {caller : MutexV1.Thread Tid}
    (hbegin : idleStep (fields ids (o mutex)) ((p.threads t).view mutex) choice =
      some (begun, caller, .silent)) :
    (MutexV1.machine ids).silentStep t choice (p.shared mutex, (p.threads t).view mutex) =
      some (begun, caller) := by
  have hidle : ((p.threads t).view mutex).call = .idle := h.view_idle
  simp [Machine.silentStep, MutexV1.machine, MutexV1.step, hidle, h.mutexes mutex, hbegin]

/-- A call that acquires a free mutex. -/
theorem acquires (h : Represents ids p o) (hfree : (o mutex).owner = none) :
    Represents ids (inside p t mutex (acquired ids (o mutex) t ((p.threads t).view mutex)))
      (update o mutex ((o mutex).acquire t)) := by
  refine h.inside rfl ?_ fun u hu ↦ ?_
  · rw [Ownership.guards_acquire_self]
    show ((p.threads t).view mutex).guards + 1 = 1
    rw [h.view_guards, Ownership.guards_free hfree]
  · rw [Ownership.guards_acquire_of_ne hu, Ownership.guards_free hfree]

/-- A call that is refused. -/
theorem refused (h : Represents ids p o) (ret : LockResult) :
    Represents ids (inside p t mutex (fields ids (o mutex), ((p.threads t).view mutex).ret ret))
      (update o mutex (o mutex)) :=
  h.inside rfl h.view_guards fun _ _ ↦ rfl

theorem result_inside {state : MutexV1.Shared Tid × MutexV1.Thread Tid} {ret : LockResult}
    (hret : state.2.result = some ret) :
    (((inside p t mutex state).threads t).result mutex).map Result.locked = some (.locked ret) := by
  simp [inside, Thread.put, hret]

variable [Fintype Tid]

theorem lock_matches (h : Represents ids p o) (hmay : (o mutex).MayLock t) :
    (version ids Mutex).Matches (Represents ids) p o t mutex .lock ((o mutex).call t .lock) := by
  have hbegun := begin_call h t mutex (.call .lock) rfl
  simp only [Ownership.call]
  rcases hmay with hfree | howned
  · have hother : ¬ (o mutex).owner = some t := by simp [hfree]
    rw [if_neg hother, if_pos hfree]
    exact ⟨_, ⟨ends_inside (h.idle t) hbegun (lock_free hfree) rfl, result_inside rfl⟩,
      acquires h hfree⟩
  · rw [if_pos howned]
    exact ⟨_, ⟨ends_inside (h.idle t) hbegun (lock_owned howned) rfl, result_inside rfl⟩,
      refused h (.error .wouldBlock)⟩

theorem tryLock_matches (h : Represents ids p o) :
    (version ids Mutex).Matches (Represents ids) p o t mutex .tryLock
      ((o mutex).call t .tryLock) := by
  have hbegun := begin_call h t mutex (.call .tryLock) rfl
  simp only [Ownership.call]
  by_cases hfree : (o mutex).owner = none
  · rw [if_pos hfree]
    exact ⟨_, ⟨ends_inside (h.idle t) hbegun (tryLock_free hfree) rfl, result_inside rfl⟩,
      acquires h hfree⟩
  · obtain ⟨owner, howned⟩ := Option.ne_none_iff_exists'.mp hfree
    rw [if_neg hfree]
    exact ⟨_, ⟨ends_inside (h.idle t) hbegun (tryLock_owned howned) rfl, result_inside rfl⟩,
      refused h (.error .wouldBlock)⟩

theorem drop_matches (h : Represents ids p o) (panicking : Bool) :
    (version ids Mutex).Matches (Represents ids) p o t mutex (.drop panicking)
      ((o mutex).call t (.drop panicking)) := by
  have hview : ((p.threads t).view mutex).guards = (o mutex).guards t := h.view_guards
  simp only [Ownership.call]
  by_cases hheld : 0 < (o mutex).guards t
  · rw [if_pos hheld]
    have hpos : 0 < ((p.threads t).view mutex).guards := hview ▸ hheld
    have hbegun := begin_call h t mutex (.drop panicking) (if_pos hpos)
    have hcaller : ({ (p.threads t).view mutex with
        guards := ((p.threads t).view mutex).guards - 1 } : MutexV1.Thread Tid).call = .idle :=
      h.view_idle
    have hends := ends_inside (h.idle t) hbegun (drop_held panicking hcaller) hcaller
    refine ⟨_, ⟨hends, rfl⟩, h.inside hcaller ?_ fun u hu ↦ ?_⟩
    · show ((p.threads t).view mutex).guards - 1 = _
      rw [hview, Ownership.guards_self hheld, Ownership.guards_release]
    · rw [Ownership.guards_release, Ownership.guards_of_ne hheld hu]
  · rw [if_neg hheld]
    rintro p' result ⟨hends, -⟩
    refine not_ends_of_none (h.idle t) ?_ p' hends
    have hidle : ((p.threads t).view mutex).call = .idle := h.view_idle
    simp [MutexV1.step, hidle, idleStep, hview, Nat.eq_zero_of_not_pos hheld]

omit [Fintype Tid] in
/-- A guard that is forgotten changes nothing but the number of guards. -/
theorem forget_eq_inside (h : Represents ids p o) :
    ({ p with
        threads := update p.threads t ((version ids Mutex).forget (p.threads t) mutex) } :
      Pool Tid (Shared Tid Mutex) (Thread Tid Mutex)) =
      inside p t mutex (fields ids { o mutex with held := false },
        { (p.threads t).view mutex with guards := ((p.threads t).view mutex).guards - 1 }) := by
  have hidle := h.idle t
  have hfields : fields ids { o mutex with held := false } = p.shared mutex :=
    (h.mutexes mutex).symm
  simp [inside, hfields, update_eq_self, Thread.put, Thread.view, Thread.callAt, hidle, positionOf,
    version]

theorem leak_matches (h : Represents ids p o) :
    (version ids Mutex).Matches (Represents ids) p o t mutex .leak ((o mutex).call t .leak) := by
  have hview : (version ids Mutex).guards (p.threads t) mutex = (o mutex).guards t :=
    h.guards t mutex
  simp only [Ownership.call]
  by_cases hheld : 0 < (o mutex).guards t
  · rw [if_pos hheld]
    refine ⟨_, ⟨hview ▸ hheld, rfl, rfl⟩, ?_⟩
    rw [forget_eq_inside h]
    refine h.inside h.view_idle ?_ fun u hu ↦ ?_
    · show (p.threads t).guards mutex - 1 = _
      rw [h.guards, Ownership.guards_self hheld, Ownership.guards_leaked]
    · rw [Ownership.guards_leaked, Ownership.guards_of_ne hheld hu]
  · rw [if_neg hheld]
    rintro p' result ⟨hpos, -⟩
    exact hheld (hview ▸ hpos)

theorem clearPoison_matches (h : Represents ids p o) :
    (version ids Mutex).Matches (Represents ids) p o t mutex .clearPoison
      ((o mutex).call t .clearPoison) := by
  have hbegun := begin_call h t mutex .clearPoison rfl
  have hcleared : Represents ids
      (inside p t mutex (fields ids { o mutex with poisoned := false }, (p.threads t).view mutex))
      (update o mutex { o mutex with poisoned := false }) :=
    h.inside h.view_idle h.view_guards fun _ _ ↦ rfl
  exact ⟨_, ⟨ends_inside (h.idle t) hbegun .refl h.view_idle, rfl⟩, hcleared⟩

theorem isPoisoned_matches (h : Represents ids p o) :
    (version ids Mutex).Matches (Represents ids) p o t mutex .isPoisoned
      ((o mutex).call t .isPoisoned) := by
  refine ⟨p, ⟨rfl, ?_⟩, ?_⟩
  · show Result.poisoned (o mutex).poisoned = .poisoned (p.shared mutex).poisoned
    rw [h.mutexes mutex]
    rfl
  · rwa [update_eq_self]

/-- Every call does to the mutexes what it does to their owners. -/
theorem call_matches (h : Represents ids p o) (method : Method)
    (hmay : method = .lock → (o mutex).MayLock t) :
    (version ids Mutex).Matches (Represents ids) p o t mutex method ((o mutex).call t method) := by
  cases method with
  | lock => exact lock_matches h (hmay rfl)
  | tryLock => exact tryLock_matches h
  | drop panicking => exact drop_matches h panicking
  | leak => exact leak_matches h
  | isPoisoned => exact isPoisoned_matches h
  | clearPoison => exact clearPoison_matches h

/-- The first version refines the owners. -/
theorem refines_owners (ids : ThreadIds Tid) :
    (version ids Mutex).Refines (new Tid Mutex) (Represents ids) where
  start := represents_new
  mayLock := fun _ _ _ _ h ↦ mayLock_iff h
  guards := fun _ _ t mutex h ↦ h.guards t mutex
  call := fun _ _ _ _ method h hmay ↦ call_matches h method hmay

end Owners

end SyncPrimitives.MutexV1.Many
