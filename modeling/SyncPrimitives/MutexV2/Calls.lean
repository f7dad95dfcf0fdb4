import SyncPrimitives.MutexCalls.Owners
import SyncPrimitives.MutexV2.ManyMutexes

/-!
# Many mutexes of the second version, call by call

Run call by call, the mutexes of `mutex_v2.rs` are their owners (`refines_owners`). The relation is
`Represents`: the word of a mutex is `LOCKED` or `UNLOCKED`, since only a `lock` that waits stores
`LOCKED_HAS_WAITERS`; the set of a thread holds the ids of the mutexes it owns; and a thread has the
guard of the mutexes it owns and has not leaked. `Inside` tells what a pool in the middle of a call
shares with the pool before it.
-/

set_option autoImplicit false
set_option relaxedAutoImplicit false

namespace SyncPrimitives.MutexV2.Many

open Concurrency Function Relation StateTransition
open MutexCommon hiding Method
open MutexCalls (Ownership Version Method Result)

variable {Tid Mutex α : Type} [DecidableEq Mutex]

/-- The second version, as a program sees it between two calls. -/
def version (Tid : Type) (ids : MutexIds Mutex) (α : Type) :
    Version Tid Mutex (Shared Mutex α) (Thread Mutex α) (Choice Mutex α) (Mutex × Addr) where
  machine := machine Tid ids α
  choose := fun mutex choice ↦ ⟨mutex, .lock choice⟩
  idle := fun th ↦ th.position = none
  result := Thread.result
  guards := Thread.guards
  forget := fun th mutex ↦ { th with guards := update th.guards mutex (th.guards mutex - 1) }
  isPoisoned := fun shared mutex ↦ (shared mutex).lock.poisoned
  mayLock := fun shared _ th mutex ↦
    (shared mutex).lock.state = unlocked ∨ ids.get mutex ∈ th.acquiredByThread

variable {ids : MutexIds Mutex} {t : Tid} {mutex : Mutex}
  {p p' : Pool Tid (Shared Mutex α) (Thread Mutex α)}

/-! ### In the middle of a call -/

/-- The pool with one thread inside a call on one mutex. -/
structure Inside (ids : MutexIds Mutex) (p : Pool Tid (Shared Mutex α) (Thread Mutex α)) (t : Tid)
    (mutex : Mutex) (state : MutexV2.Shared × MutexV2.Thread)
    (p' : Pool Tid (Shared Mutex α) (Thread Mutex α)) : Prop where
  word : (p'.shared mutex).lock = state.1
  words : ∀ other, other ≠ mutex → (p'.shared other).lock = (p.shared other).lock
  position : (p'.threads t).position =
    if state.2.call = .idle then none else some (mutex, state.2.call)
  view : ((p'.threads t).view ids mutex).lock = state.2
  views : ∀ other, other ≠ mutex →
    ((p'.threads t).view ids other).lock = ((p.threads t).view ids other).lock
  threads : ∀ u, u ≠ t → p'.threads u = p.threads u

section Calls

variable [DecidableEq Tid] [Fintype Tid] {choice : MutexCommon.Choice}
  {state after begun : MutexV2.Shared × MutexV2.Thread}

omit [DecidableEq Tid] [Fintype Tid] in
theorem Inside.position_all (h : Inside ids p t mutex state p') :
    (p'.threads t).position.all (·.1 = mutex) = true := by
  rw [h.position]
  split <;> simp

/-- What a thread has loaded goes with its guard. -/
def moved (th : Guarded.Local MutexV2.Thread α) (lock : MutexV2.Thread) :
    Guarded.Local MutexV2.Thread α where
  lock := lock
  loaded := if guards.owns lock then th.loaded else none

/-- A step on the mutex is a step of the pool. -/
theorem Inside.step (h : Inside ids p t mutex state p')
    (hstep : (MutexV2.machine Tid).silentStep t choice state = some after) :
    ∃ p'', (machine Tid ids α).solo t ⟨mutex, .lock choice⟩ p' = some p'' ∧
      Inside ids p t mutex after p'' := by
  have hlock := Machine.step_of_silentStep hstep
  rw [← h.word, ← h.view] at hlock
  have hmachine : (machine Tid ids α).step t p'.shared (p'.threads t) ⟨mutex, .lock choice⟩ =
      some (update p'.shared mutex { p'.shared mutex with lock := after.1 },
        (p'.threads t).put ids mutex (moved ((p'.threads t).view ids mutex) after.2), .silent) := by
    simp [machine, Many.step, h.position_all, Machine.guarded, hlock, Signal.map, moved]
  refine ⟨_, Machine.solo_eq_some hmachine, ?_, ?_, ?_, ?_, ?_, ?_⟩
  case refine_1 => simp
  case refine_2 =>
    intro other hother
    simp [hother, h.words other hother]
  case refine_3 =>
    simp only [update_self]
    rfl
  case refine_4 => simp [view_put, moved]
  case refine_5 =>
    intro other hother
    simp only [update_self]
    rw [view_put_of_ne h.position_all hother, h.views other hother]
  case refine_6 =>
    intro u hu
    simp only [update_of_ne hu]
    exact h.threads u hu

omit [DecidableEq Tid] [Fintype Tid] in
/-- Before the call. -/
theorem Inside.refl (hidle : (p.threads t).position = none) :
    Inside ids p t mutex ((p.shared mutex).lock, ((p.threads t).view ids mutex).lock) p where
  word := rfl
  words := fun _ _ ↦ rfl
  position := by simp [hidle, Thread.view, Thread.callAt]
  view := rfl
  views := fun _ _ ↦ rfl
  threads := fun _ _ ↦ rfl

theorem Inside.reaches (h : Inside ids p t mutex state p')
    (hruns : Reaches ((MutexV2.machine Tid).silentStep t .go) state after) :
    ∃ p'', Reaches ((machine Tid ids α).solo t ⟨mutex, .lock .go⟩) p' p'' ∧
      Inside ids p t mutex after p'' := by
  induction hruns with
  | refl => exact ⟨p', .refl, h⟩
  | tail _ hstep ih =>
    obtain ⟨middle, hmiddle, hinside⟩ := ih
    obtain ⟨last, hlast, hafter⟩ := hinside.step hstep
    exact ⟨last, hmiddle.tail hlast, hafter⟩

/-- A call that takes its steps on the mutex ends in the pool. -/
theorem exists_ends (hidle : (p.threads t).position = none)
    (hbegun : (MutexV2.machine Tid).silentStep t choice
      ((p.shared mutex).lock, ((p.threads t).view ids mutex).lock) = some begun)
    (hruns : Reaches ((MutexV2.machine Tid).silentStep t .go) begun after)
    (hends : after.2.call = .idle) :
    ∃ p', (version Tid ids α).Ends p t mutex choice p' ∧ Inside ids p t mutex after p' := by
  obtain ⟨first, hfirst, hinside⟩ := (Inside.refl hidle).step hbegun
  obtain ⟨last, hlast, hafter⟩ := hinside.reaches hruns
  have hposition : (last.threads t).position = none := by
    rw [hafter.position, if_pos hends]
  have hstuck : (machine Tid ids α).solo t ⟨mutex, .lock .go⟩ last = none := by
    refine Machine.solo_eq_none ?_
    simp [machine, Many.step, hposition, Machine.guarded, MutexV2.machine,
      MutexV2.step, Thread.view, Thread.callAt, idleStep]
  exact ⟨last, ⟨first, hfirst, mem_eval.mpr ⟨hlast, hstuck⟩, hposition⟩, hafter⟩

/-- A call that cannot begin does not end. -/
theorem not_ends_of_none (hidle : (p.threads t).position = none)
    (hnone : (MutexV2.machine Tid).step t (p.shared mutex).lock
      ((p.threads t).view ids mutex).lock choice = none)
    (p' : Pool Tid (Shared Mutex α) (Thread Mutex α)) :
    ¬ (version Tid ids α).Ends p t mutex choice p' := by
  rintro ⟨begun, hbegun, -⟩
  have hsolo : (machine Tid ids α).solo t ⟨mutex, .lock choice⟩ p = none := by
    refine Machine.solo_eq_none ?_
    simp [machine, Many.step, hidle, Machine.guarded, hnone]
  cases hsolo.symm.trans hbegun

end Calls

/-! ### Calls on one mutex -/

/-- The word and the poison flag of a mutex between two calls. -/
def fields (o : Ownership Tid) : MutexV2.Shared where
  state := if o.owner.isNone then unlocked else locked
  poisoned := o.poisoned

section Methods

variable {o : Ownership Tid} {th : MutexV2.Thread}

/-- An acquired mutex, and the thread whose call returns. -/
def acquired (o : Ownership Tid) (t : Tid) (th : MutexV2.Thread) :
    MutexV2.Shared × MutexV2.Thread :=
  (fields (o.acquire t), finish (fields o) th.acquire)

theorem lock_free (hfree : o.owner = none) (hnot : th.acquired = false) :
    Reaches ((MutexV2.machine Tid).silentStep t .go) (fields o, th.goto (.lock .acquiredCheck))
      (acquired o t th) := by
  refine .head (b := (fields o, th.goto (.lock .compareExchangeWeak))) ?_ ?_
  · simp [Machine.silentStep, MutexV2.machine, MutexV2.step, MutexV2.Thread.goto, lockStep,
      acquiredCheck, hnot, quiet]
  refine .head (b := (fields (o.acquire t), th.acquire)) ?_ (.single ?_)
  · simp [Machine.silentStep, MutexV2.machine, MutexV2.step, MutexV2.Thread.goto, lockStep, quiet,
      fields, hfree, MutexV2.Thread.acquire, Ownership.acquire]
  · simp [Machine.silentStep, MutexV2.machine, MutexV2.step, MutexV2.Thread.acquire, quiet,
      acquired, finish, fields, Ownership.acquire]

theorem lock_owned (howned : th.acquired = true) :
    Reaches ((MutexV2.machine Tid).silentStep t .go) (fields o, th.goto (.lock .acquiredCheck))
      (fields o, th.ret (.error .wouldBlock)) := by
  refine .single ?_
  simp [Machine.silentStep, MutexV2.machine, MutexV2.step, MutexV2.Thread.goto, lockStep,
    acquiredCheck, howned, quiet, MutexV2.Thread.ret]

theorem tryLock_free (hfree : o.owner = none) (hnot : th.acquired = false) :
    Reaches ((MutexV2.machine Tid).silentStep t .go) (fields o, th.goto (.tryLock .acquiredCheck))
      (acquired o t th) := by
  refine .head (b := (fields o, th.goto (.tryLock .compareExchangeWeak))) ?_ ?_
  · simp [Machine.silentStep, MutexV2.machine, MutexV2.step, MutexV2.Thread.goto, tryLockStep,
      acquiredCheck, hnot, quiet]
  refine .head (b := (fields (o.acquire t), th.acquire)) ?_ (.single ?_)
  · simp [Machine.silentStep, MutexV2.machine, MutexV2.step, MutexV2.Thread.goto, tryLockStep,
      quiet, fields, hfree, MutexV2.Thread.acquire, Ownership.acquire]
  · simp [Machine.silentStep, MutexV2.machine, MutexV2.step, MutexV2.Thread.acquire, quiet,
      acquired, finish, fields, Ownership.acquire]

theorem tryLock_owned (howned : o.owner ≠ none) :
    Reaches ((MutexV2.machine Tid).silentStep t .go) (fields o, th.goto (.tryLock .acquiredCheck))
      (fields o, th.ret (.error .wouldBlock)) := by
  by_cases hown : th.acquired = true
  · refine .single ?_
    simp [Machine.silentStep, MutexV2.machine, MutexV2.step, MutexV2.Thread.goto, tryLockStep,
      acquiredCheck, hown, quiet, MutexV2.Thread.ret]
  · refine .head (b := (fields o, th.goto (.tryLock .compareExchangeWeak))) ?_ (.single ?_)
    · simp [Machine.silentStep, MutexV2.machine, MutexV2.step, MutexV2.Thread.goto, tryLockStep,
        acquiredCheck, hown, quiet]
    · simp [Machine.silentStep, MutexV2.machine, MutexV2.step, MutexV2.Thread.goto, tryLockStep,
        quiet, fields, howned, locked, unlocked, MutexV2.Thread.ret]

/-- The drop of a guard finds no waiters. -/
theorem drop_held (panicking : Bool) (hidle : th.call = .idle) :
    Reaches ((MutexV2.machine Tid).silentStep t .go)
      ({ fields o with poisoned := o.poisoned || panicking }, th.goto (.drop .removeAcquired))
      (fields (o.release panicking), { th with acquired := false }) := by
  have hnone : ¬ (if o.owner = none then unlocked else locked) = lockedHasWaiters := by
    split <;> decide
  refine .head (b := ({ fields o with poisoned := o.poisoned || panicking },
    { th with call := .drop .swap, acquired := false })) rfl (.single ?_)
  simp [Machine.silentStep, MutexV2.machine, MutexV2.step, dropStep, hnone, quiet,
    MutexV2.Thread.goto, hidle, fields, Ownership.release]

end Methods

/-! ### The owners -/

variable [DecidableEq Tid]

/-- The pool between two calls, and the owners of its mutexes. -/
structure Represents (ids : MutexIds Mutex) (p : Pool Tid (Shared Mutex α) (Thread Mutex α))
    (o : Mutex → Ownership Tid) : Prop where
  mutexes : ∀ mutex, (p.shared mutex).lock = fields (o mutex)
  idle : ∀ t, (p.threads t).position = none
  acquired : ∀ t mutex,
    ids.get mutex ∈ (p.threads t).acquiredByThread ↔ (o mutex).owner = some t
  guards : ∀ t mutex, (p.threads t).guards mutex = (o mutex).guards t

section Owners

variable {o : Mutex → Ownership Tid} {after : Ownership Tid} {th : MutexV2.Thread}

theorem Represents.view_idle (h : Represents ids p o) :
    ((p.threads t).view ids mutex).lock.call = .idle := by
  simp [Thread.view, Thread.callAt, h.idle t]

theorem Represents.view_acquired (h : Represents ids p o) :
    ((p.threads t).view ids mutex).lock.acquired = true ↔ (o mutex).owner = some t :=
  decide_eq_true_iff.trans (h.acquired t mutex)

theorem Represents.view_guards (h : Represents ids p o) :
    ((p.threads t).view ids mutex).lock.guards = (o mutex).guards t := h.guards t mutex

/-- The pool after a call. Assumes: the call leaves the fields of the new owner, the set and the
guards of its thread are right for the new owner, and for the other threads nothing has changed. -/
theorem Inside.represents (hinside : Inside ids p t mutex (fields after, th) p')
    (h : Represents ids p o) (hidle : th.call = .idle)
    (hacquired : th.acquired = true ↔ after.owner = some t) (hguards : th.guards = after.guards t)
    (hothers : ∀ u, u ≠ t → after.guards u = (o mutex).guards u ∧
      (after.owner = some u ↔ (o mutex).owner = some u)) :
    Represents ids p' (update o mutex after) where
  mutexes := by
    intro other
    by_cases hother : other = mutex
    · subst hother
      rw [update_self, hinside.word]
    · rw [update_of_ne hother, hinside.words other hother, h.mutexes other]
  idle := by
    intro u
    by_cases hu : u = t
    · subst hu
      rw [hinside.position, if_pos hidle]
    · rw [hinside.threads u hu, h.idle u]
  acquired := by
    intro u other
    by_cases hu : u = t
    · subst hu
      by_cases hother : other = mutex
      · subst hother
        rw [update_self, ← hacquired]
        have hview := congrArg MutexV2.Thread.acquired hinside.view
        exact decide_eq_true_iff.symm.trans (Bool.eq_iff_iff.mp hview)
      · rw [update_of_ne hother, ← h.acquired u other]
        have hview := congrArg MutexV2.Thread.acquired (hinside.views other hother)
        exact decide_eq_decide.mp hview
    · rw [hinside.threads u hu, h.acquired u other]
      by_cases hother : other = mutex
      · subst hother
        rw [update_self, (hothers u hu).2]
      · rw [update_of_ne hother]
  guards := by
    intro u other
    by_cases hu : u = t
    · subst hu
      by_cases hother : other = mutex
      · subst hother
        rw [update_self, ← hguards]
        exact congrArg MutexV2.Thread.guards hinside.view
      · rw [update_of_ne hother, ← h.guards u other]
        exact congrArg MutexV2.Thread.guards (hinside.views other hother)
    · rw [hinside.threads u hu, h.guards u other]
      by_cases hother : other = mutex
      · subst hother
        rw [update_self, (hothers u hu).1]
      · rw [update_of_ne hother]

theorem begin_call (h : Represents ids p o) (t : Tid) (mutex : Mutex) (choice : MutexCommon.Choice)
    {begun : MutexV2.Shared} {caller : MutexV2.Thread}
    (hbegin : @idleStep Tid (fields (o mutex)) ((p.threads t).view ids mutex).lock choice =
      some (begun, caller, .silent)) :
    (MutexV2.machine Tid).silentStep t choice
      ((p.shared mutex).lock, ((p.threads t).view ids mutex).lock) = some (begun, caller) := by
  have hidle : ((p.threads t).view ids mutex).lock.call = .idle := h.view_idle
  simp [Machine.silentStep, MutexV2.machine, MutexV2.step, hidle, h.mutexes mutex, hbegin]

/-- A call that has acquired a free mutex. -/
theorem acquires (h : Represents ids p o) (hfree : (o mutex).owner = none)
    (hinside : Inside ids p t mutex (acquired (o mutex) t ((p.threads t).view ids mutex).lock) p') :
    Represents ids p' (update o mutex ((o mutex).acquire t)) := by
  refine hinside.represents h rfl ?_ ?_ fun u hu ↦ ⟨?_, ?_⟩
  · simp [finish, Ownership.acquire]
  · rw [Ownership.guards_acquire_self]
    show ((p.threads t).view ids mutex).lock.guards + 1 = 1
    rw [h.view_guards, Ownership.guards_free hfree]
  · rw [Ownership.guards_acquire_of_ne hu, Ownership.guards_free hfree]
  · simp [Ownership.acquire, hfree, hu.symm]

/-- A call that has been refused. -/
theorem refused (h : Represents ids p o) {ret : LockResult}
    (hinside : Inside ids p t mutex
      (fields (o mutex), ((p.threads t).view ids mutex).lock.ret ret) p') :
    Represents ids p' (update o mutex (o mutex)) :=
  hinside.represents h rfl h.view_acquired h.view_guards fun _ _ ↦ ⟨rfl, .rfl⟩

omit [DecidableEq Tid] in
theorem Inside.result {state : MutexV2.Shared × MutexV2.Thread}
    (hinside : Inside ids p t mutex state p') {ret : LockResult}
    (hret : state.2.result = some ret) :
    ((p'.threads t).result mutex).map Result.locked = some (.locked ret) := by
  have hview : (p'.threads t).result mutex = state.2.result :=
    congrArg MutexV2.Thread.result hinside.view
  rw [hview, hret]
  rfl

/-- The word and the set let `lock` return if and only if the owner does. -/
theorem mayLock_iff (h : Represents ids p o) :
    (version Tid ids α).mayLock p.shared t (p.threads t) mutex ↔ (o mutex).MayLock t := by
  show (p.shared mutex).lock.state = unlocked ∨ ids.get mutex ∈ (p.threads t).acquiredByThread ↔ _
  rw [h.mutexes mutex, h.acquired t mutex, Ownership.MayLock]
  cases howner : (o mutex).owner with
  | none => simp [fields, howner]
  | some owner => simp [fields, howner, locked, unlocked]

omit [DecidableEq Mutex] in
theorem represents_new (data : Mutex → α) : Represents ids (new Tid data) fun _ ↦ .new Tid where
  mutexes := fun _ ↦ rfl
  idle := fun _ ↦ rfl
  acquired := fun _ _ ↦ by simp [new, Ownership.new]
  guards := fun _ _ ↦ rfl

variable [Fintype Tid]

theorem lock_matches (h : Represents ids p o) (hmay : (o mutex).MayLock t) :
    (version Tid ids α).Matches (Represents ids) p o t mutex .lock ((o mutex).call t .lock) := by
  have hbegun := begin_call h t mutex (.call .lock) rfl
  simp only [Ownership.call]
  rcases hmay with hfree | howned
  · have hother : ¬ (o mutex).owner = some t := by simp [hfree]
    have hnot : ((p.threads t).view ids mutex).lock.acquired = false :=
      Bool.eq_false_iff.mpr (mt h.view_acquired.mp hother)
    rw [if_neg hother, if_pos hfree]
    obtain ⟨p', hends, hinside⟩ := exists_ends (h.idle t) hbegun (lock_free hfree hnot) rfl
    exact ⟨p', ⟨hends, hinside.result rfl⟩, acquires h hfree hinside⟩
  · rw [if_pos howned]
    obtain ⟨p', hends, hinside⟩ :=
      exists_ends (h.idle t) hbegun (lock_owned (h.view_acquired.mpr howned)) rfl
    exact ⟨p', ⟨hends, hinside.result rfl⟩, refused h hinside⟩

theorem tryLock_matches (h : Represents ids p o) :
    (version Tid ids α).Matches (Represents ids) p o t mutex .tryLock
      ((o mutex).call t .tryLock) := by
  have hbegun := begin_call h t mutex (.call .tryLock) rfl
  simp only [Ownership.call]
  by_cases hfree : (o mutex).owner = none
  · have hother : ¬ (o mutex).owner = some t := by simp [hfree]
    have hnot : ((p.threads t).view ids mutex).lock.acquired = false :=
      Bool.eq_false_iff.mpr (mt h.view_acquired.mp hother)
    rw [if_pos hfree]
    obtain ⟨p', hends, hinside⟩ := exists_ends (h.idle t) hbegun (tryLock_free hfree hnot) rfl
    exact ⟨p', ⟨hends, hinside.result rfl⟩, acquires h hfree hinside⟩
  · rw [if_neg hfree]
    obtain ⟨p', hends, hinside⟩ := exists_ends (h.idle t) hbegun (tryLock_owned hfree) rfl
    exact ⟨p', ⟨hends, hinside.result rfl⟩, refused h hinside⟩

theorem drop_matches (h : Represents ids p o) (panicking : Bool) :
    (version Tid ids α).Matches (Represents ids) p o t mutex (.drop panicking)
      ((o mutex).call t (.drop panicking)) := by
  have hview : ((p.threads t).view ids mutex).lock.guards = (o mutex).guards t := h.view_guards
  simp only [Ownership.call]
  by_cases hheld : 0 < (o mutex).guards t
  · rw [if_pos hheld]
    have hpos : 0 < ((p.threads t).view ids mutex).lock.guards := hview ▸ hheld
    have hbegun := begin_call h t mutex (.drop panicking) (if_pos hpos)
    have hcaller : ({ ((p.threads t).view ids mutex).lock with
        guards := ((p.threads t).view ids mutex).lock.guards - 1 } : MutexV2.Thread).call = .idle :=
      h.view_idle
    obtain ⟨p', hends, hinside⟩ :=
      exists_ends (h.idle t) hbegun (drop_held panicking hcaller) hcaller
    have howner := (Ownership.guards_pos_iff.mp hheld).1
    refine ⟨p', ⟨hends, rfl⟩, hinside.represents h hcaller ?_ ?_ fun u hu ↦ ⟨?_, ?_⟩⟩
    · simp [Ownership.release]
    · show ((p.threads t).view ids mutex).lock.guards - 1 = _
      rw [hview, Ownership.guards_self hheld, Ownership.guards_release]
    · rw [Ownership.guards_release, Ownership.guards_of_ne hheld hu]
    · simp [Ownership.release, howner, hu.symm]
  · rw [if_neg hheld]
    rintro p' result ⟨hends, -⟩
    refine not_ends_of_none (h.idle t) ?_ p' hends
    have hidle : ((p.threads t).view ids mutex).lock.call = .idle := h.view_idle
    simp [MutexV2.machine, MutexV2.step, hidle, idleStep, hview, Nat.eq_zero_of_not_pos hheld]

omit [Fintype Tid] in
/-- A guard that is forgotten changes nothing but the number of guards. -/
theorem inside_forget (h : Represents ids p o) :
    Inside ids p t mutex (fields { o mutex with held := false },
        { ((p.threads t).view ids mutex).lock with
          guards := ((p.threads t).view ids mutex).lock.guards - 1 })
      { p with
        threads := update p.threads t ((version Tid ids α).forget (p.threads t) mutex) } where
  word := h.mutexes mutex
  words := fun _ _ ↦ rfl
  position := by simp [version, h.idle t, Thread.view, Thread.callAt]
  view := by simp [version, Thread.view, Thread.callAt]
  views := fun other hother ↦ by simp [version, Thread.view, Thread.callAt, hother]
  threads := fun u hu ↦ update_of_ne hu ..

theorem leak_matches (h : Represents ids p o) :
    (version Tid ids α).Matches (Represents ids) p o t mutex .leak ((o mutex).call t .leak) := by
  have hview : (version Tid ids α).guards (p.threads t) mutex = (o mutex).guards t :=
    h.guards t mutex
  simp only [Ownership.call]
  by_cases hheld : 0 < (o mutex).guards t
  · rw [if_pos hheld]
    refine ⟨_, ⟨hview ▸ hheld, rfl, rfl⟩,
      (inside_forget h).represents h h.view_idle h.view_acquired ?_
      fun u hu ↦ ⟨?_, .rfl⟩⟩
    · show (p.threads t).guards mutex - 1 = _
      rw [h.guards, Ownership.guards_self hheld, Ownership.guards_leaked]
    · rw [Ownership.guards_leaked, Ownership.guards_of_ne hheld hu]
  · rw [if_neg hheld]
    rintro p' result ⟨hpos, -⟩
    exact hheld (hview ▸ hpos)

theorem clearPoison_matches (h : Represents ids p o) :
    (version Tid ids α).Matches (Represents ids) p o t mutex .clearPoison
      ((o mutex).call t .clearPoison) := by
  have hbegun := begin_call h t mutex .clearPoison rfl
  obtain ⟨p', hends, hinside⟩ := exists_ends (h.idle t) hbegun .refl h.view_idle
  have hcleared : Represents ids p' (update o mutex { o mutex with poisoned := false }) :=
    hinside.represents h h.view_idle h.view_acquired h.view_guards fun _ _ ↦ ⟨rfl, .rfl⟩
  exact ⟨p', ⟨hends, rfl⟩, hcleared⟩

theorem isPoisoned_matches (h : Represents ids p o) :
    (version Tid ids α).Matches (Represents ids) p o t mutex .isPoisoned
      ((o mutex).call t .isPoisoned) := by
  refine ⟨p, ⟨rfl, ?_⟩, ?_⟩
  · show Result.poisoned (o mutex).poisoned = .poisoned (p.shared mutex).lock.poisoned
    rw [h.mutexes mutex]
    rfl
  · rwa [update_eq_self]

/-- Every call does to the mutexes what it does to their owners. -/
theorem call_matches (h : Represents ids p o) (method : Method)
    (hmay : method = .lock → (o mutex).MayLock t) :
    (version Tid ids α).Matches (Represents ids) p o t mutex method ((o mutex).call t method) := by
  cases method with
  | lock => exact lock_matches h (hmay rfl)
  | tryLock => exact tryLock_matches h
  | drop panicking => exact drop_matches h panicking
  | leak => exact leak_matches h
  | isPoisoned => exact isPoisoned_matches h
  | clearPoison => exact clearPoison_matches h

/-- The second version refines the owners. -/
theorem refines_owners (ids : MutexIds Mutex) (data : Mutex → α) :
    (version Tid ids α).Refines (new Tid data) (Represents ids) where
  start := represents_new data
  mayLock := fun _ _ _ _ h ↦ mayLock_iff h
  guards := fun _ _ t mutex h ↦ h.guards t mutex
  call := fun _ _ _ _ method h hmay ↦ call_matches h method hmay

end Owners

end SyncPrimitives.MutexV2.Many
