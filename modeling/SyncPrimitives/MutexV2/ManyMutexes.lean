import SyncPrimitives.Concurrency.Ids
import SyncPrimitives.MutexV2.Exclusion

/-!
# Many mutexes of the second version

Any number of mutexes with the data behind them, used by any number of threads. A thread is inside
at most one call at a time, on one of the mutexes, and may own guards of any number of them; its set
`ACQUIRED_BY_THREAD` holds the ids of the mutexes it has acquired. `Thread.view` is what one mutex
sees of a thread and `Thread.put` writes it back, so a step on a mutex is a step of `mutex_v2.rs` on
its word and on the membership of its id. Every run with many mutexes is, for each of them, a run
with this mutex alone (`only_reachable`).

The ids are distinct, and this is what the `fetch_add` of `new` gives to up to `2 ^ 64` mutexes
(`ids_of_new_iff`).
-/

set_option autoImplicit false
set_option relaxedAutoImplicit false

namespace SyncPrimitives.MutexV2.Many

open Concurrency Function MutexCommon

/-- `mutex_id`: distinct mutexes have distinct ids. -/
structure MutexIds (Mutex : Type) where
  get : Mutex → ℕ
  get_injective : Injective get

/-- The ids that the calls of `new` have got from `NEXT_ID.fetch_add` are distinct ids if and only
if there have been at most `2 ^ 64` calls. -/
theorem ids_of_new_iff {Tid : Type} {nextId : IdCounter} (h : (drawing Tid).Reachable nextId) :
    (∃ ids : MutexIds (Fin nextId.drawn.length), ids.get = nextId.drawn.get) ↔
      nextId.drawn.length ≤ 2 ^ 64 := by
  rw [← drawn_injective_iff h]
  exact ⟨fun ⟨ids, hget⟩ ↦ hget ▸ ids.get_injective, fun hdistinct ↦ ⟨⟨_, hdistinct⟩, rfl⟩⟩

/-- What a thread is doing on which mutex, its set `ACQUIRED_BY_THREAD`, and for each mutex the
guards it owns, what it has loaded through one, and what its last finished call returned. -/
structure Thread (Mutex α : Type) where
  position : Option (Mutex × Call)
  acquiredByThread : Finset ℕ
  guards : Mutex → ℕ
  loaded : Mutex → Option α
  result : Mutex → Option LockResult

/-- A thread uses the data of a mutex between two calls, through a guard. -/
def guards : Guards MutexV2.Thread where
  owns := fun th ↦ 0 < th.guards
  idle := fun th ↦ th.call = .idle

section Steps

variable {Tid Mutex α : Type} [DecidableEq Mutex] (ids : MutexIds Mutex) (th : Thread Mutex α)

/-- What a thread is doing on one mutex. -/
def Thread.callAt (mutex : Mutex) : Call :=
  match th.position with
  | some (other, call) => if other = mutex then call else .idle
  | none => .idle

/-- What one mutex sees of a thread. -/
def Thread.view (mutex : Mutex) : Guarded.Local MutexV2.Thread α where
  lock :=
    { call := th.callAt mutex
      acquired := ids.get mutex ∈ th.acquiredByThread
      guards := th.guards mutex
      result := th.result mutex }
  loaded := th.loaded mutex

/-- The thread after a step on one mutex. -/
def Thread.put (mutex : Mutex) (moved : Guarded.Local MutexV2.Thread α) : Thread Mutex α where
  position := if moved.lock.call = .idle then none else some (mutex, moved.lock.call)
  acquiredByThread :=
    if moved.lock.acquired then insert (ids.get mutex) th.acquiredByThread
    else th.acquiredByThread.erase (ids.get mutex)
  guards := update th.guards mutex moved.lock.guards
  loaded := update th.loaded mutex moved.loaded
  result := update th.result mutex moved.lock.result

/-- What resolves a step: the mutex, and the choice there. -/
structure Choice (Mutex α : Type) where
  mutex : Mutex
  choice : Guarded.Choice MutexCommon.Choice α

/-- The mutexes, each with its data. -/
abbrev Shared (Mutex α : Type) := Mutex → Guarded.Shared MutexV2.Shared α

/-- One step of a thread; a thread inside a call on another mutex cannot use this one. -/
def step (t : Tid) (shared : Shared Mutex α) (choice : Choice Mutex α) :
    Option (Shared Mutex α × Thread Mutex α × Signal Tid (Mutex × Addr)) :=
  if th.position.all (·.1 = choice.mutex) then
    (((MutexV2.machine Tid).guarded guards α).step t (shared choice.mutex)
        (th.view ids choice.mutex) choice.choice).map fun (after, moved, signal) ↦
      (update shared choice.mutex after, th.put ids choice.mutex moved,
        signal.map fun addr ↦ (choice.mutex, addr))
  else none

/-- The word on which a thread is asleep. -/
def asleepOn : Option (Mutex × Addr) :=
  match th.position with
  | some (mutex, .lock .asleep) => some (mutex, .state)
  | _ => none

/-- A thread whose `wait` has been woken. -/
def wake : Thread Mutex α :=
  match th.position with
  | some (mutex, .lock .asleep) => { th with position := some (mutex, .lock .slowCompareExchange) }
  | _ => th

end Steps

variable {Tid Mutex α : Type} [DecidableEq Mutex]

/-- The threads of many mutexes. -/
def machine (Tid : Type) (ids : MutexIds Mutex) (α : Type) :
    Machine Tid (Shared Mutex α) (Thread Mutex α) (Choice Mutex α) (Mutex × Addr) where
  step := fun t shared th choice ↦ step ids th t shared choice
  asleepOn := asleepOn
  wake := wake
  unpark := id

/-- New mutexes, before any call. -/
def new (Tid : Type) (data : Mutex → α) : Pool Tid (Shared Mutex α) (Thread Mutex α) where
  shared := fun mutex ↦
    { lock := { state := unlocked, poisoned := false }, data := data mutex, updates := [] }
  threads := fun _ ↦
    { position := none, acquiredByThread := ∅, guards := fun _ ↦ 0, loaded := fun _ ↦ none
      result := fun _ ↦ none }

/-- Any number of threads using any number of mutexes. -/
def system (Tid : Type) [DecidableEq Tid] [Fintype Tid] (ids : MutexIds Mutex) (data : Mutex → α) :
    System (Pool Tid (Shared Mutex α) (Thread Mutex α)) (Label Tid (Choice Mutex α)) :=
  (machine Tid ids α).system (new Tid data)

/-! ### One of the mutexes -/

/-- The system of one mutex with its data. -/
def systemOfOne (Tid : Type) [DecidableEq Tid] [Fintype Tid] (data : α) :=
  ((MutexV2.machine Tid).guarded guards α).system (Guarded.start (MutexV2.new Tid) data)

/-- What one mutex sees of all threads. -/
def only (ids : MutexIds Mutex) (mutex : Mutex) (p : Pool Tid (Shared Mutex α) (Thread Mutex α)) :
    Pool Tid (Guarded.Shared MutexV2.Shared α) (Guarded.Local MutexV2.Thread α) where
  shared := p.shared mutex
  threads := fun t ↦ (p.threads t).view ids mutex

section Views

variable {ids : MutexIds Mutex} {th : Thread Mutex α} {mutex other : Mutex}

theorem callAt_put {moved : Guarded.Local MutexV2.Thread α} :
    (th.put ids mutex moved).callAt mutex = moved.lock.call := by
  unfold Thread.callAt Thread.put
  by_cases hidle : moved.lock.call = .idle
  · simp [hidle]
  · simp [hidle]

theorem callAt_put_of_ne {moved : Guarded.Local MutexV2.Thread α}
    (hposition : th.position.all (·.1 = mutex) = true) (hne : other ≠ mutex) :
    (th.put ids mutex moved).callAt other = th.callAt other := by
  have hbefore : th.callAt other = .idle := by
    unfold Thread.callAt
    split
    case h_1 held call hcall =>
      rw [hcall] at hposition
      have hheld : held = mutex := by simpa using hposition
      rw [hheld, if_neg hne.symm]
    case h_2 => rfl
  rw [hbefore]
  unfold Thread.callAt Thread.put
  by_cases hidle : moved.lock.call = .idle
  · simp [hidle]
  · simp [hidle, hne.symm]

/-- What the mutex of a step sees is what the step has made. -/
theorem view_put {moved : Guarded.Local MutexV2.Thread α} :
    (th.put ids mutex moved).view ids mutex = moved := by
  have hacquired :
      decide (ids.get mutex ∈ (th.put ids mutex moved).acquiredByThread) = moved.lock.acquired := by
    unfold Thread.put
    cases moved.lock.acquired <;> simp
  unfold Thread.view
  rw [callAt_put, hacquired]
  simp [Thread.put]

/-- Another mutex sees no change. -/
theorem view_put_of_ne {moved : Guarded.Local MutexV2.Thread α}
    (hposition : th.position.all (·.1 = mutex) = true) (hne : other ≠ mutex) :
    (th.put ids mutex moved).view ids other = th.view ids other := by
  have hid : ids.get other ≠ ids.get mutex := fun heq ↦ hne (ids.get_injective heq)
  have hacquired : ids.get other ∈ (th.put ids mutex moved).acquiredByThread ↔
      ids.get other ∈ th.acquiredByThread := by
    unfold Thread.put
    cases moved.lock.acquired <;> simp [hid]
  unfold Thread.view
  rw [callAt_put_of_ne hposition hne]
  simp only [hacquired]
  simp [Thread.put, hne]

theorem asleepOn_iff {addr : Addr} :
    asleepOn th = some (mutex, addr) ↔ MutexV2.asleepOn (th.view ids mutex).lock = some addr := by
  cases addr
  unfold asleepOn MutexV2.asleepOn Thread.view Thread.callAt
  rcases th.position with - | ⟨held, call⟩
  · simp
  · by_cases hheld : held = mutex
    · subst hheld
      simp only [if_true]
      split <;> split <;> simp_all
    · simp only [if_neg hheld]
      split <;> simp_all

theorem view_wake {addr : Addr} (hasleep : MutexV2.asleepOn (th.view ids mutex).lock = some addr) :
    (wake th).view ids mutex =
      { th.view ids mutex with lock := MutexV2.wake (th.view ids mutex).lock } := by
  have hposition : th.position = some (mutex, .lock .asleep) := by
    have hsleeps := asleepOn_iff.mpr hasleep
    unfold asleepOn at hsleeps
    split at hsleeps
    case h_1 heq =>
      rw [heq, (Prod.mk.inj (Option.some.inj hsleeps)).1]
    case h_2 => cases hsleeps
  simp [wake, MutexV2.wake, Thread.view, Thread.callAt, hposition, MutexV2.Thread.goto]

theorem view_wake_of_ne {addr : Addr} (hasleep : asleepOn th = some (mutex, addr))
    (hne : other ≠ mutex) : (wake th).view ids other = th.view ids other := by
  unfold asleepOn at hasleep
  split at hasleep
  case h_1 held hposition =>
    obtain rfl := (Prod.mk.inj (Option.some.inj hasleep)).1
    simp [wake, Thread.view, Thread.callAt, hposition, hne.symm]
  case h_2 => cases hasleep

end Views

section Runs

variable {Tid : Type} [DecidableEq Tid] [Fintype Tid] {ids : MutexIds Mutex} {data : Mutex → α}
  {p p' : Pool Tid (Shared Mutex α) (Thread Mutex α)} {label : Label Tid (Choice Mutex α)}
  {mutex other : Mutex}

/-- A step on a mutex is a step of this mutex on what it sees of the thread. -/
theorem step_cases (h : (system Tid ids data).step p label = some p') :
    ∃ after moved signal,
      (p.threads label.thread).position.all (·.1 = label.choice.mutex) = true ∧
        ((MutexV2.machine Tid).guarded guards α).step label.thread (p.shared label.choice.mutex)
            ((p.threads label.thread).view ids label.choice.mutex) label.choice.choice =
          some (after, moved, signal) ∧
        p'.shared = update p.shared label.choice.mutex after ∧
        (machine Tid ids α).Delivered (signal.map fun addr ↦ (label.choice.mutex, addr))
          (update p.threads label.thread
            ((p.threads label.thread).put ids label.choice.mutex moved)) p'.threads := by
  obtain ⟨put, mapped, hlocal, hdelivered⟩ := Machine.step_cases h
  simp only [machine, step] at hlocal
  split_ifs at hlocal with hposition
  obtain ⟨⟨after, moved, signal⟩, hinner, heq⟩ := Option.map_eq_some_iff.mp hlocal
  simp only [Prod.mk.injEq] at heq
  obtain ⟨hafter, hput, hmapped⟩ := heq
  refine ⟨after, moved, signal, hposition, hinner, hafter.symm, ?_⟩
  rw [hput, hmapped]
  exact hdelivered

omit [Fintype Tid] in
/-- What the mutex of a step sees of the threads. -/
theorem view_update (t : Tid) (moved : Guarded.Local MutexV2.Thread α) :
    (fun u ↦ (update p.threads t ((p.threads t).put ids mutex moved) u).view ids mutex) =
      update (only ids mutex p).threads t moved := by
  funext u
  by_cases hu : u = t
  · subst hu
    rw [update_self, update_self, view_put]
  · rw [update_of_ne hu, update_of_ne hu]
    rfl

/-- The mutex of a step takes the step. -/
theorem only_step (h : (system Tid ids data).step p label = some p') :
    ∃ woken, (systemOfOne Tid (data label.choice.mutex)).step (only ids label.choice.mutex p)
      ⟨label.thread, label.choice.choice, woken⟩ = some (only ids label.choice.mutex p') := by
  obtain ⟨after, moved, signal, -, hinner, hshared, hdelivered⟩ := step_cases h
  have hmapped : ((MutexV2.machine Tid).guarded guards α).Delivered signal
      (fun u ↦ (update p.threads label.thread ((p.threads label.thread).put ids label.choice.mutex
        moved) u).view ids label.choice.mutex) (only ids label.choice.mutex p').threads :=
    hdelivered.map (fun addr ↦ (label.choice.mutex, addr))
      (fun th : Thread Mutex α ↦ th.view ids label.choice.mutex) (fun _ _ ↦ asleepOn_iff)
      (fun _ _ hasleep ↦ view_wake hasleep) fun _ ↦ rfl
  rw [view_update] at hmapped
  refine Machine.exists_step (Eq.trans hinner ?_) hmapped
  simp only [only, hshared, update_self]

/-- A step on one mutex changes nothing that another one sees. -/
theorem only_step_of_ne (h : (system Tid ids data).step p label = some p')
    (hne : other ≠ label.choice.mutex) : only ids other p' = only ids other p := by
  obtain ⟨after, moved, signal, hposition, -, hshared, hdelivered⟩ := step_cases h
  have hmid (u : Tid) : (update p.threads label.thread
      ((p.threads label.thread).put ids label.choice.mutex moved) u).view ids other =
        (p.threads u).view ids other := by
    by_cases hu : u = label.thread
    · subst hu
      rw [update_self, view_put_of_ne hposition hne]
    · rw [update_of_ne hu]
  refine Pool.ext ?_ (funext fun u ↦ ?_)
  · simp only [only, hshared, update_of_ne hne]
  · show (p'.threads u).view ids other = (p.threads u).view ids other
    rcases hdelivered.thread_on u with hsame | ⟨addr, hsignal, hasleep, hwoken⟩ | hsame
    · rw [hsame, hmid]
    · have haddr : ∃ inner, addr = (label.choice.mutex, inner) := by
        cases signal <;> simp only [Signal.map, reduceCtorEq, Signal.wakeOne.injEq,
          Signal.wakeAll.injEq, or_false, false_or, or_self] at hsignal
        · exact ⟨_, hsignal.symm⟩
        · exact ⟨_, hsignal.symm⟩
      obtain ⟨inner, rfl⟩ := haddr
      have hasleep' : asleepOn (update p.threads label.thread
          ((p.threads label.thread).put ids label.choice.mutex moved) u) =
            some (label.choice.mutex, inner) := hasleep
      rw [hwoken, ← hmid]
      exact view_wake_of_ne hasleep' hne
    · rw [hsame, ← hmid]
      rfl

/-- Every run with many mutexes is, for each of them, a run with this mutex alone. -/
theorem only_reachable (mutex : Mutex) (h : (system Tid ids data).Reachable p) :
    (systemOfOne Tid (data mutex)).Reachable (only ids mutex p) := by
  refine h.map (only ids mutex) ?_ fun p label p' _ _ hmove ↦ ?_
  · simp [system, systemOfOne, Machine.system, only, new, Guarded.start, MutexV2.new, Thread.view,
      Thread.callAt]
  · by_cases hmutex : mutex = label.choice.mutex
    · subst hmutex
      obtain ⟨woken, hone⟩ := only_step hmove
      exact .inr ⟨_, trivial, hone⟩
    · exact .inl (only_step_of_ne hmove hmutex)

/-! ### Exclusion -/

/-- A thread owns a mutex from its acquiring compare-and-exchange to the swap in the drop of its
guard. -/
def Owns (ids : MutexIds Mutex) (p : Pool Tid (Shared Mutex α) (Thread Mutex α)) (t : Tid)
    (mutex : Mutex) : Prop :=
  0 < ((p.threads t).view ids mutex).lock.outstanding

/-- What exclusion means for one of the mutexes in one state: its word differs from `UNLOCKED`
exactly if a thread owns it, it has one owner with one guard, the set of a thread between two calls
on it holds its id exactly if the thread owns it, `lock` refuses exactly the owner and changes
nothing, and no update is lost. -/
structure Excludes (ids : MutexIds Mutex) (data : Mutex → α)
    (p : Pool Tid (Shared Mutex α) (Thread Mutex α)) (mutex : Mutex) : Prop where
  locked_iff : (p.shared mutex).lock.state ≠ unlocked ↔ ∃ t, Owns ids p t mutex
  owner_unique : ∀ t u, Owns ids p t mutex → Owns ids p u mutex → t = u
  guard_unique : ∀ t, ((p.threads t).view ids mutex).lock.outstanding ≤ 1
  acquired_iff : ∀ t, (p.threads t).callAt mutex = .idle →
    (ids.get mutex ∈ (p.threads t).acquiredByThread ↔ Owns ids p t mutex)
  refused : ∀ label p', (system Tid ids data).step p label = some p' → label.choice.mutex = mutex →
    ((p.threads label.thread).callAt mutex).locking = true →
      (((p'.threads label.thread).view ids mutex).lock.Refused ↔
          (p.threads label.thread).callAt mutex = .lock .acquiredCheck ∧
          Owns ids p label.thread mutex) ∧
        (((p'.threads label.thread).view ids mutex).lock.Refused →
          p'.shared = p.shared ∧
            (p'.threads label.thread).acquiredByThread =
              (p.threads label.thread).acquiredByThread ∧
            (p'.threads label.thread).guards = (p.threads label.thread).guards)
  intact : Guarded.Intact guards (data mutex) (only ids mutex p)

/-- The invariant of one mutex holds of each of them. -/
theorem exclusive_only (mutex : Mutex) (h : (system Tid ids data).Reachable p) :
    Exclusive (Guarded.lockPool (only ids mutex p)) :=
  exclusive (Guarded.lockPool_reachable (only_reachable mutex h))

/-- No update of the data behind a mutex is lost. -/
theorem intact_only (mutex : Mutex) (h : (system Tid ids data).Reachable p) :
    Guarded.Intact guards (data mutex) (only ids mutex p) := by
  refine Guarded.intact (fun p hrun t u ht hu ↦ ?_) (fun th ↦ ?_) (fun _ ↦ rfl)
    (only_reachable mutex h)
  · simp only [guards, decide_eq_true_eq] at ht hu
    exact (exclusive hrun).eq_of_outstanding (Nat.add_pos_left ht _) (Nat.add_pos_left hu _)
  · show decide (0 < (MutexV2.wake th).guards) = decide (0 < th.guards)
    unfold MutexV2.wake
    split <;> rfl

/-- A thread whose view has not changed in what a refusal keeps has kept its set and its guards. -/
theorem put_unchanged {th : Thread Mutex α} {moved : Guarded.Local MutexV2.Thread α}
    {before after : MutexV2.Shared}
    (h : Unchanged before (th.view ids mutex).lock after moved.lock) :
    (th.put ids mutex moved).acquiredByThread = th.acquiredByThread ∧
      (th.put ids mutex moved).guards = th.guards := by
  constructor
  · have hacquired : moved.lock.acquired =
      decide (ids.get mutex ∈ th.acquiredByThread) := h.acquired
    unfold Thread.put
    by_cases hmem : ids.get mutex ∈ th.acquiredByThread
    · simp [hacquired, hmem]
    · simp [hacquired, hmem]
  · have hguards : moved.lock.guards = th.guards mutex := h.guards
    simp [Thread.put, hguards]

/-- `lock` refuses exactly the owner, and changes nothing when it does. -/
theorem refused_of_step (h : (system Tid ids data).Reachable p)
    (hmove : (system Tid ids data).step p label = some p')
    (hlocking : ((p.threads label.thread).callAt label.choice.mutex).locking = true) :
    (((p'.threads label.thread).view ids label.choice.mutex).lock.Refused ↔
        (p.threads label.thread).callAt label.choice.mutex = .lock .acquiredCheck ∧
          Owns ids p label.thread label.choice.mutex) ∧
      (((p'.threads label.thread).view ids label.choice.mutex).lock.Refused →
        p'.shared = p.shared ∧
          (p'.threads label.thread).acquiredByThread = (p.threads label.thread).acquiredByThread ∧
          (p'.threads label.thread).guards = (p.threads label.thread).guards) := by
  obtain ⟨after, moved, signal, -, hinner, hshared, hdelivered⟩ := step_cases hmove
  have hbusy : guards.idle ((p.threads label.thread).view ids label.choice.mutex).lock = false := by
    refine decide_eq_false fun hidle ↦ ?_
    have hcall : (p.threads label.thread).callAt label.choice.mutex = .idle := hidle
    rw [hcall] at hlocking
    cases hlocking
  have hmarked := (exclusive_only label.choice.mutex h).marked label.thread
  cases Guarded.step_move hinner with
  | lock choice hstep hdata hupdates hloaded =>
    obtain ⟨hsignal, hrefused, hkept⟩ := step_refused hlocking hstep
    have hmoved : p'.threads label.thread =
        (p.threads label.thread).put ids label.choice.mutex moved := by
      subst hsignal
      rw [hdelivered.silent_eq, update_self]
    rw [hmoved, view_put]
    constructor
    · rw [hrefused]
      refine and_congr_right fun hcheck ↦ ?_
      exact hmarked.acquired_iff (.inr hcheck)
    · intro hmovedRefused
      have hunchanged := hkept hmovedRefused
      refine ⟨?_, put_unchanged hunchanged⟩
      rw [hshared, Guarded.Shared.ext hunchanged.shared hdata hupdates, update_eq_self]
  | load _ hidle => exact absurd (hidle.symm.trans hbusy) Bool.noConfusion
  | store _ _ _ hidle => exact absurd (hidle.symm.trans hbusy) Bool.noConfusion

/-- Every mutex excludes, in every state of every run with any number of threads and mutexes. -/
theorem mutexes_exclude (h : (system Tid ids data).Reachable p) (mutex : Mutex) :
    Excludes ids data p mutex := by
  have hexclusive := exclusive_only mutex h
  constructor
  case locked_iff => exact hexclusive.state_ne_unlocked_iff
  case owner_unique =>
    intro t u ht hu
    exact hexclusive.eq_of_outstanding ht hu
  case guard_unique =>
    intro t
    exact (le_total MutexV2.Thread.outstanding _ t).trans hexclusive.total_le_one
  case acquired_iff =>
    intro t hidle
    have hacquired := (hexclusive.marked t).acquired_iff (.inl hidle)
    exact decide_eq_true_iff.symm.trans hacquired
  case refused =>
    rintro label p' hmove rfl hlocking
    exact refused_of_step h hmove hlocking
  case intact => exact intact_only mutex h

/-- Two mutexes. -/
def twoMutexIds : MutexIds Bool where
  get := Bool.toNat
  get_injective := by decide

/-- `mutexes_exclude` on a run in which one thread owns two mutexes, adds to both data and is
refused at its third call, and the other thread then adds to the first data. -/
theorem mutexes_exclude_nested :
    ∃ p : Pool (Fin 2) (Shared Bool ℕ) (Thread Bool ℕ),
      (p.shared false).data = 12 ∧ (p.shared true).data = 8 ∧
      Excludes twoMutexIds (fun _ ↦ 5) p false ∧ Excludes twoMutexIds (fun _ ↦ 5) p true := by
  obtain ⟨p, hrun, hfirst, hsecond⟩ := System.exists_reachableWhen_of_exec
    (M := system (Fin 2) twoMutexIds fun _ ↦ 5) (fun _ _ ↦ True)
    (P := fun p ↦ (p.shared false).data = 12 ∧ (p.shared true).data = 8)
    ([⟨0, ⟨false, .lock (.call .lock)⟩, none⟩] ++ List.replicate 3 ⟨0, ⟨false, .lock .go⟩, none⟩ ++
      [⟨0, ⟨true, .lock (.call .tryLock)⟩, none⟩] ++
      List.replicate 3 ⟨0, ⟨true, .lock .go⟩, none⟩ ++
      [⟨0, ⟨false, .load⟩, none⟩, ⟨0, ⟨true, .load⟩, none⟩, ⟨0, ⟨false, .store (· + 3)⟩, none⟩,
        ⟨0, ⟨true, .store (· + 3)⟩, none⟩, ⟨0, ⟨true, .lock (.call .lock)⟩, none⟩,
        ⟨0, ⟨true, .lock .go⟩, none⟩, ⟨0, ⟨false, .lock (.drop false)⟩, none⟩] ++
      List.replicate 2 ⟨0, ⟨false, .lock .go⟩, none⟩ ++
      [⟨1, ⟨false, .lock (.call .lock)⟩, none⟩] ++ List.replicate 3 ⟨1, ⟨false, .lock .go⟩, none⟩ ++
      [⟨1, ⟨false, .load⟩, none⟩, ⟨1, ⟨false, .store (· + 4)⟩, none⟩]) (by decide +kernel)
  exact ⟨p, hfirst, hsecond, mutexes_exclude hrun false, mutexes_exclude hrun true⟩

end Runs

end SyncPrimitives.MutexV2.Many
