import SyncPrimitives.MutexV1.Model
import Mathlib.Tactic.SplitIfs

/-!
# Wake-ups of the queueing mutex

A stranded mutex is free, no drop is in progress and every thread inside `lock` is blocked in
`park`. `stranded_reachable` is a run that reaches such a state: a thread that spun in vain puts its
handle into the queue after the release has found the queue empty. A second way is a handle left
behind by a spurious return of `park`: a release spends its only `unpark` on a thread that is no
longer inside `lock`.

Under `WakeCondition` no run strands. The condition concerns the two steps on which the duty to wake
may be lost: when a thread puts its handle into the queue, and when a release takes a handle out,
some source of a wake-up remains. `WakeMove` lists what one step does to the word, to the queue and
to the place of its thread, and `Owed` is the invariant.
-/

set_option autoImplicit false
set_option relaxedAutoImplicit false

namespace SyncPrimitives.MutexV1

open Concurrency Function MutexCommon

variable {Tid : Type}

/-! ### The state in which nobody is left to unpark the waiters -/

/-- Whether a position is inside `lock`. -/
def Call.insideLock : Call Tid → Bool
  | .lock _ => true
  | _ => false

/-- Whether a position is inside the drop of a guard. -/
def Call.insideDrop : Call Tid → Bool
  | .drop _ => true
  | _ => false

/-- Whether a thread is blocked in `park` without a token. -/
def Thread.blocked (th : Thread Tid) : Bool :=
  match th.call with
  | .lock (.enqueue .parked) => !th.token
  | _ => false

/-- The word is zero, no drop is in progress, some thread is blocked in `park`, and so is every
thread inside `lock`. -/
structure Stranded (p : Pool Tid (Shared Tid) (Thread Tid)) : Prop where
  free : p.shared.state = 0
  noDrop : ∀ t, (p.threads t).call.insideDrop = false
  sleeper : ∃ t, (p.threads t).blocked
  allBlocked : ∀ t, (p.threads t).call.insideLock → (p.threads t).blocked

instance [Fintype Tid] (p : Pool Tid (Shared Tid) (Thread Tid)) : Decidable (Stranded p) :=
  decidable_of_iff
    (p.shared.state = 0 ∧ (∀ t, (p.threads t).call.insideDrop = false) ∧
      (∃ t, (p.threads t).blocked) ∧
      ∀ t, (p.threads t).call.insideLock → (p.threads t).blocked)
    ⟨fun ⟨h₁, h₂, h₃, h₄⟩ ↦ ⟨h₁, h₂, h₃, h₄⟩, fun ⟨h₁, h₂, h₃, h₄⟩ ↦ ⟨h₁, h₂, h₃, h₄⟩⟩

/-- Thread 0 locks, thread 1 spins until its counter runs out, thread 0 releases and finds the queue
empty, and thread 1 puts its handle into the queue and parks. -/
def strandingRun : List (Label (Fin 2) Choice) :=
  [⟨0, .call .lock, none⟩] ++ List.replicate 4 ⟨0, .go, none⟩ ++
  [⟨1, .call .lock, none⟩] ++ List.replicate 101 ⟨1, .go, none⟩ ++
  [⟨0, .drop false, none⟩] ++ List.replicate 5 ⟨0, .go, none⟩ ++
  List.replicate 5 ⟨1, .go, none⟩

/-- A stranded state of two threads is reachable. -/
theorem stranded_reachable :
    ∃ p : Pool (Fin 2) (Shared (Fin 2)) (Thread (Fin 2)),
      (system twoThreadIds).Reachable p ∧ Stranded p :=
  System.exists_reachableWhen_of_exec _ strandingRun (by decide +kernel)

/-! ### Places -/

/-- The positions that matter for wake-ups. An `active` thread is inside `lock` and not about to
block: it has not put its handle into the queue since `park` last returned, or it has a token. A
`releasing` thread is inside a drop that has yet to look at the queue, and a `holding` thread is
about to unpark a handle. -/
inductive Place (Tid : Type)
  | elsewhere
  | active
  | waiting
  | releasing
  | holding (handle : Tid)
  deriving DecidableEq

/-- The place of a position inside `enqueue_thread`. -/
def EnqueuePc.place (token : Bool) : EnqueuePc → Place Tid
  | .store => if token then .active else .waiting
  | .park => if token then .active else .waiting
  | .parked => .waiting
  | _ => .active

/-- The place of a position inside `dequeue_thread`. -/
def DequeuePc.place : DequeuePc Tid → Place Tid
  | .store none => .elsewhere
  | .store (some handle) => .holding handle
  | .unpark handle => .holding handle
  | _ => .releasing

/-- The place of a position. -/
def Call.place (token : Bool) : Call Tid → Place Tid
  | .lock (.enqueue pc) => pc.place token
  | .lock _ => .active
  | .drop .store => .releasing
  | .drop (.dequeue pc) => pc.place
  | _ => .elsewhere

/-- The place of a thread. -/
def Thread.place (th : Thread Tid) : Place Tid := th.call.place th.token

/-- Whether a place is inside `lock`. -/
def Place.insideLock : Place Tid → Bool
  | .active => true
  | .waiting => true
  | _ => false

/-- Whether a wake-up may come from a thread: it is active, or its drop has yet to look at the
queue, or it is about to unpark a thread that is inside `lock`. -/
def Source (place : Tid → Place Tid) (u : Tid) : Prop :=
  match place u with
  | .active => True
  | .releasing => True
  | .holding handle => (place handle).insideLock
  | _ => False

instance (place : Tid → Place Tid) (u : Tid) : Decidable (Source place u) := by
  unfold Source
  split <;> infer_instance

section Local

variable {th : Thread Tid}

@[simp] theorem place_spinLoop {spinCounter : ℕ} : (spinLoop th spinCounter).place = .active := by
  unfold spinLoop
  split_ifs <;> rfl

@[simp] theorem place_unparked : th.unparked.place = .active := rfl

/-- An unpark makes a waiting thread active and leaves the place of every other thread. -/
theorem place_unpark :
    (th.place = .waiting → (unpark th).place = .active) ∧
      (th.place ≠ .waiting → (unpark th).place = th.place) := by
  unfold unpark Thread.place
  split
  case h_1 hcall => exact ⟨fun _ ↦ rfl, fun h ↦ absurd (by rw [hcall]; rfl) h⟩
  case h_2 hcall =>
    cases hcall' : th.call with
    | lock pc =>
      cases pc with
      | enqueue pc =>
        cases pc with
        | store => cases th.token <;> simp [Call.place, EnqueuePc.place]
        | park => cases th.token <;> simp [Call.place, EnqueuePc.place]
        | parked => exact absurd hcall' hcall
        | _ => simp [Call.place, EnqueuePc.place]
      | _ => simp [Call.place]
    | drop pc =>
      refine ⟨fun h ↦ ?_, fun _ ↦ by cases pc <;> rfl⟩
      cases pc with
      | store => cases h
      | dequeue pc => cases pc with
        | store popped => cases popped <;> cases h
        | _ => cases h
    | _ => simp [Call.place]

end Local

/-! ### What a step does to the place of its thread -/

/-- The steps that matter for wake-ups. -/
inductive WakeMove (self : Tid) (before : Shared Tid) (th : Thread Tid) (after : Shared Tid)
    (moved : Thread Tid) (signal : Signal Tid Addr) : Prop
  | stay (hstate : after.state = before.state) (hqueue : after.queue = before.queue)
      (hplace : moved.place = th.place) (hsignal : signal = .silent)
  | enterLock (hstate : after.state = before.state) (hqueue : after.queue = before.queue)
      (hbefore : th.place = .elsewhere) (hplace : moved.place = .active)
      (hsignal : signal = .silent)
  | leave (hstate : after.state ≠ 0) (hqueue : after.queue = before.queue)
      (hbefore : th.place = .elsewhere ∨ th.place = .active) (hplace : moved.place = .elsewhere)
      (hsignal : signal = .silent)
  | pushBack (hcall : th.call = .lock (.enqueue .pushBack)) (hstate : after.state = before.state)
      (hqueue : after.queue = before.queue ++ [self]) (hbefore : th.place = .active)
      (hplace : moved.place = if th.token then .active else .waiting)
      (hsignal : signal = .silent)
  | returnSpuriously (hstate : after.state = before.state) (hqueue : after.queue = before.queue)
      (hbefore : th.place = .waiting) (hplace : moved.place = .active) (hsignal : signal = .silent)
  | startDrop (hstate : after.state = before.state) (hqueue : after.queue = before.queue)
      (hbefore : th.place = .elsewhere) (hplace : moved.place = .releasing)
      (hsignal : signal = .silent)
  | store (hstate : after.state = 0) (hqueue : after.queue = before.queue)
      (hbefore : th.place = .releasing) (hplace : moved.place = .releasing)
      (hsignal : signal = .silent)
  | foundEmpty (hempty : before.queue = []) (hstate : after.state = before.state)
      (hqueue : after.queue = before.queue) (hbefore : th.place = .releasing)
      (hplace : moved.place = .elsewhere) (hsignal : signal = .silent)
  | popFront (hcall : th.call = .drop (.dequeue .popFront)) (handle : Tid)
      (hstate : after.state = before.state) (hqueue : before.queue = handle :: after.queue)
      (hbefore : th.place = .releasing) (hplace : moved.place = .holding handle)
      (hsignal : signal = .silent)
  | unpark (handle : Tid) (hstate : after.state = before.state)
      (hqueue : after.queue = before.queue) (hbefore : th.place = .holding handle)
      (hplace : moved.place = .elsewhere) (hsignal : signal = .unpark handle)

section Steps

variable {self : Tid} {currentThread : ℕ} {before after : Shared Tid} {th moved : Thread Tid}
  {signal : Signal Tid Addr} {choice : Choice}

theorem quiet_eq_some :
    quiet before th = some (after, moved, signal) ↔
      before = after ∧ th = moved ∧ .silent = signal := by
  simp [quiet]

theorem enqueueThreadStep_wakeMove {pc : EnqueuePc} (hcall : th.call = .lock (.enqueue pc))
    (h : enqueueThreadStep self before th pc choice = some (after, moved, signal)) :
    WakeMove self before th after moved signal := by
  have hplace : th.place = pc.place th.token := congrArg (Call.place th.token) hcall
  cases pc <;> cases choice <;> simp only [enqueueThreadStep, reduceCtorEq] at h
  case load.go =>
    split_ifs at h
    all_goals obtain ⟨rfl, rfl, rfl⟩ := quiet_eq_some.mp h
    · exact .stay rfl rfl rfl rfl
    · exact .stay rfl rfl hplace.symm rfl
  case compareExchange.go =>
    split_ifs at h
    all_goals obtain ⟨rfl, rfl, rfl⟩ := quiet_eq_some.mp h
    all_goals exact .stay rfl rfl hplace.symm rfl
  case compareExchange.spurious =>
    obtain ⟨rfl, rfl, rfl⟩ := quiet_eq_some.mp h
    exact .stay rfl rfl hplace.symm rfl
  case pushBack.go =>
    obtain ⟨rfl, rfl, rfl⟩ := quiet_eq_some.mp h
    exact .pushBack hcall rfl rfl hplace rfl rfl
  case store.go =>
    obtain ⟨rfl, rfl, rfl⟩ := quiet_eq_some.mp h
    exact .stay rfl rfl hplace.symm rfl
  case park.go =>
    split_ifs at h with htoken
    all_goals obtain ⟨rfl, rfl, rfl⟩ := quiet_eq_some.mp h
    · exact .stay rfl rfl (hplace.trans (if_pos htoken)).symm rfl
    · exact .stay rfl rfl (hplace.trans (if_neg htoken)).symm rfl
  case park.spurious =>
    obtain ⟨rfl, rfl, rfl⟩ := quiet_eq_some.mp h
    by_cases htoken : th.token
    · exact .stay rfl rfl (hplace.trans (if_pos htoken)).symm rfl
    · exact .returnSpuriously rfl rfl (hplace.trans (if_neg htoken)) rfl rfl
  case parked.spurious =>
    obtain ⟨rfl, rfl, rfl⟩ := quiet_eq_some.mp h
    exact .returnSpuriously rfl rfl hplace rfl rfl

theorem lockStep_wakeMove (hid : currentThread ≠ 0) {pc : LockPc} (hcall : th.call = .lock pc)
    (h : lockStep self currentThread before th pc choice = some (after, moved, signal)) :
    WakeMove self before th after moved signal := by
  cases pc with
  | enqueue pc => cases choice <;> exact enqueueThreadStep_wakeMove hcall h
  | loadOwner =>
    have hbefore : th.place = .active := by simp [Thread.place, Call.place, hcall]
    cases choice <;> simp only [lockStep, reduceCtorEq] at h
    case go =>
      split_ifs at h with howner
      all_goals obtain ⟨rfl, rfl, rfl⟩ := quiet_eq_some.mp h
      · exact .leave (howner ▸ hid) rfl (.inr hbefore) rfl rfl
      · exact .stay rfl rfl (place_spinLoop.trans hbefore.symm) rfl
  | load spinCounter =>
    have hbefore : th.place = .active := by simp [Thread.place, Call.place, hcall]
    cases choice <;> simp only [lockStep, reduceCtorEq] at h
    case go =>
      split_ifs at h
      all_goals obtain ⟨rfl, rfl, rfl⟩ := quiet_eq_some.mp h
      · exact .stay rfl rfl hbefore.symm rfl
      · exact .stay rfl rfl (place_spinLoop.trans hbefore.symm) rfl
  | compareExchange spinCounter =>
    have hbefore : th.place = .active := by simp [Thread.place, Call.place, hcall]
    cases choice <;> simp only [lockStep, reduceCtorEq] at h
    case go =>
      split_ifs at h
      all_goals obtain ⟨rfl, rfl, rfl⟩ := quiet_eq_some.mp h
      · exact .leave hid rfl (.inr hbefore) rfl rfl
      · exact .stay rfl rfl (place_spinLoop.trans hbefore.symm) rfl
    case spurious =>
      obtain ⟨rfl, rfl, rfl⟩ := quiet_eq_some.mp h
      exact .stay rfl rfl (place_spinLoop.trans hbefore.symm) rfl

theorem tryLockStep_wakeMove (hid : currentThread ≠ 0) {pc : TryLockPc}
    (hcall : th.call = .tryLock pc)
    (h : tryLockStep currentThread before th pc choice = some (after, moved, signal)) :
    WakeMove self before th after moved signal := by
  have hbefore : th.place = .elsewhere := by simp [Thread.place, Call.place, hcall]
  cases pc <;> cases choice <;> simp only [tryLockStep, reduceCtorEq] at h
  case loadOwner.go =>
    split_ifs at h
    all_goals obtain ⟨rfl, rfl, rfl⟩ := quiet_eq_some.mp h
    all_goals exact .stay rfl rfl hbefore.symm rfl
  case compareExchange.go =>
    split_ifs at h
    all_goals obtain ⟨rfl, rfl, rfl⟩ := quiet_eq_some.mp h
    · exact .leave hid rfl (.inl hbefore) rfl rfl
    · exact .stay rfl rfl hbefore.symm rfl

theorem dequeueThreadStep_wakeMove {pc : DequeuePc Tid} (hcall : th.call = .drop (.dequeue pc))
    (h : dequeueThreadStep before th pc choice = some (after, moved, signal)) :
    WakeMove self before th after moved signal := by
  have hplace : th.place = pc.place := congrArg (Call.place th.token) hcall
  cases pc with
  | store popped =>
    cases popped <;> cases choice <;> simp only [dequeueThreadStep, reduceCtorEq] at h
    case none.go =>
      obtain ⟨rfl, rfl, rfl⟩ := quiet_eq_some.mp h
      exact .stay rfl rfl hplace.symm rfl
    case some.go =>
      obtain ⟨rfl, rfl, rfl⟩ := quiet_eq_some.mp h
      exact .stay rfl rfl hplace.symm rfl
  | unpark handle =>
    cases choice <;> simp only [dequeueThreadStep, reduceCtorEq] at h
    case go =>
      obtain ⟨rfl, rfl, rfl⟩ := by simpa using h
      exact .unpark handle rfl rfl hplace rfl rfl
  | isEmpty =>
    cases choice <;> simp only [dequeueThreadStep, reduceCtorEq] at h
    case go =>
      split_ifs at h with hempty
      all_goals obtain ⟨rfl, rfl, rfl⟩ := quiet_eq_some.mp h
      · exact .foundEmpty hempty rfl rfl hplace rfl rfl
      · exact .stay rfl rfl hplace.symm rfl
  | popFront =>
    cases choice <;> simp only [dequeueThreadStep, reduceCtorEq] at h
    case go =>
      obtain ⟨rfl, rfl, rfl⟩ := quiet_eq_some.mp h
      cases hqueue : before.queue with
      | nil =>
        exact .foundEmpty hqueue rfl (by simp [hqueue]) hplace rfl rfl
      | cons handle rest =>
        exact .popFront hcall handle rfl (by simp [hqueue]) hplace rfl rfl
  | load =>
    cases choice <;> simp only [dequeueThreadStep, reduceCtorEq] at h
    case go =>
      split_ifs at h
      all_goals obtain ⟨rfl, rfl, rfl⟩ := quiet_eq_some.mp h
      · exact .stay rfl rfl rfl rfl
      · exact .stay rfl rfl hplace.symm rfl
  | compareExchange =>
    cases choice <;> simp only [dequeueThreadStep, reduceCtorEq] at h
    case go =>
      split_ifs at h
      all_goals obtain ⟨rfl, rfl, rfl⟩ := quiet_eq_some.mp h
      all_goals exact .stay rfl rfl hplace.symm rfl
    case spurious =>
      obtain ⟨rfl, rfl, rfl⟩ := quiet_eq_some.mp h
      exact .stay rfl rfl hplace.symm rfl

theorem dropStep_wakeMove {pc : DropPc Tid} (hcall : th.call = .drop pc)
    (h : dropStep before th pc choice = some (after, moved, signal)) :
    WakeMove self before th after moved signal := by
  cases pc with
  | dequeue pc => cases choice <;> exact dequeueThreadStep_wakeMove hcall h
  | store =>
    cases choice <;> simp only [dropStep, reduceCtorEq] at h
    case go =>
      obtain ⟨rfl, rfl, rfl⟩ := quiet_eq_some.mp h
      exact .store rfl rfl (by simp [Thread.place, Call.place, hcall]) rfl rfl

theorem idleStep_wakeMove (hcall : th.call = .idle)
    (h : idleStep before th choice = some (after, moved, signal)) :
    WakeMove self before th after moved signal := by
  have hbefore : th.place = .elsewhere := by simp [Thread.place, Call.place, hcall]
  cases choice with
  | call method =>
    cases method
    all_goals obtain ⟨rfl, rfl, rfl⟩ := quiet_eq_some.mp h
    · exact .enterLock rfl rfl hbefore rfl rfl
    · exact .stay rfl rfl hbefore.symm rfl
  | drop panicking =>
    simp only [idleStep] at h
    split_ifs at h
    obtain ⟨rfl, rfl, rfl⟩ := quiet_eq_some.mp h
    exact .startDrop rfl rfl hbefore rfl rfl
  | clearPoison =>
    obtain ⟨rfl, rfl, rfl⟩ := quiet_eq_some.mp h
    exact .stay rfl rfl rfl rfl
  | go => cases h
  | spurious => cases h

/-- Every step of a thread is one of the moves. Assumes: the id of the thread is not zero. -/
theorem step_wakeMove (hid : currentThread ≠ 0)
    (h : step self currentThread before th choice = some (after, moved, signal)) :
    WakeMove self before th after moved signal := by
  unfold step at h
  split at h
  case h_1 hcall => exact idleStep_wakeMove hcall h
  case h_2 hcall => exact lockStep_wakeMove hid hcall h
  case h_3 hcall => exact tryLockStep_wakeMove hid hcall h
  case h_4 hcall =>
    split_ifs at h
    obtain ⟨rfl, rfl, rfl⟩ := quiet_eq_some.mp h
    exact .stay rfl rfl (by simp [Thread.place, Call.place, hcall, Thread.ret]) rfl
  case h_5 hcall => exact dropStep_wakeMove hcall h

end Steps

/-! ### The invariant -/

/-- The handle of every waiting thread is in the queue or held by a release, and while a thread
waits the mutex is held or some thread is a source of a wake-up. -/
structure Owed (state : ℕ) (queue : List Tid) (place : Tid → Place Tid) : Prop where
  kept : ∀ w, place w = .waiting → w ∈ queue ∨ ∃ u, place u = .holding w
  source : (∃ w, place w = .waiting) → state ≠ 0 ∨ ∃ u, Source place u

/-- The places of all threads. -/
def places (p : Pool Tid (Shared Tid) (Thread Tid)) (t : Tid) : Place Tid := (p.threads t).place

/-- The condition on a step under which no wake-up is lost. A thread that puts its handle into the
queue has a token, or the mutex is held, or another thread is a source of a wake-up. When a release
takes a handle out, its thread is inside `lock`, or the mutex is held again, or another thread is a
source of a wake-up, or nobody waits. -/
structure WakeCondition (p : Pool Tid (Shared Tid) (Thread Tid)) (label : Label Tid Choice) :
    Prop where
  pushOwed : (p.threads label.thread).call = .lock (.enqueue .pushBack) →
    (p.threads label.thread).token ∨ p.shared.state ≠ 0 ∨
      ∃ u, u ≠ label.thread ∧ Source (places p) u
  popOwed : (p.threads label.thread).call = .drop (.dequeue .popFront) →
    (∃ handle ∈ p.shared.queue.head?, (places p handle).insideLock) ∨ p.shared.state ≠ 0 ∨
      (∃ u, u ≠ label.thread ∧ Source (places p) u) ∨ ∀ w, places p w ≠ .waiting

section Source

variable {f g : Tid → Place Tid} {u handle : Tid}

theorem source_of_active (h : g u = .active) : Source g u := by
  unfold Source
  rw [h]
  trivial

theorem source_of_releasing (h : g u = .releasing) : Source g u := by
  unfold Source
  rw [h]
  trivial

theorem source_of_holding (h : g u = .holding handle) (hinside : (g handle).insideLock) :
    Source g u := by
  unfold Source
  rw [h]
  exact hinside

theorem Source.inside_of_holding (h : Source f u) (hplace : f u = .holding handle) :
    (f handle).insideLock := by
  unfold Source at h
  rw [hplace] at h
  exact h

/-- A source at an unchanged place stays a source while no thread leaves `lock`. -/
theorem Source.mono (h : Source f u) (hplace : g u = f u)
    (hinside : ∀ w, (f w).insideLock → (g w).insideLock) : Source g u := by
  unfold Source at h ⊢
  rw [hplace]
  cases hf : f u with
  | holding handle =>
    rw [hf] at h
    exact hinside _ h
  | _ =>
    rw [hf] at h
    exact h

/-- Assumes: only the thread `t` moves, it starts to wait only with its handle in the queue, and it
gives up a handle only by keeping it in its hands. Then the handle of every waiting thread is
kept. -/
theorem kept_of_move {t : Tid} {queue queue' : List Tid}
    (hkept : ∀ w, f w = .waiting → w ∈ queue ∨ ∃ u, f u = .holding w)
    (hother : ∀ u, u ≠ t → g u = f u) (hwaits : g t = .waiting → f t = .waiting ∨ t ∈ queue')
    (hqueue : ∀ w ∈ queue, w ∈ queue' ∨ g t = .holding w)
    (hheld : ∀ w, f t = .holding w → g t = .holding w) :
    ∀ w, g w = .waiting → w ∈ queue' ∨ ∃ u, g u = .holding w := by
  intro w hw
  have hbefore : f w = .waiting ∨ w ∈ queue' := by
    by_cases hwt : w = t
    · subst hwt
      exact hwaits hw
    · rw [hother w hwt] at hw
      exact .inl hw
  rcases hbefore with hbefore | hin
  · rcases hkept w hbefore with hin | ⟨u, hu⟩
    · rcases hqueue w hin with hin' | hhold
      · exact .inl hin'
      · exact .inr ⟨t, hhold⟩
    · by_cases hut : u = t
      · subst hut
        exact .inr ⟨u, hheld w hu⟩
      · exact .inr ⟨u, by rw [hother u hut]; exact hu⟩
  · exact .inl hin

end Source

/-- A step that unparks nobody keeps the invariant. Assumes: the condition on the step. -/
theorem owed_of_silent {p : Pool Tid (Shared Tid) (Thread Tid)} {label : Label Tid Choice}
    {after : Shared Tid} {moved : Thread Tid} {g : Tid → Place Tid}
    (howed : Owed p.shared.state p.shared.queue (places p)) (hok : WakeCondition p label)
    (hmove : WakeMove label.thread p.shared (p.threads label.thread) after moved
      (.silent : Signal Tid Addr))
    (hself : g label.thread = moved.place)
    (hother : ∀ u, u ≠ label.thread → g u = places p u) :
    Owed after.state after.queue g := by
  obtain ⟨hkept, hsource⟩ := howed
  have hthread : places p label.thread = (p.threads label.thread).place := rfl
  cases hmove with
  | unpark handle hstate hqueue hbefore hplace hsignal => cases hsignal
  | stay hstate hqueue hplace hsignal =>
    have hsame : g = places p := by
      funext u
      by_cases hu : u = label.thread
      · rw [hu, hself, hplace, hthread]
      · exact hother u hu
    rw [hsame, hstate, hqueue]
    exact ⟨hkept, hsource⟩
  | enterLock hstate hqueue hbefore hplace hsignal =>
    rw [hplace] at hself
    refine ⟨kept_of_move hkept hother ?_ ?_ ?_, fun _ ↦ .inr ⟨_, source_of_active hself⟩⟩
    · simp [hself]
    · exact fun w hw ↦ .inl (hqueue ▸ hw)
    · simp [hthread, hbefore]
  | leave hstate hqueue hbefore hplace hsignal =>
    rw [hplace] at hself
    refine ⟨kept_of_move hkept hother ?_ ?_ ?_, fun _ ↦ .inl hstate⟩
    · simp [hself]
    · exact fun w hw ↦ .inl (hqueue ▸ hw)
    · rcases hbefore with hbefore | hbefore <;> simp [hthread, hbefore]
  | pushBack hcall hstate hqueue hbefore hplace hsignal =>
    refine ⟨kept_of_move hkept hother ?_ ?_ ?_, fun _ ↦ ?_⟩
    · simp [hqueue]
    · exact fun w hw ↦ .inl (by simp [hqueue, hw])
    · simp [hthread, hbefore]
    rw [hplace] at hself
    split_ifs at hself with htoken
    · exact .inr ⟨_, source_of_active hself⟩
    · rcases hok.pushOwed hcall with h | hheld | ⟨u, hne, hu⟩
      · exact absurd h htoken
      · exact .inl (hstate ▸ hheld)
      · refine .inr ⟨u, hu.mono (hother u hne) fun w hw ↦ ?_⟩
        by_cases hwt : w = label.thread
        · rw [hwt, hself]
          rfl
        · rw [hother w hwt]
          exact hw
  | returnSpuriously hstate hqueue hbefore hplace hsignal =>
    rw [hplace] at hself
    refine ⟨kept_of_move hkept hother ?_ ?_ ?_, fun _ ↦ .inr ⟨_, source_of_active hself⟩⟩
    · simp [hself]
    · exact fun w hw ↦ .inl (hqueue ▸ hw)
    · simp [hthread, hbefore]
  | startDrop hstate hqueue hbefore hplace hsignal =>
    rw [hplace] at hself
    refine ⟨kept_of_move hkept hother ?_ ?_ ?_, fun _ ↦ .inr ⟨_, source_of_releasing hself⟩⟩
    · simp [hself]
    · exact fun w hw ↦ .inl (hqueue ▸ hw)
    · simp [hthread, hbefore]
  | store hstate hqueue hbefore hplace hsignal =>
    rw [hplace] at hself
    refine ⟨kept_of_move hkept hother ?_ ?_ ?_, fun _ ↦ .inr ⟨_, source_of_releasing hself⟩⟩
    · simp [hself]
    · exact fun w hw ↦ .inl (hqueue ▸ hw)
    · simp [hthread, hbefore]
  | foundEmpty hempty hstate hqueue hbefore hplace hsignal =>
    rw [hplace] at hself
    have hkept' : ∀ w, g w = .waiting → w ∈ after.queue ∨ ∃ u, g u = .holding w := by
      refine kept_of_move hkept hother ?_ ?_ ?_
      · simp [hself]
      · exact fun w hw ↦ .inl (hqueue ▸ hw)
      · simp [hthread, hbefore]
    refine ⟨hkept', fun ⟨w, hw⟩ ↦ ?_⟩
    -- the queue is empty, so the handle of every waiting thread is held by a release
    rcases hkept' w hw with hin | ⟨u, hu⟩
    · rw [hqueue, hempty] at hin
      cases hin
    · exact .inr ⟨u, source_of_holding hu (by rw [hw]; rfl)⟩
  | popFront hcall handle hstate hqueue hbefore hplace hsignal =>
    rw [hplace] at hself
    have hinside (w : Tid) (hw : (places p w).insideLock) : (g w).insideLock := by
      by_cases hwt : w = label.thread
      · rw [hwt, hthread, hbefore] at hw
        cases hw
      · rw [hother w hwt]
        exact hw
    refine ⟨kept_of_move hkept hother ?_ ?_ ?_, fun ⟨w, hw⟩ ↦ ?_⟩
    · simp [hself]
    · intro w hw
      rw [hqueue] at hw
      rcases List.mem_cons.mp hw with rfl | hin
      · exact .inr hself
      · exact .inl hin
    · simp [hthread, hbefore]
    rcases hok.popOwed hcall with ⟨x, hx, hlock⟩ | hheld | ⟨u, hne, hu⟩ | hnobody
    · rw [hqueue, List.head?_cons, Option.mem_some] at hx
      subst hx
      exact .inr ⟨_, source_of_holding hself (hinside _ hlock)⟩
    · exact .inl (hstate ▸ hheld)
    · exact .inr ⟨u, hu.mono (hother u hne) hinside⟩
    · have hwt : w ≠ label.thread := fun h ↦ by
        rw [h, hself] at hw
        cases hw
      exact absurd ((hother w hwt).symm.trans hw) (hnobody w)

/-- The step that unparks a handle keeps the invariant. -/
theorem owed_of_unpark {state : ℕ} {queue : List Tid} {f g : Tid → Place Tid} {t handle : Tid}
    (howed : Owed state queue f) (ht : f t = .holding handle) (hself : g t = .elsewhere)
    (hwoken : f handle = .waiting → g handle = .active)
    (hother : ∀ u, u ≠ t → (u = handle → f u ≠ .waiting) → g u = f u) :
    Owed state queue g := by
  obtain ⟨hkept, hsource⟩ := howed
  have hbefore (w : Tid) (hw : g w = .waiting) : w ≠ t ∧ w ≠ handle ∧ f w = .waiting := by
    have hwt : w ≠ t := fun h ↦ by
      rw [h, hself] at hw
      cases hw
    by_cases hwait : w = handle ∧ f w = .waiting
    · obtain ⟨rfl, hf⟩ := hwait
      rw [hwoken hf] at hw
      cases hw
    · have hsame := hother w hwt fun h hf ↦ hwait ⟨h, hf⟩
      have hf := hsame.symm.trans hw
      exact ⟨hwt, fun h ↦ hwait ⟨h, hf⟩, hf⟩
  have hinside (w : Tid) (hw : (f w).insideLock) : (g w).insideLock := by
    have hwt : w ≠ t := fun h ↦ by
      rw [h, ht] at hw
      cases hw
    by_cases hwait : w = handle ∧ f w = .waiting
    · obtain ⟨rfl, hf⟩ := hwait
      rw [hwoken hf]
      rfl
    · rw [hother w hwt fun h hf ↦ hwait ⟨h, hf⟩]
      exact hw
  constructor
  · intro w hw
    obtain ⟨-, hwh, hf⟩ := hbefore w hw
    rcases hkept w hf with hin | ⟨u, hu⟩
    · exact .inl hin
    · have hut : u ≠ t := fun h ↦ by
        rw [h, ht] at hu
        exact hwh (Place.holding.inj hu).symm
      exact .inr ⟨u, (hother u hut fun _ ↦ by rw [hu]; simp).trans hu⟩
  · rintro ⟨w, hw⟩
    obtain ⟨-, -, hf⟩ := hbefore w hw
    rcases hsource ⟨w, hf⟩ with hheld | ⟨u, hu⟩
    · exact .inl hheld
    · right
      by_cases hut : u = t
      · -- the unparked thread is inside `lock`, and it is active now
        subst hut
        have hlock := hu.inside_of_holding ht
        refine ⟨handle, source_of_active ?_⟩
        have hht : handle ≠ u := fun h ↦ by
          rw [h, ht] at hlock
          cases hlock
        cases hplace : f handle with
        | waiting => exact hwoken hplace
        | active => rw [hother handle hht fun _ ↦ by simp [hplace], hplace]
        | _ =>
          rw [hplace] at hlock
          cases hlock
      · by_cases hwait : u = handle ∧ f u = .waiting
        · obtain ⟨rfl, hf⟩ := hwait
          exact ⟨u, source_of_active (hwoken hf)⟩
        · exact ⟨u, hu.mono (hother u hut fun h hf ↦ hwait ⟨h, hf⟩) hinside⟩

section Runs

variable [DecidableEq Tid] [Fintype Tid] {ids : ThreadIds Tid}

/-- One step keeps the invariant. Assumes: the condition on the step. -/
theorem owed_step {p p' : Pool Tid (Shared Tid) (Thread Tid)} {label : Label Tid Choice}
    (howed : Owed p.shared.state p.shared.queue (places p)) (hok : WakeCondition p label)
    (hmove : (system ids).step p label = some p') :
    Owed p'.shared.state p'.shared.queue (places p') := by
  obtain ⟨moved, signal, hlocal, hdelivered⟩ := Machine.step_cases hmove
  have hwake := step_wakeMove (ids.get_ne_zero _) hlocal
  cases signal with
  | silent =>
    refine owed_of_silent howed hok hwake ?_ ?_
    · rw [places, hdelivered.silent_eq, update_self]
    · intro u hu
      rw [places, hdelivered.silent_eq, update_of_ne hu, places]
  | wakeOne addr => cases addr
  | wakeAll addr => cases addr
  | unpark handle =>
    cases hwake with
    | unpark handle' hstate hqueue hbefore hplace hsignal =>
      obtain rfl := Signal.unpark.inj hsignal
      rw [hstate, hqueue]
      have hthreads := hdelivered.unpark_eq
      have hwoken : places p' handle =
          (unpark (update p.threads label.thread moved handle)).place := by
        rw [places, hthreads, update_self]
        rfl
      refine owed_of_unpark (t := label.thread) howed hbefore ?_ ?_ ?_
      · by_cases hself : handle = label.thread
        · rw [← hself, hwoken, hself, update_self, place_unpark.2 (by simp [hplace]), hplace]
        · rw [places, hthreads, update_of_ne (Ne.symm hself), update_self, hplace]
      · intro hwaiting
        have hne : handle ≠ label.thread := fun h ↦ by
          rw [h, places, hbefore] at hwaiting
          cases hwaiting
        rw [hwoken, update_of_ne hne]
        exact place_unpark.1 hwaiting
      · intro u hne hu
        by_cases hhandle : u = handle
        · rw [hhandle, hwoken, ← hhandle, update_of_ne hne]
          exact place_unpark.2 (hu hhandle)
        · rw [places, hthreads, update_of_ne hhandle, update_of_ne hne, places]
    | stay hstate hqueue hplace hsignal => cases hsignal
    | enterLock hstate hqueue hbefore hplace hsignal => cases hsignal
    | leave hstate hqueue hbefore hplace hsignal => cases hsignal
    | pushBack hcall hstate hqueue hbefore hplace hsignal => cases hsignal
    | returnSpuriously hstate hqueue hbefore hplace hsignal => cases hsignal
    | startDrop hstate hqueue hbefore hplace hsignal => cases hsignal
    | store hstate hqueue hbefore hplace hsignal => cases hsignal
    | foundEmpty hempty hstate hqueue hbefore hplace hsignal => cases hsignal
    | popFront hcall handle hstate hqueue hbefore hplace hsignal => cases hsignal

/-- The invariant holds in every state of a run under the condition. -/
theorem owed {p : Pool Tid (Shared Tid) (Thread Tid)}
    (h : (system ids).ReachableWhen WakeCondition p) :
    Owed p.shared.state p.shared.queue (places p) := by
  refine h.invariant (P := fun p ↦ Owed p.shared.state p.shared.queue (places p)) ?_ ?_
  · have hplace (t : Tid) (ht : places (new Tid) t = .waiting) : False := by cases ht
    exact ⟨fun w hw ↦ (hplace w hw).elim, fun ⟨w, hw⟩ ↦ (hplace w hw).elim⟩
  · intro p label p' _ howed hok hmove
    exact owed_step howed hok hmove

/-- No run under the condition strands a thread. -/
theorem parked_not_stranded {p : Pool Tid (Shared Tid) (Thread Tid)}
    (h : (system ids).ReachableWhen WakeCondition p) : ¬ Stranded p := by
  intro hstranded
  have hplace {t : Tid} (ht : (p.threads t).blocked) : places p t = .waiting := by
    unfold Thread.blocked at ht
    split at ht
    · rename_i hcall
      simp [places, Thread.place, hcall, Call.place, EnqueuePc.place]
    · cases ht
  obtain ⟨w, hw⟩ := hstranded.sleeper
  rcases (owed h).source ⟨w, hplace hw⟩ with hheld | ⟨u, hu⟩
  · exact hheld hstranded.free
  · have hdrop := hstranded.noDrop u
    have hblocked := hstranded.allBlocked u
    cases hcall : (p.threads u).call with
    | lock pc =>
      rw [hcall] at hblocked
      unfold Source at hu
      rw [hplace (hblocked rfl)] at hu
      exact hu
    | drop pc =>
      rw [hcall] at hdrop
      cases hdrop
    | _ => simp [Source, places, Thread.place, hcall, Call.place] at hu

instance (p : Pool Tid (Shared Tid) (Thread Tid)) (label : Label Tid Choice) :
    Decidable (WakeCondition p label) :=
  decidable_of_iff
    (((p.threads label.thread).call = .lock (.enqueue .pushBack) →
        (p.threads label.thread).token ∨ p.shared.state ≠ 0 ∨
          ∃ u, u ≠ label.thread ∧ Source (places p) u) ∧
      ((p.threads label.thread).call = .drop (.dequeue .popFront) →
        (∃ handle ∈ p.shared.queue.head?, (places p handle).insideLock) ∨ p.shared.state ≠ 0 ∨
          (∃ u, u ≠ label.thread ∧ Source (places p) u) ∨ ∀ w, places p w ≠ .waiting))
    ⟨fun ⟨h₁, h₂⟩ ↦ ⟨h₁, h₂⟩, fun ⟨h₁, h₂⟩ ↦ ⟨h₁, h₂⟩⟩

/-- Thread 0 locks, and thread 1 spins until its counter runs out, puts its handle into the queue
and parks. -/
def parkingRun : List (Label (Fin 2) Choice) :=
  [⟨0, .call .lock, none⟩] ++ List.replicate 4 ⟨0, .go, none⟩ ++
  [⟨1, .call .lock, none⟩] ++ List.replicate 106 ⟨1, .go, none⟩

/-- `parked_not_stranded` on a run that meets the condition: thread 1 blocks in `park`
while thread 0 holds the mutex. -/
theorem parked_not_stranded_held :
    ∃ p : Pool (Fin 2) (Shared (Fin 2)) (Thread (Fin 2)), (p.threads 1).blocked ∧ ¬ Stranded p := by
  obtain ⟨p, hrun, hblocked⟩ := System.exists_reachableWhen_of_exec
    (M := system twoThreadIds) WakeCondition (P := fun p ↦ (p.threads 1).blocked = true)
    parkingRun (by decide +kernel)
  exact ⟨p, hblocked, parked_not_stranded hrun⟩

end Runs

end SyncPrimitives.MutexV1
