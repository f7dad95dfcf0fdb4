import SyncPrimitives.Concurrency.ThreadPool

/-!
# Data behind a lock

`Machine.guarded` adds to the machine of a lock a value that threads reach only through guards. A
thread that owns a guard and is between two calls can load the value, and later store an update of
what it has loaded; in between any other thread can take steps. A guard that is given up takes the
loaded value with it. `updates` lists the updates stored so far.

If the lock excludes, that is, if in every state of every run at most one thread owns a guard, then
no update is lost: the value is the result of all updates in the order of their stores
(`Guarded.intact`). Every run with data is a run of the lock (`Guarded.lockPool_reachable`).
-/

set_option autoImplicit false
set_option relaxedAutoImplicit false

namespace SyncPrimitives.Concurrency

open Function

/-- What a local state of a lock says about guards: whether the thread owns one, and whether it is
between two calls. -/
structure Guards (Local : Type*) where
  owns : Local → Bool
  idle : Local → Bool

/-- A thread with a write guard has that guard only, and the other threads have none. -/
def Sharing {Tid Local : Type*} (reads writes : Local → ℕ) (f : Tid → Local) : Prop :=
  ∀ t, 0 < writes (f t) → writes (f t) = 1 ∧ reads (f t) = 0 ∧
    ∀ u, u ≠ t → reads (f u) = 0 ∧ writes (f u) = 0

/-- Guards of which there is at most one are write guards. -/
theorem Sharing.of_exclusive {Tid Local : Type*} {inside : Local → ℕ} {f : Tid → Local}
    (h : ∀ t u, 0 < inside (f t) → inside (f t) = 1 ∧ (0 < inside (f u) → t = u)) :
    Sharing (fun _ ↦ 0) inside f := by
  intro t ht
  refine ⟨(h t t ht).1, rfl, fun u hu ↦ ⟨rfl, ?_⟩⟩
  by_contra hne
  exact hu ((h t u ht).2 (Nat.pos_of_ne_zero hne)).symm

namespace Guarded

/-- The lock, the value behind it, and the updates stored so far. -/
@[ext]
structure Shared (LockShared α : Type*) where
  lock : LockShared
  data : α
  updates : List (α → α)

/-- The local state of the lock, and the value that has been loaded and not yet stored. -/
structure Local (LockLocal α : Type*) where
  lock : LockLocal
  loaded : Option α

/-- A step of the lock, a load through a guard, or a store of an update. -/
inductive Choice (LockChoice α : Type*)
  | lock (choice : LockChoice)
  | load
  | store (update : α → α)

/-- The choice is a store. -/
def Choice.storing {LockChoice α : Type*} : Choice LockChoice α → Bool
  | .store _ => true
  | _ => false

end Guarded

variable {Tid LockShared LockLocal LockChoice Addr α : Type*}

/-- A lock together with a value of type `α` that is used through its guards. -/
def Machine.guarded (M : Machine Tid LockShared LockLocal LockChoice Addr)
    (guards : Guards LockLocal) (α : Type*) :
    Machine Tid (Guarded.Shared LockShared α) (Guarded.Local LockLocal α)
      (Guarded.Choice LockChoice α) Addr where
  step := fun t shared th choice ↦
    match choice with
    | .lock choice =>
      (M.step t shared.lock th.lock choice).map fun (lock, moved, signal) ↦
        ({ shared with lock := lock },
          { lock := moved, loaded := if guards.owns moved then th.loaded else none }, signal)
    | .load =>
      if guards.owns th.lock && guards.idle th.lock then
        some (shared, { th with loaded := some shared.data }, .silent)
      else none
    | .store update =>
      if guards.owns th.lock && guards.idle th.lock then
        th.loaded.map fun value ↦
          ({ shared with data := update value, updates := shared.updates ++ [update] },
            { th with loaded := none }, .silent)
      else none
  asleepOn := fun th ↦ M.asleepOn th.lock
  wake := fun th ↦ { th with lock := M.wake th.lock }
  unpark := fun th ↦ { th with lock := M.unpark th.lock }

namespace Guarded

/-- A pool of the lock with a value behind it and nothing loaded. -/
def start (pool : Pool Tid LockShared LockLocal) (data : α) :
    Pool Tid (Shared LockShared α) (Local LockLocal α) where
  shared := { lock := pool.shared, data := data, updates := [] }
  threads := fun t ↦ { lock := pool.threads t, loaded := none }

/-- The lock without the value. -/
def lockPool (p : Pool Tid (Shared LockShared α) (Local LockLocal α)) :
    Pool Tid LockShared LockLocal where
  shared := p.shared.lock
  threads := fun t ↦ (p.threads t).lock

/-- The moves of a thread: a step of the lock, a load, or a store. -/
inductive Move (M : Machine Tid LockShared LockLocal LockChoice Addr) (guards : Guards LockLocal)
    (t : Tid) (before : Shared LockShared α) (th : Local LockLocal α) (after : Shared LockShared α)
    (moved : Local LockLocal α) (signal : Signal Tid Addr) : Prop
  | lock (choice : LockChoice)
      (hstep : M.step t before.lock th.lock choice = some (after.lock, moved.lock, signal))
      (hdata : after.data = before.data) (hupdates : after.updates = before.updates)
      (hloaded : moved.loaded = if guards.owns moved.lock then th.loaded else none)
  | load (howns : guards.owns th.lock = true) (hidle : guards.idle th.lock = true)
      (hafter : after = before)
      (hmoved : moved = { th with loaded := some before.data }) (hsignal : signal = .silent)
  | store (update : α → α) (value : α) (howns : guards.owns th.lock = true)
      (hidle : guards.idle th.lock = true) (hloaded : th.loaded = some value)
      (hafter : after =
        { before with data := update value, updates := before.updates ++ [update] })
      (hmoved : moved = { th with loaded := none }) (hsignal : signal = .silent)

section Runs

variable [DecidableEq Tid] [Fintype Tid] [DecidableEq Addr]
  {M : Machine Tid LockShared LockLocal LockChoice Addr} {guards : Guards LockLocal}
  {pool : Pool Tid LockShared LockLocal} {data : α}
  {p p' : Pool Tid (Shared LockShared α) (Local LockLocal α)}

omit [Fintype Tid] in
/-- A delivery after a step reaches the lock as it is. -/
theorem delivered_lock {signal : Signal Tid Addr} {f f' : Tid → Local LockLocal α} {t : Tid}
    {moved : Local LockLocal α}
    (h : (M.guarded guards α).Delivered signal (update f t moved) f') :
    M.Delivered signal (update (fun u ↦ (f u).lock) t moved.lock) fun u ↦ (f' u).lock :=
  h.map_update (fun th ↦ th.lock) (fun _ _ ↦ .rfl) (fun _ _ _ ↦ rfl) fun _ ↦ rfl

omit [Fintype Tid] in
/-- A delivery changes neither what a thread has loaded nor whether it owns a guard. Assumes: waking
and unparking change no guard. -/
theorem delivered_loaded (hwake : ∀ a, guards.owns (M.wake a) = guards.owns a)
    (hunpark : ∀ a, guards.owns (M.unpark a) = guards.owns a) {signal : Signal Tid Addr}
    {f f' : Tid → Local LockLocal α} (h : (M.guarded guards α).Delivered signal f f') (t : Tid) :
    (f' t).loaded = (f t).loaded ∧ guards.owns (f' t).lock = guards.owns (f t).lock := by
  rcases h.thread t with heq | ⟨_, _, heq⟩ | heq
  · rw [heq]
    exact ⟨rfl, rfl⟩
  · rw [heq]
    exact ⟨rfl, hwake _⟩
  · rw [heq]
    exact ⟨rfl, hunpark _⟩

omit [DecidableEq Tid] [Fintype Tid] [DecidableEq Addr] in
/-- Every step of a thread is one of the moves. -/
theorem step_move {t : Tid} {before after : Shared LockShared α} {th moved : Local LockLocal α}
    {choice : Choice LockChoice α} {signal : Signal Tid Addr}
    (h : (M.guarded guards α).step t before th choice = some (after, moved, signal)) :
    Move M guards t before th after moved signal := by
  cases choice with
  | lock choice =>
    simp only [Machine.guarded, Option.map_eq_some_iff, Prod.mk.injEq, Prod.exists] at h
    obtain ⟨lock, lockMoved, lockSignal, hlock, rfl, rfl, rfl⟩ := h
    exact .lock choice hlock rfl rfl rfl
  | load =>
    simp only [Machine.guarded, Bool.and_eq_true] at h
    split_ifs at h with howns
    obtain ⟨rfl, rfl, rfl⟩ := by simpa using h
    exact .load howns.1 howns.2 rfl rfl rfl
  | store update =>
    simp only [Machine.guarded, Bool.and_eq_true] at h
    split_ifs at h with howns
    obtain ⟨value, hloaded, heq⟩ := Option.map_eq_some_iff.mp h
    obtain ⟨rfl, rfl, rfl⟩ := by simpa using heq
    exact .store update value howns.1 howns.2 hloaded rfl rfl rfl

omit [DecidableEq Tid] [Fintype Tid] [DecidableEq Addr] in
/-- A step is a step of the lock that leaves the value, or a use of the value through a guard,
between two calls, that leaves the lock. -/
theorem lock_or_use_of_step {t : Tid} {before after : Shared LockShared α}
    {th moved : Local LockLocal α} {choice : Choice LockChoice α} {signal : Signal Tid Addr}
    (h : (M.guarded guards α).step t before th choice = some (after, moved, signal)) :
    (∃ inner, choice = .lock inner ∧
        M.step t before.lock th.lock inner = some (after.lock, moved.lock, signal) ∧
        after.data = before.data) ∨
      (guards.owns th.lock = true ∧ guards.idle th.lock = true ∧ after.lock = before.lock ∧
        moved.lock = th.lock ∧ (choice.storing = false → after.data = before.data)) := by
  cases choice with
  | lock inner =>
    simp only [Machine.guarded, Option.map_eq_some_iff, Prod.mk.injEq, Prod.exists] at h
    obtain ⟨lock, lockMoved, lockSignal, hstep, rfl, rfl, rfl⟩ := h
    exact .inl ⟨inner, rfl, hstep, rfl⟩
  | load =>
    simp only [Machine.guarded, Bool.and_eq_true] at h
    split_ifs at h with howns
    obtain ⟨rfl, rfl, -⟩ := by simpa using h
    exact .inr ⟨howns.1, howns.2, rfl, rfl, fun _ ↦ rfl⟩
  | store update =>
    simp only [Machine.guarded, Bool.and_eq_true] at h
    split_ifs at h with howns
    obtain ⟨value, -, heq⟩ := Option.map_eq_some_iff.mp h
    obtain ⟨rfl, rfl, -⟩ := by simpa using heq
    exact .inr ⟨howns.1, howns.2, rfl, rfl, fun hstoring ↦ by cases hstoring⟩

omit [DecidableEq Tid] [Fintype Tid] [DecidableEq Addr] in
/-- Only a store adds to the updates. -/
theorem exists_store_of_step {t : Tid} {before after : Shared LockShared α}
    {th moved : Local LockLocal α} {choice : Choice LockChoice α} {signal : Signal Tid Addr}
    (h : (M.guarded guards α).step t before th choice = some (after, moved, signal))
    (hupdates : after.updates ≠ before.updates) : ∃ update, choice = .store update := by
  cases choice with
  | lock choice =>
    simp only [Machine.guarded, Option.map_eq_some_iff, Prod.mk.injEq, Prod.exists] at h
    obtain ⟨lock, lockMoved, lockSignal, -, rfl, -⟩ := h
    exact absurd rfl hupdates
  | load =>
    simp only [Machine.guarded] at h
    split_ifs at h
    obtain ⟨rfl, -⟩ := by simpa using h
    exact absurd rfl hupdates
  | store update => exact ⟨update, rfl⟩

/-- A step with data is a step of the lock, or it leaves the lock alone. -/
theorem step_lock {label : Label Tid (Choice LockChoice α)}
    (h : ((M.guarded guards α).system (start pool data)).step p label = some p') :
    (∃ lockLabel, (M.system pool).step (lockPool p) lockLabel = some (lockPool p')) ∨
      lockPool p' = lockPool p := by
  obtain ⟨moved, signal, hlocal, hdelivered⟩ := Machine.step_cases h
  have hlock := delivered_lock hdelivered
  have hstutter (hafter : p'.shared.lock = p.shared.lock)
      (hmoved : moved.lock = (p.threads label.thread).lock) (hsignal : signal = .silent) :
      lockPool p' = lockPool p := by
    subst hsignal
    refine Pool.ext hafter (hlock.silent_eq.trans ?_)
    rw [hmoved]
    exact update_eq_self label.thread (lockPool p).threads
  cases step_move hlocal with
  | lock choice hstep =>
    have hmove : ∃ woken, (M.system pool).step (lockPool p) ⟨label.thread, choice, woken⟩ =
        some (lockPool p') := Machine.exists_step hstep hlock
    exact .inl ⟨_, hmove.choose_spec⟩
  | load howns hidle hafter hmoved hsignal =>
    exact .inr (hstutter (by rw [hafter]) (by rw [hmoved]) hsignal)
  | store update value howns hidle hloaded hafter hmoved hsignal =>
    exact .inr (hstutter (by rw [hafter]) (by rw [hmoved]) hsignal)

/-- A condition on the states of the lock carries over to the runs of the lock. -/
theorem lockPool_reachableWhen {P : Pool Tid LockShared LockLocal → Prop}
    (h : ((M.guarded guards α).system (start pool data)).ReachableWhen
      (fun p _ ↦ P (lockPool p)) p) :
    (M.system pool).ReachableWhen (fun p _ ↦ P p) (lockPool p) := by
  refine h.map lockPool rfl fun p label p' _ hmeets hmove ↦ ?_
  rcases step_lock hmove with ⟨lockLabel, hlock⟩ | hsame
  · exact .inr ⟨lockLabel, hmeets, hlock⟩
  · exact .inl hsame

/-- Every run with data is a run of the lock. -/
theorem lockPool_reachable (h : ((M.guarded guards α).system (start pool data)).Reachable p) :
    (M.system pool).Reachable (lockPool p) :=
  lockPool_reachableWhen (P := fun _ ↦ True) h

/-- The value is the result of all updates in the order of their stores, and what a thread has
loaded through its guard is the value. -/
structure Intact (guards : Guards LockLocal) (data : α)
    (p : Pool Tid (Shared LockShared α) (Local LockLocal α)) : Prop where
  data : p.shared.data = p.shared.updates.foldl (fun value update ↦ update value) data
  loaded : ∀ t value, (p.threads t).loaded = some value →
    guards.owns (p.threads t).lock = true ∧ value = p.shared.data

/-- No update is lost in the runs under a condition. Assumes: a thread that stores is the only one
that owns a guard, and waking and unparking change no guard. -/
theorem intactWhen {ok : Pool Tid (Shared LockShared α) (Local LockLocal α) →
      Label Tid (Choice LockChoice α) → Prop}
    (halone : ∀ p label update, ((M.guarded guards α).system (start pool data)).ReachableWhen ok p →
      ok p label → label.choice = .store update →
      guards.owns (p.threads label.thread).lock = true →
      ∀ u, guards.owns (p.threads u).lock = true → u = label.thread)
    (hwake : ∀ a, guards.owns (M.wake a) = guards.owns a)
    (hunpark : ∀ a, guards.owns (M.unpark a) = guards.owns a)
    (h : ((M.guarded guards α).system (start pool data)).ReachableWhen ok p) :
    Intact guards data p := by
  refine h.invariant (P := Intact guards data) ⟨rfl, fun _ _ hnone ↦ by cases hnone⟩ ?_
  intro p label p' hrun hintact hmeets hmove
  obtain ⟨moved, signal, hlocal, hdelivered⟩ := Machine.step_cases hmove
  have hkeeps := delivered_loaded hwake hunpark hdelivered
  have hmover := hkeeps label.thread
  rw [update_self] at hmover
  have hother (t : Tid) (value : α) (ht : t ≠ label.thread)
      (hafter : (p'.threads t).loaded = some value) :
      guards.owns (p.threads t).lock = true ∧ guards.owns (p'.threads t).lock = true ∧
        value = p.shared.data := by
    have hsame := hkeeps t
    rw [update_of_ne ht] at hsame
    obtain ⟨howns, hvalue⟩ := hintact.loaded t value (hsame.1 ▸ hafter)
    exact ⟨howns, hsame.2.trans howns, hvalue⟩
  cases step_move hlocal with
  | lock choice hstep hdata hupdates hkept =>
    refine ⟨by rw [hdata, hupdates, hintact.data], fun t value hafter ↦ ?_⟩
    by_cases ht : t = label.thread
    · subst ht
      rw [hmover.1, hkept] at hafter
      rw [hmover.2, hdata]
      split_ifs at hafter with howns
      exact ⟨howns, (hintact.loaded _ _ hafter).2⟩
    · obtain ⟨-, howns, hvalue⟩ := hother t value ht hafter
      exact ⟨howns, hvalue.trans hdata.symm⟩
  | load howns hidle hafter hmoved hsignal =>
    refine ⟨by rw [hafter, hintact.data], fun t value hloaded ↦ ?_⟩
    rw [hafter]
    by_cases ht : t = label.thread
    · subst ht
      rw [hmover.1, hmoved] at hloaded
      rw [hmover.2, hmoved]
      exact ⟨howns, (Option.some.inj hloaded).symm⟩
    · exact (hother t value ht hloaded).2
  | store update value howns hidle hbefore hafter hmoved hsignal =>
    have hcurrent := (hintact.loaded _ _ hbefore).2
    refine ⟨?_, fun t value' hloaded ↦ ?_⟩
    · rw [hafter, List.foldl_append, ← hintact.data, hcurrent]
      rfl
    -- no other thread has loaded a value, since it would own a guard too
    · exfalso
      by_cases ht : t = label.thread
      · subst ht
        rw [hmover.1, hmoved] at hloaded
        cases hloaded
      · obtain ⟨update', hchoice⟩ := exists_store_of_step hlocal (by simp [hafter])
        exact ht (halone p label update' hrun hmeets hchoice howns t (hother t value' ht hloaded).1)

/-- No update is lost. Assumes: at most one thread owns a guard in every state of every run of the
lock, and waking and unparking change no guard. -/
theorem intact
    (hexclusive : ∀ p, (M.system pool).Reachable p → ∀ t u, guards.owns (p.threads t) = true →
      guards.owns (p.threads u) = true → t = u)
    (hwake : ∀ a, guards.owns (M.wake a) = guards.owns a)
    (hunpark : ∀ a, guards.owns (M.unpark a) = guards.owns a)
    (h : ((M.guarded guards α).system (start pool data)).Reachable p) : Intact guards data p :=
  intactWhen (fun _ _ _ hrun _ _ howns _ hu ↦ hexclusive _ (lockPool_reachable hrun) _ _ hu howns)
    hwake hunpark h

end Runs

end Guarded

end SyncPrimitives.Concurrency
