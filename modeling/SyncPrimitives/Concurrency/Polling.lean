import SyncPrimitives.Concurrency.RaceFreedom

/-!
# A flag that is read without the lock

A lock has a flag beside its word, and a method that returns the flag without a look at the word.
`Machine.polled` adds that method to the machine of the lock: any thread that is between two calls
can read the flag, with or without a guard, and keeps the answer. Every run with such reads is a run
of the lock (`Polled.lockPool_reachable`).

The reads are the only touches of the flag that the lock does not see. `Polled.ByOwners` says that
they too come from threads with a guard; then a lock that shares and whose own steps are passages
has no data race on the flag (`Polled.raceFree_of_sharing`, `Polled.raceFree_of_exclusion`).
-/

set_option autoImplicit false
set_option relaxedAutoImplicit false

namespace SyncPrimitives.Concurrency

open Function Memory

namespace Polled

/-- The local state of the lock, and what the last read of the flag has returned. -/
structure Local (LockLocal : Type*) where
  lock : LockLocal
  answer : Option Bool

/-- A step of the lock, or a read of the flag. -/
inductive Choice (LockChoice : Type*)
  | lock (choice : LockChoice)
  | isPoisoned

end Polled

variable {Tid LockShared LockLocal LockChoice Addr Word : Type*}

/-- A lock together with the method that reads its flag. -/
def Machine.polled (M : Machine Tid LockShared LockLocal LockChoice Addr)
    (guards : Guards LockLocal) (flag : LockShared → Bool) :
    Machine Tid LockShared (Polled.Local LockLocal) (Polled.Choice LockChoice) Addr where
  step := fun t shared th choice ↦
    match choice with
    | .lock choice =>
      (M.step t shared th.lock choice).map fun (after, moved, signal) ↦
        (after, { th with lock := moved }, signal)
    | .isPoisoned =>
      if guards.idle th.lock then some (shared, { th with answer := some (flag shared) }, .silent)
      else none
  asleepOn := fun th ↦ M.asleepOn th.lock
  wake := fun th ↦ { th with lock := M.wake th.lock }
  unpark := fun th ↦ { th with lock := M.unpark th.lock }

namespace Polled

/-- A pool of the lock in which nobody has read the flag. -/
def start (pool : Pool Tid LockShared LockLocal) : Pool Tid LockShared (Local LockLocal) where
  shared := pool.shared
  threads := fun t ↦ { lock := pool.threads t, answer := none }

/-- The lock without the answers. -/
def lockPool (p : Pool Tid LockShared (Local LockLocal)) : Pool Tid LockShared LockLocal where
  shared := p.shared
  threads := fun t ↦ (p.threads t).lock

section Users

variable (guards : Guards LockLocal)
  (ok : Pool Tid LockShared LockLocal → Tid → LockChoice → Prop)

/-- The lock is used under a condition, and a thread that reads the flag has a guard. -/
def ByOwnersChoice (p : Pool Tid LockShared LockLocal) (t : Tid) : Choice LockChoice → Prop
  | .lock choice => ok p t choice
  | .isPoisoned => guards.owns (p.threads t) = true

/-- The same for a step of the pool. -/
def ByOwners (p : Pool Tid LockShared (Local LockLocal)) (label : Label Tid (Choice LockChoice)) :
    Prop :=
  ByOwnersChoice guards ok (lockPool p) label.thread label.choice

instance [∀ p t choice, Decidable (ok p t choice)] (p : Pool Tid LockShared LockLocal) (t : Tid) :
    (choice : Choice LockChoice) → Decidable (ByOwnersChoice guards ok p t choice)
  | .lock choice => inferInstanceAs (Decidable (ok p t choice))
  | .isPoisoned => inferInstanceAs (Decidable (_ = true))

instance [∀ p t choice, Decidable (ok p t choice)] (p : Pool Tid LockShared (Local LockLocal))
    (label : Label Tid (Choice LockChoice)) : Decidable (ByOwners guards ok p label) :=
  inferInstanceAs (Decidable (ByOwnersChoice _ _ _ _ _))

end Users

/-! ### Every run -/

section Runs

variable [DecidableEq Tid] [Fintype Tid] [DecidableEq Addr]
  {M : Machine Tid LockShared LockLocal LockChoice Addr} {guards : Guards LockLocal}
  {flag : LockShared → Bool} {pool : Pool Tid LockShared LockLocal}
  {ok : Pool Tid LockShared LockLocal → Tid → LockChoice → Prop}
  {p p' : Pool Tid LockShared (Local LockLocal)}

omit [DecidableEq Tid] [Fintype Tid] [DecidableEq Addr] in
/-- A step is a step of the lock, or a read of the flag between two calls. -/
theorem lock_or_read_of_step {t : Tid} {before after : LockShared} {th moved : Local LockLocal}
    {choice : Choice LockChoice} {signal : Signal Tid Addr}
    (h : (M.polled guards flag).step t before th choice = some (after, moved, signal)) :
    (∃ inner, choice = .lock inner ∧ M.step t before th.lock inner =
        some (after, moved.lock, signal)) ∨
      (choice = .isPoisoned ∧ guards.idle th.lock = true ∧ after = before ∧
        moved = { th with answer := some (flag before) } ∧ signal = .silent) := by
  cases choice with
  | lock inner =>
    simp only [Machine.polled, Option.map_eq_some_iff, Prod.mk.injEq, Prod.exists] at h
    obtain ⟨lock, lockMoved, lockSignal, hstep, rfl, rfl, rfl⟩ := h
    exact .inl ⟨inner, rfl, hstep⟩
  | isPoisoned =>
    simp only [Machine.polled] at h
    split_ifs at h with hidle
    obtain ⟨rfl, rfl, rfl⟩ := by simpa using h
    exact .inr ⟨rfl, hidle, rfl, rfl, rfl⟩

/-- A step of the pool is a step of the lock, or it leaves the lock alone. -/
theorem step_lock {label : Label Tid (Choice LockChoice)}
    (h : ((M.polled guards flag).system (start pool)).step p label = some p') :
    (∃ inner woken, label.choice = .lock inner ∧
        (M.system pool).step (lockPool p) ⟨label.thread, inner, woken⟩ = some (lockPool p')) ∨
      lockPool p' = lockPool p := by
  obtain ⟨moved, signal, hlocal, hdelivered⟩ := Machine.step_cases h
  have hlock : M.Delivered signal (update (lockPool p).threads label.thread moved.lock)
      (lockPool p').threads :=
    hdelivered.map_update (fun th ↦ th.lock) (fun _ _ ↦ .rfl) (fun _ _ _ ↦ rfl) fun _ ↦ rfl
  rcases lock_or_read_of_step hlocal with
    ⟨inner, hchoice, hstep⟩ | ⟨-, -, hafter, hmoved, rfl⟩
  · obtain ⟨woken, hmove⟩ : ∃ woken, (M.system pool).step (lockPool p)
        ⟨label.thread, inner, woken⟩ = some (lockPool p') := Machine.exists_step hstep hlock
    exact .inl ⟨inner, woken, hchoice, hmove⟩
  · refine .inr (Pool.ext hafter (hlock.silent_eq.trans ?_))
    rw [hmoved]
    exact update_eq_self label.thread (lockPool p).threads

/-- A run under `ByOwners` is a run of the lock under its condition. -/
theorem lockPool_reachableWhen
    (h : ((M.polled guards flag).system (start pool)).ReachableWhen (ByOwners guards ok) p) :
    (M.system pool).ReachableWhen (fun p label ↦ ok p label.thread label.choice) (lockPool p) := by
  refine h.map lockPool rfl fun p label p' _ hmeets hmove ↦ ?_
  rcases step_lock hmove with ⟨inner, woken, hchoice, hlock⟩ | hsame
  · rw [ByOwners, hchoice] at hmeets
    exact .inr ⟨⟨label.thread, inner, woken⟩, hmeets, hlock⟩
  · exact .inl hsame

/-- The access of a step: that of the lock. A read of the flag looks at no atomic word. -/
def access (lockAccess : LockShared → LockLocal → LockChoice → Access Word) (shared : LockShared)
    (th : Local LockLocal) : Choice LockChoice → Access Word
  | .lock choice => lockAccess shared th.lock choice
  | .isPoisoned => .none

/-- What a step does to the flag. -/
def touch (lockTouch : LockShared → LockLocal → LockChoice → Touch) (shared : LockShared)
    (th : Local LockLocal) : Choice LockChoice → Touch
  | .lock choice => lockTouch shared th.lock choice
  | .isPoisoned => .read

variable {lockAccess : LockShared → LockLocal → LockChoice → Access Word}
  {lockTouch : LockShared → LockLocal → LockChoice → Touch}

/-- No run under `ByOwners` has a data race on the flag of a read-write lock. Assumes: nobody has a
guard at the start; waking and unparking change no guard; a write guard is the only guard in every
state of the runs of the lock under its condition; who owns a guard owns a read or a write guard;
and every step of the lock under its condition is a passage. -/
theorem raceFree_of_sharing (reads writes : LockLocal → ℕ) (lock : Word)
    (hinit : ∀ t, reads (pool.threads t) = 0 ∧ writes (pool.threads t) = 0)
    (hwake : ∀ a, reads (M.wake a) = reads a ∧ writes (M.wake a) = writes a)
    (hunpark : ∀ a, reads (M.unpark a) = reads a ∧ writes (M.unpark a) = writes a)
    (hsharing : ∀ p, (M.system pool).ReachableWhen
      (fun p label ↦ ok p label.thread label.choice) p → Sharing reads writes p.threads)
    (howns : ∀ a, guards.owns a = true → 0 < reads a ∨ 0 < writes a)
    (hpassage : ∀ p t choice moved after signal, (M.system pool).ReachableWhen
        (fun p label ↦ ok p label.thread label.choice) p → ok p t choice →
      M.step t p.shared (p.threads t) choice = some (after, moved, signal) →
      SharedPassage lock (reads (p.threads t)) (reads moved) (writes (p.threads t)) (writes moved)
        (lockAccess p.shared (p.threads t) choice) (lockTouch p.shared (p.threads t) choice))
    {x : Pool Tid LockShared (Local LockLocal) × Trace Tid Word}
    (h : (tracing ((M.polled guards flag).system (start pool))
      (stepEvent (access lockAccess) (touch lockTouch))).ReachableWhen
        (fun x label ↦ ByOwners guards ok x.1 label) x) : RaceFree x.2 := by
  refine Concurrency.raceFree_of_sharing (M := M.polled guards flag) (fun th ↦ reads th.lock)
    (fun th ↦ writes th.lock) lock (ByOwners guards ok) hinit (fun _ ↦ hwake _) (fun _ ↦ hunpark _)
    (fun p hrun ↦ hsharing (lockPool p) (lockPool_reachableWhen hrun)) ?_ h
  intro p label moved after signal hrun hmeets hlocal
  rw [ByOwners] at hmeets
  rcases lock_or_read_of_step hlocal with
    ⟨inner, hchoice, hstep⟩ | ⟨hchoice, -, -, hmoved, -⟩
  · rw [hchoice] at hmeets ⊢
    exact hpassage (lockPool p) label.thread inner moved.lock after signal
      (lockPool_reachableWhen hrun) hmeets hstep
  · rw [hchoice] at hmeets ⊢
    rw [hmoved]
    exact .stay (fun hstores ↦ hstores) (fun _ ↦ howns _ hmeets) (fun hwrite ↦ by cases hwrite)
      rfl rfl

/-- No run under `ByOwners` has a data race on the flag of a lock. Assumes: nobody is inside at the
start; waking and unparking move nobody in or out; in every state of the runs of the lock at most
one thread is inside, and once; who owns a guard is inside; and every step of the lock under its
condition is a passage. -/
theorem raceFree_of_exclusion (inside : LockLocal → ℕ) (lock : Word)
    (hinit : ∀ t, inside (pool.threads t) = 0) (hwake : ∀ a, inside (M.wake a) = inside a)
    (hunpark : ∀ a, inside (M.unpark a) = inside a)
    (hexclusive : ∀ p, (M.system pool).Reachable p → ∀ t u, 0 < inside (p.threads t) →
      inside (p.threads t) = 1 ∧ (0 < inside (p.threads u) → t = u))
    (howns : ∀ a, guards.owns a = true → 0 < inside a)
    (hpassage : ∀ p t choice moved after signal, (M.system pool).Reachable p → ok p t choice →
      M.step t p.shared (p.threads t) choice = some (after, moved, signal) →
      Passage lock (inside (p.threads t)) (inside moved)
        (lockAccess p.shared (p.threads t) choice) (lockTouch p.shared (p.threads t) choice))
    {x : Pool Tid LockShared (Local LockLocal) × Trace Tid Word}
    (h : (tracing ((M.polled guards flag).system (start pool))
      (stepEvent (access lockAccess) (touch lockTouch))).ReachableWhen
        (fun x label ↦ ByOwners guards ok x.1 label) x) : RaceFree x.2 :=
  raceFree_of_sharing (fun _ ↦ 0) inside lock (fun t ↦ ⟨rfl, hinit t⟩)
    (fun a ↦ ⟨rfl, hwake a⟩) (fun a ↦ ⟨rfl, hunpark a⟩)
    (fun p hrun ↦ .of_exclusive (hexclusive p hrun.reachable)) (fun a ha ↦ .inr (howns a ha))
    (fun p t choice moved after signal hrun hmeets hstep ↦
      (hpassage p t choice moved after signal hrun.reachable hmeets hstep).shared) h

end Runs

end Polled

end SyncPrimitives.Concurrency
