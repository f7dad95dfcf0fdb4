import SyncPrimitives.Concurrency.Guarded
import SyncPrimitives.Concurrency.HappensBefore

/-!
# Data races of locks

The steps of a machine become events once it is said which atomic word a step accesses and what it
does to the cell (`stepEvent`). For a lock that excludes, `Passage` lists what one thread may do: it
enters by an acquiring access to the lock word, leaves by a releasing one, touches the cell only
inside, and never overwrites the word in between. A machine that excludes and whose steps are all
passages has no data race on the cell (`raceFree_of_exclusion`). `Guarded.raceFree` is the case of
the data behind the guards of a lock.
-/

set_option autoImplicit false
set_option relaxedAutoImplicit false

namespace SyncPrimitives.Concurrency

open Function Memory

section Machines

variable {Tid Shared Local Choice Addr Word : Type*}

/-- A step of the pool, as the memory sees it. -/
def stepEvent (access : Shared → Local → Choice → Access Word)
    (touch : Shared → Local → Choice → Touch) (p : Pool Tid Shared Local) (label : Label Tid Choice)
    (_ : Pool Tid Shared Local) : Event Tid Word where
  thread := label.thread
  access := access p.shared (p.threads label.thread) label.choice
  touch := touch p.shared (p.threads label.thread) label.choice

/-- What a thread may do to the word of a lock and to the cell behind it; `inside` and `inside'` are
how often it is inside before and after the step. -/
inductive Passage (lock : Word) (inside inside' : ℕ) (access : Access Word) (touch : Touch) : Prop
  | stay (haccess : ¬ access.Stores lock) (htouch : touch ≠ .none → 0 < inside)
      (hsame : inside' = inside)
  | enter (haccess : access.Acquires lock) (htouch : touch = .none) (hmore : inside' = inside + 1)
  | leave (haccess : access.Releases lock) (htouch : touch = .none) (hless : inside' + 1 = inside)

/-- A passage without a touch, of a thread that may also touch something else. -/
theorem Passage.of_none {lock : Word} {inside inside' : ℕ} {access : Access Word}
    (h : Passage lock inside inside' access .none) {touch : Touch}
    (htouch : touch ≠ .none → 0 < inside ∧ inside' = inside) :
    Passage lock inside inside' access touch := by
  cases h with
  | stay haccess _ hsame => exact .stay haccess (fun hne ↦ (htouch hne).1) hsame
  | enter haccess _ hmore =>
    refine .enter haccess ?_ hmore
    by_contra hne
    have hsame := (htouch hne).2
    omega
  | leave haccess _ hless =>
    refine .leave haccess ?_ hless
    by_contra hne
    have hsame := (htouch hne).2
    omega

/-- What a thread may do to the word of a read-write lock and to the cell behind it; `reads` and
`writes` count its read and write guards before the step, `reads'` and `writes'` after it. -/
inductive SharedPassage (lock : Word) (reads reads' writes writes' : ℕ) (access : Access Word)
    (touch : Touch) : Prop
  | stay (haccess : ¬ access.Stores lock) (hread : touch = .read → 0 < reads ∨ 0 < writes)
      (hwrite : touch = .write → 0 < writes) (hreads : reads' = reads) (hwrites : writes' = writes)
  | enterRead (haccess : access.Acquires lock ∧ ¬ access.Stores lock) (htouch : touch = .none)
      (hreads : reads' = reads + 1) (hwrites : writes' = writes)
  | enterWrite (haccess : access.Acquires lock) (htouch : touch = .none) (hreads : reads' = reads)
      (hwrites : writes' = writes + 1)
  | leaveRead (haccess : access.Releases lock ∧ ¬ access.Stores lock) (htouch : touch = .none)
      (hreads : reads' + 1 = reads) (hwrites : writes' = writes)
  | leaveWrite (haccess : access.Releases lock) (htouch : touch = .none) (hreads : reads' = reads)
      (hwrites : writes' + 1 = writes)

/-- A lock that excludes has write guards only. -/
theorem Passage.shared {lock : Word} {inside inside' : ℕ} {access : Access Word} {touch : Touch}
    (h : Passage lock inside inside' access touch) :
    SharedPassage lock 0 0 inside inside' access touch := by
  cases h with
  | stay haccess htouch hsame =>
    exact .stay haccess (fun hread ↦ .inr (htouch (by rw [hread]; decide)))
      (fun hwrite ↦ htouch (by rw [hwrite]; decide)) rfl hsame
  | enter haccess htouch hmore => exact .enterWrite haccess htouch rfl hmore
  | leave haccess htouch hless => exact .leaveWrite haccess htouch rfl hless

/-- A passage without a touch, of a thread that may also touch something else. -/
theorem SharedPassage.of_none {lock : Word} {reads reads' writes writes' : ℕ}
    {access : Access Word} (h : SharedPassage lock reads reads' writes writes' access .none)
    {touch : Touch} (htouch : touch ≠ .none → reads' = reads ∧ writes' = writes)
    (hread : touch = .read → 0 < reads ∨ 0 < writes) (hwrite : touch = .write → 0 < writes) :
    SharedPassage lock reads reads' writes writes' access touch := by
  have hnone (hmoved : reads' ≠ reads ∨ writes' ≠ writes) : touch = .none := by
    by_contra hne
    obtain ⟨hreads, hwrites⟩ := htouch hne
    exact hmoved.elim (· hreads) (· hwrites)
  cases h with
  | stay haccess _ _ hreads hwrites => exact .stay haccess hread hwrite hreads hwrites
  | enterRead haccess _ hreads hwrites =>
    exact .enterRead haccess (hnone (.inl (by omega))) hreads hwrites
  | enterWrite haccess _ hreads hwrites =>
    exact .enterWrite haccess (hnone (.inr (by omega))) hreads hwrites
  | leaveRead haccess _ hreads hwrites =>
    exact .leaveRead haccess (hnone (.inl (by omega))) hreads hwrites
  | leaveWrite haccess _ hreads hwrites =>
    exact .leaveWrite haccess (hnone (.inr (by omega))) hreads hwrites

/-- The hold of a thread with read and write guards. -/
def holdOf (reads writes : ℕ) : Hold :=
  if 0 < writes then .writing else if 0 < reads then .reading else .free

theorem holdOf_eq_writing_iff {reads writes : ℕ} : holdOf reads writes = .writing ↔ 0 < writes := by
  unfold holdOf
  split_ifs with hwrites
  all_goals simp [hwrites]

theorem holdOf_eq_free_iff {reads writes : ℕ} :
    holdOf reads writes = .free ↔ reads = 0 ∧ writes = 0 := by
  unfold holdOf
  split_ifs
  all_goals simp only [true_iff, false_iff]
  all_goals omega

theorem holdOf_eq_reading_iff {reads writes : ℕ} :
    holdOf reads writes = .reading ↔ 0 < reads ∧ writes = 0 := by
  unfold holdOf
  split_ifs
  all_goals simp only [true_iff, false_iff]
  all_goals omega

/-- A passage moves the hold of its thread, if a write guard is the only guard before the step and
after it. -/
theorem SharedPassage.move [DecidableEq Tid] {lock : Word} {guards : Tid → ℕ × ℕ}
    {e : Event Tid Word} {reads writes : ℕ} (hbefore : Sharing Prod.fst Prod.snd guards)
    (hafter : Sharing Prod.fst Prod.snd (update guards e.thread (reads, writes)))
    (h : SharedPassage lock (guards e.thread).1 reads (guards e.thread).2 writes e.access
      e.touch) :
    Move lock (fun u ↦ holdOf (guards u).1 (guards u).2)
      (update (fun u ↦ holdOf (guards u).1 (guards u).2) e.thread (holdOf reads writes)) e := by
  have hsame (hhold : holdOf reads writes = holdOf (guards e.thread).1 (guards e.thread).2) :
      update (fun u ↦ holdOf (guards u).1 (guards u).2) e.thread (holdOf reads writes) =
        fun u ↦ holdOf (guards u).1 (guards u).2 := by
    rw [hhold]
    exact update_eq_self e.thread fun u ↦ holdOf (guards u).1 (guards u).2
  have hmover : update guards e.thread (reads, writes) e.thread = (reads, writes) := update_self ..
  have hother (u : Tid) (hu : u ≠ e.thread) :
      update guards e.thread (reads, writes) u = guards u := update_of_ne hu ..
  cases h with
  | stay haccess hread hwrite hreads hwrites =>
    refine .stay haccess (fun htouch hfree ↦ ?_)
      (fun htouch ↦ holdOf_eq_writing_iff.mpr (hwrite htouch)) (hsame (by rw [hreads, hwrites]))
    have hnone : (guards e.thread).1 = 0 ∧ (guards e.thread).2 = 0 := holdOf_eq_free_iff.mp hfree
    have hpos := hread htouch
    omega
  | enterRead haccess htouch hreads hwrites =>
    have hnobody (u : Tid) : (guards u).2 = 0 := by
      by_contra hne
      by_cases hu : u = e.thread
      · obtain ⟨-, hnone, -⟩ := hafter e.thread (by rw [hmover, hwrites, ← hu]; omega)
        rw [hmover] at hnone
        omega
      · obtain ⟨-, -, hothers⟩ := hafter u (by rw [hother u hu]; omega)
        have hzero := (hothers e.thread (Ne.symm hu)).1
        rw [hmover] at hzero
        omega
    have hreading : holdOf reads writes = .reading :=
      holdOf_eq_reading_iff.mpr ⟨by omega, hwrites.trans (hnobody _)⟩
    by_cases hfirst : (guards e.thread).1 = 0
    · refine .acquireRead haccess htouch (fun u hwriting ↦ ?_) (by rw [hreading])
      exact (holdOf_eq_writing_iff.mp hwriting).ne' (hnobody u)
    -- a thread with a read guard already has its hold
    · have hheld : holdOf (guards e.thread).1 (guards e.thread).2 = .reading :=
        holdOf_eq_reading_iff.mpr ⟨by omega, hnobody _⟩
      exact .stay haccess.2 (fun hread ↦ by cases htouch.symm.trans hread)
        (fun hwrite ↦ by cases htouch.symm.trans hwrite) (hsame (hreading.trans hheld.symm))
  | enterWrite haccess htouch hreads hwrites =>
    obtain ⟨hone, hnone, hothers⟩ := hafter e.thread (by rw [hmover]; omega)
    rw [hmover] at hone hnone
    refine .acquireWrite haccess htouch (fun u ↦ holdOf_eq_free_iff.mpr ?_)
      (by rw [holdOf_eq_writing_iff.mpr (by omega)])
    by_cases hu : u = e.thread
    · rw [hu]
      exact ⟨by omega, by omega⟩
    · rw [← hother u hu]
      exact hothers u hu
  | leaveRead haccess htouch hreads hwrites =>
    have hnoWrite : (guards e.thread).2 = 0 := by
      by_contra hne
      have hnone := (hbefore e.thread (Nat.pos_of_ne_zero hne)).2.1
      omega
    have hheld : holdOf (guards e.thread).1 (guards e.thread).2 = .reading :=
      holdOf_eq_reading_iff.mpr ⟨by omega, hnoWrite⟩
    by_cases hlast : reads = 0
    · exact .releaseRead haccess htouch hheld
        (by rw [holdOf_eq_free_iff.mpr ⟨hlast, hwrites.trans hnoWrite⟩])
    · have hreading : holdOf reads writes = .reading :=
        holdOf_eq_reading_iff.mpr ⟨by omega, hwrites.trans hnoWrite⟩
      exact .stay haccess.2 (fun hread ↦ by cases htouch.symm.trans hread)
        (fun hwrite ↦ by cases htouch.symm.trans hwrite) (hsame (hreading.trans hheld.symm))
  | leaveWrite haccess htouch hreads hwrites =>
    have hpos : 0 < (guards e.thread).2 := by omega
    obtain ⟨hone, hnone, -⟩ := hbefore e.thread hpos
    exact .releaseWrite haccess htouch (holdOf_eq_writing_iff.mpr hpos)
      (by rw [holdOf_eq_free_iff.mpr ⟨by omega, by omega⟩])

variable [DecidableEq Tid] [DecidableEq Addr] {M : Machine Tid Shared Local Choice Addr}

variable [Fintype Tid] {start : Pool Tid Shared Local}
  {access : Shared → Local → Choice → Access Word} {touch : Shared → Local → Choice → Touch}

/-- No run has a data race on the cell behind a read-write lock. Assumes: nobody has a guard at the
start; waking and unparking change no guard; a write guard is the only guard in every state of the
runs and after every step; and every step is a passage. -/
theorem raceFree_of_sharing (reads writes : Local → ℕ) (lock : Word)
    (ok : Pool Tid Shared Local → Label Tid Choice → Prop)
    (hinit : ∀ t, reads (start.threads t) = 0 ∧ writes (start.threads t) = 0)
    (hwake : ∀ a, reads (M.wake a) = reads a ∧ writes (M.wake a) = writes a)
    (hunpark : ∀ a, reads (M.unpark a) = reads a ∧ writes (M.unpark a) = writes a)
    (hsharing : ∀ p, (M.system start).ReachableWhen ok p → Sharing reads writes p.threads)
    (hpassage : ∀ p label moved after signal, (M.system start).ReachableWhen ok p → ok p label →
      M.step label.thread p.shared (p.threads label.thread) label.choice =
        some (after, moved, signal) →
      SharedPassage lock (reads (p.threads label.thread)) (reads moved)
        (writes (p.threads label.thread)) (writes moved)
        (access p.shared (p.threads label.thread) label.choice)
        (touch p.shared (p.threads label.thread) label.choice))
    {x : Pool Tid Shared Local × Trace Tid Word}
    (h : (tracing (M.system start) (stepEvent access touch)).ReachableWhen
      (fun x label ↦ ok x.1 label) x) : RaceFree x.2 := by
  refine raceFree lock (fun p t ↦ holdOf (reads (p.threads t)) (writes (p.threads t)))
    (fun t ↦ holdOf_eq_free_iff.mpr (hinit t)) ?_ h
  intro p label p' hrun hmeets hmove
  obtain ⟨moved, signal, hlocal, hdelivered⟩ := Machine.step_cases hmove
  have hguards : (fun u ↦ (reads (p'.threads u), writes (p'.threads u))) =
      update (fun u ↦ (reads (p.threads u), writes (p.threads u))) label.thread
        (reads moved, writes moved) :=
    hdelivered.comp_eq (g := fun a ↦ (reads a, writes a))
      (fun a ↦ Prod.ext (hwake a).1 (hwake a).2) fun a ↦ Prod.ext (hunpark a).1 (hunpark a).2
  have hhold : (fun u ↦ holdOf (reads (p'.threads u)) (writes (p'.threads u))) =
      update (fun u ↦ holdOf (reads (p.threads u)) (writes (p.threads u))) label.thread
        (holdOf (reads moved) (writes moved)) :=
    hdelivered.comp_eq (g := fun a ↦ holdOf (reads a) (writes a))
      (fun a ↦ by rw [(hwake a).1, (hwake a).2]) fun a ↦ by rw [(hunpark a).1, (hunpark a).2]
  have hbefore : Sharing Prod.fst Prod.snd fun u ↦ (reads (p.threads u), writes (p.threads u)) :=
    hsharing p hrun
  have hafter : Sharing Prod.fst Prod.snd
      fun u ↦ (reads (p'.threads u), writes (p'.threads u)) :=
    hsharing p' (.step hrun hmeets hmove)
  rw [hguards] at hafter
  rw [hhold]
  exact (hpassage p label moved _ signal hrun hmeets hlocal).move
    (e := stepEvent access touch p label p') hbefore hafter

/-- No run has a data race on the cell behind a lock. Assumes: nobody is inside at the start; waking
and unparking move nobody in or out; in every state of the runs at most one thread is inside, and
once; and every step is a passage. -/
theorem raceFree_of_exclusion (inside : Local → ℕ) (lock : Word)
    (ok : Pool Tid Shared Local → Label Tid Choice → Prop)
    (hinit : ∀ t, inside (start.threads t) = 0) (hwake : ∀ a, inside (M.wake a) = inside a)
    (hunpark : ∀ a, inside (M.unpark a) = inside a)
    (hexclusive : ∀ p, (M.system start).ReachableWhen ok p → ∀ t u, 0 < inside (p.threads t) →
      inside (p.threads t) = 1 ∧ (0 < inside (p.threads u) → t = u))
    (hpassage : ∀ p label moved after signal, (M.system start).ReachableWhen ok p → ok p label →
      M.step label.thread p.shared (p.threads label.thread) label.choice =
        some (after, moved, signal) →
      Passage lock (inside (p.threads label.thread)) (inside moved)
        (access p.shared (p.threads label.thread) label.choice)
        (touch p.shared (p.threads label.thread) label.choice))
    {x : Pool Tid Shared Local × Trace Tid Word}
    (h : (tracing (M.system start) (stepEvent access touch)).ReachableWhen
      (fun x label ↦ ok x.1 label) x) : RaceFree x.2 :=
  raceFree_of_sharing (fun _ ↦ 0) inside lock ok (fun t ↦ ⟨rfl, hinit t⟩)
    (fun a ↦ ⟨rfl, hwake a⟩) (fun a ↦ ⟨rfl, hunpark a⟩)
    (fun p hrun ↦ .of_exclusive (hexclusive p hrun))
    (fun p label moved after signal hrun hmeets hstep ↦
      (hpassage p label moved after signal hrun hmeets hstep).shared) h

end Machines

/-! ### The data behind the guards -/

namespace Guarded

variable {Tid Addr Word LockShared LockLocal LockChoice α : Type*}

/-- The access of a step with data: that of the lock. -/
def access (access : LockShared → LockLocal → LockChoice → Access Word)
    (shared : Shared LockShared α) (th : Local LockLocal α) : Choice LockChoice α → Access Word
  | .lock choice => access shared.lock th.lock choice
  | .load => .none
  | .store _ => .none

/-- What a step does to the data. -/
def touch (_ : Shared LockShared α) (_ : Local LockLocal α) : Choice LockChoice α → Touch
  | .lock _ => .none
  | .load => .read
  | .store _ => .write

variable [DecidableEq Tid] [Fintype Tid] [DecidableEq Addr]
  {M : Machine Tid LockShared LockLocal LockChoice Addr} {guards : Guards LockLocal}
  {pool : Pool Tid LockShared LockLocal} {data : α}
  {lockAccess : LockShared → LockLocal → LockChoice → Access Word}

/-- No run under a condition has a data race on the data behind a read-write lock. Assumes: nobody
has a guard at the start; waking and unparking change no guard; a write guard is the only guard in
every state of the runs; a load needs a guard, and a store under the condition a write guard; and
every step of the lock is a passage. -/
theorem raceFree_of_sharing (reads writes : LockLocal → ℕ) (lock : Word)
    (ok : Pool Tid (Shared LockShared α) (Local LockLocal α) → Label Tid (Choice LockChoice α) →
      Prop)
    (hinit : ∀ t, reads (pool.threads t) = 0 ∧ writes (pool.threads t) = 0)
    (hwake : ∀ a, reads (M.wake a) = reads a ∧ writes (M.wake a) = writes a)
    (hunpark : ∀ a, reads (M.unpark a) = reads a ∧ writes (M.unpark a) = writes a)
    (hsharing : ∀ p, ((M.guarded guards α).system (start pool data)).ReachableWhen ok p →
      Sharing reads writes (lockPool p).threads)
    (howns : ∀ a, guards.owns a = true → 0 < reads a ∨ 0 < writes a)
    (hstores : ∀ p label update, ok p label → label.choice = .store update →
      guards.owns (p.threads label.thread).lock = true → 0 < writes (p.threads label.thread).lock)
    (hpassage : ∀ t before th choice after moved signal,
      M.step t before th choice = some (after, moved, signal) →
      SharedPassage lock (reads th) (reads moved) (writes th) (writes moved)
        (lockAccess before th choice) .none)
    {x : Pool Tid (Shared LockShared α) (Local LockLocal α) × Trace Tid Word}
    (h : (tracing ((M.guarded guards α).system (start pool data))
      (stepEvent (access lockAccess) touch)).ReachableWhen (fun x label ↦ ok x.1 label) x) :
    RaceFree x.2 := by
  refine Concurrency.raceFree_of_sharing (M := M.guarded guards α) (fun th ↦ reads th.lock)
    (fun th ↦ writes th.lock) lock ok hinit (fun _ ↦ hwake _) (fun _ ↦ hunpark _) hsharing ?_ h
  intro p label moved after signal _ hmeets hlocal
  obtain ⟨t, choice, woken⟩ := label
  cases choice with
  | lock choice =>
    simp only [Machine.guarded, Option.map_eq_some_iff, Prod.mk.injEq, Prod.exists] at hlocal
    obtain ⟨lock, lockMoved, lockSignal, hstep, -, rfl, -⟩ := hlocal
    exact hpassage t p.shared.lock (p.threads t).lock choice lock lockMoved lockSignal hstep
  | load =>
    simp only [Machine.guarded, Bool.and_eq_true] at hlocal
    split_ifs at hlocal with hguard
    obtain ⟨-, rfl, -⟩ := by simpa using hlocal
    exact .stay (fun hstores ↦ hstores) (fun _ ↦ howns _ hguard.1)
      (fun hwrite ↦ by cases hwrite) rfl rfl
  | store update =>
    simp only [Machine.guarded, Bool.and_eq_true] at hlocal
    split_ifs at hlocal with hguard
    have hwrites : 0 < writes (p.threads t).lock := hstores p _ update hmeets rfl hguard.1
    obtain ⟨value, -, heq⟩ := Option.map_eq_some_iff.mp hlocal
    obtain ⟨-, rfl, -⟩ := by simpa using heq
    exact .stay (fun hstores ↦ hstores) (fun hread ↦ by cases hread) (fun _ ↦ hwrites) rfl rfl

/-- No run has a data race on the data behind a lock. Assumes of the lock: nobody is inside at the
start; waking and unparking move nobody in or out; in every state of the runs at most one thread is
inside, and once; who owns a guard is inside; and every step is a passage. -/
theorem raceFree (inside : LockLocal → ℕ) (lock : Word) (hinit : ∀ t, inside (pool.threads t) = 0)
    (hwake : ∀ a, inside (M.wake a) = inside a) (hunpark : ∀ a, inside (M.unpark a) = inside a)
    (hexclusive : ∀ p, (M.system pool).Reachable p → ∀ t u, 0 < inside (p.threads t) →
      inside (p.threads t) = 1 ∧ (0 < inside (p.threads u) → t = u))
    (howns : ∀ a, guards.owns a = true → 0 < inside a)
    (hpassage : ∀ t before th choice after moved signal,
      M.step t before th choice = some (after, moved, signal) →
      Passage lock (inside th) (inside moved) (lockAccess before th choice) .none)
    {x : Pool Tid (Shared LockShared α) (Local LockLocal α) × Trace Tid Word}
    (h : (tracing ((M.guarded guards α).system (start pool data))
      (stepEvent (access lockAccess) touch)).Reachable x) : RaceFree x.2 :=
  raceFree_of_sharing (fun _ ↦ 0) inside lock (fun _ _ ↦ True) (fun t ↦ ⟨rfl, hinit t⟩)
    (fun a ↦ ⟨rfl, hwake a⟩) (fun a ↦ ⟨rfl, hunpark a⟩)
    (fun p hrun ↦ .of_exclusive (hexclusive (lockPool p) (lockPool_reachable hrun)))
    (fun a ha ↦ .inr (howns a ha)) (fun _ _ _ _ _ ↦ howns _)
    (fun t before th choice after moved signal hstep ↦
      (hpassage t before th choice after moved signal hstep).shared) h

end Guarded

end SyncPrimitives.Concurrency
