import SyncPrimitives.Arc.Overflow
import SyncPrimitives.Arc.Phases

/-!
# Lifetimes behind the reference counts

`Counted` is the invariant that relates the two counters to the live handles, the lock that
`get_mut` and `into_inner` put into `ref_count`, the payload and the block. It holds in every run in
which no clone makes `strong_count` wrap, hence in every run with fewer than `usize::MAX / 2`
threads, and in every state of any run in which no clone is about to abort.

`strong_count` counts the live `Arc` handles, and beside them the clones that have added to it and
are about to abort: these never build a handle (`strong_count_beyond_handles`).
-/

set_option autoImplicit false
set_option relaxedAutoImplicit false

namespace SyncPrimitives.Arc

open Concurrency Function

variable {Tid α : Type}

section Pool

variable [Fintype Tid]

/-! ### Live handles -/

/-- The number of threads in a phase. -/
def threadsAt (p : Pool Tid (Shared α) (Thread α)) (phase : Phase) : ℕ :=
  countAt Thread.phase phase p.threads

/-- The live `Arc` handles: those that no thread has taken, and those taken by a drop or by
`into_inner` that has not yet subtracted from `strong_count`. -/
def liveArcs (p : Pool Tid (Shared α) (Thread α)) : ℕ :=
  p.shared.arcs + threadsAt p .dropping + threadsAt p .ownLocked + threadsAt p .reading +
    threadsAt p .moving

/-- The live `Weak` handles: those that no drop has taken, and those that a drop has taken and not
yet subtracted. -/
def liveWeaks (p : Pool Tid (Shared α) (Thread α)) : ℕ :=
  p.shared.weaks + threadsAt p .droppingWeak

/-- The implicit weak reference of the strong side, until the thread that has dropped the last `Arc`
subtracts it, or `into_inner` frees the block. -/
def implicitWeaks (p : Pool Tid (Shared α) (Thread α)) : ℕ :=
  min 1 (liveArcs p + threadsAt p .destroying + threadsAt p .releasing)

/-- The number of threads that hold `ref_count` at `usize::MAX`. -/
def locks (p : Pool Tid (Shared α) (Thread α)) : ℕ :=
  threadsAt p .mutLocked + threadsAt p .mutUnique + threadsAt p .ownLocked +
    threadsAt p .reading + threadsAt p .moving

/-! ### The invariant -/

/-- Every borrow is that of a call in progress, and a handle is behind it. -/
structure Borrowed (p : Pool Tid (Shared α) (Thread α)) : Prop where
  arcBorrows : p.shared.arcBorrows = threadsAt p .sharing + threadsAt p .aborting
  mutBorrows : p.shared.mutBorrows = threadsAt p .testing + threadsAt p .mutLocked +
    threadsAt p .mutUnique + threadsAt p .mutBorrowed
  weakBorrows : p.shared.weakBorrows = threadsAt p .upgrading
  arcs : p.shared.mutBorrows + min p.shared.arcBorrows 1 ≤ p.shared.arcs
  weaks : min p.shared.weakBorrows 1 ≤ p.shared.weaks

/-- The invariant on the counters, the payload and the block. -/
structure Counted (p : Pool Tid (Shared α) (Thread α)) : Prop where
  strong : p.shared.frees = 0 → p.shared.strongCount = liveArcs p + threadsAt p .aborting
  refs : p.shared.frees = 0 → locks p = 0 → p.shared.refCount = liveWeaks p + implicitWeaks p
  locked : 0 < locks p → locks p = 1 ∧ p.shared.refCount = usizeMax ∧ liveWeaks p = 0
  last : threadsAt p .destroying + threadsAt p .releasing ≤ 1 ∧
    (0 < liveArcs p → threadsAt p .destroying + threadsAt p .releasing = 0)
  sole : 0 < threadsAt p .reading + threadsAt p .moving + threadsAt p .mutUnique +
      threadsAt p .mutBorrowed → liveArcs p = 1 ∧ liveWeaks p = 0
  payload : (0 < liveArcs p → p.shared.removals = threadsAt p .moving) ∧
    (liveArcs p = 0 → p.shared.removals + threadsAt p .destroying = 1)
  block : (0 < liveWeaks p + implicitWeaks p → p.shared.frees + threadsAt p .freeing = 0) ∧
    (liveWeaks p + implicitWeaks p = 0 → p.shared.frees + threadsAt p .freeing = 1)
  bound : (p.shared.frees = 0 → p.shared.strongCount ≤ maxRefCount + 1 + threadsAt p .aborting) ∧
    p.shared.refCount ≤ usizeMax
  strays : p.shared.strayAccesses = 0

theorem borrowed_iff {p : Pool Tid (Shared α) (Thread α)} : Borrowed p ↔
    p.shared.arcBorrows = threadsAt p .sharing + threadsAt p .aborting ∧
    p.shared.mutBorrows = threadsAt p .testing + threadsAt p .mutLocked +
      threadsAt p .mutUnique + threadsAt p .mutBorrowed ∧
    p.shared.weakBorrows = threadsAt p .upgrading ∧
    p.shared.mutBorrows + min p.shared.arcBorrows 1 ≤ p.shared.arcs ∧
    min p.shared.weakBorrows 1 ≤ p.shared.weaks :=
  ⟨fun ⟨h₁, h₂, h₃, h₄, h₅⟩ ↦ ⟨h₁, h₂, h₃, h₄, h₅⟩, fun ⟨h₁, h₂, h₃, h₄, h₅⟩ ↦ ⟨h₁, h₂, h₃, h₄, h₅⟩⟩

theorem counted_iff {p : Pool Tid (Shared α) (Thread α)} : Counted p ↔
    (p.shared.frees = 0 → p.shared.strongCount = liveArcs p + threadsAt p .aborting) ∧
    (p.shared.frees = 0 → locks p = 0 → p.shared.refCount = liveWeaks p + implicitWeaks p) ∧
    (0 < locks p → locks p = 1 ∧ p.shared.refCount = usizeMax ∧ liveWeaks p = 0) ∧
    (threadsAt p .destroying + threadsAt p .releasing ≤ 1 ∧
      (0 < liveArcs p → threadsAt p .destroying + threadsAt p .releasing = 0)) ∧
    (0 < threadsAt p .reading + threadsAt p .moving + threadsAt p .mutUnique +
      threadsAt p .mutBorrowed → liveArcs p = 1 ∧ liveWeaks p = 0) ∧
    ((0 < liveArcs p → p.shared.removals = threadsAt p .moving) ∧
      (liveArcs p = 0 → p.shared.removals + threadsAt p .destroying = 1)) ∧
    ((0 < liveWeaks p + implicitWeaks p → p.shared.frees + threadsAt p .freeing = 0) ∧
      (liveWeaks p + implicitWeaks p = 0 → p.shared.frees + threadsAt p .freeing = 1)) ∧
    ((p.shared.frees = 0 → p.shared.strongCount ≤ maxRefCount + 1 + threadsAt p .aborting) ∧
      p.shared.refCount ≤ usizeMax) ∧
    p.shared.strayAccesses = 0 :=
  ⟨fun ⟨h₁, h₂, h₃, h₄, h₅, h₆, h₇, h₈, h₉⟩ ↦ ⟨h₁, h₂, h₃, h₄, h₅, h₆, h₇, h₈, h₉⟩,
    fun ⟨h₁, h₂, h₃, h₄, h₅, h₆, h₇, h₈, h₉⟩ ↦ ⟨h₁, h₂, h₃, h₄, h₅, h₆, h₇, h₈, h₉⟩⟩

/-- In these phases a live `Arc` handle is behind the call. -/
def Phase.holdsArc : Phase → Bool
  | .sharing | .aborting | .testing | .mutLocked | .mutUnique | .mutBorrowed | .dropping
  | .ownLocked | .reading | .moving => true
  | _ => false

/-- In these phases a live `Weak` handle is behind the call. -/
def Phase.holdsWeak : Phase → Bool
  | .upgrading | .droppingWeak => true
  | _ => false

section Behind

variable {p : Pool Tid (Shared α) (Thread α)} {t u : Tid} {k : Phase}

theorem threadsAt_pos (hphase : (p.threads t).phase = k) : 0 < threadsAt p k :=
  countAt_pos_iff.mpr ⟨t, hphase⟩

/-- Two threads in one phase. -/
theorem two_le_threadsAt (hne : t ≠ u) (ht : (p.threads t).phase = k)
    (hu : (p.threads u).phase = k) : 2 ≤ threadsAt p k := by
  have hle := add_le_total (fun th : Thread α ↦ if th.phase = k then 1 else 0) p.threads hne
  simp only [ht, hu, if_true] at hle
  exact hle

theorem Borrowed.liveArcs_pos (hb : Borrowed p) (hphase : (p.threads t).phase = k)
    (hk : k.holdsArc = true) : 0 < liveArcs p := by
  have hpos := threadsAt_pos hphase
  have harcs := hb.arcs
  rw [hb.arcBorrows, hb.mutBorrows] at harcs
  unfold liveArcs
  cases k <;> first | exact absurd hk Bool.noConfusion | omega

/-- A clone that is about to abort still borrows a handle. -/
theorem Borrowed.liveArcs_pos_of_counted (hb : Borrowed p)
    (hcounted : liveArcs p + threadsAt p .aborting ≠ 0) : 0 < liveArcs p := by
  have harcs := hb.arcs
  rw [hb.arcBorrows] at harcs
  unfold liveArcs at hcounted ⊢
  omega

theorem Borrowed.liveWeaks_pos (hb : Borrowed p) (hphase : (p.threads t).phase = k)
    (hk : k.holdsWeak = true) : 0 < liveWeaks p := by
  have hpos := threadsAt_pos hphase
  have hweaks := hb.weaks
  rw [hb.weakBorrows] at hweaks
  unfold liveWeaks
  cases k <;> first | exact absurd hk Bool.noConfusion | omega

/-- While an `Arc` handle is alive, the payload is there unless `into_inner` has just moved it
out. -/
theorem Counted.of_liveArcs_pos (h : Counted p) (hlive : 0 < liveArcs p) :
    p.shared.frees = 0 ∧ threadsAt p .freeing = 0 ∧ threadsAt p .destroying = 0 ∧
      threadsAt p .releasing = 0 ∧ p.shared.removals = threadsAt p .moving := by
  have hlast := h.last.2 hlive
  have hblock := h.block.1 (by unfold implicitWeaks; omega)
  exact ⟨by omega, by omega, by omega, by omega, h.payload.1 hlive⟩

/-- A clone that is about to abort has added to `strong_count` and made no handle. -/
theorem Counted.strongCount_ne_of_aborting (h : Counted p) (hfrees : p.shared.frees = 0)
    (hphase : (p.threads t).phase = .aborting) : p.shared.strongCount ≠ liveArcs p := by
  have hstrong := h.strong hfrees
  have haborting := threadsAt_pos hphase
  omega

/-- While a `Weak` handle is alive, the block is allocated and nobody has it locked. -/
theorem Counted.of_liveWeaks_pos (h : Counted p) (hlive : 0 < liveWeaks p) :
    p.shared.frees = 0 ∧ threadsAt p .freeing = 0 ∧ locks p = 0 := by
  have hblock := h.block.1 (by omega)
  refine ⟨by omega, by omega, Nat.eq_zero_of_not_pos fun hlocks ↦ ?_⟩
  rw [(h.locked hlocks).2.2] at hlive
  exact hlive.false

/-- While the implicit weak reference is there, the block is allocated. -/
theorem Counted.of_implicitWeaks_pos (h : Counted p) (hlive : 0 < implicitWeaks p) :
    p.shared.frees = 0 ∧ threadsAt p .freeing = 0 := by
  have hblock := h.block.1 (by omega)
  omega

/-- The thread that frees the block is the only one that uses it. -/
theorem Counted.of_freeing (h : Counted p) (hfreeing : 0 < threadsAt p .freeing) :
    p.shared.frees = 0 ∧ threadsAt p .freeing = 1 ∧ liveWeaks p + implicitWeaks p = 0 := by
  have hheld := h.block.1
  have hgone := h.block.2
  omega

/-- While some thread is inside a call, or uses the result of `get_mut`, the block is allocated. -/
theorem Counted.frees_eq_zero (h : Counted p) (hb : Borrowed p)
    (hbusy : (p.threads t).phase ≠ .idle) : p.shared.frees = 0 := by
  have hpos : 0 < threadsAt p (p.threads t).phase := threadsAt_pos rfl
  cases hphase : (p.threads t).phase with
  | idle => exact absurd hphase hbusy
  | upgrading | droppingWeak => exact (h.of_liveWeaks_pos (hb.liveWeaks_pos hphase rfl)).1
  | destroying | releasing =>
    rw [hphase] at hpos
    exact (h.of_implicitWeaks_pos (by unfold implicitWeaks; omega)).1
  | freeing =>
    rw [hphase] at hpos
    exact (h.of_freeing hpos).1
  | _ => exact (h.of_liveArcs_pos (hb.liveArcs_pos hphase rfl)).1

end Behind

/-! ### One step -/

section Step

variable [DecidableEq Tid] {data : α} {p p' : Pool Tid (Shared α) (Thread α)}
  {label : Label Tid (Choice α)}

/-- A step of the pool is a step of one thread. -/
theorem step_eq (h : (system Tid data).step p label = some p') :
    ∃ moved, step p.shared (p.threads label.thread) label.choice = some (p'.shared, moved) ∧
      p'.threads = update p.threads label.thread moved := by
  obtain ⟨moved, signal, hlocal, hdelivered⟩ := Machine.step_cases h
  simp only [machine, Option.map_eq_some_iff, Prod.mk.injEq, Prod.exists] at hlocal
  obtain ⟨after, moved', hstep, rfl, rfl, rfl⟩ := hlocal
  exact ⟨moved', hstep, hdelivered.silent_eq⟩

/-- Moving one thread between phases changes the counts of the two phases by one. -/
theorem threadsAt_update {moved : Thread α}
    (hthreads : p'.threads = update p.threads label.thread moved)
    {k k' : Phase} (hbefore : (p.threads label.thread).phase = k) (hafter : moved.phase = k')
    (r : Phase) :
    threadsAt p' r = threadsAt p r + (if k' = r then 1 else 0) - if k = r then 1 else 0 := by
  have hcount := countAt_update hbefore hafter r
  rw [threadsAt, hthreads]
  exact Nat.eq_sub_of_add_eq hcount

/-- A step within one phase changes no count. -/
theorem threadsAt_stay {moved : Thread α}
    (hthreads : p'.threads = update p.threads label.thread moved)
    (hphase : moved.phase = (p.threads label.thread).phase) : threadsAt p' = threadsAt p := by
  funext r
  rw [threadsAt_update hthreads rfl hphase, Nat.add_sub_cancel]

/-- One step keeps the borrows. -/
theorem borrowed_step {moved : Thread α} (hb : Borrowed p) (h : Counted p)
    (hevent : Event p.shared (p.threads label.thread) p'.shared moved)
    (hthreads : p'.threads = update p.threads label.thread moved) : Borrowed p' := by
  have htouch {k : Phase} (hbefore : (p.threads label.thread).phase = k) (hk : k ≠ .idle) :
      p.shared.touch = p.shared := if_pos (h.frees_eq_zero hb (hbefore ▸ hk))
  have hmoved {k k' : Phase} (hbefore : (p.threads label.thread).phase = k)
      (hafter : moved.phase = k') :=
    Phase.forall.mp (threadsAt_update hthreads hbefore hafter)
  rw [borrowed_iff] at hb ⊢
  cases hevent
  case stay hbusy hafter hphase =>
    rw [hafter, htouch rfl hbusy, threadsAt_stay hthreads hphase]
    exact hb
  case finish hafter hbefore hphase =>
    rw [hafter, threadsAt_stay hthreads (hphase.trans hbefore.symm)]
    exact hb
  case release hafter hbefore hphase =>
    rw [htouch rfl (by rcases hbefore with hbefore | hbefore <;> rw [hbefore] <;>
      exact Phase.noConfusion)] at hafter
    rcases hbefore with hbefore | hbefore
    all_goals
      split_ifs at hphase
      all_goals
        have hcount := hmoved hbefore hphase
        simp only [reduceCtorEq, if_true, if_false, Nat.add_zero, Nat.sub_zero] at hcount
        simp only [hafter, hcount]
        exact hb
  case lockOwn | findSole | unlockOwn | moveOut | freeOwn | drop | dropLast | destroy | free =>
    rename_i hafter hbefore hphase
    have hcount := hmoved hbefore hphase
    simp only [reduceCtorEq, if_true, if_false, Nat.add_zero, Nat.sub_zero] at hcount
    rw [htouch hbefore Phase.noConfusion] at hafter
    simp only [hafter, hcount]
    exact hb
  all_goals
    rename_i hafter hbefore hphase
    have hmover := threadsAt_pos hbefore
    have hcount := hmoved hbefore hphase
    simp only [reduceCtorEq, if_true, if_false, Nat.add_zero, Nat.sub_zero] at hcount
    try rw [htouch hbefore Phase.noConfusion] at hafter
    simp only [hafter, hcount]
    clear hcount hmoved
    omega

/-! ### The invariant, operation by operation -/

section Operations

variable {moved : Thread α} (hb : Borrowed p) (h : Counted p)
  (hthreads : p'.threads = update p.threads label.thread moved)

include hb h hthreads

/-- `upgrade` has found the count it has loaded. -/
theorem Counted.upgrade (hloaded : p.shared.strongCount ≠ 0 ∧ p.shared.strongCount ≤ maxRefCount)
    (hafter : p'.shared = { p.shared with
      strongCount := addUsize p.shared.strongCount 1
      arcs := p.shared.arcs + 1
      weakBorrows := p.shared.weakBorrows - 1 })
    (hbefore : (p.threads label.thread).phase = .upgrading) (hphase : moved.phase = .idle) :
    Counted p' := by
  have hmax : maxRefCount = 9223372036854775807 := rfl
  obtain ⟨hfrees, hfreeing, hunlocked⟩ := h.of_liveWeaks_pos (hb.liveWeaks_pos hbefore rfl)
  have hstrong := h.strong hfrees
  have hrefs := h.refs hfrees hunlocked
  have hsole := h.sole
  have hweaks := hb.liveWeaks_pos hbefore rfl
  have hlive := hb.liveArcs_pos_of_counted (by omega)
  have harcs := hb.arcs
  rw [hb.arcBorrows, hb.mutBorrows] at harcs
  obtain ⟨-, -, hdestroying, hreleasing, hremovals⟩ := h.of_liveArcs_pos hlive
  have hcount := Phase.forall.mp (threadsAt_update hthreads hbefore hphase)
  simp only [reduceCtorEq, if_true, if_false, Nat.add_zero, Nat.sub_zero] at hcount
  rw [counted_iff]
  simp only [locks, implicitWeaks, liveArcs, liveWeaks]
    at hunlocked hrefs hsole hstrong hweaks hlive ⊢
  simp only [hafter, hcount, h.strays, addUsize]
  clear hcount
  refine ⟨?_, ?_, ?_, ⟨?_, ?_⟩, ?_, ⟨?_, ?_⟩, ⟨?_, ?_⟩, ⟨?_, h.bound.2⟩, trivial⟩ <;> omega

/-- `downgrade` has found the count it has loaded. -/
theorem Counted.downgrade (hloaded : p.shared.refCount ≤ maxRefCount)
    (hafter : p'.shared = { p.shared with
      refCount := addUsize p.shared.refCount 1
      weaks := p.shared.weaks + 1
      arcBorrows := p.shared.arcBorrows - 1 })
    (hbefore : (p.threads label.thread).phase = .sharing) (hphase : moved.phase = .idle) :
    Counted p' := by
  have hmax : maxRefCount = 9223372036854775807 := rfl
  have hlive : 0 < liveArcs p := hb.liveArcs_pos hbefore rfl
  obtain ⟨hfrees, hfreeing, hdestroying, hreleasing, hremovals⟩ := h.of_liveArcs_pos hlive
  have hrefs := h.refs hfrees
  have hlocked := h.locked
  have hsole := h.sole
  have harcs := hb.arcs
  have hmover := threadsAt_pos hbefore
  rw [hb.arcBorrows, hb.mutBorrows] at harcs
  have hcount := Phase.forall.mp (threadsAt_update hthreads hbefore hphase)
  simp only [reduceCtorEq, if_true, if_false, Nat.add_zero, Nat.sub_zero] at hcount
  rw [counted_iff] at h ⊢
  simp only [locks, implicitWeaks, liveArcs, liveWeaks, usizeMax_eq]
    at h hlive hrefs hlocked hsole ⊢
  simp only [hafter, hcount, addUsize]
  obtain ⟨h₁, -, -, h₄, -, h₆, -, ⟨h₈, -⟩, h₉⟩ := h
  refine ⟨h₁, ?_, ?_, h₄, ?_, h₆, ⟨?_, ?_⟩, ⟨h₈, ?_⟩, h₉⟩
  all_goals
    clear hcount
    omega

omit hb in
/-- The thread that has dropped the last `Arc` destroys the payload. -/
theorem Counted.destroy
    (hafter : p'.shared =
      { p.shared with data := none, removals := p.shared.removals + 1 })
    (hbefore : (p.threads label.thread).phase = .destroying) (hphase : moved.phase = .releasing) :
    Counted p' := by
  have hmover := threadsAt_pos hbefore
  obtain ⟨hfrees, hfreeing⟩ := h.of_implicitWeaks_pos (by unfold implicitWeaks; omega)
  have hlast := h.last
  have hgone : liveArcs p = 0 := by omega
  have hpayload := h.payload.2 hgone
  have hcount := Phase.forall.mp (threadsAt_update hthreads hbefore hphase)
  simp only [reduceCtorEq, if_true, if_false, Nat.add_zero, Nat.sub_zero] at hcount
  have hclosing : threadsAt p .destroying - 1 + (threadsAt p .releasing + 1) =
      threadsAt p .destroying + threadsAt p .releasing := by omega
  rw [counted_iff] at h ⊢
  simp only [locks, implicitWeaks, liveArcs, liveWeaks, Nat.add_assoc] at h hgone ⊢
  simp only [hafter, hcount, hclosing]
  obtain ⟨h₁, h₂, h₃, h₄, h₅, h₆, h₇, h₈, h₉⟩ := h
  refine ⟨h₁, h₂, h₃, h₄, h₅, ⟨?_, ?_⟩, h₇, h₈, h₉⟩
  · omega
  · omega

/-- A drop subtracts a `Weak`, or the implicit weak reference. -/
theorem Counted.release
    (hafter : p'.shared = { p.shared with refCount := subUsize p.shared.refCount 1 })
    (hbefore : (p.threads label.thread).phase = .releasing ∨
      (p.threads label.thread).phase = .droppingWeak)
    (hphase : moved.phase = if p.shared.refCount = 1 then .freeing else .idle) : Counted p' := by
  have hunlocked : locks p = 0 := by
    rcases hbefore with hbefore | hbefore
    · have hpos := threadsAt_pos hbefore
      have hlast := h.last
      have harcs := hb.arcs
      rw [hb.mutBorrows] at harcs
      unfold locks
      unfold liveArcs at hlast
      omega
    · exact (h.of_liveWeaks_pos (hb.liveWeaks_pos hbefore rfl)).2.2
  have hmover : 0 < threadsAt p .releasing + threadsAt p .droppingWeak := by
    rcases hbefore with hbefore | hbefore <;> have hpos := threadsAt_pos hbefore <;> omega
  obtain ⟨hfrees, hfreeing⟩ : p.shared.frees = 0 ∧ threadsAt p .freeing = 0 := by
    have hblock := h.block.1 (by unfold liveWeaks implicitWeaks; omega)
    omega
  have hlast := h.last
  have hrefs := h.refs hfrees hunlocked
  have hbound := h.bound.2
  have hsole := h.sole
  rw [counted_iff] at h ⊢
  simp only [usizeMax_eq] at hbound
  simp only [locks, implicitWeaks, liveArcs, liveWeaks, usizeMax_eq]
    at h hunlocked hrefs hlast hsole ⊢
  rcases hbefore with hbefore | hbefore
  all_goals
    split_ifs at hphase with hone
    all_goals
      have hpos := threadsAt_pos hbefore
      have hcount := Phase.forall.mp (threadsAt_update hthreads hbefore hphase)
      simp only [reduceCtorEq, if_true, if_false, Nat.add_zero, Nat.sub_zero] at hcount
      simp only [hafter, hcount, subUsize]
      obtain ⟨h₁, -, -, -, -, h₆, -, ⟨h₈, -⟩, h₉⟩ := h
      refine ⟨h₁, ?_, ?_, ⟨?_, ?_⟩, ?_, h₆, ⟨?_, ?_⟩, ⟨h₈, ?_⟩, h₉⟩
      all_goals
        clear hcount
        omega

omit hb in
/-- The thread that has subtracted the last reference frees the block. -/
theorem Counted.free (hafter : p'.shared = { p.shared with frees := p.shared.frees + 1 })
    (hbefore : (p.threads label.thread).phase = .freeing) (hphase : moved.phase = .idle) :
    Counted p' := by
  have hmover := threadsAt_pos hbefore
  obtain ⟨hfrees, hfreeing, hgone⟩ := h.of_freeing hmover
  have hcount := Phase.forall.mp (threadsAt_update hthreads hbefore hphase)
  simp only [reduceCtorEq, if_true, if_false, Nat.add_zero, Nat.sub_zero] at hcount
  rw [counted_iff] at h ⊢
  simp only [locks, implicitWeaks, liveArcs, liveWeaks] at h hgone ⊢
  simp only [hafter, hcount]
  obtain ⟨-, -, h₃, h₄, h₅, h₆, -, ⟨-, h₈⟩, h₉⟩ := h
  refine ⟨?_, ?_, h₃, h₄, h₅, h₆, ⟨?_, ?_⟩, ⟨?_, h₈⟩, h₉⟩
  all_goals
    clear hcount
    omega

end Operations

/-- One step keeps the invariant. Assumes: the thread that moves knows that the count it has loaded
is small, and no clone makes `strong_count` wrap. -/
theorem counted_step {moved : Thread α} (hb : Borrowed p) (h : Counted p)
    (hloaded : (p.threads label.thread).Loaded) (hword : p.shared.strongCount ≤ usizeMax)
    (hwrap : (p.threads label.thread).phase = .sharing → moved.phase = .aborting →
      p.shared.strongCount < usizeMax)
    (hevent : Event p.shared (p.threads label.thread) p'.shared moved)
    (hthreads : p'.threads = update p.threads label.thread moved) : Counted p' := by
  have htouch {k : Phase} (hbefore : (p.threads label.thread).phase = k) (hk : k ≠ .idle) :
      p.shared.touch = p.shared := if_pos (h.frees_eq_zero hb (hbefore ▸ hk))
  have hmoved {k k' : Phase} (hbefore : (p.threads label.thread).phase = k)
      (hafter : moved.phase = k') :=
    Phase.forall.mp (threadsAt_update hthreads hbefore hafter)
  have hmax : maxRefCount = 9223372036854775807 := rfl
  cases hevent
  case stay hbusy hafter hphase =>
    rw [counted_iff] at h ⊢
    rw [hafter, htouch rfl hbusy]
    unfold locks implicitWeaks liveArcs liveWeaks at h ⊢
    rw [hafter, htouch rfl hbusy, threadsAt_stay hthreads hphase]
    exact h
  case finish hafter hbefore hphase =>
    rw [counted_iff] at h ⊢
    unfold locks implicitWeaks liveArcs liveWeaks at h ⊢
    rw [hafter, threadsAt_stay hthreads (hphase.trans hbefore.symm)]
    exact h
  case share | borrowWeak | borrowMut | unshare | failUpgrade | failMut | write =>
    rename_i hafter hbefore hphase
    have hcount := hmoved hbefore hphase
    simp only [reduceCtorEq, if_true, if_false, Nat.add_zero, Nat.sub_zero] at hcount
    try rw [htouch hbefore Phase.noConfusion] at hafter
    rw [counted_iff] at h ⊢
    simp only [locks, implicitWeaks, liveArcs, liveWeaks, hafter, hcount] at h ⊢
    exact h
  case takeArc hfree hafter hbefore hphase =>
    have hcount := hmoved hbefore hphase
    simp only [reduceCtorEq, if_true, if_false, Nat.add_zero, Nat.sub_zero] at hcount
    have hsame : liveArcs p' = liveArcs p := by
      simp only [liveArcs, hafter, hcount]
      omega
    rw [counted_iff] at h ⊢
    simp only [locks, implicitWeaks, liveWeaks, hsame, hafter, hcount] at h ⊢
    exact h
  case takeWeak hfree hafter hbefore hphase =>
    have hcount := hmoved hbefore hphase
    simp only [reduceCtorEq, if_true, if_false, Nat.add_zero, Nat.sub_zero] at hcount
    have hsame : liveWeaks p' = liveWeaks p := by
      simp only [liveWeaks, hafter, hcount]
      omega
    rw [counted_iff] at h ⊢
    simp only [locks, implicitWeaks, liveArcs, hsame, hafter, hcount] at h ⊢
    exact h
  case endBorrow hafter hbefore hphase =>
    have hcount := hmoved hbefore hphase
    simp only [reduceCtorEq, if_true, if_false, Nat.add_zero, Nat.sub_zero] at hcount
    have hmover := threadsAt_pos hbefore
    have hsole := h.sole (by omega)
    rw [counted_iff] at h ⊢
    simp only [locks, implicitWeaks, liveArcs, liveWeaks, hafter, hcount] at h hsole ⊢
    obtain ⟨h₁, h₂, h₃, h₄, -, h₆, h₇, h₈, h₉⟩ := h
    exact ⟨h₁, h₂, h₃, h₄, fun _ ↦ hsole, h₆, h₇, h₈, h₉⟩
  case upgrade hcall hafter hbefore hphase =>
    rw [Thread.Loaded, hcall] at hloaded
    rw [htouch hbefore Phase.noConfusion] at hafter
    exact h.upgrade hb hthreads hloaded hafter hbefore hphase
  case downgrade hcall hafter hbefore hphase =>
    rw [Thread.Loaded, hcall] at hloaded
    rw [htouch hbefore Phase.noConfusion] at hafter
    exact h.downgrade hb hthreads hloaded hafter hbefore hphase
  case destroy hafter hbefore hphase =>
    rw [htouch hbefore Phase.noConfusion] at hafter
    exact h.destroy hthreads hafter hbefore hphase
  case release hafter hbefore hphase =>
    rw [htouch rfl (by rcases hbefore with hbefore | hbefore <;> rw [hbefore] <;>
      exact Phase.noConfusion)] at hafter
    exact h.release hb hthreads hafter hbefore hphase
  case free hafter hbefore hphase =>
    rw [htouch hbefore Phase.noConfusion] at hafter
    exact h.free hthreads hafter hbefore hphase
  case lockMut | findUnique | unlockMut | handOut | lockOwn | findSole | unlockOwn =>
    rename_i hafter hbefore hphase
    have hlive : 0 < liveArcs p := hb.liveArcs_pos hbefore rfl
    have himplicit : implicitWeaks p = 1 := by unfold implicitWeaks; omega
    obtain ⟨hfrees, hfreeing, hdestroying, hreleasing, hremovals⟩ := h.of_liveArcs_pos hlive
    have hmover := threadsAt_pos hbefore
    have hcount := hmoved hbefore hphase
    simp only [reduceCtorEq, if_true, if_false, Nat.add_zero, Nat.sub_zero] at hcount
    rw [htouch hbefore Phase.noConfusion] at hafter
    have harcs : liveArcs p' = liveArcs p := by
      simp only [liveArcs, hafter, hcount]
      try omega
    have hweaks : liveWeaks p' = liveWeaks p := by simp only [liveWeaks, hafter, hcount]
    have hsameImplicit : implicitWeaks p' = implicitWeaks p := by
      simp only [implicitWeaks, harcs, hcount]
    have hstrong := h.strong hfrees
    have hrefs := h.refs hfrees
    have hlocked := h.locked
    have hsole := h.sole
    have hrefsBound := h.bound.2
    simp only [locks, himplicit, usizeMax_eq] at hrefs hlocked
    rw [counted_iff]
    simp only [locks, hsameImplicit, himplicit, harcs, hweaks]
    simp only [hafter, hcount, usizeMax_eq, true_and]
    refine ⟨h.strong, ?_, ?_, h.last, ?_, h.payload, himplicit ▸ h.block, ⟨h.bound.1, ?_⟩, h.strays⟩
    all_goals
      clear hcount hmoved
      omega
  all_goals
    rename_i hafter hbefore hphase
    have hlive : 0 < liveArcs p := hb.liveArcs_pos hbefore rfl
    obtain ⟨hfrees, hfreeing, hdestroying, hreleasing, hremovals⟩ := h.of_liveArcs_pos hlive
    have hstrong := h.strong hfrees
    have hrefs := h.refs hfrees
    have hlocked := h.locked
    have hsole := h.sole
    have hbound := h.bound.1 hfrees
    have hrefsBound := h.bound.2
    have harcs := hb.arcs
    have hmover := threadsAt_pos hbefore
    have hcount := hmoved hbefore hphase
    simp only [reduceCtorEq, if_true, if_false, Nat.add_zero, Nat.sub_zero] at hcount
    rw [htouch hbefore Phase.noConfusion] at hafter
    simp only [hbefore, hphase, reduceCtorEq, false_implies, true_implies, usizeMax_eq]
      at hword hwrap
    rw [counted_iff]
    rw [hb.arcBorrows, hb.mutBorrows] at harcs
    simp only [locks, implicitWeaks, liveArcs, liveWeaks] at hlive hrefs hlocked hsole hstrong ⊢
    simp only [hdestroying, hreleasing, usizeMax_eq, Nat.add_zero] at hlocked hrefs
    simp only [hafter, hcount, h.strays, addUsize, subUsize, usizeMax_eq]
    clear hcount hmoved
    refine ⟨?_, ?_, ?_, ⟨?_, ?_⟩, ?_, ⟨?_, ?_⟩, ⟨?_, ?_⟩, ⟨?_, h.bound.2⟩, trivial⟩ <;> omega

end Step

/-! ### Every run -/

section Runs

variable [DecidableEq Tid] {data : α} {p p' : Pool Tid (Shared α) (Thread α)}
  {label : Label Tid (Choice α)}

/-- Every thread of a run knows what it has loaded. -/
theorem loaded (h : (system Tid data).Reachable p) (t : Tid) : (p.threads t).Loaded := by
  have hnew (t : Tid) : ((new Tid data).threads t).Loaded := trivial
  refine Machine.forall_threads (M := machine Tid α) (Q := fun _ th ↦ th.Loaded) hnew ?_
    (fun _ _ h ↦ h) (fun _ _ h ↦ h) h t
  intro t before th choice after moved signal hloaded hmove
  obtain ⟨⟨after', moved'⟩, hstep, hsame⟩ := Option.map_eq_some_iff.mp hmove
  obtain ⟨-, rfl, -⟩ : after' = after ∧ moved' = moved ∧ _ := by simpa using hsame
  exact step_loaded hloaded hstep

omit [DecidableEq Tid] in
/-- `Arc::new` starts with the invariant. -/
theorem counted_new : Borrowed (new Tid data) ∧ Counted (new Tid data) := by
  have hzero {phase : Phase} (hphase : phase ≠ .idle) : threadsAt (new Tid data) phase = 0 :=
    countAt_eq_zero_iff.mpr fun _ ↦ hphase.symm
  rw [borrowed_iff, counted_iff]
  unfold locks implicitWeaks liveArcs liveWeaks
  simp only [hzero, ne_eq, reduceCtorEq, not_false_eq_true]
  simp [new, maxRefCount, usizeMax_eq]

/-- The condition on a step under which the counters can be trusted: a clone does not make
`strong_count` wrap. -/
def NoWrap (p : Pool Tid (Shared α) (Thread α)) (label : Label Tid (Choice α)) : Prop :=
  (p.threads label.thread).call = .clone .fetchAdd → p.shared.strongCount < usizeMax

/-- `strong_count` never holds more than a word does. -/
theorem strongCount_le (h : (system Tid data).Reachable p) : p.shared.strongCount ≤ usizeMax := by
  refine h.invariant (P := fun p ↦ p.shared.strongCount ≤ usizeMax)
    (Nat.le_of_ble_eq_true rfl) ?_
  intro p label p' _ hword _ hmove
  obtain ⟨moved, hstep, -⟩ := step_eq hmove
  exact (step_event hstep).strongCount_le hword

/-- A step at which no clone makes `strong_count` wrap keeps the invariant. -/
theorem counted_next (hrun : (system Tid data).Reachable p) (hb : Borrowed p) (h : Counted p)
    (hnoWrap : NoWrap p label) (hmove : (system Tid data).step p label = some p') :
    Borrowed p' ∧ Counted p' := by
  obtain ⟨moved, hstep, hthreads⟩ := step_eq hmove
  have hevent := step_event hstep
  have hwrap (hsharing : (p.threads label.thread).phase = .sharing)
      (haborting : moved.phase = .aborting) : p.shared.strongCount < usizeMax :=
    hnoWrap (call_of_overflow hstep hsharing haborting)
  exact ⟨borrowed_step hb h hevent hthreads,
    counted_step hb h (loaded hrun _) (strongCount_le hrun) hwrap hevent hthreads⟩

/-- The invariant holds in every run in which no clone makes `strong_count` wrap. -/
theorem counted_when {ok : Pool Tid (Shared α) (Thread α) → Label Tid (Choice α) → Prop}
    (hok : ∀ p label, Borrowed p → Counted p → ok p label → NoWrap p label)
    (h : (system Tid data).ReachableWhen ok p) : Borrowed p ∧ Counted p := by
  refine h.invariant (P := fun p ↦ Borrowed p ∧ Counted p) counted_new ?_
  rintro p label p' hrun ⟨hb, hc⟩ hmeets hmove
  exact counted_next hrun.reachable hb hc (hok p label hb hc hmeets) hmove

omit [DecidableEq Tid] in
/-- With fewer than `usize::MAX / 2` clones about to abort no clone makes `strong_count` wrap. -/
theorem noWrap_of_aborting (hfew : threadsAt p .aborting < maxRefCount) (hb : Borrowed p)
    (h : Counted p) : NoWrap p label := by
  intro hcall
  have hfrees := h.frees_eq_zero hb (t := label.thread) (by
    rw [phase_of_call hcall]
    exact Phase.noConfusion)
  have hbound := h.bound.1 hfrees
  have hmax : maxRefCount = 9223372036854775807 := rfl
  rw [usizeMax_eq]
  omega

omit [DecidableEq Tid] in
/-- With fewer than `usize::MAX / 2` threads no clone makes `strong_count` wrap. -/
theorem noWrap_of_card (hfew : Fintype.card Tid < maxRefCount) (hb : Borrowed p) (h : Counted p) :
    NoWrap p label :=
  noWrap_of_aborting (countAt_le_card.trans_lt hfew) hb h

/-- The invariant holds in every state of every run in which no clone is about to abort: a clone
that is about to abort stays so, hence there was none before either. -/
theorem counted_of_quiet (h : (system Tid data).Reachable p)
    (hquiet : ∀ t, (p.threads t).phase ≠ .aborting) : Borrowed p ∧ Counted p := by
  refine h.invariant
    (P := fun p ↦ (∀ t, (p.threads t).phase ≠ .aborting) → Borrowed p ∧ Counted p)
    (fun _ ↦ counted_new) ?_ hquiet
  intro p label p' hrun ih _ hmove hquiet
  have hbefore (t : Tid) : (p.threads t).phase ≠ .aborting := by
    intro haborting
    obtain ⟨moved, hstep, hthreads⟩ := step_eq hmove
    refine hquiet t ?_
    rw [hthreads]
    by_cases hself : t = label.thread
    · subst hself
      rw [update_self]
      exact (step_event hstep).aborting haborting
    · rw [update_of_ne hself]
      exact haborting
  obtain ⟨hb, hc⟩ := ih hbefore
  have hfew : threadsAt p .aborting < maxRefCount := by
    rw [show threadsAt p .aborting = 0 from countAt_eq_zero_iff.mpr hbefore]
    decide
  exact counted_next hrun hb hc (noWrap_of_aborting hfew hb hc) hmove

/-- The invariant holds in every run. -/
theorem counted (hfew : Fintype.card Tid < maxRefCount) (h : (system Tid data).Reachable p) :
    Borrowed p ∧ Counted p :=
  counted_when (fun _ _ hb hc _ ↦ noWrap_of_card hfew hb hc) h

/-! ### Lifetime -/

/-- What holds of the two counters, the payload and the block in one state. The clones in the phase
`aborting` have added to `strong_count` and make no handle. `implicitWeaks` is one as long as the
implicit weak reference has not been released, and `locks` counts the calls that hold `ref_count` at
`usize::MAX`. -/
structure Lifetime (p : Pool Tid (Shared α) (Thread α)) : Prop where
  strongCount : p.shared.frees = 0 → p.shared.strongCount = liveArcs p + threadsAt p .aborting
  refCount : p.shared.frees = 0 →
    (locks p = 0 ∧ p.shared.refCount = liveWeaks p + implicitWeaks p) ∨
      (locks p = 1 ∧ p.shared.refCount = usizeMax)
  removedOnce : p.shared.removals ≤ 1
  removed : liveArcs p = 0 → threadsAt p .destroying = 0 → p.shared.removals = 1
  freedOnce : p.shared.frees ≤ 1
  freed : liveArcs p = 0 → liveWeaks p = 0 →
    threadsAt p .destroying + threadsAt p .releasing + threadsAt p .freeing = 0 → p.shared.frees = 1
  inUse : 0 < liveArcs p + liveWeaks p → p.shared.frees = 0
  untouched : p.shared.strayAccesses = 0

/-- The payload is removed by the thread that has dropped the last `Arc`, or by the `into_inner` of
the last `Arc`. -/
def RemovedByLast (p : Pool Tid (Shared α) (Thread α)) (t : Tid) : Prop :=
  ((p.threads t).phase = .destroying ∧ liveArcs p = 0) ∨
    ((p.threads t).phase = .reading ∧ liveArcs p = 1)

/-- The step ends an `upgrade` that returns `Some`. -/
def Upgrades (p p' : Pool Tid (Shared α) (Thread α)) (t : Tid) : Prop :=
  (∃ pc, (p.threads t).call = .upgrade pc) ∧ (p'.threads t).call = .idle ∧
    (p'.threads t).result = some (.upgraded true)

omit [DecidableEq Tid] in
theorem Counted.lifetime (h : Counted p) : Lifetime p where
  strongCount := h.strong
  refCount := by
    intro hfrees
    rcases Nat.eq_zero_or_pos (locks p) with hunlocked | hlocks
    · exact .inl ⟨hunlocked, h.refs hfrees hunlocked⟩
    · obtain ⟨hone, hmax, -⟩ := h.locked hlocks
      exact .inr ⟨hone, hmax⟩
  removedOnce := by
    have hsole := h.sole
    have hpayload := h.payload
    unfold liveArcs at hsole hpayload
    omega
  removed := by
    intro harcs hdestroying
    have hpayload := h.payload.2 harcs
    omega
  freedOnce := by
    have hblock := h.block
    omega
  freed := by
    intro harcs hweaks hdone
    have hblock := h.block.2 (by unfold implicitWeaks; omega)
    omega
  inUse := by
    intro hused
    have hblock := h.block.1 (by unfold implicitWeaks; omega)
    omega
  untouched := h.strays

/-- Only the last `Arc` handle removes the payload. -/
theorem removedByLast (h : Counted p) (hmove : (system Tid data).step p label = some p')
    (hremoves : p'.shared.removals ≠ p.shared.removals) : RemovedByLast p label.thread := by
  obtain ⟨moved, hstep, hthreads⟩ := step_eq hmove
  have htouch : p.shared.touch.removals = p.shared.removals := touch_removals
  cases step_event hstep
  case moveOut hafter hbefore hphase =>
    have hpos := threadsAt_pos hbefore
    exact .inr ⟨hbefore, (h.sole (by omega)).1⟩
  case destroy hafter hbefore hphase =>
    have hpos := threadsAt_pos hbefore
    have hlast := h.last
    exact .inl ⟨hbefore, by omega⟩
  case stay hafter _ => exact absurd ((congrArg Shared.removals hafter).trans htouch) hremoves
  all_goals
    rename_i hafter _ _
    first
      | exact absurd (congrArg Shared.removals hafter) hremoves
      | exact absurd ((congrArg Shared.removals hafter).trans htouch) hremoves

/-- `upgrade` returns `Some` only while the payload is there. -/
theorem removals_of_upgrades (hb : Borrowed p) (h : Counted p)
    (hloaded : (p.threads label.thread).Loaded) (hmove : (system Tid data).step p label = some p')
    (hupgrades : Upgrades p p' label.thread) : p.shared.removals = 0 := by
  obtain ⟨⟨pc, hcall⟩, hidle, hresult⟩ := hupgrades
  obtain ⟨moved, hstep, hthreads⟩ := step_eq hmove
  rw [hthreads, update_self] at hidle hresult
  have hupgrading : (p.threads label.thread).phase = .upgrading := phase_of_call hcall
  have hdone : moved.phase = .idle := phase_of_call hidle
  have hweaks := hb.liveWeaks_pos hupgrading rfl
  cases step_event hstep
  case stay hphase =>
    rw [hphase, hupgrading] at hdone
    cases hdone
  case upgrade hcall hafter hbefore hphase =>
    have hsmall : p.shared.strongCount ≠ 0 ∧ p.shared.strongCount ≤ maxRefCount := by
      rw [Thread.Loaded, hcall] at hloaded
      exact hloaded
    have hstrong := h.strong (h.of_liveWeaks_pos hweaks).1
    have hsole := h.sole
    obtain ⟨-, -, -, -, hremovals⟩ :=
      h.of_liveArcs_pos (hb.liveArcs_pos_of_counted (by omega))
    omega
  case failUpgrade hfailed hafter hbefore hphase =>
    exact absurd hresult hfailed
  case release hbefore hphase =>
    rw [hupgrading] at hbefore
    rcases hbefore with hbefore | hbefore <;> cases hbefore
  all_goals
    rename_i hbefore _
    rw [hupgrading] at hbefore
    cases hbefore

/-- In every state of every run the counters, the payload and the block are as the live handles
require; only the last `Arc` removes the payload, and `upgrade` returns `Some` only before that. -/
theorem lifetime_of_run (hfew : Fintype.card Tid < maxRefCount)
    (h : (system Tid data).Reachable p) :
    Lifetime p ∧ ∀ label p', (system Tid data).step p label = some p' →
      (p'.shared.removals ≠ p.shared.removals → RemovedByLast p label.thread) ∧
        (Upgrades p p' label.thread → p.shared.removals = 0) := by
  obtain ⟨hb, hc⟩ := counted hfew h
  refine ⟨hc.lifetime, fun label p' hmove ↦ ⟨?_, ?_⟩⟩
  · exact removedByLast hc hmove
  · exact removals_of_upgrades hb hc (loaded h _) hmove

/-- `lifetime_of_run` on a run in which one thread upgrades a `Weak` of the other, and drops the
last `Arc`; the other then drops the last `Weak`. -/
theorem lifetime_of_run_two_threads :
    ∃ p : Pool (Fin 2) (Shared ℕ) (Thread ℕ),
      p.shared.removals = 1 ∧ p.shared.frees = 1 ∧ Lifetime p := by
  obtain ⟨p, hrun, hremovals, hfrees⟩ := System.exists_reachableWhen_of_exec
    (M := system (Fin 2) 7) (fun _ _ ↦ True)
    (P := fun p ↦ p.shared.removals = 1 ∧ p.shared.frees = 1)
    ([⟨0, .downgrade, none⟩, ⟨0, .access, none⟩, ⟨0, .access, none⟩] ++
      [⟨1, .upgrade, none⟩, ⟨1, .access, none⟩, ⟨1, .access, none⟩] ++
      [⟨0, .dropArc, none⟩, ⟨0, .access, none⟩] ++
      [⟨1, .dropArc, none⟩, ⟨1, .access, none⟩, ⟨1, .access, none⟩, ⟨1, .access, none⟩] ++
      [⟨0, .dropWeak, none⟩, ⟨0, .access, none⟩, ⟨0, .access, none⟩]) (by decide)
  exact ⟨p, hremovals, hfrees, (lifetime_of_run (by decide) hrun).1⟩

end Runs

/-- One of two threads has made as many handles as a clone allows, and the other has added to
`strong_count` and is about to abort: `strong_count` is not the number of live handles. -/
theorem strong_count_beyond_handles :
    ∃ p : Pool (Option (Fin 1)) (Shared ℕ) (Thread ℕ),
      (system (Option (Fin 1)) 7).Reachable p ∧ Fintype.card (Option (Fin 1)) < maxRefCount ∧
        p.shared.frees = 0 ∧ (p.threads (some 0)).call = .clone .abort ∧
          p.shared.strongCount ≠ liveArcs p := by
  have hfew : Fintype.card (Option (Fin 1)) < maxRefCount := by decide
  obtain ⟨result, hrun⟩ := reachable_clones 1 1 le_rfl (Nat.le_add_left 1 maxRefCount)
  exact ⟨_, hrun, hfew, rfl, rfl,
    (counted hfew hrun).2.strongCount_ne_of_aborting (t := some 0) rfl rfl⟩

end Pool

end SyncPrimitives.Arc
