import SyncPrimitives.Concurrency.ThreadPool

/-!
# Locks whose word names the owner

A lock keeps the id of its owner in a word, and zero while it is free. A thread acquires by
exchanging zero for its own id, and releases by storing zero, without looking. `OwnerMove` says what
a step may do to the word and to the guards that the state of its thread accounts for; `Owned` is
the invariant, that the word names the one thread with the one guard, and `owned` the run rule.
-/

set_option autoImplicit false
set_option relaxedAutoImplicit false

namespace SyncPrimitives.Concurrency

open Function

/-- A word, the ids of the threads, and the number of guards outstanding with a local state. -/
structure OwnerWord (Tid Shared Local : Type*) where
  id : Tid → ℕ
  id_ne_zero : ∀ t, id t ≠ 0
  id_injective : Injective id
  word : Shared → ℕ
  outstanding : Local → ℕ

/-- What a step of a thread may do to the word and to its guards. -/
inductive OwnerMove {Tid Shared Local : Type*} (W : OwnerWord Tid Shared Local) (t : Tid)
    (before : Shared) (th : Local) (after : Shared) (moved : Local) : Prop
  | stay (hword : W.word after = W.word before) (hguards : W.outstanding moved = W.outstanding th)
  | acquire (hfree : W.word before = 0) (hword : W.word after = W.id t)
      (hguards : W.outstanding moved = W.outstanding th + 1)
  | release (hword : W.word after = 0) (hguards : W.outstanding moved + 1 = W.outstanding th)

section Pool

variable {Tid Shared Local Choice Addr : Type*} {W : OwnerWord Tid Shared Local}
  {p p' : Pool Tid Shared Local} {t u : Tid}

/-- The word is zero and no guard is outstanding, or it is the id of the single thread that has the
single outstanding guard. -/
def Owned (W : OwnerWord Tid Shared Local) (p : Pool Tid Shared Local) : Prop :=
  (W.word p.shared = 0 ∧ ∀ t, W.outstanding (p.threads t) = 0) ∨
    ∃ t, W.word p.shared = W.id t ∧ W.outstanding (p.threads t) = 1 ∧
      ∀ u, u ≠ t → W.outstanding (p.threads u) = 0

/-- The word is the id of a thread exactly if the thread has a guard. -/
theorem Owned.word_eq_id_iff (h : Owned W p) :
    W.word p.shared = W.id t ↔ 0 < W.outstanding (p.threads t) := by
  rcases h with ⟨hfree, hnone⟩ | ⟨owner, hword, hone, hothers⟩
  · rw [hfree, hnone t]
    simp [(W.id_ne_zero t).symm]
  · rw [hword, W.id_injective.eq_iff]
    constructor
    · rintro rfl
      omega
    · intro hpos
      by_contra hne
      have hzero := hothers t (Ne.symm hne)
      omega

/-- At most one thread has a guard. -/
theorem Owned.eq_of_outstanding (h : Owned W p) (ht : 0 < W.outstanding (p.threads t))
    (hu : 0 < W.outstanding (p.threads u)) : t = u := by
  rw [← h.word_eq_id_iff] at ht hu
  exact W.id_injective (ht.symm.trans hu)

/-- A thread has at most one guard. -/
theorem Owned.outstanding_eq_one (h : Owned W p) (ht : 0 < W.outstanding (p.threads t)) :
    W.outstanding (p.threads t) = 1 := by
  rcases h with ⟨-, hnone⟩ | ⟨owner, -, hone, hothers⟩
  · exact absurd (hnone t) ht.ne'
  · by_cases heq : t = owner
    · exact heq ▸ hone
    · exact absurd (hothers t heq) ht.ne'

/-- One step keeps the invariant. Assumes: the step is one of the moves, and it leaves the guards of
the other threads as they are. -/
theorem owned_step (h : Owned W p) {moved : Local}
    (hmove : OwnerMove W t p.shared (p.threads t) p'.shared moved)
    (hmover : W.outstanding (p'.threads t) = W.outstanding moved)
    (hothers : ∀ u, u ≠ t → W.outstanding (p'.threads u) = W.outstanding (p.threads u)) :
    Owned W p' := by
  cases hmove with
  | stay hword hguards =>
    have hsame (u : Tid) : W.outstanding (p'.threads u) = W.outstanding (p.threads u) := by
      by_cases hu : u = t
      · rw [hu, hmover, hguards]
      · exact hothers u hu
    simpa only [Owned, hword, hsame] using h
  | acquire hfree hword hguards =>
    have hnone : ∀ u, W.outstanding (p.threads u) = 0 := by
      rcases h with ⟨-, hnone⟩ | ⟨owner, howner, -⟩
      · exact hnone
      · exact absurd (howner.symm.trans hfree) (W.id_ne_zero owner)
    refine .inr ⟨t, hword, ?_, fun u hu ↦ (hothers u hu).trans (hnone u)⟩
    rw [hmover, hguards, hnone]
  | release hword hguards =>
    have hpos : 0 < W.outstanding (p.threads t) := by omega
    rcases h with ⟨-, hnone⟩ | ⟨owner, howner, hone, hzero⟩
    · exact absurd (hnone t) hpos.ne'
    · have ht : t = owner := by
        by_contra hne
        exact absurd (hzero t hne) hpos.ne'
      subst ht
      refine .inl ⟨hword, fun u ↦ ?_⟩
      by_cases hu : u = t
      · rw [hu, hmover]
        omega
      · exact (hothers u hu).trans (hzero u hu)

variable [DecidableEq Tid] [Fintype Tid] [DecidableEq Addr]
  {M : Machine Tid Shared Local Choice Addr} {start : Pool Tid Shared Local}

/-- The word names the owner in every state of every run. Assumes: nobody has a guard at the start,
every step of a thread is one of the moves, and waking and unparking change no guard. -/
theorem owned (hfree : W.word start.shared = 0) (hnone : ∀ t, W.outstanding (start.threads t) = 0)
    (hmove : ∀ t before th choice after moved signal,
      M.step t before th choice = some (after, moved, signal) → OwnerMove W t before th after moved)
    (hwake : ∀ a, W.outstanding (M.wake a) = W.outstanding a)
    (hunpark : ∀ a, W.outstanding (M.unpark a) = W.outstanding a)
    (h : (M.system start).Reachable p) : Owned W p := by
  refine h.invariant (P := Owned W) (.inl ⟨hfree, hnone⟩) ?_
  intro p label p' _ howned _ hstep
  obtain ⟨moved, signal, hlocal, hdelivered⟩ := Machine.step_cases hstep
  have hkeeps (u : Tid) : W.outstanding (p'.threads u) =
      W.outstanding (update p.threads label.thread moved u) := by
    rcases hdelivered.thread u with heq | ⟨_, _, heq⟩ | heq
    · rw [heq]
    · rw [heq, hwake]
    · rw [heq, hunpark]
  refine owned_step howned (hmove _ _ _ _ _ _ _ hlocal) ?_ fun u hu ↦ ?_
  · rw [hkeeps, update_self]
  · rw [hkeeps, update_of_ne hu]

end Pool

end SyncPrimitives.Concurrency
