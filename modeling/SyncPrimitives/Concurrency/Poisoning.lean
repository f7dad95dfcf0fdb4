import SyncPrimitives.Concurrency.Guarded

/-!
# Locks that are poisoned

A lock keeps a flag that the drop of a guard in a panicking thread sets. The flag is there to
protect a property of the data that holds between critical sections: whoever holds a guard may break
it for a while. `Careful` is what the users of the lock owe. A guard is dropped without a panic only
if the data is consistent or the lock is poisoned, and the flag is cleared only while the data is
consistent or by a thread with a guard.

A `PoisonFlag` says where the flag is, which threads may write, and which choices drop a guard
without a panic or clear the flag; `FlagMove` lists what a step of the lock may do to the flag and
to who writes. If every step is one of these, then in every state of every run the data is
consistent, or the lock is poisoned, or somebody may write (`consistent_or_poisoned`). Hence the
data is consistent whenever nobody may write and the lock is not poisoned
(`Protected.consistent_of_unpoisoned`), which is what a call finds that returns `Ok`.
-/

set_option autoImplicit false
set_option relaxedAutoImplicit false

namespace SyncPrimitives.Concurrency

open Function

/-- The poisoned flag of a lock. A thread writes if it owns a guard for writing and the call that
has acquired it has returned. -/
structure PoisonFlag (LockShared LockLocal LockChoice : Type*) where
  poisoned : LockShared → Bool
  writes : LockLocal → Bool
  gives : LockChoice → Bool
  clears : LockChoice → Bool

variable {Tid LockShared LockLocal LockChoice Addr α : Type*}

/-- What a step of a lock may do to the flag, and to whether its thread writes. -/
inductive FlagMove (F : PoisonFlag LockShared LockLocal LockChoice) (before : LockShared)
    (th : LockLocal) (choice : LockChoice) (after : LockShared) (moved : LockLocal) : Prop
  | keep (hflag : F.poisoned after = F.poisoned before)
      (hwrites : F.writes th = true → F.writes moved = true)
  | poison (hflag : F.poisoned after = true)
  | give (hgives : F.gives choice = true) (hflag : F.poisoned after = F.poisoned before)
  | clear (hclears : F.clears choice = true) (hwrites : F.writes th = true → F.writes moved = true)

namespace Guarded

section Users

variable (F : PoisonFlag LockShared LockLocal LockChoice) (consistent : α → Prop)

/-- What a user of the lock owes at a step. -/
def CarefulChoice (shared : Shared LockShared α) (th : LockLocal) : Choice LockChoice α → Prop
  | .lock choice =>
    (F.gives choice = true → consistent shared.data ∨ F.poisoned shared.lock = true) ∧
      (F.clears choice = true → consistent shared.data ∨ F.writes th = true)
  | _ => True

/-- The users of the lock keep the data consistent, or poison the lock. -/
def Careful (p : Pool Tid (Shared LockShared α) (Local LockLocal α))
    (label : Label Tid (Choice LockChoice α)) : Prop :=
  CarefulChoice F consistent p.shared (p.threads label.thread).lock label.choice

instance [DecidablePred consistent] (shared : Shared LockShared α) (th : LockLocal) :
    (choice : Choice LockChoice α) → Decidable (CarefulChoice F consistent shared th choice)
  | .lock _ => inferInstanceAs (Decidable (_ ∧ _))
  | .load => inferInstanceAs (Decidable True)
  | .store _ => inferInstanceAs (Decidable True)

instance [DecidablePred consistent] (p : Pool Tid (Shared LockShared α) (Local LockLocal α))
    (label : Label Tid (Choice LockChoice α)) : Decidable (Careful F consistent p label) :=
  inferInstanceAs (Decidable (CarefulChoice _ _ _ _ _))

end Users

section Runs

variable [DecidableEq Tid] [Fintype Tid] [DecidableEq Addr]
  {M : Machine Tid LockShared LockLocal LockChoice Addr} {guards : Guards LockLocal}
  {pool : Pool Tid LockShared LockLocal} {data : α}
  {F : PoisonFlag LockShared LockLocal LockChoice} {consistent : α → Prop}
  {ok : Pool Tid (Shared LockShared α) (Local LockLocal α) →
    Label Tid (Choice LockChoice α) → Prop}
  {p p' : Pool Tid (Shared LockShared α) (Local LockLocal α)}

/-- The data is consistent, or the lock is poisoned, or somebody writes. -/
def Protected (F : PoisonFlag LockShared LockLocal LockChoice) (consistent : α → Prop)
    (p : Pool Tid (Shared LockShared α) (Local LockLocal α)) : Prop :=
  consistent p.shared.data ∨ F.poisoned p.shared.lock = true ∨
    ∃ t, F.writes (p.threads t).lock = true

omit [Fintype Tid] in
/-- A delivery leaves who writes. Assumes: waking and unparking do. -/
theorem delivered_writes (hwake : ∀ a, F.writes (M.wake a) = F.writes a)
    (hunpark : ∀ a, F.writes (M.unpark a) = F.writes a) {signal : Signal Tid Addr}
    {f f' : Tid → Local LockLocal α} (h : (M.guarded guards α).Delivered signal f f') (t : Tid) :
    F.writes (f' t).lock = F.writes (f t).lock := by
  rcases h.thread t with heq | ⟨-, -, heq⟩ | heq
  · rw [heq]
  · rw [heq]
    exact hwake _
  · rw [heq]
    exact hunpark _

/-- One step keeps the protection. Assumes: a step of the lock is one of the moves, and the user is
careful and stores only if the thread writes. -/
theorem protected_step {label : Label Tid (Choice LockChoice α)}
    (hwake : ∀ a, F.writes (M.wake a) = F.writes a)
    (hunpark : ∀ a, F.writes (M.unpark a) = F.writes a)
    (hlock : ∀ choice after moved signal,
      M.step label.thread p.shared.lock (p.threads label.thread).lock choice =
        some (after, moved, signal) →
      FlagMove F p.shared.lock (p.threads label.thread).lock choice after moved)
    (hcareful : Careful F consistent p label)
    (hstores : label.choice.storing = true → guards.owns (p.threads label.thread).lock = true →
      guards.idle (p.threads label.thread).lock = true →
      F.writes (p.threads label.thread).lock = true)
    (h : Protected F consistent p)
    (hmove : ((M.guarded guards α).system (start pool data)).step p label = some p') :
    Protected F consistent p' := by
  obtain ⟨moved, signal, hlocal, hdelivered⟩ := Machine.step_cases hmove
  have hwrites (t : Tid) : F.writes (p'.threads t).lock =
      F.writes (update p.threads label.thread moved t).lock :=
    delivered_writes hwake hunpark hdelivered t
  -- who writes stays so if the thread of the step does
  have hwriter (hkeeps : F.writes (p.threads label.thread).lock = true →
      F.writes moved.lock = true) (hsome : ∃ t, F.writes (p.threads t).lock = true) :
      ∃ t, F.writes (p'.threads t).lock = true := by
    obtain ⟨t, ht⟩ := hsome
    refine ⟨t, ?_⟩
    rw [hwrites]
    by_cases heq : t = label.thread
    · rw [heq, update_self]
      exact hkeeps (heq ▸ ht)
    · rw [update_of_ne heq]
      exact ht
  rcases lock_or_use_of_step hlocal with
    ⟨choice, hchoice, hstep, hdata⟩ | ⟨howns, hidle, hsame, hthread, hdata⟩
  · rw [Careful, hchoice] at hcareful
    rw [Protected, hdata]
    cases hlock choice _ _ _ hstep with
    | keep hflag hkeeps =>
      rw [hflag]
      exact h.imp_right (Or.imp_right (hwriter hkeeps))
    | poison hflag => exact .inr (.inl hflag)
    | give hgives hflag =>
      rw [hflag]
      exact (hcareful.1 hgives).imp_right .inl
    | clear hclears hkeeps =>
      rcases hcareful.2 hclears with hdata | hself
      · exact .inl hdata
      · exact .inr (.inr (hwriter hkeeps ⟨_, hself⟩))
  · have hkeeps : F.writes (p.threads label.thread).lock = true → F.writes moved.lock = true := by
      rw [hthread]
      exact id
    by_cases hstoring : label.choice.storing = true
    -- the thread of the step writes, and goes on to do so
    · exact .inr (.inr (hwriter hkeeps ⟨_, hstores hstoring howns hidle⟩))
    · rw [Protected, hdata (Bool.eq_false_iff.mpr hstoring), hsame]
      exact h.imp_right (Or.imp_right (hwriter hkeeps))

/-- In every state of every run of careful users the data is consistent, or the lock is poisoned, or
somebody writes. Assumes: the data is consistent at first, every step of the lock is one of the
moves, who stores writes, and waking and unparking leave who writes. -/
theorem consistent_or_poisoned (hdata : consistent data)
    (hwake : ∀ a, F.writes (M.wake a) = F.writes a)
    (hunpark : ∀ a, F.writes (M.unpark a) = F.writes a)
    (hlock : ∀ p label choice after moved signal,
      ((M.guarded guards α).system (start pool data)).ReachableWhen ok p → ok p label →
      M.step label.thread p.shared.lock (p.threads label.thread).lock choice =
        some (after, moved, signal) →
      FlagMove F p.shared.lock (p.threads label.thread).lock choice after moved)
    (hcareful : ∀ p label, ok p label → Careful F consistent p label)
    (hstores : ∀ p label, ok p label → label.choice.storing = true →
      guards.owns (p.threads label.thread).lock = true →
      guards.idle (p.threads label.thread).lock = true →
      F.writes (p.threads label.thread).lock = true)
    (h : ((M.guarded guards α).system (start pool data)).ReachableWhen ok p) :
    Protected F consistent p := by
  refine h.invariant (.inl hdata) ?_
  intro p label p' hrun hprotected hmeets hmove
  exact protected_step hwake hunpark (fun _ _ _ _ ↦ hlock p label _ _ _ _ hrun hmeets)
    (hcareful p label hmeets) (hstores p label hmeets) hprotected hmove

omit [DecidableEq Tid] [Fintype Tid] in
/-- While nobody writes and the lock is not poisoned, the data is consistent. -/
theorem Protected.consistent_of_unpoisoned (h : Protected F consistent p)
    (hflag : F.poisoned p.shared.lock = false)
    (hnobody : ∀ t, F.writes (p.threads t).lock = false) : consistent p.shared.data := by
  rcases h with hdata | hpoisoned | ⟨t, ht⟩
  · exact hdata
  · rw [hflag] at hpoisoned
    cases hpoisoned
  · rw [hnobody t] at ht
    cases ht

end Runs

end Guarded

end SyncPrimitives.Concurrency
