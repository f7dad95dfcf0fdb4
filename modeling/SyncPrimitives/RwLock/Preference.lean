import SyncPrimitives.RwLock.Exclusion

/-!
# The preference for writers of the read-write lock

The waiting-writer bit is the lowest bit of the state word. `parity_of_effect` goes through the
effects of a step on an odd word: a read guard is acquired and the bit is set from an even word
only, a `fetch_sub(2)` keeps the lowest bit whatever the word is, and an acquired write guard leaves
`u32::MAX`, which is odd. Only the release of a write guard makes the word even. `since` records
whether a write guard has been acquired and whether one has been released since a given state;
`writer_preference` says that the bit stays, and the readers only become fewer, in every
continuation that has not seen such a release.
-/

set_option autoImplicit false
set_option relaxedAutoImplicit false

namespace SyncPrimitives.RwLock

open Concurrency Function

/-- A step from an odd word gives out no read guard, and leaves an odd word if it releases no write
guard. -/
theorem parity_of_effect {before after : Shared} {th moved : Thread}
    (hodd : before.state % 2 = 1) (heffect : Effect before th after moved) :
    moved.outstanding .read ≤ th.outstanding .read ∧
      (th.outstanding .write ≤ moved.outstanding .write → after.state % 2 = 1) := by
  cases heffect with
  | unchanged hstate hguards => exact ⟨(hguards .read).le, fun _ ↦ hstate ▸ hodd⟩
  | acquireRead heven => omega
  | acquireWrite hfree hstate hreads =>
    refine ⟨hreads.le, fun _ ↦ ?_⟩
    rw [hstate]
    decide
  | setWaiting hshared => omega
  | releaseRead hstate hreads =>
    refine ⟨by omega, fun _ ↦ ?_⟩
    rw [hstate]
    unfold subU32
    omega
  | releaseWrite hstate hreads hwrites => exact ⟨hreads.le, fun _ ↦ by omega⟩

/-- What has happened since a state: whether a write guard has been acquired, and whether one has
been released. -/
structure WriterCycle where
  acquired : Bool
  released : Bool
  deriving DecidableEq

section Runs

variable {Tid : Type} [DecidableEq Tid] [Fintype Tid] {p p' : Pool Tid Shared Thread}
  {label : Label Tid Choice}

/-- The continuations of a run from a state, with what has happened to write guards since. -/
def since (p : Pool Tid Shared Thread) :
    System (Pool Tid Shared Thread × WriterCycle) (Label Tid Choice) :=
  System.recording { system Tid with init := p } ⟨false, false⟩ fun cycle q _ q' ↦
    { acquired := cycle.acquired || decide (writers q < writers q')
      released := cycle.released || decide (writers q' < writers q) }

/-- A step of the pool from an odd word. -/
theorem parity_step (hodd : p.shared.state % 2 = 1) (hmove : (system Tid).step p label = some p') :
    (∀ t, (p'.threads t).outstanding .read ≤ (p.threads t).outstanding .read) ∧
      readers p' ≤ readers p ∧ (writers p ≤ writers p' → p'.shared.state % 2 = 1) := by
  obtain ⟨moved, signal, hlocal, hdelivered⟩ := Machine.step_cases hmove
  obtain ⟨hreads, hkeeps⟩ := parity_of_effect hodd (step_effect hlocal)
  have hthread (t : Tid) : (p'.threads t).outstanding .read ≤ (p.threads t).outstanding .read := by
    have hmoved : (update p.threads label.thread moved t).outstanding .read ≤
        (p.threads t).outstanding .read := by
      by_cases hself : t = label.thread
      · rw [hself, update_self]
        exact hreads
      · rw [update_of_ne hself]
    rcases hdelivered.thread t with heq | ⟨_, _, heq⟩ | heq
    · rwa [heq]
    · rw [heq]
      exact outstanding_wake.trans_le hmoved
    · rw [heq]
      exact hmoved
  refine ⟨hthread, Finset.sum_le_sum fun t _ ↦ hthread t, fun hwrites ↦ hkeeps ?_⟩
  have htotal : writers p' + (p.threads label.thread).outstanding .write =
      writers p + moved.outstanding .write := outstanding_step .write hdelivered
  omega

/-- From every state, reachable or not, in which the waiting-writer bit is set and no write guard is
outstanding, in every continuation in which no write guard has been released yet: the bit is still
set, there are no more readers than before, and the next step gives no thread a read guard. It keeps
the bit, or it releases a write guard that has been acquired since. -/
theorem writer_preference (hwaiting : p.shared.state % 2 = 1) (hwriters : writers p = 0)
    {x : Pool Tid Shared Thread × WriterCycle} (hrun : (since p).Reachable x)
    (hreleased : x.2.released = false) :
    x.1.shared.state % 2 = 1 ∧ readers x.1 ≤ readers p ∧
      ∀ label p', (system Tid).step x.1 label = some p' →
        (∀ t, (p'.threads t).outstanding .read ≤ (x.1.threads t).outstanding .read) ∧
          readers p' ≤ readers x.1 ∧
          (p'.shared.state % 2 = 1 ∨ writers p' < writers x.1 ∧ x.2.acquired = true) := by
  have hkept : x.2.released = false → x.1.shared.state % 2 = 1 ∧ readers x.1 ≤ readers p ∧
      (x.2.acquired = false → writers x.1 = 0) := by
    refine hrun.invariant (P := fun x ↦ x.2.released = false → x.1.shared.state % 2 = 1 ∧
      readers x.1 ≤ readers p ∧ (x.2.acquired = false → writers x.1 = 0)) ?_ ?_
    · exact fun _ ↦ ⟨hwaiting, le_rfl, fun _ ↦ hwriters⟩
    · intro y label y' _ ih _ hmove hreleased
      obtain ⟨hstep, hcycle⟩ := System.recording_step hmove
      simp only [hcycle, Bool.or_eq_false_iff, decide_eq_false_iff_not, not_lt] at hreleased
      obtain ⟨hodd, hreaders, hnone⟩ := ih hreleased.1
      obtain ⟨-, hless, hkeeps⟩ := parity_step hodd hstep
      refine ⟨hkeeps hreleased.2, hless.trans hreaders, fun hacquired ↦ ?_⟩
      simp only [hcycle, Bool.or_eq_false_iff, decide_eq_false_iff_not, not_lt] at hacquired
      have hzero := hnone hacquired.1
      omega
  obtain ⟨hodd, hreaders, hnone⟩ := hkept hreleased
  refine ⟨hodd, hreaders, fun label p' hmove ↦ ?_⟩
  obtain ⟨hthread, hless, hkeeps⟩ := parity_step hodd hmove
  refine ⟨hthread, hless, ?_⟩
  by_cases hrelease : writers p' < writers x.1
  · refine .inr ⟨hrelease, ?_⟩
    by_contra hacquired
    have hzero := hnone (Bool.eq_false_iff.mpr hacquired)
    omega
  · exact .inl (hkeeps (not_lt.mp hrelease))

/-- `writer_preference` on a run of three threads: a writer waits for a reader, and then the reader
drops its guard while a third thread calls `try_read`. -/
theorem writer_preference_three_threads :
    ∃ (p : Pool (Fin 3) Shared Thread) (x : Pool (Fin 3) Shared Thread × WriterCycle),
      (system (Fin 3)).Reachable p ∧ readers p = 1 ∧ readers x.1 = 0 ∧
        x.1.shared.state % 2 = 1 ∧ readers x.1 ≤ readers p := by
  obtain ⟨p, hrun, ⟨hwaiting, hwriters, hone⟩, hcontinues⟩ := System.exists_reachableWhen_of_exec
    (M := system (Fin 3)) (fun _ _ ↦ True)
    (P := fun p ↦ (p.shared.state % 2 = 1 ∧ writers p = 0 ∧ readers p = 1) ∧
      ((since p).exec (fun _ _ ↦ True) (since p).init
        [⟨2, .call .tryRead, none⟩, ⟨0, .drop .read false, none⟩, ⟨0, .go, none⟩, ⟨0, .go, none⟩,
          ⟨2, .go, none⟩, ⟨2, .go, none⟩]).any
        (fun x ↦ decide (x.2.released = false ∧ readers x.1 = 0)) = true)
    [⟨0, .call .read, none⟩, ⟨0, .go, none⟩, ⟨0, .go, none⟩, ⟨0, .go, none⟩, ⟨0, .go, none⟩,
      ⟨1, .call .write, none⟩, ⟨1, .go, none⟩, ⟨1, .go, none⟩, ⟨1, .go, none⟩] (by decide)
  obtain ⟨x, hrun', hreleased, hzero⟩ :=
    System.exists_reachableWhen_of_exec (M := since p) (fun _ _ ↦ True) _ hcontinues
  obtain ⟨hodd, hreaders, -⟩ := writer_preference hwaiting hwriters hrun' hreleased
  exact ⟨p, x, hrun, hone, hzero, hodd, hreaders⟩

end Runs

end SyncPrimitives.RwLock
