import SyncPrimitives.Concurrency.ThreadPool

/-!
# Moments of a call

Some properties of a call speak of its moments: a call may answer something only if it has been so
at some moment between its start and its return. `watching` records for every thread what has been
observed since its current call began. A moment is a state of the run in which the call is in
progress; the first is the state after the step that starts it. What is so now has been observed
(`seen_of_now`), and what has been observed stays so to the end of the call (`seen_of_seen`).
-/

set_option autoImplicit false
set_option relaxedAutoImplicit false

namespace SyncPrimitives.Concurrency.System

variable {Tid Shared Local Choice κ : Type*}
  (M : System (Pool Tid Shared Local) (Label Tid Choice)) (inCall : Local → Bool)
  (now : κ → Pool Tid Shared Local → Bool)

/-- The runs of a pool, with what has been so at some moment of the current call of each thread. -/
def watching : System (Pool Tid Shared Local × (κ → Tid → Bool)) (Label Tid Choice) :=
  M.recording (fun k _ ↦ now k M.init) fun seen p _ p' k t ↦
    inCall (p.threads t) && seen k t || now k p'

variable {M inCall now} {x x' : Pool Tid Shared Local × (κ → Tid → Bool)}
  {label : Label Tid Choice} {k : κ} {t : Tid}

/-- What has been seen after a step. -/
theorem watching_step (hmove : (M.watching inCall now).step x label = some x') :
    M.step x.1 label = some x'.1 ∧
      ∀ k t, x'.2 k t = (inCall (x.1.threads t) && x.2 k t || now k x'.1) := by
  obtain ⟨hstep, hseen⟩ := recording_step hmove
  exact ⟨hstep, fun k t ↦ congrFun (congrFun hseen k) t⟩

/-- A run with what has been seen is a run. -/
theorem ReachableWhen.of_watching {ok : Pool Tid Shared Local → Label Tid Choice → Prop}
    (h : (M.watching inCall now).ReachableWhen (fun x label ↦ ok x.1 label) x) :
    M.ReachableWhen ok x.1 :=
  h.of_recording

/-- What is so now has been so at some moment of the current call. -/
theorem ReachableWhen.seen_of_now {ok : Pool Tid Shared Local × (κ → Tid → Bool) →
    Label Tid Choice → Prop} (h : (M.watching inCall now).ReachableWhen ok x)
    (hnow : now k x.1 = true) : x.2 k t = true := by
  cases h with
  | init => exact hnow
  | step _ _ hmove => rw [(watching_step hmove).2, hnow, Bool.or_true]

/-- What has been so at some moment of a call stays so during the call. -/
theorem seen_of_seen (hmove : (M.watching inCall now).step x label = some x')
    (hcall : inCall (x.1.threads t) = true) (hseen : x.2 k t = true) : x'.2 k t = true := by
  rw [(watching_step hmove).2, hcall, hseen]
  rfl

end SyncPrimitives.Concurrency.System
