import SyncPrimitives.Concurrency.Moments
import SyncPrimitives.Semaphore.Permits

/-!
# Refusals of the semaphore

`try_wait` should return `false` only if `count` was zero at some moment of the call. It makes one
attempt: its `compare_exchange_weak` may fail spuriously, and it fails whenever another thread has
taken or added a permit since the load, while `wait` goes round its loop (`false_refusal`). A
refusal is truthful in every run under `FirmCondition`, and then there was a moment of the call with
fewer permits than callers of `try_wait` (`try_wait_truthful`).
-/

set_option autoImplicit false
set_option relaxedAutoImplicit false

namespace SyncPrimitives.Semaphore

open Concurrency Function

/-! ### What a call answers, and what it has seen -/

/-- Whether a thread is inside `try_wait`. -/
def Call.trying : Call → Bool
  | .tryWait _ => true
  | _ => false

/-- Whether a thread is inside a call. -/
def Thread.inCall (th : Thread) : Bool := th.call ≠ .idle

/-- The last `try_wait` of a thread has ended with an answer. -/
def Thread.Answered (th : Thread) (answer : Bool) : Prop :=
  th.call = .idle ∧ th.result = some answer

instance (th : Thread) (answer : Bool) : Decidable (th.Answered answer) :=
  inferInstanceAs (Decidable (_ ∧ _))

/-- What can be so of a semaphore at a moment: it has no permit, or fewer than there are callers of
`try_wait`. -/
inductive Shortage
  | empty
  | short
  deriving DecidableEq

section Pool

variable {Tid : Type} [Fintype Tid]

/-- The number of threads inside `try_wait`. -/
def callers (p : Pool Tid Shared Thread) : ℕ := countAt (fun th ↦ th.call.trying) true p.threads

/-- Whether it is so now. -/
def Shortage.now (p : Pool Tid Shared Thread) : Shortage → Bool
  | .empty => p.shared.count = 0
  | .short => p.shared.count < callers p

variable (Tid) in
/-- The threads of a semaphore, with what has been so during the current calls. -/
def watched [DecidableEq Tid] (initialCount : ℕ) :
    System (Pool Tid Shared Thread × (Shortage → Tid → Bool)) (Label Tid Choice) :=
  (system Tid initialCount).watching Thread.inCall fun shortage p ↦ shortage.now p

/-- Thread 0 loads two permits in `try_wait`, and thread 1 takes one of them. -/
theorem false_refusal : ∃ x : Pool (Fin 2) Shared Thread × (Shortage → Fin 2 → Bool),
    (watched (Fin 2) 2).Reachable x ∧ x.1.shared.count = 1 ∧ x.2 .empty 0 = false ∧
      ((system (Fin 2) 2).step x.1 ⟨0, .go, none⟩).any (fun p' ↦
        decide ((p'.threads 0).Answered false)) = true :=
  System.exists_reachableWhen_of_exec (M := watched (Fin 2) 2) (fun _ _ ↦ True)
    (P := fun x ↦ x.1.shared.count = 1 ∧ x.2 .empty 0 = false ∧
      ((system (Fin 2) 2).step x.1 ⟨0, .go, none⟩).any (fun p' ↦
        decide ((p'.threads 0).Answered false)) = true)
    [⟨0, .tryWait, none⟩, ⟨0, .go, none⟩, ⟨1, .tryWait, none⟩, ⟨1, .go, none⟩, ⟨1, .go, none⟩]
    (by decide)

/-! ### Runs in which the refusals are truthful -/

/-- Whether the compare-and-exchange of a `try_wait` is about to fail on a semaphore with
permits. -/
def Call.beaten (s : Shared) : Call → Choice → Bool
  | .tryWait (.compareExchangeWeak count _), .go => s.count ≠ count && s.count ≠ 0
  | .tryWait (.compareExchangeWeak _ _), .spurious => s.count ≠ 0
  | _, _ => false

/-- The condition on a step: no compare-and-exchange of `try_wait` fails on a semaphore with
permits. -/
def FirmCondition (p : Pool Tid Shared Thread) (label : Label Tid Choice) : Prop :=
  (p.threads label.thread).call.beaten p.shared label.choice = false

instance (p : Pool Tid Shared Thread) (label : Label Tid Choice) :
    Decidable (FirmCondition p label) :=
  inferInstanceAs (Decidable (_ = _))

section Steps

omit [Fintype Tid]

variable {before after : Shared} {th moved : Thread} {signal : Signal Tid Addr} {choice : Choice}

theorem count_ne_zero_of_beaten {call : Call} (h : call.beaten before choice = true) :
    before.count ≠ 0 := by
  unfold Call.beaten at h
  split at h
  case h_1 => exact of_decide_eq_true (Bool.and_eq_true_iff.mp h).2
  case h_2 => exact of_decide_eq_true h
  case h_3 => cases h

/-- A step of `try_wait` answers `false` on a semaphore without permits, or because its
compare-and-exchange fails; it leaves the semaphore unless it answers `true`. -/
theorem tryWaitStep_answer {pc : TryWaitPc}
    (h : tryWaitStep before th pc choice = some (after, moved, signal)) :
    signal = .silent ∧
      (moved.Answered false ↔
        before.count = 0 ∨ (Call.tryWait pc).beaten before choice = true) ∧
      (¬moved.Answered true → after = before) := by
  have hcall (call : TryWaitPc) (answer : Bool) : ¬(th.goto (.tryWait call)).Answered answer :=
    fun hanswered ↦ Call.noConfusion hanswered.1
  have hfalse : (th.ret false).Answered false := ⟨rfl, rfl⟩
  have htrue : (th.ret true).Answered true := ⟨rfl, rfl⟩
  have hnot : ¬(th.ret true).Answered false := fun hanswered ↦ nomatch hanswered.2
  cases pc <;> cases choice <;> simp only [tryWaitStep, reduceCtorEq] at h
  case load.go =>
    split_ifs at h with hcount
    all_goals obtain ⟨rfl, rfl, rfl⟩ := quiet_eq_some_iff.mp h
    · exact ⟨rfl, iff_of_true hfalse (.inl hcount), fun _ ↦ rfl⟩
    · exact ⟨rfl, iff_of_false (hcall _ _) (by simp [Call.beaten, hcount]), fun _ ↦ rfl⟩
  case compareExchangeWeak.go count available =>
    split_ifs at h with hcount
    all_goals obtain ⟨rfl, rfl, rfl⟩ := quiet_eq_some_iff.mp h
    · refine ⟨rfl, iff_of_false hnot ?_, fun hanswered ↦ absurd htrue hanswered⟩
      simp [Call.beaten, hcount, available]
    · refine ⟨rfl, iff_of_true hfalse ?_, fun _ ↦ rfl⟩
      by_cases hzero : before.count = 0
      · exact .inl hzero
      · exact .inr (by simp [Call.beaten, hcount, hzero])
  case compareExchangeWeak.spurious count available =>
    obtain ⟨rfl, rfl, rfl⟩ := quiet_eq_some_iff.mp h
    refine ⟨rfl, iff_of_true hfalse ?_, fun _ ↦ rfl⟩
    by_cases hzero : before.count = 0
    · exact .inl hzero
    · exact .inr (by simp [Call.beaten, hzero])

/-- A thread inside `try_wait` has been there before the step, or between two calls. -/
theorem trying_or_idle_of_step (h : step before th choice = some (after, moved, signal))
    (htrying : moved.call.trying = true) : th.call.trying = true ∨ th.call = .idle := by
  unfold step at h
  split at h
  case h_1 hcall => exact .inr hcall
  case h_2 pc hcall =>
    cases pc <;> cases choice <;> simp only [waitStep, reduceCtorEq] at h
    all_goals try split_ifs at h
    all_goals
      obtain ⟨-, rfl, -⟩ := quiet_eq_some_iff.mp h
      cases htrying
  case h_3 hcall => exact .inl (by rw [hcall]; rfl)
  case h_4 pc hcall =>
    cases pc <;> cases choice <;> simp only [signalStep, reduceCtorEq] at h
    all_goals try split_ifs at h
    all_goals
      obtain ⟨-, rfl, -⟩ := by simpa [quiet] using h
      cases htrying

theorem trying_wake : (wake th).call.trying = th.call.trying := by
  unfold wake
  split
  case h_1 hcall =>
    rw [hcall]
    rfl
  case h_2 => rfl

end Steps

section Runs

/-- A thread inside `try_wait` is one of the callers. -/
theorem callers_pos {p : Pool Tid Shared Thread} {t : Tid}
    (htrying : (p.threads t).call.trying = true) : 0 < callers p :=
  countAt_pos_iff.mpr ⟨t, htrying⟩

variable [DecidableEq Tid] {initialCount : ℕ}
  {x : Pool Tid Shared Thread × (Shortage → Tid → Bool)} {label : Label Tid Choice}
  {p' : Pool Tid Shared Thread}

/-- A moment of `try_wait` without permits is one with fewer permits than callers. -/
theorem short_of_empty
    {ok : Pool Tid Shared Thread × (Shortage → Tid → Bool) → Label Tid Choice → Prop}
    (h : (watched Tid initialCount).ReachableWhen ok x) {t : Tid}
    (htrying : (x.1.threads t).call.trying = true) (hempty : x.2 .empty t = true) :
    x.2 .short t = true := by
  have hnew (t : Tid) (htrying : ((new Tid initialCount).threads t).call.trying = true) : False :=
    Bool.false_ne_true htrying
  refine h.invariant (P := fun x ↦ ∀ t, (x.1.threads t).call.trying = true →
    x.2 .empty t = true → x.2 .short t = true)
    (fun t htrying _ ↦ (hnew t htrying).elim) ?_ t htrying hempty
  intro x label x' hrun hshort _ hmove t htrying hempty
  obtain ⟨hstep, hseen⟩ := System.watching_step hmove
  obtain ⟨moved, signal, hlocal, hdelivered⟩ := Machine.step_cases hstep
  rw [hseen, Bool.or_eq_true] at hempty
  rcases hempty with hbefore | hnow
  · obtain ⟨hcall, hempty⟩ := Bool.and_eq_true_iff.mp hbefore
    have hafter : (update x.1.threads label.thread moved t).call.trying = true := by
      rcases hdelivered.thread t with heq | ⟨_, _, heq⟩ | heq
      · exact heq ▸ htrying
      · rw [heq] at htrying
        exact trying_wake.symm.trans htrying
      · rw [heq] at htrying
        exact htrying
    have hsame : (x.1.threads t).call.trying = true := by
      by_cases hself : t = label.thread
      · rw [hself, update_self] at hafter
        rw [hself] at hcall ⊢
        exact (trying_or_idle_of_step hlocal hafter).resolve_right (of_decide_eq_true hcall)
      · rwa [update_of_ne hself] at hafter
    exact System.seen_of_seen hmove hcall (hshort t hsame hempty)
  · have hzero : x'.1.shared.count = 0 := of_decide_eq_true hnow
    have hnow : Shortage.now x'.1 .short = true :=
      decide_eq_true (hzero.trans_lt (callers_pos htrying))
    rw [hseen, hnow, Bool.or_true]

/-- In every run under the condition the refusals of `try_wait` are truthful: it answers `false`
only if at some moment of the call there was no permit, and then fewer permits than callers of
`try_wait`; and it leaves the semaphore unless it answers `true`. A step answers `false` on a
semaphore with permits if and only if it violates the condition. -/
theorem try_wait_truthful
    (h : (watched Tid initialCount).ReachableWhen (fun x label ↦ FirmCondition x.1 label) x)
    (hmove : (system Tid initialCount).step x.1 label = some p')
    (htrying : (x.1.threads label.thread).call.trying = true) :
    (FirmCondition x.1 label → (p'.threads label.thread).Answered false →
        x.2 .empty label.thread = true ∧ x.2 .short label.thread = true) ∧
      (¬(p'.threads label.thread).Answered true → p'.shared = x.1.shared) ∧
      (FirmCondition x.1 label ↔
        ((p'.threads label.thread).Answered false → x.1.shared.count = 0)) := by
  obtain ⟨moved, signal, hlocal, hdelivered⟩ := Machine.step_cases hmove
  obtain ⟨pc, hcall⟩ : ∃ pc, (x.1.threads label.thread).call = .tryWait pc := by
    unfold Call.trying at htrying
    split at htrying
    case h_1 pc hcall => exact ⟨pc, hcall⟩
    case h_2 => cases htrying
  have hstep : tryWaitStep x.1.shared (x.1.threads label.thread) pc label.choice =
      some (p'.shared, moved, signal) := by
    simpa only [machine, step, hcall] using hlocal
  obtain ⟨rfl, hanswer, hkept⟩ := tryWaitStep_answer hstep
  rw [hdelivered.silent_eq, update_self, FirmCondition, hcall]
  refine ⟨fun hfirm hrefused ↦ ?_, hkept, fun hfirm hrefused ↦ ?_, fun htruthful ↦ ?_⟩
  · have hzero := (hanswer.mp hrefused).resolve_right (by rw [hfirm]; exact Bool.false_ne_true)
    have hempty : x.2 .empty label.thread = true := h.seen_of_now (decide_eq_true hzero)
    exact ⟨hempty, short_of_empty h htrying hempty⟩
  · exact (hanswer.mp hrefused).resolve_right (by rw [hfirm]; exact Bool.false_ne_true)
  · by_contra hbeaten
    have hfails := Bool.eq_true_of_not_eq_false hbeaten
    exact count_ne_zero_of_beaten hfails (htruthful (hanswer.mpr (.inr hfails)))

/-- `try_wait_truthful` after a run in which two callers compete for one permit: the second is
refused when the first has taken it. -/
theorem try_wait_truthful_last_permit :
    ∃ (x : Pool (Fin 2) Shared Thread × (Shortage → Fin 2 → Bool))
      (p' : Pool (Fin 2) Shared Thread),
      (system (Fin 2) 1).step x.1 ⟨0, .go, none⟩ = some p' ∧ (p'.threads 0).Answered false ∧
        x.2 .empty 0 = true ∧ x.2 .short 0 = true ∧ p'.shared = x.1.shared := by
  obtain ⟨x, hrun, hmeets, htrying, hrefused⟩ := System.exists_reachableWhen_of_exec
    (M := watched (Fin 2) 1) (fun x label ↦ FirmCondition x.1 label)
    (P := fun x ↦ FirmCondition x.1 ⟨0, .go, none⟩ ∧ (x.1.threads 0).call.trying = true ∧
      ((system (Fin 2) 1).step x.1 ⟨0, .go, none⟩).any (fun p' ↦
        decide ((p'.threads 0).Answered false)) = true)
    [⟨0, .tryWait, none⟩, ⟨0, .go, none⟩, ⟨1, .tryWait, none⟩, ⟨1, .go, none⟩, ⟨1, .go, none⟩]
    (by decide)
  obtain ⟨p', hmove, hanswered⟩ := (Option.any_eq_true _ _).mp hrefused
  have hfalse : (p'.threads 0).Answered false := of_decide_eq_true hanswered
  obtain ⟨htruthful, hkept, -⟩ := try_wait_truthful hrun hmove htrying
  obtain ⟨hempty, hshort⟩ := htruthful hmeets hfalse
  have hnot : ¬(p'.threads 0).Answered true := fun htrue ↦ nomatch hfalse.2.symm.trans htrue.2
  exact ⟨x, p', hmove, hfalse, hempty, hshort, hkept hnot⟩

end Runs

end Pool

end SyncPrimitives.Semaphore
