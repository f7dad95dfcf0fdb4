import SyncPrimitives.Arc.Lifetime
import SyncPrimitives.Concurrency.Moments

/-!
# The uniqueness test of `get_mut` and `into_inner`

Both calls decide from two words, read one after the other: they put a lock into `ref_count` if it
is one, and then look whether `strong_count` is one. While the lock is there no `Weak` can be made,
and a handle is the only `Arc` if `strong_count` is one, so a call that goes on to return `Some` has
the only handle of the block, and no other thread has anything to do with the block until the borrow
ends (`sole_of_settled`). A call that gives up has seen another handle: the two ways to give up are
a `ref_count` other than one and a `strong_count` other than one (`uniqueness_exact`).

All this is about runs in which no clone makes `strong_count` wrap. `borrowed_beside_others` is a
run in which as many clones as it takes do: each of them waits between its `fetch_add` and the
`abort` that comes next.
-/

set_option autoImplicit false
set_option relaxedAutoImplicit false

namespace SyncPrimitives.Arc

open Concurrency Function

variable {Tid α : Type}

/-! ### Handles alive -/

section Pool

variable [Fintype Tid]

/-- There is a handle beside any single `Arc`. -/
def otherHandle (p : Pool Tid (Shared α) (Thread α)) : Bool :=
  decide (2 ≤ liveArcs p ∨ 0 < liveWeaks p)

/-- `get_mut` or `into_inner` will return `Some`, or `get_mut` has and the borrow is in use. -/
def Call.settled : Call α → Bool
  | .getMut (.store true) => true
  | .getMut .borrowed => true
  | .intoInner .read => true
  | .intoInner (.free _) => true
  | _ => false

/-- Whether a thread is inside `get_mut` or `into_inner`. -/
def Thread.probing (th : Thread α) : Bool :=
  match th.call with
  | .getMut _ => true
  | .intoInner _ => true
  | _ => false

/-- Whether the answer of `get_mut` or `into_inner` is `Some`. -/
def Result.isSome : Result α → Option Bool
  | .gotMut isSome => some isSome
  | .intoInner result => some result.isSome
  | _ => none

/-- A step ends a `get_mut` or an `into_inner` with this answer; for a `get_mut` that returns `Some`
it is the step that ends the borrow. -/
structure Answers (th moved : Thread α) (isSome : Bool) : Prop where
  probing : th.probing = true
  idle : moved.call = .idle
  result : moved.result.bind Result.isSome = some isSome

/-- In these phases the handle of the thread is known to be the only one. -/
def Phase.settled : Phase → Bool
  | .mutUnique => true
  | .mutBorrowed => true
  | .reading => true
  | .moving => true
  | _ => false

theorem Call.settled_eq {call : Call α} : call.settled = call.phase.settled := by
  cases call with
  | clone pc => cases pc <;> rfl
  | getMut pc => rcases pc with _ | _ | (_ | _) | _ <;> rfl
  | intoInner pc => rcases pc with _ | _ | _ | _ | _ | (_ | _ | (_ | _)) <;> rfl
  | dropArc pc => rcases pc with _ | _ | (_ | _) <;> rfl
  | dropWeak pc => rcases pc with _ | _ <;> rfl
  | _ => rfl

section Counting

variable {p : Pool Tid (Shared α) (Thread α)} {t u : Tid} {k : Phase}

/-- While a thread knows its handle to be the only one, every other thread is outside all calls. -/
theorem idle_of_settled (hb : Borrowed p) (h : Counted p)
    (hsettled : (p.threads t).phase.settled = true) (hne : u ≠ t) :
    (p.threads u).phase = .idle := by
  by_contra hbusy
  have hpos : 0 < threadsAt p (p.threads u).phase := threadsAt_pos rfl
  have htwo (heq : (p.threads u).phase = (p.threads t).phase) :
      2 ≤ threadsAt p (p.threads t).phase := two_le_threadsAt hne heq rfl
  have hmover : 0 < threadsAt p (p.threads t).phase := threadsAt_pos rfl
  have hsole := h.sole
  have harcs := hb.arcs
  have hweaks := hb.weaks
  have hlast := h.last
  have hblock := h.block.1
  rw [hb.arcBorrows, hb.mutBorrows] at harcs
  rw [hb.weakBorrows] at hweaks
  unfold liveWeaks implicitWeaks at hblock
  unfold liveArcs liveWeaks at hsole
  unfold liveArcs at hlast hblock
  cases hphase : (p.threads t).phase
  case mutUnique | mutBorrowed | reading | moving =>
    rw [hphase] at hmover htwo
    have hsole := hsole (by omega)
    cases hother : (p.threads u).phase
    case idle => exact hbusy hother
    all_goals
      rw [hother] at hpos
      simp only [hother, reduceCtorEq, false_implies, true_implies] at htwo
      omega
  all_goals
    rw [hphase] at hsettled
    cases hsettled

/-- The handle of a thread that knows this is the only one. -/
theorem sole_of_settled (hb : Borrowed p) (h : Counted p)
    (hsettled : (p.threads t).phase.settled = true) :
    liveArcs p = 1 ∧ liveWeaks p = 0 ∧ p.shared.arcs ≤ p.shared.mutBorrows := by
  have hmover : 0 < threadsAt p (p.threads t).phase := threadsAt_pos rfl
  have hsole := h.sole
  have harcs := hb.arcs
  rw [hb.arcBorrows, hb.mutBorrows] at harcs
  rw [hb.mutBorrows]
  unfold liveArcs at hsole ⊢
  cases hphase : (p.threads t).phase
  case mutUnique | mutBorrowed | reading | moving =>
    rw [hphase] at hmover
    omega
  all_goals
    rw [hphase] at hsettled
    cases hsettled

theorem call_of_idle {th : Thread α} (h : th.phase = .idle) : th.call = .idle := by
  unfold Thread.phase at h
  cases hcall : th.call with
  | idle => rfl
  | clone pc =>
    rw [hcall] at h
    cases pc <;> cases h
  | getMut pc =>
    rw [hcall] at h
    rcases pc with _ | _ | (_ | _) | _ <;> cases h
  | intoInner pc =>
    rw [hcall] at h
    rcases pc with _ | _ | _ | _ | _ | (_ | _ | (_ | _)) <;> cases h
  | dropArc pc =>
    rw [hcall] at h
    rcases pc with _ | _ | (_ | _) <;> cases h
  | dropWeak pc =>
    rw [hcall] at h
    rcases pc with _ | _ <;> cases h
  | _ =>
    rw [hcall] at h
    cases h

/-- Without a handle that is not borrowed exclusively an idle thread can start nothing. -/
theorem idleStep_eq_none {shared : Shared α} {th : Thread α}
    (harcs : shared.arcs ≤ shared.mutBorrows) (hweaks : shared.weaks = 0) (choice : Choice α) :
    idleStep shared th choice = none := by
  have hnoArc : shared.hasArc = false := decide_eq_false harcs.not_gt
  have hnoFreeArc : shared.hasFreeArc = false :=
    decide_eq_false (harcs.trans (Nat.le_add_right _ _)).not_gt
  have hnoWeak : shared.hasFreeWeak = false := by simp [Shared.hasFreeWeak, hweaks]
  cases choice <;> simp [idleStep, hnoArc, hnoFreeArc, hnoWeak, hweaks]

end Counting

/-! ### The two answers -/

section Steps

variable {before after : Shared α} {th moved : Thread α} {choice : Choice α}

/-- A position at which the thread has seen another handle: it has found `strong_count` not to be
one, or it drops the handle it could not take. -/
def Call.refused : Call α → Bool
  | .getMut (.store false) => true
  | .intoInner .store => true
  | .intoInner (.drop _) => true
  | _ => false

/-- How a thread comes to have seen another handle: it has before, or it has found `ref_count` not
to be one, or it has found `strong_count` not to be one. -/
inductive Refusal (before : Shared α) (th : Thread α) : Prop
  | before (hrefused : th.call.refused = true)
  | refCount (hone : before.refCount ≠ 1)
      (hcall : th.call = .getMut .compareExchange ∨ th.call = .intoInner .compareExchange)
  | strongCount (hone : before.strongCount ≠ 1)
      (hcall : th.call = .getMut .load ∨ th.call = .intoInner .load)

theorem refused_of_idle (h : idleStep before th choice = some (after, moved)) :
    moved.call.refused = false := by
  cases choice with
  | write value => cases h
  | access => cases h
  | _ =>
    simp only [idleStep, Option.ite_none_right_eq_some, Option.some.injEq, Prod.mk.injEq] at h
    obtain ⟨-, -, rfl⟩ := h
    rfl

/-- A thread in `get_mut` or `into_inner` after a step was there before, or it has just begun. -/
theorem probing_of_step (h : step before th choice = some (after, moved))
    (hprobing : moved.probing = true) : th.probing = true ∨ moved.call.refused = false := by
  have hother (hmoved : moved.probing = false) :
      th.probing = true ∨ moved.call.refused = false :=
    absurd (hmoved.symm.trans hprobing) Bool.false_ne_true
  unfold step at h
  split_ifs at h
  split at h
  case h_1 => exact .inr (refused_of_idle h)
  case h_2 pc hcall =>
    cases pc <;> simp only [cloneStep, Option.some.injEq] at h
    case fetchAdd =>
      split_ifs at h
      all_goals
        obtain ⟨-, rfl⟩ := Prod.mk.inj h
        exact hother rfl
    case abort =>
      obtain ⟨-, rfl⟩ := Prod.mk.inj h
      exact .inl hprobing
  case h_3 pc hcall =>
    cases pc <;> simp only [downgradeStep, downgradeLoop, Option.some.injEq] at h
    all_goals split_ifs at h
    all_goals
      obtain ⟨-, rfl⟩ := Prod.mk.inj h
      exact hother rfl
  case h_4 =>
    obtain ⟨-, rfl⟩ := Prod.mk.inj (Option.some.inj h)
    exact hother rfl
  case h_5 pc hcall =>
    cases pc <;> simp only [upgradeStep, upgradeLoop, Option.some.injEq] at h
    all_goals split_ifs at h
    all_goals
      obtain ⟨-, rfl⟩ := Prod.mk.inj h
      exact hother rfl
  case h_9 pc hcall =>
    rcases pc with _ | _ | (_ | _) <;>
      simp only [dropArcStep, dropWeakStep, Option.some.injEq] at h
    all_goals try split_ifs at h
    all_goals
      obtain ⟨-, rfl⟩ := Prod.mk.inj h
      exact hother rfl
  case h_10 pc hcall =>
    cases pc <;> simp only [dropWeakStep, Option.some.injEq] at h
    all_goals try split_ifs at h
    all_goals
      obtain ⟨-, rfl⟩ := Prod.mk.inj h
      exact hother rfl
  case h_11 => cases h
  all_goals
    rename_i hcall
    left
    rw [Thread.probing, hcall]

theorem probing_of_refused (h : th.call.refused = true) : th.probing = true := by
  unfold Call.refused at h
  unfold Thread.probing
  split at h
  case h_1 hcall => rw [hcall]
  case h_2 hcall => rw [hcall]
  case h_3 hcall => rw [hcall]
  case h_4 => cases h

theorem result_of_drop {pc : DropArcPc} {result : Result α} {position : DropArcPc → Call α}
    (hposition : ∀ pc, position pc ≠ .idle)
    (h : (dropArcStep before th position result pc).2.call = .idle) :
    (dropArcStep before th position result pc).2.result = some result := by
  rcases pc with _ | _ | (_ | _) <;> simp only [dropArcStep, dropWeakStep] at h ⊢
  case dropData => exact absurd h (hposition _)
  case dropWeak.free => rfl
  all_goals
    split_ifs at h ⊢
    · exact absurd h (hposition _)
    · rfl

/-- A step in `get_mut` or `into_inner` comes after a refusal, and if it ends the call, the answer
is `None`; or it does not refuse, and if it ends the call, the answer is `Some` and was known. -/
theorem probe_cases (h : step before th choice = some (after, moved))
    (hprobing : th.probing = true) :
    (Refusal before th ∧ (moved.call = .idle → moved.result.bind Result.isSome = some false)) ∨
      (moved.call.refused = false ∧ (moved.call = .idle →
        th.call.settled = true ∧ moved.result.bind Result.isSome = some true)) := by
  unfold step at h
  split_ifs at h
  split at h
  case h_6 pc hcall =>
    obtain rfl : (getMutStep before th pc).2 = moved := congrArg Prod.snd (Option.some.inj h)
    cases pc with
    | compareExchange =>
      by_cases hone : before.refCount = 1
      · simp only [getMutStep, if_pos hone]
        exact .inr ⟨rfl, fun hidle ↦ by cases hidle⟩
      · simp only [getMutStep, if_neg hone]
        exact .inl ⟨.refCount hone (.inl hcall), fun _ ↦ rfl⟩
    | load =>
      by_cases hone : before.strongCount = 1
      · simp only [getMutStep, hone, beq_self_eq_true]
        exact .inr ⟨rfl, fun hidle ↦ by cases hidle⟩
      · exact .inl ⟨.strongCount hone (.inl hcall), fun hidle ↦ by cases hidle⟩
    | store unique =>
      cases unique
      · exact .inl ⟨.before (by rw [hcall]; rfl), fun _ ↦ rfl⟩
      · exact .inr ⟨rfl, fun hidle ↦ by cases hidle⟩
    | borrowed => exact .inr ⟨rfl, fun _ ↦ ⟨by rw [hcall]; rfl, rfl⟩⟩
  case h_7 hcall =>
    obtain rfl : th = moved := congrArg Prod.snd (Option.some.inj h)
    rw [hcall]
    exact .inr ⟨rfl, fun hidle ↦ by cases hidle⟩
  case h_8 pc hcall =>
    obtain rfl : (intoInnerStep before th pc).2 = moved := congrArg Prod.snd (Option.some.inj h)
    cases pc with
    | compareExchange =>
      by_cases hone : before.refCount = 1
      · simp only [intoInnerStep, if_pos hone]
        exact .inr ⟨rfl, fun hidle ↦ by cases hidle⟩
      · simp only [intoInnerStep, if_neg hone]
        exact .inl ⟨.refCount hone (.inr hcall), fun hidle ↦ by cases hidle⟩
    | load =>
      by_cases hone : before.strongCount = 1
      · simp only [intoInnerStep, if_pos hone]
        exact .inr ⟨rfl, fun hidle ↦ by cases hidle⟩
      · exact .inl ⟨.strongCount hone (.inr hcall), fun hidle ↦ by cases hidle⟩
    | store => exact .inl ⟨.before (by rw [hcall]; rfl), fun hidle ↦ by cases hidle⟩
    | read => exact .inr ⟨rfl, fun hidle ↦ by cases hidle⟩
    | free data => exact .inr ⟨rfl, fun _ ↦ ⟨by rw [hcall]; rfl, rfl⟩⟩
    | drop pc =>
      refine .inl ⟨.before (by rw [hcall]; rfl), fun hidle ↦ ?_⟩
      rw [show (intoInnerStep before th (.drop pc)).2.result = some (.intoInner none) from
        result_of_drop (fun _ heq ↦ by cases heq) hidle]
      rfl
  case h_11 => cases h
  all_goals
    rename_i hcall
    rw [Thread.probing, hcall] at hprobing
    cases hprobing

/-- A step to a refusing position, or to the answer `None`, comes after a refusal. -/
theorem refusal_of_step (h : step before th choice = some (after, moved))
    (hend : moved.call.refused = true ∨ Answers th moved false) : Refusal before th := by
  rcases hend with hrefused | hanswers
  · have hprobing := (probing_of_step h (probing_of_refused hrefused)).resolve_right
      (ne_false_of_eq_true hrefused)
    refine (probe_cases h hprobing).elim And.left fun hrunning ↦ ?_
    exact absurd (hrunning.1.symm.trans hrefused) Bool.false_ne_true
  · refine (probe_cases h hanswers.probing).elim And.left fun hrunning ↦ ?_
    exact absurd ((hrunning.2 hanswers.idle).2.symm.trans hanswers.result) (by decide)

/-- A call that returns `Some` has known it. -/
theorem settled_of_step (h : step before th choice = some (after, moved))
    (hanswers : Answers th moved true) : th.call.settled = true := by
  refine (probe_cases h hanswers.probing).elim (fun hrefusing ↦ ?_) fun hrunning ↦
    (hrunning.2 hanswers.idle).1
  exact absurd ((hrefusing.2 hanswers.idle).symm.trans hanswers.result) (by decide)

end Steps

/-- Whoever refuses has seen another handle: it holds a lock on `ref_count` or is a `Weak`, or it is
counted in `strong_count`. -/
theorem otherHandle_of_refusal {p : Pool Tid (Shared α) (Thread α)} {t : Tid} (hb : Borrowed p)
    (h : Counted p) (hrefusal : Refusal p.shared (p.threads t)) :
    (p.threads t).call.refused = true ∨ otherHandle p = true := by
  have hfrees (hbusy : (p.threads t).phase ≠ .idle) := h.frees_eq_zero hb hbusy
  have harcs := hb.arcs
  have hlocked := h.locked
  have hrefs := h.refs
  have hstrong := h.strong
  rw [hb.arcBorrows, hb.mutBorrows] at harcs
  rw [otherHandle, decide_eq_true_eq]
  unfold implicitWeaks at hrefs
  unfold locks at hlocked hrefs
  unfold liveArcs at hstrong hrefs ⊢
  cases hrefusal with
  | before hrefused => exact .inl hrefused
  | refCount hone hcall =>
    right
    rcases hcall with hcall | hcall
    all_goals
      have hphase := phase_of_call hcall
      have hmover := threadsAt_pos hphase
      have hallocated := hfrees (by rw [hphase]; exact Phase.noConfusion)
      simp only [Call.phase] at hmover
      omega
  | strongCount hone hcall =>
    right
    rcases hcall with hcall | hcall
    all_goals
      have hphase := phase_of_call hcall
      have hmover := threadsAt_pos hphase
      have hallocated := hfrees (by rw [hphase]; exact Phase.noConfusion)
      simp only [Call.phase] at hmover
      omega

/-! ### Every run -/

section Runs

variable [DecidableEq Tid] {data : α} {p p' : Pool Tid (Shared α) (Thread α)}
  {x x' : Pool Tid (Shared α) (Thread α) × (Unit → Tid → Bool)} {label : Label Tid (Choice α)}

/-- The runs, with whether there has been another handle at some moment of the current call of each
thread. -/
def watchedCalls (Tid : Type) {α : Type} (data : α) [DecidableEq Tid] [Fintype Tid] :
    System (Pool Tid (Shared α) (Thread α) × (Unit → Tid → Bool)) (Label Tid (Choice α)) :=
  (system Tid data).watching Thread.probing fun _ ↦ otherHandle

/-- While a thread knows its handle to be the only one, no other thread can take a step. -/
theorem step_eq_none_of_settled (hb : Borrowed p) (h : Counted p) {t : Tid}
    (hsettled : (p.threads t).phase.settled = true) (hne : label.thread ≠ t) :
    (system Tid data).step p label = none := by
  obtain ⟨-, hweaks, harcs⟩ := sole_of_settled hb h hsettled
  have hcall := call_of_idle (idle_of_settled hb h hsettled hne)
  have hnone : step p.shared (p.threads label.thread) label.choice = none := by
    unfold step
    rw [hcall]
    split_ifs
    · rfl
    · exact idleStep_eq_none harcs (Nat.eq_zero_of_add_eq_zero_right hweaks) label.choice
  simp [system, Machine.system, machine, hnone]

/-- A thread that refuses, or is about to drop the handle it could not take, has seen another
handle. -/
theorem seen_of_refused {ok : Pool Tid (Shared α) (Thread α) → Label Tid (Choice α) → Prop}
    (hok : ∀ p label, ok p label → NoWrap p label)
    (h : (watchedCalls Tid data).ReachableWhen (fun x label ↦ ok x.1 label) x) {t : Tid}
    (hrefused : (x.1.threads t).call.refused = true) : x.2 () t = true := by
  refine h.invariant (P := fun x ↦ ∀ t, (x.1.threads t).call.refused = true → x.2 () t = true)
    (fun _ hnew ↦ absurd hnew Bool.false_ne_true) ?_ t hrefused
  intro x label x' hrun hseen _ hmove t hrefused
  obtain ⟨hstep, -⟩ := System.watching_step hmove
  obtain ⟨moved, hlocal, hthreads⟩ := step_eq hstep
  obtain ⟨hb, hc⟩ := counted_when (fun p label _ _ hmeets ↦ hok p label hmeets) hrun.of_watching
  have hbefore : (x.1.threads t).probing = true ∧ x.2 () t = true := by
    by_cases hself : t = label.thread
    · subst hself
      rw [hthreads, update_self] at hrefused
      have hprobing := (probing_of_step hlocal (probing_of_refused hrefused)).resolve_right
        (ne_false_of_eq_true hrefused)
      refine ⟨hprobing, ?_⟩
      rcases otherHandle_of_refusal hb hc (refusal_of_step hlocal (.inl hrefused)) with
        hearlier | hnow
      · exact hseen _ hearlier
      · exact hrun.seen_of_now hnow
    · rw [hthreads, update_of_ne hself] at hrefused
      exact ⟨probing_of_refused hrefused, hseen t hrefused⟩
  exact System.seen_of_seen hmove hbefore.1 hbefore.2

/-- The uniqueness test is exact in every run in which no clone makes `strong_count` wrap: while
`get_mut` or `into_inner` is about to return `Some`, and while the borrow it has returned is in use,
the handle of the call is the only `Arc`, there is no `Weak`, and no other thread can take a step;
and a call that returns `None` has seen another handle alive at some moment. -/
theorem uniqueness_exact
    (h : (watchedCalls Tid data).ReachableWhen (fun x label ↦ NoWrap x.1 label) x) :
    (∀ t, (x.1.threads t).call.settled = true →
      liveArcs x.1 = 1 ∧ liveWeaks x.1 = 0 ∧
        ∀ label, label.thread ≠ t → (system Tid data).step x.1 label = none) ∧
      ∀ label p', (system Tid data).step x.1 label = some p' →
        (Answers (x.1.threads label.thread) (p'.threads label.thread) true →
          (x.1.threads label.thread).call.settled = true) ∧
        (Answers (x.1.threads label.thread) (p'.threads label.thread) false →
          x.2 () label.thread = true) := by
  have hrun : (system Tid data).ReachableWhen NoWrap x.1 := h.of_watching
  obtain ⟨hb, hc⟩ := counted_when (fun _ _ _ _ ↦ id) hrun
  refine ⟨fun t hsettled ↦ ?_, fun label p' hmove ↦ ?_⟩
  · have hphase : (x.1.threads t).phase.settled = true := Call.settled_eq.symm.trans hsettled
    obtain ⟨harcs, hweaks, -⟩ := sole_of_settled hb hc hphase
    exact ⟨harcs, hweaks, fun label hne ↦ step_eq_none_of_settled hb hc hphase hne⟩
  · obtain ⟨moved, hlocal, hthreads⟩ := step_eq hmove
    rw [hthreads, update_self]
    refine ⟨settled_of_step hlocal, fun hanswers ↦ ?_⟩
    rcases otherHandle_of_refusal hb hc (refusal_of_step hlocal (.inr hanswers)) with
      hearlier | hnow
    · exact seen_of_refused (fun _ _ ↦ id) h hearlier
    · exact h.seen_of_now hnow

instance [DecidableEq α] (p : Pool Tid (Shared α) (Thread α)) (label : Label Tid (Choice α)) :
    Decidable (NoWrap p label) :=
  inferInstanceAs (Decidable (_ → _))

/-- `uniqueness_exact` on a run in which `get_mut` first sees the clone of another thread, and
hands out a borrow once that thread has dropped it. -/
theorem uniqueness_exact_dropped_clone :
    ∃ x : Pool (Fin 2) (Shared ℕ) (Thread ℕ) × (Unit → Fin 2 → Bool),
      (x.1.threads 0).call = .getMut .borrowed ∧ x.1.shared.strongCount = 1 ∧
        liveArcs x.1 = 1 ∧ liveWeaks x.1 = 0 := by
  obtain ⟨x, hrun, hborrowed, hcount⟩ := System.exists_reachableWhen_of_exec
    (M := watchedCalls (Fin 2) 7) (fun x label ↦ NoWrap x.1 label)
    (P := fun x ↦ (x.1.threads 0).call = .getMut .borrowed ∧ x.1.shared.strongCount = 1)
    ([⟨1, .clone, none⟩, ⟨1, .access, none⟩, ⟨0, .getMut, none⟩] ++
      List.replicate 3 ⟨0, .access, none⟩ ++ [⟨1, .dropArc, none⟩, ⟨1, .access, none⟩] ++
      [⟨0, .getMut, none⟩] ++ List.replicate 3 ⟨0, .access, none⟩) (by decide)
  obtain ⟨harcs, hweaks, -⟩ := (uniqueness_exact hrun).1 0 (by rw [hborrowed]; rfl)
  exact ⟨x, hborrowed, hcount, harcs, hweaks⟩

end Runs

end Pool

/-! ### More clones than `strong_count` can count -/

section Crowd

variable {Tid : Type} {strongCount arcs arcBorrows : ℕ} {t : Tid} {result : Option (Result ℕ)}

/-- A `get_mut` that reads one in both words. -/
theorem silentRun_getMut (harcs : 1 < arcs) :
    (machine Tid ℕ).silentRun t [.getMut, .access, .access, .access]
        (holding 1 arcs arcBorrows, ⟨.idle, result⟩) =
      some ({ holding 1 arcs arcBorrows with mutBorrows := 1 },
        ⟨.getMut .borrowed, result⟩) := by
  have hfree : min arcBorrows 1 < arcs := (Nat.min_le_right _ _).trans_lt harcs
  simp [Machine.silentRun, Machine.silentStep, machine, step, idleStep, Shared.hasFreeArc, holding,
    hfree, Thread.goto, getMutStep, Shared.touch]

theorem call_put [DecidableEq Tid] {p : Pool Tid (Shared ℕ) (Thread ℕ)} {shared : Shared ℕ}
    {th : Thread ℕ} : ((Machine.put p t (shared, th)).threads t).call = th.call := by
  show (update p.threads t th t).call = th.call
  rw [update_self]

theorem two_le_liveArcs [Fintype Tid] {p : Pool Tid (Shared ℕ) (Thread ℕ)}
    (harcs : 2 ≤ p.shared.arcs) : 2 ≤ liveArcs p := by
  unfold liveArcs
  omega

/-- With `2^63` clones that wait to abort, `strong_count` is one again after one more clone, and
`get_mut` hands out a borrow beside more than `2^63` handles. -/
theorem borrowed_beside_others :
    ∃ p : Pool (Option (Fin (maxRefCount + 1))) (Shared ℕ) (Thread ℕ),
      (system (Option (Fin (maxRefCount + 1))) 7).Reachable p ∧
        (p.threads none).call = .getMut .borrowed ∧ 2 ≤ liveArcs p := by
  have hmax : maxRefCount = 9223372036854775807 := rfl
  obtain ⟨result, hwrapped⟩ := reachable_clones (maxRefCount + 1) (maxRefCount + 1) le_rfl le_rfl
  have hzero : (maxRefCount + 1 + (maxRefCount + 1)) % 2 ^ 64 = 0 := by omega
  rw [hzero] at hwrapped
  have hcloned := Machine.reachable_of_silentRun (t := none) [.clone, .access] hwrapped
    (silentRun_clone (Nat.zero_le _) (Nat.succ_pos maxRefCount))
  rw [Machine.put, update_clones_none, addUsize_of_lt (by omega)] at hcloned
  have hborrowed := Machine.reachable_of_silentRun (t := none) [.getMut, .access, .access, .access]
    hcloned (silentRun_getMut (Nat.succ_lt_succ (Nat.succ_pos maxRefCount)))
  exact ⟨_, hborrowed, call_put, two_le_liveArcs (Nat.le_add_left 2 maxRefCount)⟩

end Crowd

end SyncPrimitives.Arc
