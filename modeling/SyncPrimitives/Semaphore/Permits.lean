import SyncPrimitives.Semaphore.Model
import Mathlib.Tactic.SplitIfs

/-!
# The permits of the semaphore

`signal` skips the wake-up when `num_waiting` reads zero, and any thread in `wait` or `try_wait` can
take a permit that another thread has been woken for. A sleeping thread is still not forgotten: as
long as one is asleep, every available permit is covered by a thread that is awake in the loop of
`wait` or by a `signal` that has yet to decide about its wake-up. `Event` lists what a step does to
the words and to the phase of its thread, `Permits` is the invariant.
-/

set_option autoImplicit false
set_option relaxedAutoImplicit false

namespace SyncPrimitives.Semaphore

open Concurrency Function

/-- The phases of a thread. Between the `fetch_add` and the `fetch_sub` of `wait` a thread is
`looping` while it is awake in the loop, `sleeping`, or `leaving` when it has taken a permit; it is
`signalling` from the increment in `signal` to the end of the decision about the wake-up. -/
inductive Phase
  | outside
  | looping
  | sleeping
  | leaving
  | signalling
  deriving DecidableEq

/-- A statement on all phases, phase by phase. -/
theorem Phase.forall {P : Phase → Prop} :
    (∀ phase, P phase) ↔ P .outside ∧ P .looping ∧ P .sleeping ∧ P .leaving ∧ P .signalling := by
  constructor
  · intro h
    exact ⟨h _, h _, h _, h _, h _⟩
  · rintro ⟨houtside, hlooping, hsleeping, hleaving, hsignalling⟩ phase
    cases phase <;> assumption

/-- The phase of a position. -/
def Call.phase : Call → Phase
  | .idle => .outside
  | .wait .fetchAdd => .outside
  | .wait .asleep => .sleeping
  | .wait .fetchSub => .leaving
  | .wait _ => .looping
  | .tryWait _ => .outside
  | .signal .fetchAdd => .outside
  | .signal _ => .signalling

/-- The phase of a thread. -/
def Thread.phase (th : Thread) : Phase := th.call.phase

/-- The steps of a thread. -/
inductive Event {Tid : Type} (before : Shared) (th : Thread) (after : Shared) (moved : Thread)
    (signal : Signal Tid Addr) : Prop
  | stay (hafter : after = before) (hphase : moved.phase = th.phase) (hsignal : signal = .silent)
  | enter (hafter : after = { before with numWaiting := addU32 before.numWaiting 1 })
      (hbefore : th.phase = .outside) (hphase : moved.phase = .looping) (hsignal : signal = .silent)
  | sleep (hcount : before.count = 0) (hafter : after = before) (hbefore : th.phase = .looping)
      (hphase : moved.phase = .sleeping) (hsignal : signal = .silent)
  | wakeUp (hafter : after = before) (hbefore : th.phase = .sleeping)
      (hphase : moved.phase = .looping) (hsignal : signal = .silent)
  | acquire (havailable : before.count ≠ 0) (hafter : after = before.take before.count)
      (hbefore : th.phase = .looping) (hphase : moved.phase = .leaving) (hsignal : signal = .silent)
  | tryAcquire (havailable : before.count ≠ 0) (hafter : after = before.take before.count)
      (hbefore : th.phase = .outside) (hphase : moved.phase = .outside) (hsignal : signal = .silent)
  | leave (hafter : after = { before with numWaiting := subU32 before.numWaiting 1 })
      (hbefore : th.phase = .leaving) (hphase : moved.phase = .outside) (hsignal : signal = .silent)
  | increment
      (hafter : after =
        { before with count := addU32 before.count 1, increments := before.increments + 1 })
      (hbefore : th.phase = .outside) (hphase : moved.phase = .signalling)
      (hsignal : signal = .silent)
  | skip (hnone : before.numWaiting = 0) (hafter : after = before)
      (hbefore : th.phase = .signalling)
      (hphase : moved.phase = .outside) (hsignal : signal = .silent)
  | wakeOne (hafter : after = before) (hbefore : th.phase = .signalling)
      (hphase : moved.phase = .outside) (hsignal : signal = .wakeOne .count)

section Steps

variable {Tid : Type} {before after : Shared} {th moved : Thread} {signal : Signal Tid Addr}
  {choice : Choice}

theorem quiet_eq_some_iff :
    quiet before th = some (after, moved, signal) ↔
      before = after ∧ th = moved ∧ .silent = signal := by
  simp [quiet]

theorem phase_of_call {call : Call} (hcall : th.call = call) : th.phase = call.phase := by
  rw [Thread.phase, hcall]

theorem waitStep_event {pc : WaitPc} (hcall : th.call = .wait pc)
    (h : waitStep before th pc choice = some (after, moved, signal)) :
    Event before th after moved signal := by
  have hphase := phase_of_call hcall
  cases pc <;> cases choice <;> simp only [waitStep, reduceCtorEq] at h
  case fetchAdd.go =>
    obtain ⟨rfl, rfl, rfl⟩ := quiet_eq_some_iff.mp h
    exact .enter rfl hphase rfl rfl
  case load.go =>
    split_ifs at h
    all_goals
      obtain ⟨rfl, rfl, rfl⟩ := quiet_eq_some_iff.mp h
      exact .stay rfl hphase.symm rfl
  case wait.go =>
    split_ifs at h with hcount
    all_goals obtain ⟨rfl, rfl, rfl⟩ := quiet_eq_some_iff.mp h
    · exact .sleep hcount rfl hphase rfl rfl
    · exact .stay rfl hphase.symm rfl
  case wait.spurious =>
    obtain ⟨rfl, rfl, rfl⟩ := quiet_eq_some_iff.mp h
    exact .stay rfl hphase.symm rfl
  case asleep.spurious =>
    obtain ⟨rfl, rfl, rfl⟩ := quiet_eq_some_iff.mp h
    exact .wakeUp rfl hphase rfl rfl
  case compareExchangeWeak.go count available =>
    split_ifs at h with hcount
    all_goals obtain ⟨rfl, rfl, rfl⟩ := quiet_eq_some_iff.mp h
    · subst hcount
      exact .acquire available rfl hphase rfl rfl
    · exact .stay rfl hphase.symm rfl
  case compareExchangeWeak.spurious =>
    obtain ⟨rfl, rfl, rfl⟩ := quiet_eq_some_iff.mp h
    exact .stay rfl hphase.symm rfl
  case fetchSub.go =>
    obtain ⟨rfl, rfl, rfl⟩ := quiet_eq_some_iff.mp h
    exact .leave rfl hphase rfl rfl

theorem tryWaitStep_event {pc : TryWaitPc} (hcall : th.call = .tryWait pc)
    (h : tryWaitStep before th pc choice = some (after, moved, signal)) :
    Event before th after moved signal := by
  have hphase := phase_of_call hcall
  cases pc <;> cases choice <;> simp only [tryWaitStep, reduceCtorEq] at h
  case load.go =>
    split_ifs at h
    all_goals
      obtain ⟨rfl, rfl, rfl⟩ := quiet_eq_some_iff.mp h
      exact .stay rfl hphase.symm rfl
  case compareExchangeWeak.go count available =>
    split_ifs at h with hcount
    all_goals obtain ⟨rfl, rfl, rfl⟩ := quiet_eq_some_iff.mp h
    · subst hcount
      exact .tryAcquire available rfl hphase rfl rfl
    · exact .stay rfl hphase.symm rfl
  case compareExchangeWeak.spurious =>
    obtain ⟨rfl, rfl, rfl⟩ := quiet_eq_some_iff.mp h
    exact .stay rfl hphase.symm rfl

theorem signalStep_event {pc : SignalPc} (hcall : th.call = .signal pc)
    (h : signalStep before th pc choice = some (after, moved, signal)) :
    Event before th after moved signal := by
  have hphase := phase_of_call hcall
  cases pc <;> cases choice <;> simp only [signalStep, reduceCtorEq] at h
  case fetchAdd.go =>
    obtain ⟨rfl, rfl, rfl⟩ := quiet_eq_some_iff.mp h
    exact .increment rfl hphase rfl rfl
  case load.go =>
    split_ifs at h with hwaiting
    all_goals obtain ⟨rfl, rfl, rfl⟩ := quiet_eq_some_iff.mp h
    · exact .stay rfl hphase.symm rfl
    · exact .skip (Nat.eq_zero_of_not_pos hwaiting) rfl hphase rfl rfl
  case wakeOne.go =>
    obtain ⟨rfl, rfl, rfl⟩ := by simpa using h
    exact .wakeOne rfl hphase rfl rfl

/-- Every step of a thread is one of the events. -/
theorem step_event (h : step before th choice = some (after, moved, signal)) :
    Event before th after moved signal := by
  unfold step at h
  split at h
  case h_1 hcall =>
    cases choice <;> simp only [idleStep, reduceCtorEq] at h
    all_goals
      obtain ⟨rfl, rfl, rfl⟩ := quiet_eq_some_iff.mp h
      exact .stay rfl (phase_of_call hcall).symm rfl
  case h_2 hcall => exact waitStep_event hcall h
  case h_3 hcall => exact tryWaitStep_event hcall h
  case h_4 hcall => exact signalStep_event hcall h

theorem asleepOn_iff {th : Thread} : asleepOn th = some .count ↔ th.phase = .sleeping := by
  unfold asleepOn Thread.phase
  split
  case h_1 hcall => simp [hcall, Call.phase]
  case h_2 hcall =>
    cases hth : th.call with
    | wait pc => cases pc <;> simp_all [Call.phase]
    | signal pc => cases pc <;> simp [Call.phase]
    | _ => simp [Call.phase]

theorem phase_wake {th : Thread} (h : th.phase = .sleeping) : (wake th).phase = .looping := by
  have hasleep := asleepOn_iff.mpr h
  unfold asleepOn at hasleep
  split at hasleep
  case h_1 hcall =>
    simp only [wake, hcall]
    rfl
  case h_2 => cases hasleep

end Steps

/-! ### Every run -/

section Runs

variable {Tid : Type} [DecidableEq Tid] [Fintype Tid] {initialCount : ℕ}
  {p p' : Pool Tid Shared Thread} {label : Label Tid Choice}

omit [DecidableEq Tid] in
/-- The number of threads in a phase. -/
def threadsAt (p : Pool Tid Shared Thread) (phase : Phase) : ℕ :=
  countAt Thread.phase phase p.threads

omit [DecidableEq Tid] in
/-- The permits of a semaphore: no more are taken than there have ever been, `num_waiting` counts
the threads between the `fetch_add` and the `fetch_sub` of `wait`, and while a thread is asleep
every available permit is covered by a thread awake in the loop of `wait` or by a `signal` that has
yet to decide about its wake-up. -/
structure Permits (initialCount : ℕ) (p : Pool Tid Shared Thread) : Prop where
  admitted : p.shared.count + p.shared.acquisitions ≤ initialCount + p.shared.increments
  waiting : p.shared.numWaiting =
    threadsAt p .looping + threadsAt p .sleeping + threadsAt p .leaving
  covered : (∃ t, (p.threads t).call = .wait .asleep) →
    p.shared.count ≤ threadsAt p .looping + threadsAt p .signalling

omit [DecidableEq Tid] in
theorem exists_asleep_iff :
    (∃ t, (p.threads t).call = .wait .asleep) ↔ 0 < threadsAt p .sleeping := by
  rw [threadsAt, countAt_pos_iff]
  refine exists_congr fun t ↦ ?_
  rw [← asleepOn_iff, asleepOn]
  split
  case h_1 hcall => simp [hcall]
  case h_2 hcall => simpa using hcall

omit [DecidableEq Tid] in
/-- Between the `fetch_add` and the `fetch_sub` of `wait` there are at most all threads. -/
theorem waiting_le_card :
    threadsAt p .looping + threadsAt p .sleeping + threadsAt p .leaving ≤ Fintype.card Tid := by
  have hsum : ∑ k ∈ {.looping, .sleeping, .leaving}, countAt Thread.phase k p.threads ≤
      Fintype.card Tid := sum_countAt_le_card _
  rw [Finset.sum_insert (by decide), Finset.sum_insert (by decide), Finset.sum_singleton] at hsum
  simp only [threadsAt]
  omega

omit [DecidableEq Tid] in
/-- A new semaphore has all threads outside. -/
theorem threadsAt_new {phase : Phase} (hphase : phase ≠ .outside) :
    threadsAt (new Tid initialCount) phase = 0 :=
  countAt_eq_zero_iff.mpr fun _ ↦ hphase.symm

/-- The move of a thread that wakes nobody, in the numbers of threads. -/
theorem threadsAt_step {moved : Thread} {signal : Signal Tid Addr} {k k' : Phase}
    (hdelivered : (machine Tid).Delivered signal (update p.threads label.thread moved) p'.threads)
    (hsignal : signal = .silent) (hbefore : (p.threads label.thread).phase = k)
    (hafter : moved.phase = k') (r : Phase) :
    threadsAt p' r + (if k = r then 1 else 0) = threadsAt p r + if k' = r then 1 else 0 := by
  subst hsignal
  exact hdelivered.countAt_update_silent hbefore hafter r

/-- One step keeps `num_waiting` in step with the threads it counts. -/
theorem waiting_step
    (h : p.shared.numWaiting =
      (threadsAt p .looping + threadsAt p .sleeping + threadsAt p .leaving) % 2 ^ 32)
    (hmove : (system Tid initialCount).step p label = some p') :
    p'.shared.numWaiting =
      (threadsAt p' .looping + threadsAt p' .sleeping + threadsAt p' .leaving) % 2 ^ 32 := by
  obtain ⟨moved, signal, hlocal, hdelivered⟩ := Machine.step_cases hmove
  cases step_event hlocal with
  | stay hafter hphase hsignal =>
    have hsame (r : Phase) : threadsAt p' r = threadsAt p r := by
      have hcount := threadsAt_step hdelivered hsignal rfl hphase r
      omega
    simp only [hafter, hsame, h]
  | enter hafter hbefore hphase hsignal =>
    have hcount := Phase.forall.mp (threadsAt_step hdelivered hsignal hbefore hphase)
    simp only [reduceCtorEq, if_true, if_false] at hcount
    simp only [hafter, addU32, h]
    omega
  | leave hafter hbefore hphase hsignal =>
    have hcount := Phase.forall.mp (threadsAt_step hdelivered hsignal hbefore hphase)
    simp only [reduceCtorEq, if_true, if_false] at hcount
    simp only [hafter, subU32, h]
    omega
  | wakeOne hafter hbefore hphase hsignal =>
    subst hsignal
    have hwoken := hdelivered.countAt_update_wakeOne (fun _ ↦ asleepOn_iff) (fun _ ↦ phase_wake)
      hbefore hphase (by decide) (by decide)
    simp only [← threadsAt.eq_def] at hwoken
    rw [hafter, h]
    rcases hwoken with ⟨hnobody, hcount⟩ | hcount
    all_goals
      have hcount := Phase.forall.mp hcount
      simp only [reduceCtorEq, if_true, if_false] at hcount
      congr 1
      omega
  | _ =>
    rename_i hafter hbefore hphase hsignal
    have hcount := Phase.forall.mp (threadsAt_step hdelivered hsignal hbefore hphase)
    simp only [reduceCtorEq, if_true, if_false] at hcount
    simp only [hafter, Shared.take, h]
    congr 1
    omega

/-- `num_waiting` counts, modulo `2 ^ 32`, the threads between the `fetch_add` and the `fetch_sub`
of `wait`. -/
theorem waiting_mod (h : (system Tid initialCount).Reachable p) :
    p.shared.numWaiting =
      (threadsAt p .looping + threadsAt p .sleeping + threadsAt p .leaving) % 2 ^ 32 := by
  refine h.invariant (P := fun p ↦ p.shared.numWaiting =
    (threadsAt p .looping + threadsAt p .sleeping + threadsAt p .leaving) % 2 ^ 32) ?_
    fun p label p' _ hwaiting _ hmove ↦ waiting_step hwaiting hmove
  show 0 = (threadsAt (new Tid initialCount) .looping + threadsAt (new Tid initialCount) .sleeping +
    threadsAt (new Tid initialCount) .leaving) % 2 ^ 32
  rw [threadsAt_new (by decide), threadsAt_new (by decide), threadsAt_new (by decide)]
  rfl

omit [DecidableEq Tid] in
theorem permits_iff : Permits initialCount p ↔
    p.shared.count + p.shared.acquisitions ≤ initialCount + p.shared.increments ∧
      p.shared.numWaiting =
        threadsAt p .looping + threadsAt p .sleeping + threadsAt p .leaving ∧
      (0 < threadsAt p .sleeping →
        p.shared.count ≤ threadsAt p .looping + threadsAt p .signalling) := by
  rw [← exists_asleep_iff]
  exact ⟨fun ⟨h₁, h₂, h₃⟩ ↦ ⟨h₁, h₂, h₃⟩, fun ⟨h₁, h₂, h₃⟩ ↦ ⟨h₁, h₂, h₃⟩⟩

/-- One step keeps the invariant. Assumes: the number of threads fits into `num_waiting`. -/
theorem permits_step (hthreads : Fintype.card Tid < 2 ^ 32) (h : Permits initialCount p)
    (hmove : (system Tid initialCount).step p label = some p') : Permits initialCount p' := by
  have hfits := waiting_le_card (p := p)
  have hfits' := waiting_le_card (p := p')
  have hcounted := waiting_step (by rw [h.waiting]; omega) hmove
  rw [Nat.mod_eq_of_lt (by omega)] at hcounted
  obtain ⟨moved, signal, hlocal, hdelivered⟩ := Machine.step_cases hmove
  rw [permits_iff] at h ⊢
  obtain ⟨hadmitted, hwaiting, hcovered⟩ := h
  have hincrement : addU32 p.shared.count 1 ≤ p.shared.count + 1 := Nat.mod_le _ _
  cases step_event hlocal with
  | stay hafter hphase hsignal =>
    have hsame (r : Phase) : threadsAt p' r = threadsAt p r := by
      have hcount := threadsAt_step hdelivered hsignal rfl hphase r
      omega
    simp only [hafter, hsame]
    exact ⟨hadmitted, hwaiting, hcovered⟩
  | wakeOne hafter hbefore hphase hsignal =>
    subst hsignal
    rw [hafter]
    have hwoken := hdelivered.countAt_update_wakeOne (fun _ ↦ asleepOn_iff) (fun _ ↦ phase_wake)
      hbefore hphase (by decide) (by decide)
    simp only [← threadsAt.eq_def] at hwoken
    rcases hwoken with ⟨hnobody, hcount⟩ | hcount
    all_goals
      have hcount := Phase.forall.mp hcount
      simp only [reduceCtorEq, if_true, if_false] at hcount
      omega
  | _ =>
    rename_i hafter hbefore hphase hsignal
    have hcount := Phase.forall.mp (threadsAt_step hdelivered hsignal hbefore hphase)
    simp only [reduceCtorEq, if_true, if_false] at hcount
    refine ⟨?_, hcounted, ?_⟩
    all_goals
      simp only [hafter, Shared.take]
      omega

omit [DecidableEq Tid] in
/-- The invariant holds of a new semaphore. -/
theorem permits_new : Permits initialCount (new Tid initialCount) := by
  rw [permits_iff, threadsAt_new (by decide), threadsAt_new (by decide), threadsAt_new (by decide)]
  exact ⟨le_rfl, rfl, fun hpos ↦ absurd hpos (lt_irrefl 0)⟩

/-- The invariant holds in every state of every run. -/
theorem permits (hthreads : Fintype.card Tid < 2 ^ 32) (h : (system Tid initialCount).Reachable p) :
    Permits initialCount p := by
  refine h.invariant permits_new ?_
  intro p label p' _ hpermits _ hmove
  exact permits_step hthreads hpermits hmove

/-- No permit is taken that was not there, and no thread sleeps on an available permit with nobody
due to take it or to wake the thread, in every state of every run. -/
theorem permits_kept (hthreads : Fintype.card Tid < 2 ^ 32)
    (h : (system Tid initialCount).Reachable p) :
    Permits initialCount p ∧
      ((∃ t, (p.threads t).call = .wait .asleep) → 0 < p.shared.count →
        ∃ t, (p.threads t).phase = .looping ∨ (p.threads t).phase = .signalling) := by
  have hpermits := permits hthreads h
  refine ⟨hpermits, fun hasleep havailable ↦ ?_⟩
  have hcovered := hpermits.covered hasleep
  by_cases hlooping : 0 < threadsAt p .looping
  · obtain ⟨t, ht⟩ := countAt_pos_iff.mp hlooping
    exact ⟨t, .inl ht⟩
  · have hsignalling : 0 < threadsAt p .signalling := by omega
    obtain ⟨t, ht⟩ := countAt_pos_iff.mp hsignalling
    exact ⟨t, .inr ht⟩

/-- `permits_kept` on a run in which thread 0 falls asleep and thread 1 has made a permit available
and not yet looked at `num_waiting`. -/
theorem permits_kept_signalled :
    ∃ p : Pool (Fin 2) Shared Thread, (p.threads 0).call = .wait .asleep ∧ p.shared.count = 1 ∧
      Permits 0 p ∧ ∃ t, (p.threads t).phase = .looping ∨ (p.threads t).phase = .signalling := by
  obtain ⟨p, hrun, hasleep, hcount⟩ := System.exists_reachableWhen_of_exec
    (M := system (Fin 2) 0) (fun _ _ ↦ True)
    (P := fun p ↦ (p.threads 0).call = .wait .asleep ∧ p.shared.count = 1)
    ([⟨0, .wait, none⟩] ++ List.replicate 3 ⟨0, .go, none⟩ ++
      [⟨1, .signal, none⟩, ⟨1, .go, none⟩]) (by decide)
  obtain ⟨hpermits, hcovered⟩ := permits_kept (by decide) hrun
  exact ⟨p, hasleep, hcount, hpermits, hcovered ⟨0, hasleep⟩ (hcount ▸ Nat.one_pos)⟩

end Runs

end SyncPrimitives.Semaphore
