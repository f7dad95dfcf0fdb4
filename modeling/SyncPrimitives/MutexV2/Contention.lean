import SyncPrimitives.Concurrency.Runs
import SyncPrimitives.MutexV2.Exclusion

/-!
# Contention on the three-valued mutex

A thread whose compare-and-exchange in the slow loop of `lock` has failed should find the word
`LOCKED_HAS_WAITERS` until the holder releases the mutex, so that its `wait` sleeps and the release
wakes it. `contenders` records which threads have failed so during the current hold, that is, since
the word was last `UNLOCKED`. A failed compare-and-exchange leaves the word as it is, and the fast
path, the compare-and-exchange after the spinning and `try_lock` acquire with `LOCKED`:
`contender_spins` is a run in which the mark is missing, so that the `wait` of the contender does
not sleep and the release wakes nobody.

`contention_recorded` holds in every run in which the slow loop does not find the word `LOCKED`, and
a failure on `LOCKED` is the only step that breaks it. `withAcquirer` records how the mutex has been
acquired: a held word is `LOCKED_HAS_WAITERS` if and only if the holder has won the
compare-and-exchange of the slow loop (`word_tells_acquirer`).
-/

set_option autoImplicit false
set_option relaxedAutoImplicit false

namespace SyncPrimitives.MutexV2

open Concurrency Function MutexCommon

/-- Whether a thread is inside `lock` and has not acquired. -/
def Call.contending : Call → Bool
  | .lock _ => true
  | _ => false

variable {Tid : Type}

/-- The condition on a step: the compare-and-exchange of the slow loop finds the word `UNLOCKED`, or
the mutex held by a thread that has acquired it in the slow loop, as `word_tells_acquirer` reads the
word. -/
def SlowCondition (p : Pool Tid Shared Thread) (label : Label Tid Choice) : Prop :=
  (p.threads label.thread).call = .lock .slowCompareExchange →
    p.shared.state = unlocked ∨ p.shared.state = lockedHasWaiters

instance (p : Pool Tid Shared Thread) (label : Label Tid Choice) :
    Decidable (SlowCondition p label) :=
  inferInstanceAs (Decidable (_ → _))

section Steps

variable {before after : Shared} {th moved : Thread} {signal : Signal Tid Addr} {choice : Choice}

/-- What an acquiring compare-and-exchange writes: only the slow loop writes
`LOCKED_HAS_WAITERS`. -/
theorem word_of_acquire (h : step before th choice = some (after, moved, signal))
    (hfree : before.state = unlocked) (hheld : after.state ≠ unlocked) :
    after.state =
      if th.call = .lock .slowCompareExchange then lockedHasWaiters else locked := by
  have hnot (hsame : after.state = before.state) : False := hheld (hsame.trans hfree)
  unfold step at h
  split at h
  case h_1 hcall =>
    cases choice with
    | call method =>
      cases method
      all_goals
        obtain ⟨rfl, -⟩ := quiet_eq_some_iff.mp h
        exact (hnot rfl).elim
    | drop panicking =>
      simp only [idleStep] at h
      split_ifs at h
      obtain ⟨rfl, -⟩ := quiet_eq_some_iff.mp h
      exact (hnot rfl).elim
    | clearPoison =>
      obtain ⟨rfl, -⟩ := quiet_eq_some_iff.mp h
      exact (hnot rfl).elim
    | go => cases h
    | spurious => cases h
  case h_2 pc hcall =>
    rw [hcall]
    cases pc <;> cases choice <;> simp only [lockStep, reduceCtorEq] at h
    case compareExchangeWeak.go | compareExchange.go | slowCompareExchange.go =>
      rw [if_pos hfree] at h
      obtain ⟨rfl, -⟩ := quiet_eq_some_iff.mp h
      rfl
    all_goals
      try split_ifs at h
      all_goals
        obtain ⟨rfl, -⟩ := quiet_eq_some_iff.mp h
        exact (hnot rfl).elim
  case h_3 pc hcall =>
    rw [hcall]
    cases pc <;> cases choice <;> simp only [tryLockStep, reduceCtorEq] at h
    case compareExchangeWeak.go =>
      rw [if_pos hfree] at h
      obtain ⟨rfl, -⟩ := quiet_eq_some_iff.mp h
      rfl
    all_goals
      obtain ⟨rfl, -⟩ := quiet_eq_some_iff.mp h
      exact (hnot rfl).elim
  case h_4 =>
    split_ifs at h
    obtain ⟨rfl, -⟩ := quiet_eq_some_iff.mp h
    exact (hnot rfl).elim
  case h_5 pc hcall =>
    cases pc <;> cases choice <;> simp only [dropStep, reduceCtorEq] at h
    case wakeOne.go =>
      obtain ⟨rfl, -⟩ := by simpa using h
      exact (hnot rfl).elim
    all_goals
      obtain ⟨rfl, -⟩ := quiet_eq_some_iff.mp h
      first
      | exact (hnot rfl).elim
      | exact absurd rfl hheld

end Steps

section Runs

variable [DecidableEq Tid] [Fintype Tid]

/-- The threads of a mutex, with those whose compare-and-exchange in the slow loop has failed during
the current hold. -/
def contenders (Tid : Type) [DecidableEq Tid] [Fintype Tid] :
    System (Pool Tid Shared Thread × (Tid → Bool)) (Label Tid Choice) :=
  (system Tid).recording (fun _ ↦ false) fun failed p label p' ↦
    if p'.shared.state = unlocked then fun _ ↦ false
    else if (p.threads label.thread).call = .lock .slowCompareExchange ∧
      p.shared.state ≠ unlocked then update failed label.thread true
    else failed

/-- Every thread that has failed in the slow loop during the current hold, and is still inside
`lock`, finds its mark in the word. -/
def ContentionMarked (x : Pool Tid Shared Thread × (Tid → Bool)) : Prop :=
  ∀ t, x.2 t = true → (x.1.threads t).call.contending = true → x.1.shared.state = lockedHasWaiters

/-- Thread 0 acquires by the fast path; thread 1 calls `lock`, spins until its counter runs out,
fails twice and is about to wait. -/
def unmarkedRun : List (Label (Fin 2) Choice) :=
  [⟨0, .call .lock, none⟩] ++ List.replicate 3 ⟨0, .go, none⟩ ++
  [⟨1, .call .lock, none⟩] ++ List.replicate 104 ⟨1, .go, none⟩

/-- Thread 0 drops its guard, up to the swap. -/
def unmarkedRelease : List (Label (Fin 2) Choice) :=
  [⟨0, .drop false, none⟩, ⟨0, .go, none⟩, ⟨0, .go, none⟩]

/-- The word lacks the mark, the `wait` of the contender returns to the slow loop, and the release
wakes nobody. -/
theorem contender_spins :
    ∃ x : Pool (Fin 2) Shared Thread × (Fin 2 → Bool),
      (contenders (Fin 2)).Reachable x ∧ ¬ContentionMarked x ∧
      (x.1.threads 1).call = .lock .wait ∧
      ((system (Fin 2)).step x.1 ⟨1, .go, none⟩).any (fun p' ↦
        (p'.threads 1).call = .lock .slowCompareExchange) = true ∧
      ((system (Fin 2)).exec (fun _ _ ↦ True) x.1 unmarkedRelease).any (fun p' ↦
        (p'.threads 0).call = .idle) = true := by
  obtain ⟨x, hrun, ⟨hfailed, hword, hcall⟩, hsteps⟩ :=
    System.exists_reachableWhen_of_exec (M := contenders (Fin 2)) (fun _ _ ↦ True)
      (P := fun x ↦ (x.2 1 = true ∧ x.1.shared.state = locked ∧
        (x.1.threads 1).call = .lock .wait) ∧
        ((system (Fin 2)).step x.1 ⟨1, .go, none⟩).any (fun p' ↦
          (p'.threads 1).call = .lock .slowCompareExchange) = true ∧
        ((system (Fin 2)).exec (fun _ _ ↦ True) x.1 unmarkedRelease).any (fun p' ↦
          (p'.threads 0).call = .idle) = true)
      unmarkedRun (by decide +kernel)
  refine ⟨x, hrun, fun hmarked ↦ ?_, hcall, hsteps⟩
  have hword' := hmarked 1 hfailed (by rw [hcall]; rfl)
  rw [hword] at hword'
  cases hword'

/-! ### How the holder has acquired -/

/-- The threads of a mutex, with the thread that has acquired it last and the position of its
compare-and-exchange, while the mutex is held. -/
def withAcquirer (Tid : Type) [DecidableEq Tid] [Fintype Tid] :
    System (Pool Tid Shared Thread × Option (Tid × Call)) (Label Tid Choice) :=
  (system Tid).recording none fun acquirer p label p' ↦
    if p'.shared.state = unlocked then none
    else if p.shared.state = unlocked then
      some (label.thread, (p.threads label.thread).call)
    else acquirer

/-- The word tells how its holder has acquired. -/
def Tells (p : Pool Tid Shared Thread) : Option (Tid × Call) → Prop
  | none => p.shared.state = unlocked
  | some (t, call) => 0 < (p.threads t).outstanding ∧
      p.shared.state =
        if call = .lock .slowCompareExchange then lockedHasWaiters else locked

/-! ### Runs in which contention is recorded -/

variable {x x' : Pool Tid Shared Thread × (Tid → Bool)} {p p' : Pool Tid Shared Thread}
  {label : Label Tid Choice}

/-- One step keeps what the word tells. -/
theorem tells_step {y y' : Pool Tid Shared Thread × Option (Tid × Call)}
    (h : (system Tid).Reachable y.1) (htells : Tells y.1 y.2)
    (hmove : (withAcquirer Tid).step y label = some y') : Tells y'.1 y'.2 := by
  obtain ⟨hstep, hrecord⟩ := System.recording_step hmove
  obtain ⟨moved, signal, hlocal, hdelivered⟩ := Machine.step_cases hstep
  have hlocal' : step y.1.shared (y.1.threads label.thread) label.choice =
      some (y'.1.shared, moved, signal) := hlocal
  have hexclusive := exclusive h
  have hone := (le_total Thread.outstanding y.1.threads label.thread).trans hexclusive.total_le_one
  have hown := (step_own (hexclusive.marked label.thread) hone hlocal').1
  have houtstanding := hdelivered.comp_eq (g := Thread.outstanding) (fun _ ↦ outstanding_wake)
    fun _ ↦ rfl
  rw [hrecord]
  split_ifs with hreleased hfree
  · exact hreleased
  · -- the mover has acquired
    refine ⟨?_, word_of_acquire hlocal' hfree hreleased⟩
    rw [congrFun houtstanding label.thread, update_self]
    cases hown with
    | stay hstate => exact absurd (hstate.trans hfree) hreleased
    | acquire hfree' hstate hguards => omega
    | release hstate => exact absurd hstate hreleased
  · -- the holder keeps its guard
    cases hown with
    | stay hstate hguards =>
      cases hacquirer : y.2 with
      | none =>
        rw [hacquirer] at htells
        exact absurd htells hfree
      | some acquirer =>
        rw [hacquirer] at htells
        refine ⟨?_, hstate.trans htells.2⟩
        rw [congrFun houtstanding acquirer.1]
        by_cases hself : acquirer.1 = label.thread
        · rw [hself, update_self, hguards, ← hself]
          exact htells.1
        · rw [update_of_ne hself]
          exact htells.1
    | acquire hfree' => exact absurd hfree' hfree
    | release hstate => exact absurd hstate hreleased

/-- A mutex is held by the thread that has acquired it last, and the word is `LOCKED_HAS_WAITERS` if
and only if that thread has won the compare-and-exchange of the slow loop; else it is `LOCKED`. -/
theorem word_tells_acquirer {y : Pool Tid Shared Thread × Option (Tid × Call)}
    (h : (withAcquirer Tid).Reachable y) (hheld : y.1.shared.state ≠ unlocked) :
    ∃ t call, y.2 = some (t, call) ∧ 0 < (y.1.threads t).outstanding ∧
      (y.1.shared.state = lockedHasWaiters ↔ call = .lock .slowCompareExchange) ∧
      (y.1.shared.state = locked ↔ call ≠ .lock .slowCompareExchange) := by
  have htells : Tells y.1 y.2 := by
    have hinit : Tells (new Tid) none := rfl
    refine h.invariant (P := fun y ↦ Tells y.1 y.2) hinit ?_
    intro y label y' hrun htells _ hmove
    exact tells_step (System.Reachable.of_recording hrun) htells hmove
  cases hacquirer : y.2 with
  | none =>
    rw [hacquirer] at htells
    exact absurd htells hheld
  | some acquirer =>
    rw [hacquirer] at htells
    obtain ⟨hholds, hword⟩ := htells
    refine ⟨acquirer.1, acquirer.2, rfl, hholds, ?_, ?_⟩
    all_goals
      rw [hword]
      split_ifs with hslow
      all_goals simp [hslow, locked, lockedHasWaiters]

/-- The word changes only when the mutex is acquired or released. -/
theorem word_of_step (h : (system Tid).Reachable p) (hmove : (system Tid).step p label = some p') :
    p'.shared.state = p.shared.state ∨ p.shared.state = unlocked ∨ p'.shared.state = unlocked := by
  obtain ⟨moved, signal, hlocal, -⟩ := Machine.step_cases hmove
  have hexclusive := exclusive h
  have hone := (le_total Thread.outstanding p.threads label.thread).trans hexclusive.total_le_one
  cases (step_own (hexclusive.marked label.thread) hone hlocal).1 with
  | stay hstate => exact .inl hstate
  | acquire hfree => exact .inr (.inl hfree)
  | release hstate => exact .inr (.inr hstate)

/-- What a step adds to the record of the current hold. -/
theorem failed_of_step {t : Tid} (hmove : (contenders Tid).step x label = some x')
    (hfailed : x'.2 t = true) :
    x'.1.shared.state ≠ unlocked ∧ (x.2 t = true ∨
      t = label.thread ∧ (x.1.threads t).call = .lock .slowCompareExchange ∧
        x.1.shared.state ≠ unlocked) := by
  rw [(System.recording_step hmove).2] at hfailed
  split_ifs at hfailed with hfree hslow
  · refine ⟨hfree, ?_⟩
    by_cases hself : t = label.thread
    · exact .inr ⟨hself, hself ▸ hslow⟩
    · rw [update_of_ne hself] at hfailed
      exact .inl hfailed
  · exact ⟨hfree, .inl hfailed⟩

/-- One step keeps the mark of every thread in the record. Assumes: the condition on the step. -/
theorem marked_step (h : (system Tid).Reachable x.1)
    (hmarked : ∀ t, x.2 t = true → x.1.shared.state = lockedHasWaiters)
    (hmeets : SlowCondition x.1 label) (hmove : (contenders Tid).step x label = some x') :
    ∀ t, x'.2 t = true → x'.1.shared.state = lockedHasWaiters := by
  intro t hfailed
  obtain ⟨hheld, hsource⟩ := failed_of_step hmove hfailed
  have hword : x.1.shared.state = lockedHasWaiters := by
    rcases hsource with hbefore | ⟨rfl, hcall, hnot⟩
    · exact hmarked t hbefore
    · exact (hmeets hcall).resolve_left hnot
  rcases word_of_step h (System.recording_step hmove).1 with hsame | hfree | hfree
  · exact hsame.trans hword
  · rw [hword] at hfree
    cases hfree
  · exact absurd hfree hheld

/-- A failure on `LOCKED` leaves a contender without a mark. -/
theorem not_marked_of_step (hslow : ¬SlowCondition x.1 label)
    (hmove : (contenders Tid).step x label = some x') : ¬ContentionMarked x' := by
  intro hmarked
  obtain ⟨hstep, hrecord⟩ := System.recording_step hmove
  obtain ⟨moved, signal, hlocal, hdelivered⟩ := Machine.step_cases hstep
  obtain ⟨hcall, hneither⟩ := Classical.not_imp.mp hslow
  obtain ⟨hheld, hword⟩ := not_or.mp hneither
  have hlocal' : step x.1.shared (x.1.threads label.thread) label.choice =
      some (x'.1.shared, moved, signal) := hlocal
  cases hchoice : label.choice <;>
    simp only [step, hcall, hchoice, lockStep, reduceCtorEq, hheld, if_false] at hlocal'
  obtain ⟨hshared, rfl, rfl⟩ := quiet_eq_some_iff.mp hlocal'
  have hthread : (x'.1.threads label.thread).call.contending = true := by
    rw [hdelivered.silent_eq, update_self]
    rfl
  have hfailed : x'.2 label.thread = true := by
    rw [hrecord, if_neg (hshared ▸ hheld), if_pos ⟨hcall, hheld⟩, update_self]
  exact hword (hshared ▸ hmarked label.thread hfailed hthread)

/-- In every run in which the slow loop does not fail on the word `LOCKED`, every thread that has
failed there during the current hold and is still inside `lock` finds the word `LOCKED_HAS_WAITERS`;
its `wait` sleeps, and the swap of the holder is followed by `wake_one`. A step breaks this if and
only if it violates the condition. -/
theorem contention_recorded
    (h : (contenders Tid).ReachableWhen (fun x label ↦ SlowCondition x.1 label) x) :
    ContentionMarked x ∧
      (∀ t, x.2 t = true → (x.1.threads t).call = .lock .wait →
        ∀ p', (system Tid).step x.1 ⟨t, .go, none⟩ = some p' →
          (p'.threads t).call = .lock .asleep) ∧
      (∀ t u, x.2 t = true → (x.1.threads t).call.contending = true →
        (x.1.threads u).call = .drop .swap →
        ∀ p', (system Tid).step x.1 ⟨u, .go, none⟩ = some p' →
          (p'.threads u).call = .drop .wakeOne) ∧
      ∀ label x', (contenders Tid).step x label = some x' →
        (ContentionMarked x' ↔ SlowCondition x.1 label) := by
  have hmarked : ∀ t, x.2 t = true → x.1.shared.state = lockedHasWaiters := by
    refine h.invariant (P := fun x ↦ ∀ t, x.2 t = true → x.1.shared.state = lockedHasWaiters)
      (fun _ hfailed ↦ absurd hfailed Bool.false_ne_true) ?_
    intro x label x' hrun hmarked hmeets hmove
    exact marked_step hrun.of_recording.reachable hmarked hmeets hmove
  refine ⟨fun t hfailed _ ↦ hmarked t hfailed, fun t hfailed hcall p' hmove ↦ ?_,
    fun t u hfailed _ hcall p' hmove ↦ ?_, fun label x' hmove ↦ ⟨fun hafter ↦ ?_, fun hmeets ↦ ?_⟩⟩
  · have hword := hmarked t hfailed
    obtain ⟨moved, signal, hlocal, hdelivered⟩ := Machine.step_cases hmove
    simp only [machine, step, hcall, lockStep, hword, if_true] at hlocal
    obtain ⟨-, rfl, rfl⟩ := quiet_eq_some_iff.mp hlocal
    rw [hdelivered.silent_eq, update_self]
    rfl
  · have hword := hmarked t hfailed
    obtain ⟨moved, signal, hlocal, hdelivered⟩ := Machine.step_cases hmove
    simp only [machine, step, hcall, dropStep, hword, if_true] at hlocal
    obtain ⟨-, rfl, rfl⟩ := quiet_eq_some_iff.mp hlocal
    rw [hdelivered.silent_eq, update_self]
    rfl
  · by_contra hslow
    exact not_marked_of_step hslow hmove hafter
  · exact fun t hfailed _ ↦ marked_step h.of_recording.reachable hmarked hmeets hmove t hfailed

/-- `contention_recorded` on a run in which thread 0 releases just before thread 1 reaches the slow
loop, thread 1 acquires there, and thread 2 fails there. -/
theorem contention_recorded_three_threads :
    ∃ x : Pool (Fin 3) Shared Thread × (Fin 3 → Bool),
      x.2 2 = true ∧ (x.1.threads 2).call.contending = true ∧ ContentionMarked x := by
  obtain ⟨x, hrun, hfailed, hcall⟩ := System.exists_reachableWhen_of_exec
    (M := contenders (Fin 3)) (fun x label ↦ SlowCondition x.1 label)
    (P := fun x ↦ x.2 2 = true ∧ (x.1.threads 2).call.contending = true)
    ([⟨0, .call .lock, none⟩] ++ List.replicate 3 ⟨0, .go, none⟩ ++
      [⟨1, .call .lock, none⟩] ++ List.replicate 103 ⟨1, .go, none⟩ ++
      [⟨0, .drop false, none⟩] ++ List.replicate 2 ⟨0, .go, none⟩ ++ [⟨1, .go, none⟩] ++
      [⟨2, .call .lock, none⟩] ++ List.replicate 104 ⟨2, .go, none⟩) (by decide +kernel)
  exact ⟨x, hfailed, hcall, (contention_recorded hrun).1⟩

end Runs

end SyncPrimitives.MutexV2
