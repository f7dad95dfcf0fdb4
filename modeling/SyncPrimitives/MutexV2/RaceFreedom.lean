import SyncPrimitives.Concurrency.Polling
import SyncPrimitives.MutexV2.ManyMutexes

/-!
# The orderings of the three-valued mutex

The compare-and-exchanges of `lock` and `try_lock` acquire when they succeed, the swap of a drop
releases, and nothing overwrites `state` without reading it. The data and the flag `poisoned` are
behind the word. As in the queueing mutex, the result on `poisoned` is about the runs in which only
owners call `clear_poison` and `is_poisoned`, and `systemWithPolls` has the calls of `is_poisoned`;
`isPoisoned_races` is a run in which another thread calls it.
-/

set_option autoImplicit false
set_option relaxedAutoImplicit false

namespace SyncPrimitives.MutexV2

open Concurrency Memory MutexCommon

/-- The atomic word of the mutex. -/
inductive Word
  | state
  deriving DecidableEq

/-- A compare-and-exchange that expects `UNLOCKED`. -/
def exchange (shared : Shared) : Access Word :=
  if shared.state = unlocked then .rmw .state true false else .load .state false

/-- The access of a step to `state`; `wait` compares the word in the kernel. -/
def Call.access (shared : Shared) : Call → Choice → Access Word
  | .lock .compareExchangeWeak, .go => exchange shared
  | .lock .compareExchangeWeak, .spurious => .load .state false
  | .lock (.spin _ _), .go => .load .state false
  | .lock .compareExchange, .go => exchange shared
  | .lock .slowCompareExchange, .go => exchange shared
  | .lock .wait, .go => .load .state false
  | .tryLock .compareExchangeWeak, .go => exchange shared
  | .tryLock .compareExchangeWeak, .spurious => .load .state false
  | .drop .swap, .go => .rmw .state false true
  | _, _ => .none

/-- The access of a step of a thread. -/
def access (shared : Shared) (th : Thread) (choice : Choice) : Access Word :=
  th.call.access shared choice

/-- What a step of the mutex does to `poisoned`; a call of `is_poisoned` is a step of
`systemWithPolls`, and its touch stands in `Polled.touch`. -/
def Call.poisonedTouch : Call → Choice → Touch
  | .acquired, .go => .read
  | .idle, .drop true => .write
  | .idle, .clearPoison => .write
  | _, _ => .none

/-- The same for a thread. -/
def poisonedTouch (_ : Shared) (th : Thread) (choice : Choice) : Touch :=
  th.call.poisonedTouch choice

section Steps

variable {Tid : Type} {before after : Shared} {th moved : Thread} {signal : Signal Tid Addr}
  {choice : Choice} {call : Call}

theorem exchange_of_free (hfree : before.state = unlocked) :
    exchange before = .rmw .state true false :=
  if_pos hfree

/-- Nothing overwrites the word. -/
theorem not_stores : ¬ (call.access before choice).Stores .state := by
  have hexchange : ¬ (exchange before).Stores .state := by
    unfold exchange
    split_ifs
    · exact id
    · exact id
  cases call with
  | lock pc => cases pc <;> cases choice <;> first | exact hexchange | exact id
  | tryLock pc => cases pc <;> cases choice <;> first | exact hexchange | exact id
  | drop pc => cases pc <;> cases choice <;> exact id
  | _ => exact id

theorem passage_stay (hcall : th.call = call) (hdropping : call.dropping = false)
    (hguards : moved.outstanding = th.guards) :
    Passage .state th.outstanding moved.outstanding (access before th choice) .none := by
  refine .stay not_stores (fun hne ↦ absurd rfl hne) ?_
  rw [outstanding_of_call hcall hdropping, hguards]

/-- The acquiring compare-and-exchanges. -/
theorem passage_enter (hcall : th.call = call) (hdropping : call.dropping = false)
    (haccess : call.access before choice = exchange before) (hfree : before.state = unlocked) :
    Passage .state th.outstanding th.acquire.outstanding (access before th choice) .none := by
  refine .enter ?_ rfl ?_
  · rw [access, hcall, haccess, exchange_of_free hfree]
    exact ⟨rfl, rfl⟩
  · rw [outstanding_of_call hcall hdropping]
    rfl

theorem outstanding_acquiredCheck {next : Call} (hnext : next.dropping = false) :
    (acquiredCheck th next).outstanding = th.guards := by
  unfold acquiredCheck
  split_ifs
  · rfl
  · exact outstanding_of_call rfl hnext

theorem lockStep_passage {pc : LockPc} (hcall : th.call = .lock pc)
    (h : lockStep before th pc choice = some (after, moved, signal)) :
    Passage .state th.outstanding moved.outstanding (access before th choice) .none := by
  cases pc <;> cases choice <;> simp only [lockStep, reduceCtorEq] at h
  case acquiredCheck.go =>
    obtain ⟨-, rfl, -⟩ := quiet_eq_some_iff.mp h
    exact passage_stay hcall rfl (outstanding_acquiredCheck rfl)
  case compareExchangeWeak.go | compareExchange.go | slowCompareExchange.go =>
    split_ifs at h with hfree
    all_goals obtain ⟨-, rfl, -⟩ := quiet_eq_some_iff.mp h
    · exact passage_enter hcall rfl rfl hfree
    · first
        | exact passage_stay hcall rfl outstanding_spinLoop
        | exact passage_stay hcall rfl rfl
  case compareExchangeWeak.spurious =>
    obtain ⟨-, rfl, -⟩ := quiet_eq_some_iff.mp h
    exact passage_stay hcall rfl outstanding_spinLoop
  case spin.go =>
    split_ifs at h
    all_goals obtain ⟨-, rfl, -⟩ := quiet_eq_some_iff.mp h
    · exact passage_stay hcall rfl rfl
    · exact passage_stay hcall rfl outstanding_spinLoop
  all_goals
    try split_ifs at h
    all_goals
      obtain ⟨-, rfl, -⟩ := quiet_eq_some_iff.mp h
      exact passage_stay hcall rfl rfl

theorem tryLockStep_passage {pc : TryLockPc} (hcall : th.call = .tryLock pc)
    (h : tryLockStep before th pc choice = some (after, moved, signal)) :
    Passage .state th.outstanding moved.outstanding (access before th choice) .none := by
  cases pc <;> cases choice <;> simp only [tryLockStep, reduceCtorEq] at h
  case acquiredCheck.go =>
    obtain ⟨-, rfl, -⟩ := quiet_eq_some_iff.mp h
    exact passage_stay hcall rfl (outstanding_acquiredCheck rfl)
  case compareExchangeWeak.go =>
    split_ifs at h with hfree
    all_goals obtain ⟨-, rfl, -⟩ := quiet_eq_some_iff.mp h
    · exact passage_enter hcall rfl rfl hfree
    · exact passage_stay hcall rfl rfl
  case compareExchangeWeak.spurious =>
    obtain ⟨-, rfl, -⟩ := quiet_eq_some_iff.mp h
    exact passage_stay hcall rfl rfl

theorem dropStep_passage {pc : DropPc} (hcall : th.call = .drop pc)
    (h : dropStep before th pc choice = some (after, moved, signal)) :
    Passage .state th.outstanding moved.outstanding (access before th choice) .none := by
  cases pc <;> cases choice <;> simp only [dropStep, reduceCtorEq] at h
  case removeAcquired.go =>
    obtain ⟨-, rfl, -⟩ := quiet_eq_some_iff.mp h
    refine .stay not_stores (fun hne ↦ absurd rfl hne) ?_
    rw [Thread.outstanding, Thread.outstanding, hcall]
    rfl
  case swap.go =>
    obtain ⟨-, rfl, -⟩ := quiet_eq_some_iff.mp h
    have hout : th.outstanding = th.guards + 1 := by
      rw [Thread.outstanding, hcall]
      rfl
    refine .leave ?_ rfl ?_
    · rw [access, hcall]
      exact ⟨rfl, rfl⟩
    · rw [hout]
      split_ifs <;> rfl
  case wakeOne.go =>
    obtain ⟨-, rfl, -⟩ := by simpa using h
    exact passage_stay hcall rfl rfl

theorem idleStep_passage (hcall : th.call = .idle)
    (h : idleStep before th choice = some (after, moved, signal)) :
    Passage .state th.outstanding moved.outstanding (access before th choice) .none := by
  cases choice with
  | call method =>
    cases method
    all_goals
      obtain ⟨-, rfl, -⟩ := quiet_eq_some_iff.mp h
      exact passage_stay hcall rfl rfl
  | drop panicking =>
    simp only [idleStep] at h
    split_ifs at h with hguard
    obtain ⟨-, rfl, -⟩ := quiet_eq_some_iff.mp h
    exact passage_stay hcall rfl (Nat.sub_add_cancel hguard)
  | clearPoison =>
    obtain ⟨-, rfl, -⟩ := quiet_eq_some_iff.mp h
    exact passage_stay hcall rfl (outstanding_of_call hcall rfl)
  | go => cases h
  | spurious => cases h

/-- Every step of a thread is a passage of `state`. -/
theorem step_passage (h : step before th choice = some (after, moved, signal)) :
    Passage .state th.outstanding moved.outstanding (access before th choice) .none := by
  unfold step at h
  split at h
  case h_1 hcall => exact idleStep_passage hcall h
  case h_2 hcall => exact lockStep_passage hcall h
  case h_3 hcall => exact tryLockStep_passage hcall h
  case h_4 hcall =>
    split_ifs at h
    obtain ⟨-, rfl, -⟩ := quiet_eq_some_iff.mp h
    exact passage_stay hcall rfl rfl
  case h_5 hcall => exact dropStep_passage hcall h

end Steps

/-! ### Every run -/

section Runs

variable {Tid α : Type} [DecidableEq Tid] [Fintype Tid]

omit [DecidableEq Tid] in
/-- A thread that owns a guard owns one, and it is the only one. -/
theorem Exclusive.alone {p : Pool Tid Shared Thread} (h : Exclusive p) (t u : Tid)
    (ht : 0 < (p.threads t).outstanding) :
    (p.threads t).outstanding = 1 ∧ (0 < (p.threads u).outstanding → t = u) := by
  have hle := (le_total Thread.outstanding p.threads t).trans h.total_le_one
  exact ⟨by omega, h.eq_of_outstanding ht⟩

/-- The mutex with the method `is_poisoned`, which any thread can call between two calls. -/
def systemWithPolls (Tid : Type) [DecidableEq Tid] [Fintype Tid] :
    System (Pool Tid Shared (Polled.Local Thread)) (Label Tid (Polled.Choice Choice)) :=
  ((machine Tid).polled Many.guards Shared.poisoned).system (Polled.start (new Tid))

/-- Only the owner of a guard calls `clear_poison`. -/
def ClearsOwn (p : Pool Tid Shared Thread) (t : Tid) (choice : Choice) : Prop :=
  choice = .clearPoison → 0 < (p.threads t).guards

instance (p : Pool Tid Shared Thread) (t : Tid) (choice : Choice) :
    Decidable (ClearsOwn p t choice) :=
  inferInstanceAs (Decidable (_ → _))

omit [DecidableEq Tid] in
/-- A thread that touches `poisoned` under `ClearsOwn` is inside before and after its step. -/
theorem inside_of_poisonedTouch {p : Pool Tid Shared Thread} {t : Tid} {choice : Choice}
    {after : Shared} {moved : Thread} {signal : Signal Tid Addr} (h : Exclusive p)
    (hclears : ClearsOwn p t choice)
    (hstep : step p.shared (p.threads t) choice = some (after, moved, signal))
    (htouch : (p.threads t).call.poisonedTouch choice ≠ .none) :
    0 < (p.threads t).outstanding ∧ moved.outstanding = (p.threads t).outstanding := by
  have hmarked := h.marked t
  unfold step at hstep
  split at hstep
  case h_1 hcall =>
    rw [outstanding_of_call hcall rfl]
    rw [hcall] at htouch
    cases choice with
    | drop panicking =>
      simp only [idleStep] at hstep
      split_ifs at hstep with hguard
      obtain ⟨-, rfl, -⟩ := quiet_eq_some_iff.mp hstep
      exact ⟨hguard, Nat.sub_add_cancel hguard⟩
    | clearPoison =>
      obtain ⟨-, rfl, -⟩ := quiet_eq_some_iff.mp hstep
      exact ⟨hclears rfl, outstanding_of_call hcall rfl⟩
    | _ => exact absurd rfl htouch
  case h_4 hcall =>
    split_ifs at hstep
    obtain ⟨-, rfl, -⟩ := quiet_eq_some_iff.mp hstep
    rw [outstanding_of_call hcall rfl]
    rw [Thread.Marked, hcall] at hmarked
    exact ⟨hmarked, rfl⟩
  all_goals
    rename_i hcall
    rw [hcall] at htouch
    exact absurd rfl htouch

/-- No run has a data race on the data. -/
theorem data_raceFree {data : α}
    {x : Pool Tid (Guarded.Shared Shared α) (Guarded.Local Thread α) × Trace Tid Word}
    (h : (tracing (Many.systemOfOne Tid data) (stepEvent (Guarded.access access)
      Guarded.touch)).Reachable x) : RaceFree x.2 := by
  refine Guarded.raceFree Thread.outstanding .state (fun _ ↦ rfl) (fun _ ↦ outstanding_wake)
    (fun _ ↦ rfl) (fun p hrun ↦ (exclusive hrun).alone) (fun th howns ↦ ?_)
    (fun _ _ _ _ _ _ _ hstep ↦ step_passage hstep) h
  exact Nat.add_pos_left (of_decide_eq_true howns) _

/-- No run in which only owners clear and read the flag has a data race on `poisoned`. -/
theorem poisoned_raceFree {x : Pool Tid Shared (Polled.Local Thread) × Trace Tid Word}
    (h : (tracing (systemWithPolls Tid) (stepEvent (Polled.access access)
      (Polled.touch poisonedTouch))).ReachableWhen
        (fun x label ↦ Polled.ByOwners Many.guards ClearsOwn x.1 label) x) : RaceFree x.2 := by
  refine Polled.raceFree_of_exclusion Thread.outstanding .state (fun _ ↦ rfl)
    (fun _ ↦ outstanding_wake) (fun _ ↦ rfl) (fun p hrun ↦ (exclusive hrun).alone)
    (fun th howns ↦ ?_) ?_ h
  · exact Nat.add_pos_left (of_decide_eq_true howns) _
  · intro p t choice moved after signal hrun hclears hstep
    exact (step_passage hstep).of_none fun htouch ↦
      inside_of_poisonedTouch (exclusive hrun) hclears hstep htouch

/-- Neither cell has a data race: the data in no run, and `poisoned` in no run in which
`clear_poison` and `is_poisoned` are called by owners only. -/
theorem futex_cells_raceFree (Tid : Type) [DecidableEq Tid] [Fintype Tid] (data : α) :
    (∀ x, (tracing (Many.systemOfOne Tid data) (stepEvent (Guarded.access access)
        Guarded.touch)).Reachable x → RaceFree x.2) ∧
      ∀ x, (tracing (systemWithPolls Tid) (stepEvent (Polled.access access)
          (Polled.touch poisonedTouch))).ReachableWhen
        (fun x label ↦ Polled.ByOwners Many.guards ClearsOwn x.1 label) x → RaceFree x.2 :=
  ⟨fun _ ↦ data_raceFree, fun _ ↦ poisoned_raceFree⟩

/-- `futex_cells_raceFree` on runs of two threads: thread 1 acquires in the slow loop after the swap
of thread 0, and both add to the data; thread 0 drops its guard in a panic, whereupon thread 1
acquires, calls `is_poisoned` and clears the flag. -/
theorem futex_cells_raceFree_two_threads :
    (∃ x : Pool (Fin 2) (Guarded.Shared Shared ℕ) (Guarded.Local Thread ℕ) × Trace (Fin 2) Word,
        x.1.shared.data = 12 ∧ RaceFree x.2) ∧
      ∃ x : Pool (Fin 2) Shared (Polled.Local Thread) × Trace (Fin 2) Word,
        (x.1.shared.poisoned = false ∧ (x.1.threads 1).answer = some true) ∧ RaceFree x.2 := by
  obtain ⟨hdata, hpoisoned⟩ := futex_cells_raceFree (Fin 2) 5
  obtain ⟨x, hrun, hx⟩ := System.exists_reachableWhen_of_exec
    (M := tracing (Many.systemOfOne (Fin 2) 5)
      (stepEvent (Guarded.access access) Guarded.touch)) (fun _ _ ↦ True)
    (P := fun x ↦ x.1.shared.data = 12)
    ([⟨0, .lock (.call .lock), none⟩] ++ List.replicate 3 ⟨0, .lock .go, none⟩ ++
      [⟨0, .load, none⟩, ⟨0, .store (· + 3), none⟩] ++
      [⟨1, .lock (.call .lock), none⟩] ++ List.replicate 105 ⟨1, .lock .go, none⟩ ++
      [⟨0, .lock (.drop false), none⟩] ++ List.replicate 2 ⟨0, .lock .go, none⟩ ++
      List.replicate 2 ⟨1, .lock .go, none⟩ ++
      [⟨1, .load, none⟩, ⟨1, .store (· + 4), none⟩]) (by decide +kernel)
  obtain ⟨y, hrun', hy⟩ := System.exists_reachableWhen_of_exec
    (M := tracing (systemWithPolls (Fin 2)) (stepEvent (Polled.access access)
      (Polled.touch poisonedTouch))) (fun x label ↦ Polled.ByOwners Many.guards ClearsOwn x.1 label)
    (P := fun y ↦ y.1.shared.poisoned = false ∧ (y.1.threads 1).answer = some true)
    ([⟨0, .lock (.call .lock), none⟩] ++ List.replicate 3 ⟨0, .lock .go, none⟩ ++
      [⟨0, .lock (.drop true), none⟩] ++ List.replicate 2 ⟨0, .lock .go, none⟩ ++
      [⟨1, .lock (.call .lock), none⟩] ++ List.replicate 3 ⟨1, .lock .go, none⟩ ++
      [⟨1, .isPoisoned, none⟩, ⟨1, .lock .clearPoison, none⟩]) (by decide)
  exact ⟨⟨x, hx, hdata x hrun⟩, y, hy, hpoisoned y hrun'⟩

/-- A call of `is_poisoned` by a thread without a guard races with the drop of a guard in a
panic. -/
theorem isPoisoned_races :
    ∃ x : Pool (Fin 2) Shared (Polled.Local Thread) × Trace (Fin 2) Word,
      (tracing (systemWithPolls (Fin 2)) (stepEvent (Polled.access access)
        (Polled.touch poisonedTouch))).Reachable x ∧ ¬ RaceFree x.2 := by
  obtain ⟨x, hrun, htrace⟩ := System.exists_reachableWhen_of_exec
    (M := tracing (systemWithPolls (Fin 2)) (stepEvent (Polled.access access)
      (Polled.touch poisonedTouch))) (fun _ _ ↦ True)
    (P := fun x ↦ x.2 = [⟨0, .none, .none⟩, ⟨0, .none, .none⟩, ⟨0, .rmw .state true false, .none⟩,
      ⟨0, .none, .read⟩, ⟨0, .none, .write⟩, ⟨1, .none, .read⟩])
    ([⟨0, .lock (.call .lock), none⟩] ++ List.replicate 3 ⟨0, .lock .go, none⟩ ++
      [⟨0, .lock (.drop true), none⟩, ⟨1, .isPoisoned, none⟩]) (by decide)
  refine ⟨x, hrun, fun hfree ↦ ?_⟩
  rw [htrace] at hfree
  have hpath := hfree 4 5 _ _ (by decide) rfl rfl (by decide) ⟨by decide, by decide, .inl rfl⟩
  exact not_happensBefore_of_first rfl (by decide) (fun _ ↦ id) hpath

end Runs

end SyncPrimitives.MutexV2
